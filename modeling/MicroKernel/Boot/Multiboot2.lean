import MicroKernel.Boot.Multiboot1

set_option autoImplicit false

/-! # The tags of a Multiboot2 loader (`arch/x86/boot/multiboot_parser.c`)

The tags of a Multiboot2 information structure start at multiples of eight: a tag whose size is not
such a multiple is followed by some padding. `compute_total_memory` takes the size itself for the
distance to the next tag. It comes to the tags just when there is no padding
(`totalsExactly_iff`).
-/

namespace MicroKernel.Boot

open MicroKernel.Lib Bytes

/-! ## The code -/

/-- The loop of `compute_total_memory` over the entries of a memory-map tag. -/
def countEntries (mem : Bytes) (mmapTag total : Nat) : Option Nat :=
  (cursorLoop (fun entry => decide (entry < u32 (mmapTag + load32 mem (mmapTag + 4))))
    (fun entry total =>
      some (if load32 mem (entry + 16) = 1 then (total + load64 mem (entry + 8)) % 2 ^ 64 else total))
    (fun entry => u32 (entry + load32 mem (mmapTag + 8))) steps (u32 (mmapTag + 16)) total).map
      Prod.fst

/-- `compute_total_memory`: the total, and the places where it has looked for a tag. -/
def computeTotalMemory (mem : Bytes) (mbInfo : Nat) : Option (Nat × List Nat) :=
  cursorLoop (fun tag => decide (load32 mem tag ≠ 0))
    (fun tag total => if load32 mem tag = 6 then countEntries mem tag total else some total)
    (fun tag => u32 (tag + load32 mem (tag + 4))) steps (u32 (mbInfo + 8)) 0

/-! ## Information structures -/

/-- `multiboot2_mmap_entry_t`. -/
structure Region where
  length : Nat
  type : Nat

/-- The bytes that a region adds to the memory in use. -/
def Region.usable (x : Region) : Nat := if x.type = 1 then x.length else 0

/-- The tags in front of the end tag. -/
inductive Tag where
  | mmap (entrySize : Nat) (regions : List Region) (h : 24 ≤ entrySize)
  | other (type size : Nat) (htype : type ≠ 0 ∧ type ≠ 6) (hsize : 8 ≤ size)

namespace Tag

def type : Tag → Nat
  | mmap _ _ _ => 6
  | other type _ _ _ => type

def size : Tag → Nat
  | mmap entrySize regions _ => 16 + regions.length * entrySize
  | other _ size _ _ => size

/-- The bytes of memory in use, after the tag. -/
def usable : Tag → Nat
  | mmap _ regions _ => (regions.map Region.usable).sum
  | other _ _ _ _ => 0

/-- Where the specification puts the tag behind the one at `p`. -/
def following (p : Nat) (t : Tag) : Nat := (p + t.size + 7) / 8 * 8

/-- The tag is at `p`. -/
def At (mem : Bytes) (p : Nat) (t : Tag) : Prop :=
  load32 mem p = t.type ∧ load32 mem (p + 4) = t.size ∧
    match t with
    | mmap entrySize regions _ => load32 mem (p + 8) = entrySize ∧
        ∀ q x, (q, x) ∈ places (fun q _ => q + entrySize) (p + 16) regions →
          load64 mem (q + 8) = x.length ∧ load32 mem (q + 16) = x.type
    | other _ _ _ _ => True

theorem eight_le_size (t : Tag) : 8 ≤ t.size := by
  cases t with
  | mmap entrySize regions h =>
      change 8 ≤ 16 + regions.length * entrySize
      omega
  | other type size htype hsize => exact hsize

theorem type_ne_zero (t : Tag) : t.type ≠ 0 := by
  cases t with
  | mmap entrySize regions h => exact (by decide : (6 : Nat) ≠ 0)
  | other type size htype hsize => exact htype.1

theorem add_size_le_following (p : Nat) (t : Tag) : p + t.size ≤ following p t := by
  unfold following
  omega

theorem lt_following (p : Nat) (t : Tag) : p < following p t := by
  have h1 := t.eight_le_size
  have h2 := add_size_le_following p t
  omega

theorem dvd_following (p : Nat) (t : Tag) : 8 ∣ following p t := Nat.dvd_mul_left 8 _

/-- There is no padding behind a tag whose size is a multiple of eight. -/
theorem following_eq_iff {p : Nat} (hp : 8 ∣ p) (t : Tag) :
    following p t = p + t.size ↔ 8 ∣ t.size := by
  unfold following
  omega

end Tag

/-- The loader has put the tags into the memory, and an end tag behind them. -/
structure HasTags (mem : Bytes) (mbInfo : Nat) (tags : List Tag) : Prop where
  aligned : 8 ∣ mbInfo
  laid : ∀ p t, (p, t) ∈ places Tag.following (mbInfo + 8) tags → t.At mem p
  ended : load32 mem (placesEnd Tag.following (mbInfo + 8) tags) = 0
  below : placesEnd Tag.following (mbInfo + 8) tags + 8 < 2 ^ 32

/-- The bytes of memory in use, after the tags. -/
def usableTotal (tags : List Tag) : Nat := (tags.map Tag.usable).sum

/-- `compute_total_memory` returns the memory in use, and it has come to the tags and to nothing
else. -/
def TotalsExactly (mem : Bytes) (mbInfo : Nat) (tags : List Tag) : Prop :=
  computeTotalMemory mem mbInfo = some (usableTotal tags, visits Tag.following (mbInfo + 8) tags)

/-! ## Adding up -/

/-- A region is counted if it is in use. -/
def addRegion (total : Nat) (x : Region) : Nat :=
  if x.type = 1 then (total + x.length) % 2 ^ 64 else total

/-- The regions of a memory-map tag are counted. -/
def Tag.count (total : Nat) : Tag → Nat
  | mmap _ regions _ => regions.foldl addRegion total
  | other _ _ _ _ => total

theorem addRegion_eq (x : Region) {total : Nat} (h : total < 2 ^ 64) :
    addRegion total x = (total + x.usable) % 2 ^ 64 := by
  unfold addRegion Region.usable
  split
  · rfl
  · exact (Nat.mod_eq_of_lt h).symm

theorem count_eq (t : Tag) {total : Nat} (h : total < 2 ^ 64) :
    t.count total = (total + t.usable) % 2 ^ 64 := by
  cases t with
  | mmap entrySize regions hsize =>
      exact foldl_add_mod (by decide) id Region.usable (fun _ x h => addRegion_eq x h) regions h
  | other type size htype hsize => exact (Nat.mod_eq_of_lt h).symm

theorem foldl_count (tags : List Tag) {total : Nat} (h : total < 2 ^ 64) :
    tags.foldl Tag.count total = (total + usableTotal tags) % 2 ^ 64 :=
  foldl_add_mod (by decide) id Tag.usable (fun _ t h => count_eq t h) tags h

/-! ## Walking -/

section walk

variable {mem : Bytes} {mbInfo : Nat} {tags : List Tag}

/-- **The entries of a memory-map tag** are counted, and nothing behind them. -/
theorem run_countEntries {entrySize : Nat} {regions : List Region} {hsize : 24 ≤ entrySize} {p : Nat}
    (hp : (Tag.mmap entrySize regions hsize).At mem p)
    (hbelow : p + (16 + regions.length * entrySize) < 2 ^ 32) (total : Nat) :
    countEntries mem p total = some (regions.foldl addRegion total) := by
  obtain ⟨-, hlen, hentry, hregions⟩ := hp
  change load32 mem (p + 4) = 16 + regions.length * entrySize at hlen
  have hstop : placesEnd (fun q (_ : Region) => q + entrySize) (p + 16) regions
      = p + (16 + regions.length * entrySize) := by
    rw [placesEnd_add]
    omega
  have hafter : ∀ q (_ : Region), q < q + entrySize := fun q _ => by omega
  have hmany := length_le_placesEnd hafter (p + 16) regions
  rw [hstop] at hmany
  have hturn : ∀ q x, (q, x) ∈ places (fun q (_ : Region) => q + entrySize) (p + 16) regions →
      decide (q < p + (16 + regions.length * entrySize)) = true ∧
        u32 (q + entrySize) = q + entrySize ∧
        ∀ total, some (if load32 mem (q + 16) = 1 then (total + load64 mem (q + 8)) % 2 ^ 64
          else total) = some (addRegion total x) := by
    intro q x hx
    obtain ⟨hlength, htype⟩ := hregions q x hx
    have hle := (places_bounds hafter hx).2
    rw [hstop] at hle
    refine ⟨decide_eq_true (by omega), u32_eq_self (by omega), fun total => ?_⟩
    rw [hlength, htype]
    rfl
  unfold countEntries
  rw [hlen, hentry, u32_eq_self hbelow, u32_eq_self (by omega)]
  exact congrArg (Option.map Prod.fst) (cursorLoop_places hturn (by rw [hstop]; simp)
    (by unfold steps; omega))

/-- The tags start at multiples of eight. -/
theorem HasTags.dvd_place (h : HasTags mem mbInfo tags) {p : Nat} {t : Tag}
    (ht : (p, t) ∈ places Tag.following (mbInfo + 8) tags) : 8 ∣ p :=
  (places_induction (Nat.dvd_add h.aligned (Nat.dvd_refl 8))
    fun q x _ => Tag.dvd_following q x).1 p t ht

/-- The tags lie below the end tag. -/
theorem HasTags.add_size_lt (h : HasTags mem mbInfo tags) {p : Nat} {t : Tag}
    (ht : (p, t) ∈ places Tag.following (mbInfo + 8) tags) : p + t.size < 2 ^ 32 := by
  have hsize := Tag.add_size_le_following p t
  have hend := (places_bounds Tag.lt_following ht).2
  have hbelow := h.below
  omega

/-- What the code takes for the next tag is the next one if there is no padding. -/
theorem HasTags.next_eq (h : HasTags mem mbInfo tags) {p : Nat} {t : Tag}
    (ht : (p, t) ∈ places Tag.following (mbInfo + 8) tags) :
    u32 (p + load32 mem (p + 4)) = p + t.size := by
  rw [(h.laid p t ht).2.1]
  exact u32_eq_self (h.add_size_lt ht)

/-- **The walk** over tags without padding comes to all of them, and counts their regions. -/
theorem run_computeTotalMemory (h : HasTags mem mbInfo tags) (hsizes : ∀ t, t ∈ tags → 8 ∣ t.size) :
    computeTotalMemory mem mbInfo
      = some (tags.foldl Tag.count 0, visits Tag.following (mbInfo + 8) tags) := by
  have hturn : ∀ p t, (p, t) ∈ places Tag.following (mbInfo + 8) tags →
      decide (load32 mem p ≠ 0) = true ∧
        u32 (p + load32 mem (p + 4)) = Tag.following p t ∧
        ∀ total, (if load32 mem p = 6 then countEntries mem p total else some total)
          = some (t.count total) := by
    intro p t ht
    have hat := h.laid p t ht
    refine ⟨decide_eq_true (by rw [hat.1]; exact t.type_ne_zero), ?_, fun total => ?_⟩
    · rw [h.next_eq ht]
      exact ((Tag.following_eq_iff (h.dvd_place ht) t).mpr (hsizes t (mem_of_mem_places ht))).symm
    · rw [hat.1]
      cases t with
      | mmap entrySize regions hsize =>
          exact (if_pos rfl).trans (run_countEntries hat (h.add_size_lt ht) total)
      | other type size htype hsize => exact if_neg htype.2
  have hmany := length_le_placesEnd Tag.lt_following (mbInfo + 8) tags
  have hbelow := h.below
  have hfirst : u32 (mbInfo + 8) = mbInfo + 8 := u32_eq_self (by omega)
  unfold computeTotalMemory
  rw [hfirst]
  exact cursorLoop_places hturn (by rw [h.ended]; decide) (by unfold steps; omega)

/-- If the walk comes to the tags and to nothing else, there is no padding. -/
theorem TotalsExactly.sizes (htotals : TotalsExactly mem mbInfo tags) (h : HasTags mem mbInfo tags) :
    ∀ t, t ∈ tags → 8 ∣ t.size := by
  intro t ht
  obtain ⟨p, hp⟩ : ∃ p, (p, t) ∈ places Tag.following (mbInfo + 8) tags := exists_mem_places ht _
  have hmany := length_le_placesEnd Tag.lt_following (mbInfo + 8) tags
  have hbelow := h.below
  have hfirst : u32 (mbInfo + 8) = mbInfo + 8 := u32_eq_self (by omega)
  unfold TotalsExactly computeTotalMemory at htotals
  rw [hfirst] at htotals
  have hnext := next_eq_of_visited htotals hp
  exact (Tag.following_eq_iff (h.dvd_place hp) t).mp (hnext.trans (h.next_eq hp))

/-- **The Multiboot2 walk** is right just when the sizes of the tags are multiples of eight, and the
sum fits into 64 bits. -/
theorem totalsExactly_iff (h : HasTags mem mbInfo tags) :
    TotalsExactly mem mbInfo tags ↔
      (∀ t, t ∈ tags → 8 ∣ t.size) ∧ usableTotal tags < 2 ^ 64 := by
  have hsum : tags.foldl Tag.count 0 = usableTotal tags % 2 ^ 64 := by
    rw [foldl_count tags (by decide), Nat.zero_add]
  constructor
  · intro htotals
    have hsizes := htotals.sizes h
    refine ⟨hsizes, ?_⟩
    unfold TotalsExactly at htotals
    rw [run_computeTotalMemory h hsizes, hsum, Option.some.injEq, Prod.mk.injEq] at htotals
    omega
  · rintro ⟨hsizes, hlt⟩
    unfold TotalsExactly
    rw [run_computeTotalMemory h hsizes, hsum, Nat.mod_eq_of_lt hlt]

end walk

/-! ### A command line in front of a memory map -/

/-- A command line that takes `size` bytes with its header, and one region of 512 MB. -/
def commandLineTags (size : Nat) (h : 8 ≤ size) : List Tag :=
  [.other 1 size (by decide) h, .mmap 24 [⟨0x20000000, 1⟩] (by decide)]

/-- These tags in the memory, for a command line of up to 16 bytes. -/
def commandLineMemory (size : Nat) : Bytes :=
  store32 (store32 (store32 (store32 (store32 (store32 (store32 (fun _ => 0) 0x1008 1) 0x100C size)
    0x1018 6) 0x101C 40) 0x1020 24) 0x1030 0x20000000) 0x1038 1

/-- What is read of it. -/
theorem load32_commandLineMemory {size : Nat} (h16 : size ≤ 16) :
    load32 (commandLineMemory size) 0x1008 = 1 ∧ load32 (commandLineMemory size) 0x100C = size ∧
      load32 (commandLineMemory size) 0x1018 = 6 ∧ load32 (commandLineMemory size) 0x101C = 40 ∧
      load32 (commandLineMemory size) 0x1020 = 24 ∧
      load64 (commandLineMemory size) 0x1030 = 0x20000000 ∧
      load32 (commandLineMemory size) 0x1038 = 1 ∧ load32 (commandLineMemory size) 0x1040 = 0 := by
  have hzero : ∀ a, load32 (fun _ => 0) a = 0 := fun a => rfl
  have hsize : size % 2 ^ 32 = size := Nat.mod_eq_of_lt (by omega)
  unfold commandLineMemory
  simp [load64, load32_store32_ne, load32_store32_same, hzero]
  omega

theorem commandLine_hasTags {size : Nat} (h8 : 8 < size) (h16 : size ≤ 16) :
    HasTags (commandLineMemory size) 0x1000 (commandLineTags size h8.le) := by
  obtain ⟨htype, hsize, hmap, hlen, hentry, hlength, husable, hend⟩ := load32_commandLineMemory h16
  have hnext : Tag.following 0x1008 (.other 1 size (by decide) h8.le) = 0x1018 := by
    change (0x1008 + size + 7) / 8 * 8 = 0x1018
    omega
  have hstop : placesEnd Tag.following 0x1008 (commandLineTags size h8.le) = 0x1040 := by
    unfold commandLineTags
    rw [placesEnd, hnext]
    rfl
  refine ⟨by decide, fun p t ht => ?_, by rw [hstop]; exact hend, by rw [hstop]; decide⟩
  unfold commandLineTags at ht
  rw [places, hnext] at ht
  rcases List.mem_cons.mp ht with heq | ht
  · cases heq
    exact ⟨htype, hsize, trivial⟩
  · cases List.mem_singleton.mp ht
    refine ⟨hmap, hlen, hentry, fun q x hx => ?_⟩
    cases List.mem_singleton.mp hx
    exact ⟨hlength, husable⟩

/-- A command line that fills its 16 bytes. -/
theorem totalsExactly_iff_noPadding :
    TotalsExactly (commandLineMemory 16) 0x1000 (commandLineTags 16 (by decide)) :=
  (totalsExactly_iff (commandLine_hasTags (by decide) (by decide))).mpr
    ⟨by decide, by decide⟩

/-- A command line of four characters and a terminator is followed by three bytes of padding. -/
theorem not_totalsExactly :
    ¬ TotalsExactly (commandLineMemory 13) 0x1000 (commandLineTags 13 (by decide)) := by
  intro htotals
  have hsizes := htotals.sizes (commandLine_hasTags (by decide) (by decide))
  exact absurd (hsizes _ List.mem_cons_self) (by decide)

end MicroKernel.Boot
