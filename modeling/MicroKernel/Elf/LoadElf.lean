import MicroKernel.Libc.Memmove

set_option autoImplicit false

/-! # Loading an ELF image (`kernel/init/prg.c`)

`load_elf` walks the program headers of an image that lies in memory and copies every segment to the
address that its header gives. One step lemma says what a segment leaves in memory (`loadedByte`);
the run keeps that everything else is as it was, which is what the next header is read from.

`memcpy` takes its count in 16 bits, so that only `p_filesz % 65536` bytes of a segment are copied,
and neither `memcpy` nor `memset` writes through a null pointer, which the address of a segment may
be. `loadsElf_iff` says when the segments are in memory all the same.
-/

namespace MicroKernel.Elf

open MicroKernel.Lib MicroKernel.Libc Bytes

/-! ## Headers -/

/-- `PT_LOAD`. -/
def ptLoad : Nat := 1

/-- `"\x7F""ELF"`. -/
def magic : List UInt8 := [0x7F, 0x45, 0x4C, 0x46]

/-- `ehdr->e_phoff`. -/
def ePhoff (m : Bytes) (ehdr : Nat) : Nat := load32 m (ehdr + 28)

/-- `ehdr->e_phnum`. -/
def ePhnum (m : Bytes) (ehdr : Nat) : Nat := load16 m (ehdr + 44)

/-- `p_type` of the program header at `phdr`. -/
def pType (m : Bytes) (phdr : Nat) : Nat := load32 m phdr

/-- `p_offset`. -/
def pOffset (m : Bytes) (phdr : Nat) : Nat := load32 m (phdr + 4)

/-- `p_vaddr`. -/
def pVaddr (m : Bytes) (phdr : Nat) : Nat := load32 m (phdr + 8)

/-- `p_filesz`. -/
def pFilesz (m : Bytes) (phdr : Nat) : Nat := load32 m (phdr + 16)

/-- `p_memsz`. -/
def pMemsz (m : Bytes) (phdr : Nat) : Nat := load32 m (phdr + 20)

/-! ## `load_elf` -/

/-- The body of the loop for the program header at `phdr`. -/
def loadSegment (elf phdr : Nat) (m : Bytes) : Bytes :=
  if pType m phdr = ptLoad then
    let segmentAddress := pVaddr m phdr
    let m' := memcpyWithin m segmentAddress (u32 (elf + pOffset m phdr)) (pFilesz m phdr)
    if pFilesz m' phdr < pMemsz m' phdr then
      memset m' (u32 (segmentAddress + pFilesz m' phdr)) 0 (pMemsz m' phdr - pFilesz m' phdr)
    else m'
  else m

/-- The loop over the program headers from the `i`-th on. The number of headers is read again in
every turn. -/
def loadLoop (elf phdr i : Nat) (m : Bytes) : Bytes :=
  if i < ePhnum m elf then loadLoop elf phdr (i + 1) (loadSegment elf (u32 (phdr + 32 * i)) m)
  else m
termination_by 2 ^ 16 - i
decreasing_by
  have hlt : ePhnum m elf < 2 ^ 16 := load16_lt m _
  omega

/-- `load_elf(elf_data)`: the return value and the memory. What it prints is left out, the dump of
512 bytes at the entry point included. -/
def loadElf (m : Bytes) (elf : Nat) : Int × Bytes :=
  if memcmp m elf magic ≠ 0 then (-1, m)
  else (0, loadLoop elf (u32 (elf + ePhoff m elf)) 0 m)

/-! ## Images

Where the program headers lie, which addresses a segment has, and what should be in them. -/

/-- The address of the `i`-th program header of an image. -/
def phdrAt (m : Bytes) (elf i : Nat) : Nat := elf + ePhoff m elf + 32 * i

/-- The `i`-th program header is there and describes a segment to load. -/
def Loads (m : Bytes) (elf i : Nat) : Prop :=
  i < ePhnum m elf ∧ pType m (phdrAt m elf i) = ptLoad

/-- The address `x` is in the segment of the `i`-th program header. -/
def InSegment (m : Bytes) (elf i x : Nat) : Prop :=
  pVaddr m (phdrAt m elf i) ≤ x ∧ x < pVaddr m (phdrAt m elf i) + pMemsz m (phdrAt m elf i)

/-- An ELF image of `size` bytes at `elf`: its headers and the data of its segments lie inside the
file, and its segments lie apart from the file and from each other. -/
structure Image (m : Bytes) (elf size : Nat) : Prop where
  inMemory : elf + size ≤ 2 ^ 32
  header : 52 ≤ size
  magic : first (fun i => m (elf + i)) 4 = magic
  headers : ePhoff m elf + 32 * ePhnum m elf ≤ size
  data : ∀ i, Loads m elf i → pOffset m (phdrAt m elf i) + pFilesz m (phdrAt m elf i) ≤ size
  sizes : ∀ i, Loads m elf i → pFilesz m (phdrAt m elf i) ≤ pMemsz m (phdrAt m elf i)
  space : ∀ i, Loads m elf i → pVaddr m (phdrAt m elf i) + pMemsz m (phdrAt m elf i) ≤ 2 ^ 32
  disjoint : ∀ i j x, Loads m elf i → Loads m elf j → InSegment m elf i x → InSegment m elf j x →
    i = j
  apart : ∀ i x, Loads m elf i → InSegment m elf i x → x < elf ∨ elf + size ≤ x

/-- What should be at the address `x` of the segment with the program header `phdr`: the bytes of
the file, then zeros. -/
def imageByte (m : Bytes) (elf phdr x : Nat) : UInt8 :=
  if x < pVaddr m phdr + pFilesz m phdr then m (elf + pOffset m phdr + (x - pVaddr m phdr)) else 0

/-- `load_elf` returns 0 and has put every segment in its place, and has changed nothing else. -/
structure LoadsElf (m : Bytes) (elf : Nat) : Prop where
  returns : (loadElf m elf).1 = 0
  segments : ∀ i x, Loads m elf i → InSegment m elf i x →
    (loadElf m elf).2 x = imageByte m elf (phdrAt m elf i) x
  outside : ∀ x, (∀ i, Loads m elf i → ¬ InSegment m elf i x) → (loadElf m elf).2 x = m x

/-- The part of the segment with the program header `phdr` that is not written is in memory already:
behind the `p_filesz % 65536` bytes that `memcpy` copies, all of the file's bytes for a segment at
address 0, and the zeros of a segment at address 0 that has none of them. -/
structure Present (m : Bytes) (elf phdr : Nat) : Prop where
  data : ∀ k, k < pFilesz m phdr → (pVaddr m phdr = 0 ∨ pFilesz m phdr % 2 ^ 16 ≤ k) →
    m (pVaddr m phdr + k) = m (elf + pOffset m phdr + k)
  zeros : pVaddr m phdr = 0 → pFilesz m phdr = 0 → ∀ x, x < pMemsz m phdr → m x = 0

/-! ## One segment -/

/-- What is at the address `x` of a segment after its turn. -/
def loadedByte (m : Bytes) (elf phdr x : Nat) : UInt8 :=
  if x < pVaddr m phdr + pFilesz m phdr then
    if pVaddr m phdr ≠ 0 ∧ x < pVaddr m phdr + pFilesz m phdr % 2 ^ 16 then
      m (elf + pOffset m phdr + (x - pVaddr m phdr))
    else m x
  else if pVaddr m phdr + pFilesz m phdr ≠ 0 then 0
  else m x

/-- The fields that the loop reads, in a memory that agrees on the program header. -/
theorem fields_congr {m m' : Bytes} {phdr : Nat} (h : ∀ x, phdr ≤ x → x < phdr + 32 → m' x = m x) :
    pType m' phdr = pType m phdr ∧ pOffset m' phdr = pOffset m phdr
      ∧ pVaddr m' phdr = pVaddr m phdr ∧ pFilesz m' phdr = pFilesz m phdr
      ∧ pMemsz m' phdr = pMemsz m phdr := by
  have hword : ∀ k, k + 4 ≤ 32 → load32 m' (phdr + k) = load32 m (phdr + k) := fun k hk =>
    load32_congr fun i hi => h _ (by omega) (by omega)
  exact ⟨hword 0 (by omega), hword 4 (by omega), hword 8 (by omega), hword 16 (by omega),
    hword 20 (by omega)⟩

section segment

variable {m : Bytes} {elf phdr : Nat}

theorem loadSegment_skip (h : pType m phdr ≠ ptLoad) : loadSegment elf phdr m = m := by
  unfold loadSegment
  rw [if_neg h]

/-- What `memcpy` leaves at each address, between ranges that lie apart. -/
theorem copySegment_apply {dest src n : Nat} (hsrc : src ≠ 0) (hd : dest + n ≤ 2 ^ 32)
    (hs : src + n ≤ 2 ^ 32) (hlap : 0 < n → dest + n ≤ src ∨ src + n ≤ dest) (x : Nat) :
    memcpyWithin m dest (u32 src) n x
      = if dest ≠ 0 ∧ dest ≤ x ∧ x < dest + n % 2 ^ 16 then m (src + (x - dest)) else m x := by
  have hmod : n % 2 ^ 16 ≤ n := Nat.mod_le n _
  by_cases hdest : dest = 0
  · rw [memcpyWithin_null m (Or.inl hdest), if_neg fun h => h.1 hdest]
  by_cases hx : dest ≤ x ∧ x < dest + n % 2 ^ 16
  · -- there is a byte to copy, so the source does not end where the addresses do
    have hsrc' : u32 src = src := u32_eq_self (by omega)
    have hj : x - dest < n % 2 ^ 16 := by omega
    have hcopy := memcpyWithin_copied m (show dest + n % 2 ^ 16 ≤ 2 ^ 32 by omega) (by omega)
      (show dest < src ∨ src + n % 2 ^ 16 ≤ dest by omega) hdest hsrc hj
    rw [Nat.add_sub_cancel' hx.1] at hcopy
    rw [hsrc', hcopy, if_pos ⟨hdest, hx⟩]
  · rw [memcpyWithin_outside m (by omega) (by omega), if_neg fun h => hx h.2]

/-- **A turn of the loop**, for a segment that lies apart from its header and from its data. -/
theorem loadSegment_apply (helf : elf ≠ 0) (hload : pType m phdr = ptLoad)
    (hsize : pFilesz m phdr ≤ pMemsz m phdr) (hspace : pVaddr m phdr + pMemsz m phdr ≤ 2 ^ 32)
    (hdata : elf + pOffset m phdr + pFilesz m phdr ≤ 2 ^ 32)
    (hheader : ∀ x, phdr ≤ x → x < phdr + 32 →
      x < pVaddr m phdr ∨ pVaddr m phdr + pMemsz m phdr ≤ x)
    (hsource : ∀ x, elf + pOffset m phdr ≤ x → x < elf + pOffset m phdr + pFilesz m phdr →
      x < pVaddr m phdr ∨ pVaddr m phdr + pMemsz m phdr ≤ x) (x : Nat) :
    loadSegment elf phdr m x
      = if pVaddr m phdr ≤ x ∧ x < pVaddr m phdr + pMemsz m phdr then loadedByte m elf phdr x
        else m x := by
  unfold loadSegment loadedByte
  rw [if_pos hload]
  generalize hv : pVaddr m phdr = v at *
  generalize ho : pOffset m phdr = o at *
  generalize hf : pFilesz m phdr = f at *
  generalize hz : pMemsz m phdr = z at *
  have hmod : f % 2 ^ 16 ≤ f := Nat.mod_le f _
  have hlap : 0 < f → v + f ≤ elf + o ∨ elf + o + f ≤ v := by
    intro hpos
    have hfirst := hsource (elf + o) (Nat.le_refl _) (by omega)
    have hinside := hsource v
    omega
  have hcopy := copySegment_apply (m := m) (n := f) (show elf + o ≠ 0 by omega)
    (show v + f ≤ 2 ^ 32 by omega) (by omega) hlap
  -- the header is read again from the memory after the copy
  have hagree : ∀ y, phdr ≤ y → y < phdr + 32 → memcpyWithin m v (u32 (elf + o)) f y = m y := by
    intro y h1 h2
    have hout := hheader y h1 h2
    rw [hcopy, if_neg (by omega)]
  obtain ⟨-, -, -, hf', hz'⟩ := fields_congr hagree
  simp only [hf', hz', hf, hz]
  by_cases hlt : f < z
  · have hend : u32 (v + f) = v + f := u32_eq_self (by omega)
    rw [if_pos hlt, hend, memset_apply _ 0 (by omega), hcopy]
    split_ifs <;> first | rfl | omega
  · rw [if_neg hlt, hcopy]
    split_ifs <;> first | rfl | omega

end segment

/-! ## The run over the program headers -/

/-- After the turns of the first `n` program headers: their segments are loaded, and the rest of the
memory is as it was. -/
structure LoadedUpTo (m : Bytes) (elf n : Nat) (m' : Bytes) : Prop where
  segments : ∀ i x, i < n → Loads m elf i → InSegment m elf i x →
    m' x = loadedByte m elf (phdrAt m elf i) x
  outside : ∀ x, (∀ i, i < n → Loads m elf i → ¬ InSegment m elf i x) → m' x = m x

section run

variable {m m' : Bytes} {elf size n : Nat}

theorem loadedUpTo_zero (m : Bytes) (elf : Nat) : LoadedUpTo m elf 0 m :=
  ⟨fun _ _ h => absurd h (by omega), fun _ _ => rfl⟩

/-- The file is left alone, and so is what the next header is read from. -/
theorem LoadedUpTo.file (h : LoadedUpTo m elf n m') (himage : Image m elf size) {x : Nat}
    (h1 : elf ≤ x) (h2 : x < elf + size) : m' x = m x := by
  refine h.outside x fun i _ hload hin => ?_
  have hapart := himage.apart i x hload hin
  omega

theorem LoadedUpTo.header (h : LoadedUpTo m elf n m') (himage : Image m elf size) {i : Nat}
    (hi : i < ePhnum m elf) {x : Nat} (h1 : phdrAt m elf i ≤ x) (h2 : x < phdrAt m elf i + 32) :
    m' x = m x := by
  have hheaders := himage.headers
  unfold phdrAt at h1 h2
  exact h.file himage (by omega) (by omega)

/-- A segment whose turn comes is loaded as it would have been from the memory at first: nothing of
it and nothing of the file has been written yet. -/
theorem LoadedUpTo.loadedByte_eq (h : LoadedUpTo m elf n m') (himage : Image m elf size)
    (hload : Loads m elf n) {x : Nat} (hin : InSegment m elf n x) :
    loadedByte m' elf (phdrAt m elf n) x = loadedByte m elf (phdrAt m elf n) x := by
  obtain ⟨-, ho, hv, hf, -⟩ := fields_congr fun x => h.header himage hload.1 (x := x)
  have hx : m' x = m x := by
    refine h.outside x fun i hi hload' hin' => ?_
    have heq := himage.disjoint i n x hload' hload hin' hin
    omega
  have hdata := himage.data n hload
  unfold loadedByte
  rw [ho, hv, hf, hx]
  by_cases hlt : x < pVaddr m (phdrAt m elf n) + pFilesz m (phdrAt m elf n)
  · have hle := hin.1
    rw [if_pos hlt, if_pos hlt, h.file himage (by omega) (by omega)]
  · rw [if_neg hlt, if_neg hlt]

/-- The turn of a segment to load: its header and its data lie in the file, which it does not meet. -/
theorem LoadedUpTo.turn (h : LoadedUpTo m elf n m') (himage : Image m elf size) (helf : elf ≠ 0)
    (hload : Loads m elf n) (x : Nat) :
    (InSegment m elf n x →
      loadSegment elf (phdrAt m elf n) m' x = loadedByte m elf (phdrAt m elf n) x)
    ∧ (¬ InSegment m elf n x → loadSegment elf (phdrAt m elf n) m' x = m' x) := by
  obtain ⟨ht, ho, hv, hf, hz⟩ := fields_congr fun x => h.header himage hload.1 (x := x)
  have hapart := fun x => himage.apart n x hload
  have hheaders := himage.headers
  have hdata := himage.data n hload
  have hmemory := himage.inMemory
  have hn := hload.1
  unfold InSegment at hapart
  have hturn := loadSegment_apply helf (ht.trans hload.2)
    (by rw [hf, hz]; exact himage.sizes n hload)
    (by rw [hv, hz]; exact himage.space n hload)
    (by rw [ho, hf]; omega)
    (by
      intro x h1 h2
      have hx := hapart x
      rw [hv, hz]
      unfold phdrAt at h1 h2 hx ⊢
      omega)
    (by
      intro x h1 h2
      have hx := hapart x
      rw [ho] at h1 h2
      rw [hf] at h2
      rw [hv, hz]
      omega) x
  rw [hv, hz] at hturn
  constructor
  · intro hin
    exact (hturn.trans (if_pos hin)).trans (h.loadedByte_eq himage hload hin)
  · intro hout
    exact hturn.trans (if_neg hout)

/-- **A turn of the loop keeps the invariant.** -/
theorem LoadedUpTo.step (h : LoadedUpTo m elf n m') (himage : Image m elf size) (helf : elf ≠ 0)
    (hn : n < ePhnum m elf) :
    LoadedUpTo m elf (n + 1) (loadSegment elf (phdrAt m elf n) m') := by
  by_cases htype : pType m (phdrAt m elf n) = ptLoad
  · have hload : Loads m elf n := ⟨hn, htype⟩
    constructor
    · intro i x hi hload' hin
      rcases Nat.eq_or_lt_of_le (Nat.le_of_lt_succ hi) with rfl | hlt
      · exact (h.turn himage helf hload x).1 hin
      · -- an earlier segment, which this one does not meet
        have hnot : ¬ InSegment m elf n x := fun hin' =>
          absurd (himage.disjoint i n x hload' hload hin hin') (by omega)
        rw [(h.turn himage helf hload x).2 hnot, h.segments i x hlt hload' hin]
    · intro x hx
      rw [(h.turn himage helf hload x).2 (hx n (by omega) hload)]
      exact h.outside x fun i hi => hx i (by omega)
  · obtain ⟨ht, -⟩ := fields_congr fun x => h.header himage hn (x := x)
    rw [loadSegment_skip (by rw [ht]; exact htype)]
    constructor
    · intro i x hi hload' hin
      have hne : i ≠ n := by
        rintro rfl
        exact htype hload'.2
      exact h.segments i x (by omega) hload' hin
    · intro x hx
      exact h.outside x fun i hi => hx i (by omega)

theorem LoadedUpTo.ePhnum_eq (h : LoadedUpTo m elf n m') (himage : Image m elf size) :
    ePhnum m' elf = ePhnum m elf := by
  have hheader := himage.header
  unfold ePhnum load16
  rw [h.file himage (by omega) (by omega), h.file himage (by omega) (by omega)]

/-- The whole loop. -/
theorem LoadedUpTo.loop (h : LoadedUpTo m elf n m') (himage : Image m elf size) (helf : elf ≠ 0)
    (hn : n ≤ ePhnum m elf) :
    LoadedUpTo m elf (ePhnum m elf) (loadLoop elf (u32 (elf + ePhoff m elf)) n m') := by
  induction hk : ePhnum m elf - n generalizing n m' with
  | zero =>
      have heq : n = ePhnum m elf := by omega
      rw [loadLoop, if_neg (by rw [h.ePhnum_eq himage]; omega), ← heq]
      exact h
  | succ k ih =>
      have hlt : n < ePhnum m elf := by omega
      have hheaders := himage.headers
      have hmemory := himage.inMemory
      have hphdr : u32 (u32 (elf + ePhoff m elf) + 32 * n) = phdrAt m elf n := by
        have hbase : u32 (elf + ePhoff m elf) = elf + ePhoff m elf := u32_eq_self (by omega)
        rw [hbase, u32_eq_self (by omega), phdrAt]
      rw [loadLoop, if_pos (by rw [h.ePhnum_eq himage]; exact hlt), hphdr]
      exact ih (h.step himage helf hlt) hlt (by omega)

end run

/-! ## Images of one segment -/

/-- The memory with the image of one segment of `filesz` bytes `0x90` at `0x100000`: two headers,
then the data. -/
def segmentImage (vaddr filesz memsz : Nat) : Bytes :=
  let data : Bytes := fun x => if 0x100054 ≤ x ∧ x < 0x100054 + filesz then 0x90 else 0
  let sized := store32 (store32 data 0x100048 memsz) 0x100044 filesz
  let placed := store32 (store32 sized 0x10003C vaddr) 0x100038 84
  let phdr := store32 placed 0x100034 ptLoad
  store32 (store32 (store32 phdr 0x10002C 1) 0x10001C 52) 0x100000 0x464C457F

section segmentImage

variable {v f z : Nat}

theorem segmentImage_data {k : Nat} (hk : k < f) :
    segmentImage v f z (0x100054 + k) = 0x90 := by
  unfold segmentImage
  simp (disch := omega) only [store32_outside]
  rw [if_pos (by omega)]

theorem segmentImage_before {x : Nat} (hx : x < 0x100000) :
    segmentImage v f z x = 0 := by
  unfold segmentImage
  simp (disch := omega) only [store32_outside]
  rw [if_neg (by omega)]

@[simp] theorem ePhoff_segmentImage : ePhoff (segmentImage v f z) 0x100000 = 52 := by
  unfold ePhoff segmentImage
  simp (disch := omega) only [load32_store32_same, load32_store32_ne]
  rfl

@[simp] theorem ePhnum_segmentImage : ePhnum (segmentImage v f z) 0x100000 = 1 := by
  have hword : load32 (segmentImage v f z) (0x100000 + 44) = 1 := by
    unfold segmentImage
    simp (disch := omega) only [load32_store32_same, load32_store32_ne]
    rfl
  have h0 := (segmentImage v f z (0x100000 + 44)).toNat_lt
  have h1 := (segmentImage v f z (0x100000 + 44 + 1)).toNat_lt
  unfold load32 at hword
  unfold ePhnum load16
  omega

theorem fields_segmentImage :
    pType (segmentImage v f z) 0x100034 = ptLoad
      ∧ pOffset (segmentImage v f z) 0x100034 = 84
      ∧ pVaddr (segmentImage v f z) 0x100034 = v % 2 ^ 32
      ∧ pFilesz (segmentImage v f z) 0x100034 = f % 2 ^ 32
      ∧ pMemsz (segmentImage v f z) 0x100034 = z % 2 ^ 32 := by
  unfold pType pOffset pVaddr pFilesz pMemsz segmentImage
  simp (disch := omega) only [load32_store32_same, load32_store32_ne]
  exact ⟨rfl, rfl, trivial, trivial, trivial⟩

@[simp] theorem phdrAt_segmentImage : phdrAt (segmentImage v f z) 0x100000 0 = 0x100034 := by
  unfold phdrAt
  rw [ePhoff_segmentImage]

theorem loads_segmentImage {i : Nat} : Loads (segmentImage v f z) 0x100000 i ↔ i = 0 := by
  obtain ⟨htype, -⟩ := fields_segmentImage (v := v) (f := f) (z := z)
  unfold Loads phdrAt
  rw [ePhnum_segmentImage, ePhoff_segmentImage]
  constructor
  · intro h
    exact Nat.lt_one_iff.mp h.1
  · rintro rfl
    exact ⟨Nat.zero_lt_one, htype⟩

/-- The segment lies in front of the file. -/
theorem segmentImage_image (hsize : f ≤ z) (hspace : v + z ≤ 0x100000)
    (hmemory : 0x100054 + f ≤ 2 ^ 32) : Image (segmentImage v f z) 0x100000 (84 + f) := by
  obtain ⟨-, ho, hv, hf, hz⟩ := fields_segmentImage (v := v) (f := f) (z := z)
  rw [Nat.mod_eq_of_lt (by omega)] at hv hf hz
  have honly : ∀ i, Loads (segmentImage v f z) 0x100000 i → i = 0 := fun i =>
    loads_segmentImage.mp
  constructor
  case inMemory => omega
  case header => omega
  case magic =>
    have hbyte : ∀ i, i < 4 →
        segmentImage v f z (0x100000 + i) = UInt8.ofNat (0x464C457F / 256 ^ i) :=
      fun i hi => store32_byte _ _ _ hi
    calc first (fun i => segmentImage v f z (0x100000 + i)) 4
        = (List.range 4).map fun i => UInt8.ofNat (0x464C457F / 256 ^ i) :=
          List.map_congr_left fun i hi => hbyte i (List.mem_range.mp hi)
      _ = magic := by decide
  case headers =>
    rw [ePhoff_segmentImage, ePhnum_segmentImage]
    omega
  case data =>
    intro i hi
    rw [honly i hi, phdrAt_segmentImage, ho, hf]
  case sizes =>
    intro i hi
    rw [honly i hi, phdrAt_segmentImage, hf, hz]
    exact hsize
  case space =>
    intro i hi
    rw [honly i hi, phdrAt_segmentImage, hv, hz]
    omega
  case disjoint =>
    intro i j x hi hj _ _
    rw [honly i hi, honly j hj]
  case apart =>
    intro i x hi hin
    unfold InSegment at hin
    rw [honly i hi, phdrAt_segmentImage, hv, hz] at hin
    omega

end segmentImage

/-! ## The image in memory -/

section loaded

variable {m : Bytes} {elf size : Nat}

theorem loadElf_null (m : Bytes) : loadElf m 0 = (-1, m) := by
  unfold loadElf
  rw [memcmp_null]
  rfl

theorem loadElf_image (h : Image m elf size) (helf : elf ≠ 0) :
    (loadElf m elf).1 = 0 ∧ LoadedUpTo m elf (ePhnum m elf) (loadElf m elf).2 := by
  have hmagic : memcmp m elf magic = 0 := by
    have hmemory := h.inMemory
    have hheader := h.header
    have hlength : magic.length = 4 := rfl
    rw [memcmp_eq_zero magic helf (by rw [hlength]; omega)]
    exact h.magic
  unfold loadElf
  rw [if_neg (not_not.mpr hmagic)]
  exact ⟨rfl, (loadedUpTo_zero m elf).loop h helf (Nat.zero_le _)⟩

/-- A segment is loaded as it should be exactly when the part that is not written is there. -/
theorem present_iff {i : Nat} (hsize : pFilesz m (phdrAt m elf i) ≤ pMemsz m (phdrAt m elf i)) :
    (∀ x, InSegment m elf i x →
      loadedByte m elf (phdrAt m elf i) x = imageByte m elf (phdrAt m elf i) x)
      ↔ Present m elf (phdrAt m elf i) := by
  unfold InSegment loadedByte imageByte
  constructor
  · intro h
    constructor
    · intro k hk hrest
      have hbyte := h (pVaddr m (phdrAt m elf i) + k) ⟨by omega, by omega⟩
      rwa [if_pos (by omega), if_neg (by omega), if_pos (by omega), Nat.add_sub_cancel_left] at hbyte
    · intro hv hf x hx
      have hbyte := h x ⟨by omega, by omega⟩
      rwa [if_neg (by omega), if_neg (by omega), if_neg (by omega)] at hbyte
  · intro h x hx
    by_cases hlt : x < pVaddr m (phdrAt m elf i) + pFilesz m (phdrAt m elf i)
    · rw [if_pos hlt, if_pos hlt]
      split
      · rfl
      · have hbyte := h.data (x - pVaddr m (phdrAt m elf i)) (by omega) (by omega)
        rwa [Nat.add_sub_cancel' hx.1] at hbyte
    · rw [if_neg hlt, if_neg hlt]
      split
      · rfl
      · exact h.zeros (by omega) (by omega) x (by omega)

/-- What is loaded, as far as the code goes, for every image. -/
theorem loadsElf_iff_present (h : Image m elf size) :
    LoadsElf m elf ↔ elf ≠ 0 ∧ ∀ i, Loads m elf i → Present m elf (phdrAt m elf i) := by
  constructor
  · intro hloads
    have helf : elf ≠ 0 := by
      rintro rfl
      have hreturns := hloads.returns
      rw [loadElf_null] at hreturns
      exact absurd (show (-1 : Int) = 0 from hreturns) (by decide)
    obtain ⟨-, hrun⟩ := loadElf_image h helf
    refine ⟨helf, fun i hload => (present_iff (h.sizes i hload)).mp fun x hin => ?_⟩
    calc loadedByte m elf (phdrAt m elf i) x
        = (loadElf m elf).2 x := (hrun.segments i x hload.1 hload hin).symm
      _ = imageByte m elf (phdrAt m elf i) x := hloads.segments i x hload hin
  · rintro ⟨helf, hpresent⟩
    obtain ⟨hreturns, hrun⟩ := loadElf_image h helf
    refine ⟨hreturns, fun i x hload hin => ?_, fun x hx => hrun.outside x fun i _ => hx i⟩
    calc (loadElf m elf).2 x
        = loadedByte m elf (phdrAt m elf i) x := hrun.segments i x hload.1 hload hin
      _ = imageByte m elf (phdrAt m elf i) x :=
          (present_iff (h.sizes i hload)).mpr (hpresent i hload) x hin

/-- **Exactly when an image is loaded**: it is not at address 0, and what `load_elf` leaves out of
its segments is in memory already. -/
theorem loadsElf_iff (h : Image m elf size) :
    LoadsElf m elf ↔ elf ≠ 0 ∧ ∀ i, Loads m elf i → Present m elf (phdrAt m elf i) :=
  loadsElf_iff_present h

theorem loadsElf_iff_small :
    Image (segmentImage 0x80000 4 8) 0x100000 (84 + 4)
      ∧ LoadsElf (segmentImage 0x80000 4 8) 0x100000 := by
  have himage : Image (segmentImage 0x80000 4 8) 0x100000 (84 + 4) :=
    segmentImage_image (by omega) (by omega) (by omega)
  refine ⟨himage, (loadsElf_iff himage).mpr ⟨by decide, fun i hi => ?_⟩⟩
  obtain ⟨-, -, hv, hf, -⟩ := fields_segmentImage (v := 0x80000) (f := 4) (z := 8)
  rw [loads_segmentImage.mp hi]
  constructor
  · intro k hk hrest
    rw [phdrAt_segmentImage] at hk hrest
    omega
  · intro hzero
    rw [phdrAt_segmentImage] at hzero
    omega

/-- A segment of 64 KiB: the count that `memcpy` sees is 0. -/
theorem not_loadsElf :
    Image (segmentImage 0x80000 0x10000 0x10000) 0x100000 (84 + 0x10000)
      ∧ ¬ LoadsElf (segmentImage 0x80000 0x10000 0x10000) 0x100000 := by
  have himage : Image (segmentImage 0x80000 0x10000 0x10000) 0x100000 (84 + 0x10000) :=
    segmentImage_image (by omega) (by omega) (by omega)
  refine ⟨himage, fun hloads => ?_⟩
  have hpresent := ((loadsElf_iff_present himage).mp hloads).2 0 (loads_segmentImage.mpr rfl)
  obtain ⟨-, ho, hv, hf, -⟩ := fields_segmentImage (v := 0x80000) (f := 0x10000) (z := 0x10000)
  have hbyte := hpresent.data 0
  rw [phdrAt_segmentImage, ho, hv, hf, segmentImage_before (by omega)] at hbyte
  have hfirst := segmentImage_data (v := 0x80000) (f := 0x10000) (z := 0x10000) (k := 0) (by omega)
  exact absurd ((hbyte (by omega) (Or.inr (by omega))).trans hfirst) (by decide)

/-- Segments of less than 64 KiB that are not at address 0. -/
theorem Image.loadsElf_small (h : Image m elf size) (helf : elf ≠ 0)
    (hsmall : ∀ i, Loads m elf i → pVaddr m (phdrAt m elf i) ≠ 0
      ∧ pFilesz m (phdrAt m elf i) < 2 ^ 16) : LoadsElf m elf := by
  refine (loadsElf_iff_present h).mpr ⟨helf, fun i hload => ?_⟩
  obtain ⟨hv, hf⟩ := hsmall i hload
  have hmod : pFilesz m (phdrAt m elf i) % 2 ^ 16 = pFilesz m (phdrAt m elf i) :=
    Nat.mod_eq_of_lt hf
  exact ⟨fun k hk hrest => absurd hrest (by omega), fun hzero => absurd hzero hv⟩

end loaded

end MicroKernel.Elf
