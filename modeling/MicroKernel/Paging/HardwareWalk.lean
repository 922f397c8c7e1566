import MicroKernel.Paging.Tables

set_option autoImplicit false

/-! # Page directories as the machine reads them

The machine takes the number of a table or a frame from bits 31 to 12 of an entry (`translate`),
the code puts it into bits 28 to 9. So the machine looks for the table of an entry in the frame
with an eighth of the number, and what it finds there has nothing to do with the calls of
`map_page`: a sequence of calls is translated as it should be, whatever the memory held before,
only when it is empty (`refinesWalk_iff`).
-/

namespace MicroKernel.Paging

open MicroKernel.Lib Bytes

/-! ## The translation -/

/-- What the machine finds for an address. -/
structure Translation where
  frame : Nat
  writable : Bool
  user : Bool
  deriving DecidableEq

/-- The two-level walk of the machine. An access is granted when both entries grant it. -/
def translate (m : Bytes) (cr3 : Nat) (va : UInt32) : Option Translation :=
  let pde := load32 m (cr3 / 2 ^ 12 * 2 ^ 12 + 4 * (va.toNat / 2 ^ 22))
  if pde % 2 = 0 then none
  else
    let pte := load32 m (pde / 2 ^ 12 * 2 ^ 12 + 4 * (va.toNat / 2 ^ 12 % 1024))
    if pte % 2 = 0 then none
    else some
      { frame := pte / 2 ^ 12
        writable := pde / 2 % 2 = 1 ∧ pte / 2 % 2 = 1
        user := pde / 4 % 2 = 1 ∧ pte / 4 % 2 = 1 }

/-- What the calls ask for: the last one for the page of the address. -/
def lastMapping (calls : List MapCall) (va : UInt32) : Option Translation :=
  (calls.reverse.find? fun c => c.virtualAddress.toNat / 2 ^ 12 = va.toNat / 2 ^ 12).map fun c =>
    { frame := c.physicalAddress.toNat / 2 ^ 12
      writable := c.flags.toNat / 2 % 2 = 1
      user := c.flags.toNat / 4 % 2 = 1 }

/-- `allocate_page` succeeds in every call that needs a table. -/
def AllMapped (L : Layout) (pd : Nat) : State → List MapCall → Prop
  | _, [] => True
  | s, c :: calls => (tableOf L s pd c).isSome = true ∧ AllMapped L pd (mapPage L pd s c) calls

/-- On every new directory the machine translates every address as the calls ask for. -/
def RefinesWalk (L : Layout) (calls : List MapCall) : Prop :=
  ∀ s pd s₁, createPageDirectory L s = some (pd, s₁) → AllMapped L pd s₁ calls →
    ∀ va, translate (mapPages L pd s₁ calls).mem pd va = lastMapping calls va

/-! ## Room in the pool -/

section room

variable {L : Layout} {s₀ s : State} {root : Nat} {tables : Nat → Option Nat}

/-- A directory and its tables take a quarter of the pool and one page at most. -/
theorem Built.exists_free (h : Built L s₀ s root tables)
    (h₀ : ∀ j, s₀.freePageBitmap.test j = false) :
    ∃ j, j < 4096 ∧ s.freePageBitmap.test j = false := by
  by_contra hfull
  have hsub : Finset.range 4096
      ⊆ insert root ((Finset.range 1024).image fun d => (tables d).getD 0) := by
    intro j hj
    rw [Finset.mem_range] at hj
    have hused : s.freePageBitmap.test j = true := by
      by_contra hj'
      exact hfull ⟨j, hj, by simpa using hj'⟩
    rw [Finset.mem_insert, Finset.mem_image]
    rcases (h.used j).mp hused with h1 | h1 | ⟨d, hd⟩
    · rw [h₀ j] at h1
      cases h1
    · exact Or.inl h1
    · exact Or.inr ⟨d, Finset.mem_range.mpr (h.table d j hd).1, by rw [hd]; rfl⟩
  have hle : (4096 : Nat) ≤ 1024 + 1 :=
    calc (4096 : Nat) = (Finset.range 4096).card := (Finset.card_range _).symm
      _ ≤ (insert root ((Finset.range 1024).image fun d => (tables d).getD 0)).card :=
          Finset.card_le_card hsub
      _ ≤ ((Finset.range 1024).image fun d => (tables d).getD 0).card + 1 :=
          Finset.card_insert_le _ _
      _ ≤ (Finset.range 1024).card + 1 := Nat.add_le_add_right Finset.card_image_le 1
      _ = 1024 + 1 := by rw [Finset.card_range]
  omega

theorem tableOf_isSome {pd : Nat} {c : MapCall}
    (h : ∃ j, j < 4096 ∧ s.freePageBitmap.test j = false) : (tableOf L s pd c).isSome = true := by
  unfold tableOf
  dsimp only
  split
  · cases ha : allocatePage L s with
    | none =>
        obtain ⟨j, hj, hfree⟩ := h
        rw [allocatePage_none ha hj] at hfree
        cases hfree
    | some r => rfl
  · rfl

/-- Out of an empty pool every sequence of calls gets its tables. -/
theorem Built.allMapped (h : Built L s₀ s root tables)
    (h₀ : ∀ j, s₀.freePageBitmap.test j = false) (calls : List MapCall) :
    AllMapped L (L.page root) s calls := by
  induction calls generalizing s tables with
  | nil => trivial
  | cons c calls ih =>
      obtain ⟨tables', h', -⟩ := h.mapPage c
      exact ⟨tableOf_isSome (h.exists_free h₀), ih h'⟩

end room

/-! ## What the machine finds -/

/-- The address of a page is a multiple of the page size. -/
theorem Layout.page_base (L : Layout) (k : Nat) : L.page k / 2 ^ 12 * 2 ^ 12 = L.page k := by
  have h := L.memoryPool_eq
  rw [L.page_div]
  unfold Layout.page pageSize
  omega

/-- In a directory without tables no page is present. -/
theorem Built.translate_none {L : Layout} {s₀ s : State} {root : Nat}
    (h : Built L s₀ s root fun _ => none) (va : UInt32) :
    translate s.mem (L.page root) va = none := by
  have hva := va.toNat_lt
  have hzero := h.empty (va.toNat / 2 ^ 22) (by omega) rfl
  unfold translate
  dsimp only
  rw [L.page_base, hzero]
  rfl

/-- With the table in the page behind the first one and no ones below the pool, no page of the
table is present: the machine looks for the table below the pool. -/
theorem Built.translate_below {L : Layout} {s₀ s : State} {root : Nat} {tables : Nat → Option Nat}
    (h : Built L s₀ s root tables) (h₀ : ∀ x, s₀.mem x = 0) {va : UInt32}
    (hd : tables (va.toNat / 2 ^ 22) = some 1) : translate s.mem (L.page root) va = none := by
  have hentry := h.entry _ 1 hd
  have hb := L.firstFrame_bounds
  have hbase := L.memoryPool_eq
  unfold translate
  dsimp only
  rw [L.page_base, if_neg (by rw [hentry.present.2]; decide), hentry.div]
  have hpte : load32 s.mem ((L.firstFrame + 1) / 8 * 2 ^ 12 + 4 * (va.toNat / 2 ^ 12 % 1024))
      = 0 := by
    rw [load32_of_eq (m := fun _ => 0) fun x h1 h2 => ?_]
    · rfl
    · rw [h.outside x (by omega), h₀]
  rw [hpte]
  rfl

/-- No call at all is translated, when the memory held zeros and the pool was empty. -/
theorem not_refinesWalk_cons (L : Layout) (c : MapCall) (calls : List MapCall) :
    ¬ RefinesWalk L (c :: calls) := by
  intro h
  obtain ⟨s₁, tables, hcreate, hbuilt, hbuilt₁, htable⟩ := emptyPool_first L c
  have hall := hbuilt.allMapped emptyPool_free (c :: calls)
  obtain ⟨tables₂, hbuilt₂, hext⟩ := hbuilt₁.mapPages calls
  have hva := c.virtualAddress.toNat_lt
  have hdir : c.virtualAddress.toNat / 2 ^ 22 = c.dirIndex := by
    unfold MapCall.dirIndex
    omega
  have hnone : translate (mapPages L (L.page 0) s₁ (c :: calls)).mem (L.page 0) c.virtualAddress
      = none := hbuilt₂.translate_below (fun x => rfl) (by rw [hdir]; exact hext _ _ htable)
  rw [h emptyPool _ s₁ hcreate hall c.virtualAddress, lastMapping, Option.map_eq_none_iff,
    List.find?_eq_none] at hnone
  exact hnone c (by simp) (by simp)

/-- **`map_page` refines the walk of the machine for the empty sequence of calls only.** -/
theorem refinesWalk_iff (L : Layout) (calls : List MapCall) :
    RefinesWalk L calls ↔ calls = [] := by
  constructor
  · intro h
    cases calls with
    | nil => rfl
    | cons c calls => exact absurd h (not_refinesWalk_cons L c calls)
  · rintro rfl s pd s₁ hcreate - va
    obtain ⟨root, rfl, -, hbuilt⟩ := built_create hcreate
    exact hbuilt.translate_none va

/-- One page is mapped, read-write, and the machine does not find it. -/
theorem not_refinesWalk_page :
    ¬ RefinesWalk poolAt2M
      [{ virtualAddress := 0x00400000, physicalAddress := 0x00005000, flags := 3 }] :=
  not_refinesWalk_cons _ _ _

end MicroKernel.Paging
