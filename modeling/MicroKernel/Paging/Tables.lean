import MicroKernel.Paging.Directory
import Mathlib.Data.Finset.Card

set_option autoImplicit false

/-! # What a page directory holds after calls of `map_page`

`Built L s₀ s root tables` says that `s` comes from `s₀` by `create_page_directory`, which took
page `root` of the pool, and calls of `map_page`, which took page `tables d` for entry `d` of the
directory. `create_page_directory` establishes it and every call of `map_page` keeps it; the
results about page directories are read off it.
-/

namespace MicroKernel.Paging

open MicroKernel.Lib Bytes

/-! ## Addresses -/

/-- The address of page `k` of the pool. -/
def Layout.page (L : Layout) (k : Nat) : Nat := L.memoryPool + k * pageSize

/-- The frame number of the first page of the pool. -/
def Layout.firstFrame (L : Layout) : Nat := L.memoryPool / pageSize

theorem Layout.memoryPool_eq (L : Layout) : L.memoryPool = 4096 * L.firstFrame :=
  (Nat.mul_div_cancel' L.aligned).symm

theorem Layout.firstFrame_bounds (L : Layout) :
    256 < L.firstFrame ∧ L.firstFrame + 4096 ≤ 2 ^ 20 := by
  have h1 := L.memoryPool_eq
  have h2 := L.kernel_lt
  have h3 := L.room
  unfold memoryPoolSize at h3
  omega

theorem Layout.page_div (L : Layout) (k : Nat) : L.page k / 2 ^ 12 = L.firstFrame + k := by
  have h1 := L.memoryPool_eq
  unfold Layout.page pageSize
  omega

/-! ## Bytes of an entry -/

/-- The word of an entry of a directory: the table's frame number above nine bits of which
`present` is set. -/
def IsEntry (w frameNumber : Nat) : Prop := ∃ low, low < 8 ∧ low % 2 = 1 ∧ w = low + 512 * frameNumber

/-- An entry that was clear, after the four assignments. -/
theorem load32_setEntry {m : Bytes} {a frameNumber : Nat} (flags : Nat) (h0 : load32 m a = 0)
    (hf : frameNumber < 2 ^ 20) : IsEntry (load32 (setEntry m a frameNumber flags) a) frameNumber := by
  refine ⟨1 + 2 * (flags / 2 % 2) + 4 * (flags / 4 % 2), by omega, by omega, ?_⟩
  unfold setEntry
  dsimp only
  have hwrite := Nat.mod_lt (flags / 2) (show 0 < 2 by decide)
  have huser := Nat.mod_lt (flags / 4) (show 0 < 2 by decide)
  generalize flags / 2 % 2 = w at *
  generalize flags / 4 % 2 = u at *
  -- one field after the other
  have h₁ : frame.set 0 frameNumber = 512 * frameNumber := by
    simp only [BitField.set, frame]
    omega
  have h₂ : present.set (512 * frameNumber) 1 = 1 + 512 * frameNumber := by
    simp only [BitField.set, present]
    omega
  have h₃ : rw.set (1 + 512 * frameNumber) w = 1 + 2 * w + 512 * frameNumber := by
    simp only [BitField.set, rw]
    omega
  have h₄ : user.set (1 + 2 * w + 512 * frameNumber) u = 1 + 2 * w + 4 * u + 512 * frameNumber := by
    simp only [BitField.set, user]
    omega
  rw [load32_store32_same, h0, h₁, h₂, h₃, h₄, Nat.mod_eq_of_lt (by omega)]

/-- The assignments stay inside the entry. -/
theorem setEntry_outside (m : Bytes) {a x : Nat} (frameNumber flags : Nat)
    (hx : x < a ∨ a + 4 ≤ x) : setEntry m a frameNumber flags x = m x := by
  unfold setEntry
  exact store32_outside _ _ hx

theorem load32_fill_zero {m : Bytes} {a n b : Nat} (h1 : a ≤ b) (h2 : b + 4 ≤ a + n) :
    load32 (fill m a n 0) b = 0 := by
  have hz : load32 (fill m a n 0) b = load32 (fun _ => 0) b :=
    load32_congr fun i hi => fill_inside m 0 (by omega) (by omega)
  rw [hz]
  rfl

theorem load32_of_eq {m m' : Bytes} {b : Nat} (h : ∀ x, b ≤ x → x < b + 4 → m' x = m x) :
    load32 m' b = load32 m b :=
  load32_congr fun i hi => h (b + i) (by omega) (by omega)

/-! ## The allocator -/

/-- **What `allocate_page` does.** -/
theorem allocatePage_some {L : Layout} {s s' : State} {a : Nat}
    (h : allocatePage L s = some (a, s')) :
    ∃ k, k < 4096 ∧ s.freePageBitmap.test k = false ∧
      (∀ j, j < k → s.freePageBitmap.test j = true) ∧ a = L.page k ∧
      s' = { s with freePageBitmap := s.freePageBitmap.set k } := by
  unfold allocatePage at h
  cases hf : findFreePage s with
  | none =>
      rw [hf] at h
      cases h
  | some k =>
      rw [hf] at h
      cases h
      obtain ⟨-, h2, h3, h4⟩ := (s.freePageBitmap.firstClear_spec _ 0).1 k hf
      simp only [memoryPoolSize, pageSize] at h2
      exact ⟨k, by omega, h3, fun j hj => h4 j (by omega) hj, rfl, rfl⟩

/-- `allocate_page` fails only when every page is taken. -/
theorem allocatePage_none {L : Layout} {s : State} (h : allocatePage L s = none) {j : Nat}
    (hj : j < 4096) : s.freePageBitmap.test j = true := by
  unfold allocatePage at h
  cases hf : findFreePage s with
  | none =>
      refine (s.freePageBitmap.firstClear_spec _ 0).2 hf j (by omega) ?_
      simp only [memoryPoolSize, pageSize]
      omega
  | some k =>
      rw [hf] at h
      cases h

/-! ## The invariant -/

/-- The page pool and the directory after `create_page_directory` and calls of `map_page`. -/
structure Built (L : Layout) (s₀ s : State) (root : Nat) (tables : Nat → Option Nat) : Prop where
  root_lt : root < 4096
  root_free : s₀.freePageBitmap.test root = false
  table : ∀ d k, tables d = some k →
    d < 1024 ∧ k < 4096 ∧ k ≠ root ∧ s₀.freePageBitmap.test k = false
  distinct : ∀ d d' k, tables d = some k → tables d' = some k → d = d'
  used : ∀ j, s.freePageBitmap.test j = true ↔
    s₀.freePageBitmap.test j = true ∨ j = root ∨ ∃ d, tables d = some j
  empty : ∀ d, d < 1024 → tables d = none → load32 s.mem (L.page root + 4 * d) = 0
  entry : ∀ d k, tables d = some k →
    IsEntry (load32 s.mem (L.page root + 4 * d)) (L.firstFrame + k)
  outside : ∀ x, x < L.memoryPool → s.mem x = s₀.mem x

section built

variable {L : Layout} {s₀ s : State} {root : Nat} {tables : Nat → Option Nat}

/-- **`create_page_directory` establishes it**, with no table. -/
theorem built_create {pd : Nat} (h : createPageDirectory L s₀ = some (pd, s)) :
    ∃ root, pd = L.page root ∧ (∀ j, j < root → s₀.freePageBitmap.test j = true) ∧
      Built L s₀ s root fun _ => none := by
  unfold createPageDirectory at h
  cases ha : allocatePage L s₀ with
  | none =>
      rw [ha] at h
      cases h
  | some r =>
      obtain ⟨a, s₁⟩ := r
      rw [ha] at h
      cases h
      obtain ⟨root, hlt, hfree, hfirst, rfl, rfl⟩ := allocatePage_some ha
      have hno : ∀ k : Nat, (none : Option Nat) ≠ some k := nofun
      refine ⟨root, rfl, hfirst, hlt, hfree, fun d k hk => absurd hk (hno k),
        fun d d' k hk => absurd hk (hno k), fun j => ?_, fun d hd _ => ?_,
        fun d k hk => absurd hk (hno k), fun x hx => ?_⟩
      · show (s₀.freePageBitmap.set root).test j = true ↔ _
        rw [Bitmap.test_set, Bool.or_eq_true, decide_eq_true_iff]
        simp [or_comm]
      · exact load32_fill_zero (by omega) (by unfold pageSize; omega)
      · exact fill_outside _ _ (Or.inl (by unfold Layout.page; omega))

theorem Built.ne_page (h : Built L s₀ s root tables) {d k : Nat} (hk : tables d = some k) :
    L.page k + 4096 ≤ L.page root ∨ L.page root + 4096 ≤ L.page k := by
  have := (h.table d k hk).2.2.1
  unfold Layout.page pageSize
  omega

theorem MapCall.dirIndex_lt (c : MapCall) : c.dirIndex < 1024 := Nat.mod_lt _ (by decide)

theorem MapCall.tableIndex_lt (c : MapCall) : c.tableIndex < 1024 := Nat.mod_lt _ (by decide)

theorem IsEntry.present {w f : Nat} (h : IsEntry w f) : present.get w = 1 ∧ w % 2 = 1 := by
  obtain ⟨low, h1, h2, rfl⟩ := h
  simp only [BitField.get, MicroKernel.Paging.present]
  omega

theorem IsEntry.frame {w f : Nat} (h : IsEntry w f) (hf : f < 2 ^ 20) : frame.get w = f := by
  obtain ⟨low, h1, h2, rfl⟩ := h
  simp only [BitField.get, MicroKernel.Paging.frame]
  omega

/-- The upper 20 bits of an entry, which is where the machine looks for the frame number. -/
theorem IsEntry.div {w f : Nat} (h : IsEntry w f) : w / 2 ^ 12 = f / 8 := by
  obtain ⟨low, h1, h2, rfl⟩ := h
  omega

/-- Writing an entry of a table changes neither the directory nor the memory below the pool. -/
theorem Built.setTableEntry (h : Built L s₀ s root tables) {d k i : Nat} (hk : tables d = some k)
    (hi : i < 1024) (frameNumber flags : Nat) :
    Built L s₀ { s with mem := setEntry s.mem (L.page k + 4 * i) frameNumber flags } root tables := by
  have hne := h.ne_page hk
  have hdir : ∀ e, e < 1024 →
      load32 (setEntry s.mem (L.page k + 4 * i) frameNumber flags) (L.page root + 4 * e)
        = load32 s.mem (L.page root + 4 * e) := by
    intro e he
    refine load32_of_eq fun x h1 h2 => setEntry_outside _ _ _ ?_
    omega
  refine ⟨h.root_lt, h.root_free, h.table, h.distinct, h.used, fun e he hn => ?_,
    fun e k' hk' => ?_, fun x hx => ?_⟩
  · rw [hdir e he]
    exact h.empty e he hn
  · rw [hdir e (h.table e k' hk').1]
    exact h.entry e k' hk'
  · have hpage : L.memoryPool ≤ L.page k := Nat.le_add_right _ _
    rw [← h.outside x hx]
    exact setEntry_outside _ _ _ (Or.inl (by omega))

/-- A page that is free belongs neither to the directory nor to one of its tables. -/
theorem Built.unused (h : Built L s₀ s root tables) {k : Nat}
    (hfree : s.freePageBitmap.test k = false) :
    s₀.freePageBitmap.test k = false ∧ k ≠ root ∧ ∀ d, tables d ≠ some k := by
  have hno : ¬ (s₀.freePageBitmap.test k = true ∨ k = root ∨ ∃ d, tables d = some k) := by
    intro hu
    rw [(h.used k).mpr hu] at hfree
    cases hfree
  rw [not_or, not_or] at hno
  exact ⟨Bool.eq_false_iff.mpr hno.1, hno.2.1, fun d hd => hno.2.2 ⟨d, hd⟩⟩

/-- The tables after entry `d`, which had none, got one. -/
theorem update_eq_some_iff {d k e k' : Nat} (hnone : tables d = none) :
    Function.update tables d (some k) e = some k' ↔ (e = d ∧ k' = k) ∨ tables e = some k' := by
  rcases eq_or_ne e d with rfl | hne
  · simp [hnone, eq_comm]
  · simp [hne]

/-- The entries of the directory after a page has been filled with zeros for the table of entry
`d`. -/
theorem Built.load32_addTable (h : Built L s₀ s root tables) {d k : Nat} (hd : d < 1024)
    (hnone : tables d = none) (hk : k < 4096) (hkr : k ≠ root) (flags : Nat) :
    (∀ e, e < 1024 → e ≠ d →
      load32 (setEntry (fill s.mem (L.page k) pageSize 0) (L.page root + 4 * d)
        (L.page k / 2 ^ 12) flags) (L.page root + 4 * e) = load32 s.mem (L.page root + 4 * e)) ∧
    IsEntry (load32 (setEntry (fill s.mem (L.page k) pageSize 0) (L.page root + 4 * d)
      (L.page k / 2 ^ 12) flags) (L.page root + 4 * d)) (L.firstFrame + k) := by
  have hapart : L.page k + 4096 ≤ L.page root ∨ L.page root + 4096 ≤ L.page k := by
    unfold Layout.page pageSize
    omega
  have hfill : ∀ x, L.page root ≤ x → x < L.page root + 4096 →
      fill s.mem (L.page k) pageSize 0 x = s.mem x := fun x h1 h2 =>
    fill_outside _ _ (by unfold pageSize; omega)
  constructor
  · intro e he hne
    refine load32_of_eq fun x h1 h2 => ?_
    rw [setEntry_outside _ _ _ (by omega), hfill x (by omega) (by omega)]
  · have hb := L.firstFrame_bounds
    rw [L.page_div]
    refine load32_setEntry flags ?_ (by omega)
    rw [load32_of_eq fun x h1 h2 => hfill x (by omega) (by omega)]
    exact h.empty d hd hnone

/-- The directory after a page has become the table of entry `d`. -/
theorem Built.addTable (h : Built L s₀ s root tables) {d k : Nat} (hd : d < 1024)
    (hnone : tables d = none) (hk : k < 4096) (hfree : s.freePageBitmap.test k = false)
    (flags : Nat) :
    Built L s₀
      { mem := setEntry (fill s.mem (L.page k) pageSize 0) (L.page root + 4 * d)
          (L.page k / 2 ^ 12) flags,
        freePageBitmap := s.freePageBitmap.set k }
      root (Function.update tables d (some k)) := by
  obtain ⟨hk0, hkr, hkt⟩ := h.unused hfree
  obtain ⟨hother, hentry⟩ := h.load32_addTable hd hnone hk hkr flags
  refine ⟨h.root_lt, h.root_free, fun e k' hk' => ?_, fun e e' k' h1 h2 => ?_, fun j => ?_,
    fun e he hn => ?_, fun e k' hk' => ?_, fun x hx => ?_⟩
  · rcases (update_eq_some_iff hnone).mp hk' with ⟨rfl, rfl⟩ | hold
    · exact ⟨hd, hk, hkr, hk0⟩
    · exact h.table e k' hold
  · -- the page was no table before
    rcases (update_eq_some_iff hnone).mp h1 with ⟨rfl, rfl⟩ | hold
    · rcases (update_eq_some_iff hnone).mp h2 with ⟨rfl, -⟩ | hold'
      · rfl
      · exact absurd hold' (hkt e')
    · rcases (update_eq_some_iff hnone).mp h2 with ⟨rfl, rfl⟩ | hold'
      · exact absurd hold (hkt e)
      · exact h.distinct e e' k' hold hold'
  · show (s.freePageBitmap.set k).test j = true ↔ _
    have hnew : (∃ e, Function.update tables d (some k) e = some j)
        ↔ j = k ∨ ∃ e, tables e = some j := by
      simp only [update_eq_some_iff hnone, exists_or, exists_eq_left]
    rw [Bitmap.test_set, Bool.or_eq_true, decide_eq_true_iff, h.used, hnew]
    simp only [or_left_comm]
  · have hne : e ≠ d := by
      rintro rfl
      rw [Function.update_self] at hn
      cases hn
    rw [Function.update_of_ne hne] at hn
    rw [hother e he hne]
    exact h.empty e he hn
  · rcases (update_eq_some_iff hnone).mp hk' with ⟨rfl, rfl⟩ | hold
    · exact hentry
    · have hne : e ≠ d := by
        rintro rfl
        rw [hnone] at hold
        cases hold
      rw [hother e (h.table e k' hold).1 hne]
      exact h.entry e k' hold
  · have hpk : L.memoryPool ≤ L.page k := Nat.le_add_right _ _
    have hpr : L.memoryPool ≤ L.page root := Nat.le_add_right _ _
    rw [← h.outside x hx]
    show setEntry _ _ _ _ x = _
    rw [setEntry_outside _ _ _ (Or.inl (by omega)), fill_outside _ _ (Or.inl (by omega))]

/-- **What `map_page` does.** The directory has a table for the address; or it has none and
there is no page left; or it gets the first page that is left. -/
theorem Built.mapPage_cases (h : Built L s₀ s root tables) (c : MapCall) :
    ((∃ k, tables c.dirIndex = some k) ∧ Built L s₀ (mapPage L (L.page root) s c) root tables) ∨
    (tables c.dirIndex = none ∧ (∀ j, j < 4096 → s.freePageBitmap.test j = true) ∧
      mapPage L (L.page root) s c = s) ∨
    (tables c.dirIndex = none ∧ ∃ k, s.freePageBitmap.test k = false ∧
      (∀ j, j < k → s.freePageBitmap.test j = true) ∧
      Built L s₀ (mapPage L (L.page root) s c) root
        (Function.update tables c.dirIndex (some k))) := by
  have hd := c.dirIndex_lt
  have hi := c.tableIndex_lt
  cases ht : tables c.dirIndex with
  | some k =>
      have hentry := h.entry _ k ht
      have hb := L.firstFrame_bounds
      have hk := (h.table _ k ht).2.1
      -- `map_page` reads the table back through the bit-field it wrote
      have hpt : u32 (frame.get (load32 s.mem (L.page root + 4 * c.dirIndex)) * 2 ^ 12)
          = L.page k := by
        rw [hentry.frame (by omega), u32_eq_self (by omega), Layout.page, L.memoryPool_eq]
        unfold pageSize
        omega
      have htable : tableOf L s (L.page root) c = some (L.page k, s) := by
        unfold tableOf
        dsimp only
        rw [if_neg (by rw [hentry.present.1]; decide), hpt]
      refine Or.inl ⟨⟨k, rfl⟩, ?_⟩
      unfold mapPage
      rw [htable]
      exact h.setTableEntry ht hi _ _
  | none =>
      have hzero := h.empty _ hd ht
      have hpresent : present.get (load32 s.mem (L.page root + 4 * c.dirIndex)) = 0 := by
        rw [hzero]
        rfl
      cases ha : allocatePage L s with
      | none =>
          refine Or.inr (Or.inl ⟨rfl, fun j hj => allocatePage_none ha hj, ?_⟩)
          unfold mapPage tableOf
          dsimp only
          rw [if_pos hpresent, ha]
      | some r =>
          obtain ⟨a, s₁⟩ := r
          obtain ⟨k, hk, hfree, hfirst, rfl, rfl⟩ := allocatePage_some ha
          refine Or.inr (Or.inr ⟨rfl, k, hfree, hfirst, ?_⟩)
          have hadd := h.addTable hd ht hk hfree c.flags.toNat
          unfold mapPage tableOf
          dsimp only
          rw [if_pos hpresent, ha]
          exact hadd.setTableEntry (Function.update_self _ _ _) hi _ _

/-- One call keeps the invariant, and the tables that are there. -/
theorem Built.mapPage (h : Built L s₀ s root tables) (c : MapCall) :
    ∃ tables', Built L s₀ (MicroKernel.Paging.mapPage L (L.page root) s c) root tables' ∧
      ∀ d k, tables d = some k → tables' d = some k := by
  rcases h.mapPage_cases c with ⟨-, h'⟩ | ⟨-, -, h'⟩ | ⟨hnone, k, -, -, h'⟩
  · exact ⟨tables, h', fun d k hk => hk⟩
  · rw [h']
    exact ⟨tables, h, fun d k hk => hk⟩
  · refine ⟨_, h', fun d k' hk' => ?_⟩
    have hne : d ≠ c.dirIndex := by
      rintro rfl
      rw [hnone] at hk'
      cases hk'
    rw [Function.update_of_ne hne, hk']

/-- **Every sequence of calls keeps the invariant**, and the tables that are there. -/
theorem Built.mapPages (h : Built L s₀ s root tables) (calls : List MapCall) :
    ∃ tables', Built L s₀ (MicroKernel.Paging.mapPages L (L.page root) s calls) root tables' ∧
      ∀ d k, tables d = some k → tables' d = some k := by
  induction calls generalizing s tables with
  | nil => exact ⟨tables, h, fun d k hk => hk⟩
  | cons c calls ih =>
      obtain ⟨tables₁, h₁, hext₁⟩ := h.mapPage c
      obtain ⟨tables₂, h₂, hext₂⟩ := ih h₁
      exact ⟨tables₂, h₂, fun d k hk => hext₂ d k (hext₁ d k hk)⟩

end built

/-! ## An empty pool -/

/-- The pool at 2 MB. -/
def poolAt2M : Layout where
  memoryPool := 0x00200000
  aligned := by decide
  kernel_lt := by decide
  room := by decide

/-- A pool of free pages and a memory of zeros. -/
def emptyPool : State := ⟨fun _ => 0, fun _ => 0⟩

theorem emptyPool_free (j : Nat) : emptyPool.freePageBitmap.test j = false :=
  BitVec.getLsbD_zero

/-- The directory and the first table that come out of the empty pool are its first two pages. -/
theorem emptyPool_first (L : Layout) (c : MapCall) :
    ∃ s₁ tables, createPageDirectory L emptyPool = some (L.page 0, s₁) ∧
      Built L emptyPool s₁ 0 (fun _ => none) ∧
      Built L emptyPool (mapPage L (L.page 0) s₁ c) 0 tables ∧ tables c.dirIndex = some 1 := by
  have hsome : createPageDirectory L emptyPool ≠ none := by
    unfold createPageDirectory
    cases ha : allocatePage L emptyPool with
    | none =>
        have h0 := allocatePage_none ha (show 0 < 4096 by decide)
        rw [emptyPool_free] at h0
        cases h0
    | some r => exact nofun
  obtain ⟨⟨pd, s₁⟩, hcreate⟩ := Option.ne_none_iff_exists'.mp hsome
  obtain ⟨root, rfl, hfirst, hbuilt⟩ := built_create hcreate
  -- no page lies before a page that is free
  have hroot : root = 0 := by
    by_contra hne
    have h0 := hfirst 0 (by omega)
    rw [emptyPool_free] at h0
    cases h0
  subst hroot
  have hused : ∀ j, s₁.freePageBitmap.test j = true ↔ j = 0 := by
    intro j
    rw [hbuilt.used j, emptyPool_free]
    simp
  rcases hbuilt.mapPage_cases c with ⟨⟨k, hk⟩, -⟩ | ⟨-, hfull, -⟩ | ⟨-, k, hfree, hbefore, h'⟩
  · cases hk
  · have h1 := (hused 1).mp (hfull 1 (by decide))
    omega
  · have hk : k = 1 := by
      have hk0 : k ≠ 0 := by
        rintro rfl
        rw [(hused 0).mpr rfl] at hfree
        cases hfree
      by_contra hne
      have h1 := (hused 1).mp (hbefore 1 (by omega))
      omega
    subst hk
    exact ⟨s₁, _, hcreate, hbuilt, h', Function.update_self _ _ _⟩

end MicroKernel.Paging
