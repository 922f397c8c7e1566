import MicroKernel.Paging.Tables

set_option autoImplicit false

/-! # What `free_page_directory` gives back

The loop of `free_page_directory` takes the address of a table from bits 31 to 12 of an entry,
where `map_page` does not put it: the page it frees has an eighth of the table's frame number, and
so lies below the table. The table in the highest page is therefore never freed, and the bitmap is
as before only when no table was allocated (`freePageDirectory_restores_iff`).
-/

namespace MicroKernel.Paging

open MicroKernel.Lib Bytes

/-! ## The loop -/

section loop

variable {L : Layout} {s : State}

theorem freePage_mem (page : Nat) : (freePage L s page).mem = s.mem := by
  unfold freePage
  split <;> rfl

/-- A page of the pool is freed by its address. -/
theorem freePage_page {k : Nat} (hk : k < 4096) :
    freePage L s (L.page k) = { s with freePageBitmap := s.freePageBitmap.clear k } := by
  have hin : ¬ (L.page k < L.memoryPool ∨ L.memoryPool + memoryPoolSize ≤ L.page k) := by
    unfold Layout.page memoryPoolSize pageSize
    omega
  have hindex : (L.page k - L.memoryPool) / pageSize = k := by
    unfold Layout.page pageSize
    omega
  unfold freePage
  rw [if_neg hin, hindex]

/-- Freeing a frame changes the bit of no other page. -/
theorem freePage_test {f k : Nat} (hne : f ≠ L.firstFrame + k) :
    (freePage L s (f * 2 ^ 12)).freePageBitmap.test k = s.freePageBitmap.test k := by
  have hbase := L.memoryPool_eq
  unfold freePage
  split
  · rfl
  · rename_i hin
    have hother : k ≠ (f * 2 ^ 12 - L.memoryPool) / pageSize := by
      unfold pageSize
      omega
    show (s.freePageBitmap.clear _).test k = _
    rw [Bitmap.test_clear, decide_eq_false hother, Bool.not_false, Bool.true_and]

/-- The loop changes the bit of no page that no entry names. -/
theorem freeTables_test {pd n i k : Nat}
    (h : ∀ d, i ≤ d → d < i + n → load32 s.mem (pd + 4 * d) % 2 = 1 →
      load32 s.mem (pd + 4 * d) / 2 ^ 12 ≠ L.firstFrame + k) :
    (freeTables L pd n i s).freePageBitmap.test k = s.freePageBitmap.test k := by
  induction n generalizing i s with
  | zero => rfl
  | succ n ih =>
      unfold freeTables
      dsimp only
      split
      · rename_i hpresent
        have hrest := ih (i := i + 1) (s := freePage L s (load32 s.mem (pd + 4 * i) / 2 ^ 12 * 2 ^ 12))
          (by
            rw [freePage_mem]
            exact fun d h1 h2 => h d (by omega) (by omega))
        rw [hrest]
        exact freePage_test (h i (Nat.le_refl i) (by omega) hpresent)
      · exact ih fun d h1 h2 => h d (by omega) (by omega)

end loop

/-! ## The directory -/

section directory

variable {L : Layout} {s₀ s : State} {root : Nat} {tables : Nat → Option Nat}

/-- `free_page_directory` frees the page of the directory, after the loop. -/
theorem Built.freePageDirectory_test (h : Built L s₀ s root tables) (k : Nat) :
    (freePageDirectory L s (L.page root)).freePageBitmap.test k
      = (!decide (k = root) && (freeTables L (L.page root) (1024 - userPageStart) userPageStart
          s).freePageBitmap.test k) := by
  unfold freePageDirectory
  rw [freePage_page h.root_lt]
  exact Bitmap.test_clear _ _ _

/-- **A page that lies above every page the entries lead to keeps its bit in the loop**: no
entry names the highest table, as every entry names a page below its own table. -/
theorem Built.freeTables_test_of_le (h : Built L s₀ s root tables) {k : Nat}
    (hk : ∀ d t, tables d = some t → t ≤ k) :
    (freeTables L (L.page root) (1024 - userPageStart) userPageStart s).freePageBitmap.test k
      = s.freePageBitmap.test k := by
  apply freeTables_test
  intro d _ hd hpresent
  have hstart : userPageStart = 1 := by decide
  rw [hstart] at hd
  have hd' : d < 1024 := by omega
  cases ht : tables d with
  | none =>
      rw [h.empty d hd' ht] at hpresent
      cases hpresent
  | some t =>
      have hle := hk d t ht
      have hb := L.firstFrame_bounds
      rw [(h.entry d t ht).div]
      omega

/-- Without a table the bitmap is as it was before `create_page_directory`. -/
theorem Built.restores (h : Built L s₀ s root fun _ => none) :
    (freePageDirectory L s (L.page root)).freePageBitmap = s₀.freePageBitmap := by
  apply Bitmap.ext
  intro k
  rw [h.freePageDirectory_test, h.freeTables_test_of_le (k := k) (fun d t ht => nomatch ht)]
  have hused := h.used k
  have hfree := h.root_free
  rcases eq_or_ne k root with rfl | hne
  · rw [hfree, decide_eq_true rfl, Bool.not_true, Bool.false_and]
  · rw [decide_eq_false hne, Bool.not_false, Bool.true_and, Bool.eq_iff_iff, hused]
    simp [hne]

/-- The table in the highest page. -/
theorem Built.exists_highest (h : Built L s₀ s root tables) {d t : Nat} (ht : tables d = some t) :
    ∃ e k, tables e = some k ∧ ∀ d t, tables d = some t → t ≤ k := by
  classical
  have hle : ∀ d t, tables d = some t → t ≤ 4096 := fun d t ht => (h.table d t ht).2.1.le
  obtain ⟨e, he⟩ := Nat.findGreatest_spec (P := fun k => ∃ d, tables d = some k) (hle d t ht)
    ⟨d, ht⟩
  exact ⟨e, _, he, fun d t ht => Nat.le_findGreatest (hle d t ht) ⟨d, ht⟩⟩

/-- With a table the bitmap is not what it was: the highest table is still marked. -/
theorem Built.not_restores (h : Built L s₀ s root tables) {d t : Nat} (ht : tables d = some t) :
    (freePageDirectory L s (L.page root)).freePageBitmap ≠ s₀.freePageBitmap := by
  intro heq
  obtain ⟨e, k, hk, hmax⟩ := h.exists_highest ht
  obtain ⟨-, -, hne, hfree⟩ := h.table e k hk
  have hmarked : (freePageDirectory L s (L.page root)).freePageBitmap.test k = true := by
    rw [h.freePageDirectory_test, h.freeTables_test_of_le hmax, decide_eq_false hne,
      Bool.not_false, Bool.true_and]
    exact (h.used k).mpr (Or.inr (Or.inr ⟨e, hk⟩))
  rw [heq, hfree] at hmarked
  cases hmarked

/-- With two free pages, the first call takes one of them for a table. -/
theorem Built.mapPages_table (h : Built L s₀ s root fun _ => none) (c : MapCall)
    (calls : List MapCall) {j : Nat} (hj : j < 4096) (hne : j ≠ root)
    (hfree : s₀.freePageBitmap.test j = false) :
    ∃ tables,
      Built L s₀ (MicroKernel.Paging.mapPages L (L.page root) s (c :: calls)) root tables ∧
      ∃ t, tables c.dirIndex = some t := by
  rcases h.mapPage_cases c with ⟨⟨k, hk⟩, -⟩ | ⟨-, hfull, -⟩ | ⟨-, k, -, -, h'⟩
  · cases hk
  · -- the page `j` is left
    rcases (h.used j).mp (hfull j hj) with h1 | h1 | ⟨d, hd⟩
    · rw [hfree] at h1
      cases h1
    · exact absurd h1 hne
    · cases hd
  · obtain ⟨tables, hbuilt, hext⟩ := h'.mapPages calls
    exact ⟨tables, hbuilt, k, hext _ _ (Function.update_self _ _ _)⟩

end directory

/-- **`free_page_directory` restores the bitmap exactly when no table can have been allocated**:
no page was mapped, or the directory took the last free page. -/
theorem freePageDirectory_restores_iff {L : Layout} {s s₁ : State} {pd : Nat}
    (h : createPageDirectory L s = some (pd, s₁)) (calls : List MapCall) :
    (freePageDirectory L (mapPages L pd s₁ calls) pd).freePageBitmap = s.freePageBitmap ↔
      calls = [] ∨ ∀ j k, j < 4096 → k < 4096 → s.freePageBitmap.test j = false →
        s.freePageBitmap.test k = false → j = k := by
  obtain ⟨root, rfl, -, hbuilt⟩ := built_create h
  constructor
  · intro heq
    cases calls with
    | nil => exact Or.inl rfl
    | cons c calls =>
        refine Or.inr fun j k hj hk hfj hfk => ?_
        by_contra hjk
        -- one of the two is not the page of the directory
        have hother : ∃ i, i < 4096 ∧ i ≠ root ∧ s.freePageBitmap.test i = false := by
          rcases eq_or_ne j root with rfl | hne
          · exact ⟨k, hk, fun hkj => hjk hkj.symm, hfk⟩
          · exact ⟨j, hj, hne, hfj⟩
        obtain ⟨i, hi, hne, hfree⟩ := hother
        obtain ⟨tables, h', t, ht⟩ := hbuilt.mapPages_table c calls hi hne hfree
        exact h'.not_restores ht heq
  · rintro (rfl | hone)
    · have hnil : mapPages L (L.page root) s₁ [] = s₁ := rfl
      rw [hnil]
      exact hbuilt.restores
    · obtain ⟨tables, h', -⟩ := hbuilt.mapPages calls
      have hnone : tables = fun _ => none := by
        funext d
        cases ht : tables d with
        | none => rfl
        | some k =>
            obtain ⟨-, hk, hne, hfree⟩ := h'.table d k ht
            exact absurd (hone k root hk h'.root_lt hfree h'.root_free) hne
      subst hnone
      exact h'.restores

/-- A directory that comes and goes without a mapping. -/
theorem freePageDirectory_restores_nil :
    ∃ pd s₁, createPageDirectory poolAt2M emptyPool = some (pd, s₁) ∧
      (freePageDirectory poolAt2M (mapPages poolAt2M pd s₁ []) pd).freePageBitmap
        = emptyPool.freePageBitmap := by
  obtain ⟨s₁, -, hcreate, -⟩ := emptyPool_first poolAt2M ⟨0, 0, 0⟩
  exact ⟨_, s₁, hcreate, (freePageDirectory_restores_iff hcreate []).mpr (Or.inl rfl)⟩

/-- One page is mapped, read-write, and its table is never given back. -/
theorem freePageDirectory_leaks_table :
    ∃ pd s₁, createPageDirectory poolAt2M emptyPool = some (pd, s₁) ∧
      (freePageDirectory poolAt2M
        (mapPages poolAt2M pd s₁
          [{ virtualAddress := 0x00400000, physicalAddress := 0x00005000, flags := 3 }])
        pd).freePageBitmap ≠ emptyPool.freePageBitmap := by
  obtain ⟨s₁, tables, hcreate, -, hbuilt, htable⟩ := emptyPool_first poolAt2M
    { virtualAddress := 0x00400000, physicalAddress := 0x00005000, flags := 3 }
  exact ⟨_, s₁, hcreate, hbuilt.not_restores htable⟩

end MicroKernel.Paging
