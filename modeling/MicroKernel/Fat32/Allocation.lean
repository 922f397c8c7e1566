import MicroKernel.Fat32.FreeChain

set_option autoImplicit false

/-! # Handing out free clusters

`find_free_cluster` starts at a hint that comes from the disk and may be anything. It searches in
two parts, from the hint to the end and from the first cluster to the hint, so the hint decides
which free cluster it finds, but not whether it finds one (`findFreeCluster_finds`). A caller that
marks what it gets, and asks again, gets every free cluster once.
-/

namespace MicroKernel.Fat32

open MicroKernel.Lib Bytes

section allocation

variable {V : Volume} {e : Env} {s s' : Fs}

/-! ## The hint -/

/-- Two states differ in the hint alone, which is in the bytes from 492 on of FSInfo in memory. -/
def OnlyHint (s s' : Fs) : Prop :=
  ∃ f : Sector, s' = { s with fsinfo := f } ∧
    ∀ x : Fin 512, (x : Nat) < 492 ∨ 496 ≤ (x : Nat) → f x = s.fsinfo x

theorem OnlyHint.refl (s : Fs) : OnlyHint s s := ⟨s.fsinfo, rfl, fun _ _ => rfl⟩

theorem onlyHint_withHint (s : Fs) (c : Nat) : OnlyHint s (s.withHint c) := by
  unfold Fs.withHint
  split
  · refine ⟨s.fsinfo.setField 492 c, rfl, fun x hx => ?_⟩
    have hlt := x.isLt
    show store32 (Sector.bytes s.fsinfo) 492 c (0 + x) = s.fsinfo x
    rw [Nat.zero_add, store32_outside _ _ (by omega)]
    exact dif_pos hlt
  · exact OnlyHint.refl s

theorem Fs.On.withHint (h : s.On V) (c : Nat) : (s.withHint c).On V := by
  obtain ⟨f, hf⟩ := s.withHint_eq c
  rw [hf]
  exact ⟨h.boot, h.offset, h.drive⟩

/-! ## One search -/

/-- Where no sector is lost, what there is to find is a free cluster. -/
theorem offers_iff (he : e.Reliable) : s.Offers V e ↔ ∃ c, c ∈ V.freeSet s.disk := by
  simp only [Volume.mem_freeSet]
  constructor
  · rintro ⟨c, hc, h0, -⟩
    exact ⟨c, hc, h0⟩
  · rintro ⟨c, hc, h0⟩
    exact ⟨c, hc, h0, (he.enter _).fails .fat⟩

/-- What a search that returns `r` has found. -/
def Finds (V : Volume) (s : Fs) (r : Nat) : Prop :=
  (r ∈ V.freeSet s.disk) ∨ (r = invalidCluster ∧ V.freeSet s.disk = ∅)

theorem Finds.ne_invalid {r : Nat} (h : Finds V s r) :
    r ≠ invalidCluster ↔ ∃ c, c ∈ V.freeSet s.disk := by
  constructor
  · intro hr
    rcases h with hmem | ⟨hinvalid, -⟩
    · exact ⟨r, hmem⟩
    · exact absurd hinvalid hr
  · rintro ⟨c, hc⟩
    rcases h with hmem | ⟨-, hempty⟩
    · exact (Volume.mem_freeSet.mp hmem).1.ne_invalidCluster
    · rw [hempty] at hc
      exact absurd hc (Finset.notMem_empty c)

/-- **`find_free_cluster`** finds a free cluster if there is one, and moves the hint only. -/
theorem findFreeCluster_run (he : e.Reliable) (h : s.On V) :
    ∃ r s', findFreeCluster.run e s = some (r, s') ∧ Finds V s r ∧ s'.On V ∧ OnlyHint s s' := by
  rcases run_findFreeCluster e h with ⟨hno, hrun⟩ | ⟨-, r, hr, h0, hrun⟩
  · refine ⟨invalidCluster, s, hrun, Or.inr ⟨rfl, ?_⟩, h, OnlyHint.refl s⟩
    rw [offers_iff he] at hno
    exact Finset.eq_empty_of_forall_notMem fun c hc => hno ⟨c, hc⟩
  · exact ⟨r, s.withHint (r + 1), hrun, Or.inl (Volume.mem_freeSet.mpr ⟨hr, h0⟩), h.withHint _,
      onlyHint_withHint s _⟩

/-- The loop of `allocate_new_cluster` finds the first free cluster, if there is one. -/
theorem run_scanAllocate (he : e.Reliable) (h : s.On V) {n c : Nat} (h2 : 2 ≤ c)
    (hn : c + n ≤ V.total) :
    ∃ r s', (scanAllocate n c).run e s = some (r, s') ∧
      ((V.Has r ∧ V.fat s.disk r = 0) ∨
        (r = invalidCluster ∧ ∀ x, c ≤ x → x < c + n → V.fat s.disk x ≠ 0)) := by
  induction n generalizing c with
  | zero => exact ⟨_, _, rfl, Or.inr ⟨rfl, fun x h1 h2 => by omega⟩⟩
  | succ n ih =>
      have hc : V.Has c := ⟨h2, by omega⟩
      rw [scanAllocate, Prog.run_bind, run_within, run_readFatEntry _ h hc, (he.enter _).fails,
        if_neg Bool.false_ne_true, Option.bind_some, Prog.run_ite]
      dsimp only
      by_cases h0 : V.fat s.disk c = 0
      · rw [if_pos h0, Prog.run_bind, run_within, run_writeFatEntry _ h hc, (he.enter _).fails,
          if_neg Bool.false_ne_true, (he.enter _).allWritten, Option.bind_some]
        exact ⟨c, _, rfl, Or.inl ⟨hc, h0⟩⟩
      · rw [if_neg h0]
        obtain ⟨r, s', hrun, hr | ⟨hinvalid, hnone⟩⟩ := ih (c := c + 1) (by omega) (by omega)
        · exact ⟨r, s', hrun, Or.inl hr⟩
        · refine ⟨r, s', hrun, Or.inr ⟨hinvalid, fun x h1 h2 => ?_⟩⟩
          rcases Nat.eq_or_lt_of_le h1 with rfl | hlt
          · exact h0
          · exact hnone x hlt (by omega)

/-- **`allocate_new_cluster`** finds a free cluster if there is one. -/
theorem allocateNewCluster_finds (he : e.Reliable) (h : s.On V) :
    ∃ r s', allocateNewCluster.run e s = some (r, s') ∧ Finds V s r := by
  unfold allocateNewCluster
  rw [Prog.run_bind, Prog.run_get, Option.bind_some, h.boot]
  change ∃ r s', (scanAllocate (V.total - 2) 2).run e s = _ ∧ _
  by_cases ht : 2 ≤ V.total
  · obtain ⟨r, s', hrun, hr | ⟨hinvalid, hnone⟩⟩ := run_scanAllocate he h (Nat.le_refl 2)
      (show 2 + (V.total - 2) ≤ V.total by omega)
    · exact ⟨r, s', hrun, Or.inl (Volume.mem_freeSet.mpr hr)⟩
    · refine ⟨r, s', hrun, Or.inr ⟨hinvalid, Finset.eq_empty_of_forall_notMem fun x hx => ?_⟩⟩
      obtain ⟨⟨h1, h2⟩, h0⟩ := Volume.mem_freeSet.mp hx
      exact hnone x h1 (by omega) h0
  · rw [show V.total - 2 = 0 by omega]
    refine ⟨_, _, rfl, Or.inr ⟨rfl, Finset.eq_empty_of_forall_notMem fun x hx => ?_⟩⟩
    obtain ⟨⟨h1, h2⟩, -⟩ := Volume.mem_freeSet.mp hx
    omega

/-! ## Searching and marking -/

/-- Pairs of `find_free_cluster` and `mark_cluster_in_fat` until the first one fails, from pair
number `i` on, which marks with `value i`: the clusters that are handed out. -/
def handOut (value : Nat → Nat) : Nat → Nat → Io (List Nat)
  | 0, _ => Prog.diverge
  | k + 1, i => do
      let cluster ← within (.cluster i) findFreeCluster
      if cluster = invalidCluster then return []
      let _ ← within (.cluster i) (within .mark (markClusterInFat cluster (value i)))
      return cluster :: (← handOut value k (i + 1))

/-- A mark takes a cluster out of the free ones. -/
theorem freeSet_marked {r v : Nat} (hr : V.Has r) (hv : v % 2 ^ 28 ≠ 0) :
    V.freeSet (s.marked V r v).disk = (V.freeSet s.disk).erase r := by
  ext x
  rw [Finset.mem_erase, Volume.mem_freeSet, Volume.mem_freeSet]
  constructor
  · rintro ⟨hx, h0⟩
    rw [fat_marked hr hx] at h0
    by_cases hxr : x = r
    · rw [if_pos hxr] at h0
      exact absurd h0 hv
    · rw [if_neg hxr] at h0
      exact ⟨hxr, hx, h0⟩
  · rintro ⟨hxr, hx, h0⟩
    rw [fat_marked hr hx, if_neg hxr]
    exact ⟨hx, h0⟩

/-- **A run hands out every free cluster once.** -/
theorem run_handOut (he : e.Reliable) {value : Nat → Nat} (hv : ∀ i, value i % 2 ^ 28 ≠ 0)
    {k i : Nat} (h : s.On V) (hk : (V.freeSet s.disk).card < k) :
    ∃ l s', (handOut value k i).run e s = some (l, s') ∧ l.Nodup ∧
      (∀ c, c ∈ l ↔ c ∈ V.freeSet s.disk) ∧ s'.On V ∧ V.freeSet s'.disk = ∅ := by
  induction k generalizing i s with
  | zero => omega
  | succ k ih =>
      obtain ⟨r, s₁, hfind, hfinds, hon, f, hs₁, -⟩ := findFreeCluster_run (he.enter (.cluster i)) h
      have hdisk : s₁.disk = s.disk := by
        rw [hs₁]
        rfl
      rw [handOut, Prog.run_bind, run_within, hfind, Option.bind_some]
      dsimp only
      rcases hfinds with hfree | ⟨hinvalid, hempty⟩
      · have hr := (Volume.mem_freeSet.mp hfree).1
        have hmark := run_markClusterInFat_of_marks
          ((he.enter (.cluster i)).enter .mark).marks hon hr (value i)
        have hfreeSet : V.freeSet (s₁.marked V r (value i)).disk = (V.freeSet s.disk).erase r := by
          rw [freeSet_marked hr (hv i), hdisk]
        have hcard := Finset.card_erase_add_one hfree
        obtain ⟨l, s', hrest, hnodup, hmem, hon', hnone⟩ :=
          ih (i := i + 1) (hon.marked r (value i)) (by rw [hfreeSet]; omega)
        refine ⟨r :: l, s', ?_, List.nodup_cons.mpr ⟨fun hin => ?_, hnodup⟩, fun c => ?_, hon', hnone⟩
        · rw [if_neg hr.ne_invalidCluster, Prog.run_bind, run_within, run_within, hmark,
            Option.bind_some, Prog.run_bind, hrest]
          rfl
        · rw [hmem, hfreeSet] at hin
          exact Finset.notMem_erase r _ hin
        · rw [List.mem_cons, hmem, hfreeSet, Finset.mem_erase]
          by_cases hc : c = r
          · rw [hc]
            exact iff_of_true (Or.inl rfl) hfree
          · exact ⟨fun hor => (hor.resolve_left hc).2, fun hin => Or.inr ⟨hc, hin⟩⟩
      · rw [if_pos hinvalid]
        refine ⟨[], s₁, rfl, List.nodup_nil, fun c => ?_, hon, ?_⟩
        · rw [hempty]
          exact iff_of_false List.not_mem_nil (Finset.notMem_empty c)
        · rw [hdisk, hempty]

end allocation

/-- **The hint does not matter.** Whatever FSInfo holds, `find_free_cluster` finds a free cluster if
there is one, just as `allocate_new_cluster` does, and changes the hint alone; and pairs of a search
and a mark hand out the free clusters, each of them once, until there is none. -/
theorem findFreeCluster_finds {V : Volume} {e : Env} {s : Fs} (he : e.Reliable) (h : s.On V) :
    (∃ r s', findFreeCluster.run e s = some (r, s') ∧ OnlyHint s s' ∧
      ((∃ c, V.Has c ∧ V.fat s.disk c = 0) → V.Has r ∧ V.fat s.disk r = 0) ∧
      ((¬ ∃ c, V.Has c ∧ V.fat s.disk c = 0) → r = invalidCluster) ∧
      ∃ a t, allocateNewCluster.run e s = some (a, t) ∧
        (r ≠ invalidCluster ↔ a ≠ invalidCluster)) ∧
    ∀ value : Nat → Nat, (∀ i, value i % 2 ^ 28 ≠ 0) →
      ∃ l s', (handOut value steps 0).run e s = some (l, s') ∧ l.Nodup ∧
        (∀ c, c ∈ l ↔ V.Has c ∧ V.fat s.disk c = 0) ∧ ∀ c, V.Has c → V.fat s'.disk c ≠ 0 := by
  constructor
  · obtain ⟨r, s', hrun, hfinds, -, honly⟩ := findFreeCluster_run he h
    obtain ⟨a, t, halloc, hfinds'⟩ := allocateNewCluster_finds he h
    refine ⟨r, s', hrun, honly, ?_, ?_, a, t, halloc, hfinds.ne_invalid.trans hfinds'.ne_invalid.symm⟩
    · rintro ⟨c, hc, h0⟩
      rcases hfinds with hfree | ⟨-, hempty⟩
      · exact Volume.mem_freeSet.mp hfree
      · have hmem := Volume.mem_freeSet.mpr ⟨hc, h0⟩
        rw [hempty] at hmem
        exact absurd hmem (Finset.notMem_empty c)
    · intro hno
      by_contra hr
      obtain ⟨c, hc⟩ := hfinds.ne_invalid.mp hr
      exact hno ⟨c, Volume.mem_freeSet.mp hc⟩
  · intro value hv
    have hcard : (V.freeSet s.disk).card < steps :=
      Nat.lt_trans (V.freeClusters_lt s.disk) (by decide)
    obtain ⟨l, s', hrun, hnodup, hmem, -, hnone⟩ := run_handOut he hv h hcard
    refine ⟨l, s', hrun, hnodup, fun c => (hmem c).trans Volume.mem_freeSet, fun c hc h0 => ?_⟩
    have hin := Volume.mem_freeSet.mpr ⟨hc, h0⟩
    rw [hnone] at hin
    exact absurd hin (Finset.notMem_empty c)

/-- On the small volume the clusters 6 and 7 are free. -/
theorem findFreeCluster_finds_linked :
    ∃ l s', (handOut (fun _ => eocMax) steps 0).run quietEnv linkedFs = some (l, s') ∧ l.Nodup ∧
      ∀ c, c ∈ l ↔ smallVolume.Has c ∧ smallVolume.fat linkedFs.disk c = 0 := by
  obtain ⟨-, hrun⟩ := findFreeCluster_finds quietEnv_reliable
    (show linkedFs.On smallVolume from ⟨rfl, rfl, rfl⟩)
  obtain ⟨l, s', hl, hnodup, hmem, -⟩ := hrun (fun _ => eocMax) fun _ => by decide
  exact ⟨l, s', hl, hnodup, hmem⟩

end MicroKernel.Fat32
