import MicroKernel.Fat32.Image
import MicroKernel.Lib.Chain

set_option autoImplicit false

/-! # Cluster chains

A chain of the FAT as a list of clusters, and what the functions that walk along chains do on
one: `add_entry_to_directory` looks at its clusters in order, and `free_cluster_chain` frees all
of them.
-/

namespace MicroKernel.Fat32

open MicroKernel.Lib Bytes

/-! ## Chains of the FAT -/

namespace Volume

variable (V : Volume) (d : Disk)

/-- Where the chain goes after cluster `c`. -/
def link (c : Nat) : Link Nat :=
  if V.Has c then
    if eocMin ≤ V.fat d c then .stop
    else if V.fat d c = 0 then .broken
    else .next (V.fat d c)
  else .broken

/-- A well-formed chain from `c`. -/
abbrev Chain (c : Nat) (l : List Nat) : Prop := Lib.Chain (V.link d) c l

variable {V d} {c c' : Nat} {l : List Nat}

theorem link_eq_stop (h : V.link d c = .stop) : V.Has c ∧ eocMin ≤ V.fat d c := by
  unfold link at h
  split at h
  next hc =>
    split at h
    next he => exact ⟨hc, he⟩
    next => split at h <;> cases h
  next => cases h

theorem link_eq_next (h : V.link d c = .next c') :
    V.Has c ∧ V.fat d c = c' ∧ c' < eocMin ∧ c' ≠ 0 := by
  unfold link at h
  split at h
  next hc =>
    split at h
    next => cases h
    next he =>
      split at h
      next => cases h
      next h0 =>
        cases h
        exact ⟨hc, rfl, by omega, h0⟩
  next => cases h

theorem link_congr {d' : Disk} (h : V.Has c → V.fat d' c = V.fat d c) :
    V.link d' c = V.link d c := by
  unfold link
  by_cases hc : V.Has c
  · rw [h hc]
  · rw [if_neg hc, if_neg hc]

theorem Chain.has (h : V.Chain d c l) (hc' : c' ∈ l) : V.Has c' := by
  by_contra hno
  refine h.link_ne_broken hc' ?_
  unfold link
  rw [if_neg hno]

theorem Chain.fat_ne_zero (h : V.Chain d c l) (hc' : c' ∈ l) : V.fat d c' ≠ 0 := by
  intro h0
  refine h.link_ne_broken hc' ?_
  unfold link
  rw [if_pos (Chain.has h hc'), if_neg (by rw [h0]; decide), if_pos h0]

theorem Chain.congr_fat {d' : Disk} (h : V.Chain d c l)
    (hd : ∀ x, x ∈ l → V.fat d' x = V.fat d x) : V.Chain d' c l :=
  h.congr fun x hx => link_congr fun _ => hd x hx

/-- A chain is shorter than the bound on walks. -/
theorem Chain.length_lt (h : V.Chain d c l) : l.length < steps := by
  have hle : l.length ≤ V.total := h.length_le fun x hx => (Chain.has h hx).2
  have := V.total_lt
  unfold eocMin at this
  unfold steps
  omega

end Volume

/-! ## Adding an entry along a chain -/

section walk

variable {V : Volume} {s : Fs} {e : Env}

theorem run_getNext_reliable (he : e.Reliable) (h : s.On V) {c : Nat} (hc : V.Has c) :
    (getNextClusterInChain c).run e s = some (nextOf (V.fat s.disk c), s) := by
  rw [run_getNextClusterInChain e h hc.2, he.fails, if_neg (by decide)]

/-- The slots in the buffer after the reads of a cluster. -/
theorem entryAt_buffer (e : Env) (d : Disk) (i c : Nat) (b : Bytes) {q : Nat} (hq : q < V.slots) :
    entryAt (V.buffer e d i c b) q
      = if (e.enter (.cluster i)).fails (.load (q / 16)) then entryAt b q else V.slot d c q := by
  unfold Volume.slots at hq
  funext k
  have hk := k.isLt
  have hx : (32 * q + k.val) / 512 = q / 16 := by omega
  unfold entryAt Volume.buffer
  rw [loaded_eq, hx]
  cases hf : (e.enter (.cluster i)).fails (.load (q / 16)) with
  | true => simp
  | false =>
      rw [if_pos ⟨Nat.zero_le _, by omega, rfl⟩, if_neg (by decide)]
      rfl

/-- Where the walk of `add_entry_to_directory` ends: at the cluster with its number in the walk,
the slot that looks free and the buffer. -/
structure Insertion where
  step : Nat
  cluster : Nat
  slot : Nat
  buffer : Bytes

/-- The walk of `add_entry_to_directory` along a list of clusters, from the `i`-th on. -/
def Volume.insertion (V : Volume) (e : Env) (d : Disk) : Nat → List Nat → Bytes → Option Insertion
  | _, [], _ => none
  | i, c :: l, b =>
      match freeSlot (V.buffer e d i c b) V.slots with
      | some j => some ⟨i, c, j, V.buffer e d i c b⟩
      | none =>
          if ((e.enter (.cluster i)).enter .next).fails .fat then none
          else V.insertion e d (i + 1) l (V.buffer e d i c b)

/-- The result of the walk. At the end of the chain, and when the FAT cannot be read, the next
cluster is the invalid marker, which is not an end-of-chain mark: the loop gives up. -/
def Fs.inserted (s : Fs) (V : Volume) (e : Env) (x : DirEntry) : Option Insertion → Bool × Fs
  | none => (false, s)
  | some p => (true, s.withDisk (V.putCluster s.disk p.cluster (setEntry p.buffer p.slot x)
      (V.stored e p.step)))

/-- **The loop of `add_entry_to_directory`** along a chain, for every pattern of failing calls. -/
theorem run_addEntryLoop (e : Env) (h : s.On V) (x : DirEntry) (parent : Nat) {c : Nat}
    {l : List Nat} (hl : V.Chain s.disk c l) {k i : Nat} (hk : l.length < k) (entries : Bytes) :
    (addEntryLoop x parent k i false c entries).run e s
      = some (s.inserted V e x (V.insertion e s.disk i l entries)) := by
  -- one round of the loop
  have hround : ∀ {c k i : Nat} (entries : Bytes), V.Has c →
      (addEntryLoop x parent (k + 1) i false c entries).run e s
        = match freeSlot (V.buffer e s.disk i c entries) V.slots with
          | some j => some (s.inserted V e x (some ⟨i, c, j, V.buffer e s.disk i c entries⟩))
          | none => (addEntryLoop x parent k (i + 1) false
              (if ((e.enter (.cluster i)).enter .next).fails .fat then invalidCluster
                else nextOf (V.fat s.disk c)) (V.buffer e s.disk i c entries)).run e s := by
    intro c k i entries hc
    have hnext := run_getNextClusterInChain ((e.enter (.cluster i)).enter .next) h hc.2
    have hend := getNextClusterInChain_not_end _ hnext
    rw [addEntryLoop, Prog.run_ite, if_neg (not_not.mpr hc.lt_eocMin), Prog.run_bind, run_within,
      run_readCluster _ h hc, Option.bind_some, Prog.run_bind, Prog.run_get, Option.bind_some]
    dsimp only
    rw [getEntriesPerCluster_eq h]
    unfold Volume.buffer
    cases freeSlot (loaded (e.enter (.cluster i)) (V.clusterBytes s.disk c)
      V.bs.sectorsPerCluster 0 entries) V.slots with
    | some j =>
        simp only [Prog.run_bind, run_within, run_writeCluster _ h hc, Option.bind_some,
          Prog.run_pure]
        rfl
    | none =>
        simp only [Bool.false_eq_true, if_false, Prog.run_bind, run_within, hnext,
          Option.bind_some, hend]
  -- the loop after the end of the chain
  have hgiveUp : ∀ {k i : Nat} (entries : Bytes), 0 < k →
      (addEntryLoop x parent k i false invalidCluster entries).run e s = some (false, s) := by
    intro k i entries hk
    obtain ⟨k, rfl⟩ := Nat.exists_eq_add_of_le' hk
    rw [addEntryLoop, Prog.run_ite, if_pos (by decide), Prog.run_pure]
  -- along the chain, with a turn left behind its last cluster
  induction hl generalizing k i entries with
  | last hs =>
      obtain ⟨hc, hend⟩ := Volume.link_eq_stop hs
      rw [List.length_singleton] at hk
      obtain ⟨k, rfl⟩ := Nat.exists_eq_add_of_le' (Nat.one_le_of_lt hk)
      rw [hround entries hc, Volume.insertion]
      split
      · rfl
      · rw [nextOf, if_pos hend, ite_self, hgiveUp _ (by omega)]
        split
        · rfl
        · rfl
  | @cons _ c' _ hn hl ih =>
      obtain ⟨hc, hnext, hlt, -⟩ := Volume.link_eq_next hn
      rw [List.length_cons] at hk
      obtain ⟨k, rfl⟩ := Nat.exists_eq_add_of_le' (Nat.one_le_of_lt hk)
      rw [hround entries hc, Volume.insertion]
      split
      · rfl
      · cases ((e.enter (.cluster i)).enter .next).fails .fat with
        | true =>
            rw [if_pos rfl, if_pos rfl, hgiveUp _ (by omega)]
            rfl
        | false =>
            rw [if_neg (by decide), if_neg (by decide), hnext, nextOf, if_neg (by omega)]
            exact ih (by omega) _

/-- A directory without a free slot. -/
theorem insertion_full (he : e.Reliable) (d : Disk) {l : List Nat}
    (hfull : ∀ c, c ∈ l → ∀ j, j < V.slots → (V.slot d c j).isFree = false) (i : Nat) (b : Bytes) :
    V.insertion e d i l b = none := by
  induction l generalizing i b with
  | nil => rfl
  | cons c l ih =>
      have hslot : freeSlot (V.buffer e d i c b) V.slots = none := by
        refine freeSlot_eq_none.mpr fun j hj => ?_
        rw [entryAt_buffer _ _ _ _ _ hj, (he.enter _).fails, if_neg (by decide)]
        exact hfull c List.mem_cons_self j hj
      rw [Volume.insertion, hslot]
      dsimp only
      rw [((he.enter _).enter _).fails, if_neg (by decide)]
      exact ih (fun c' hc' => hfull c' (List.mem_cons_of_mem _ hc')) _ _

end walk

/-! ## Marking a cluster -/

/-- Nothing fails in a `mark_cluster_in_fat` that runs in this environment. -/
def Volume.Marks (V : Volume) (e : Env) : Prop :=
  e.fails .fat = false ∧ allWritten e V.bs.numberOfFats 0 = true

/-- A `mark_cluster_in_fat` in this environment fails before it changes anything: it cannot read
the FAT, or its first write does not get to the disk. -/
def Env.Aborts (e : Env) : Prop := e.fails .fat = true ∨ e.loses (.store 0) = true

section mark

variable {V : Volume} {s : Fs} {e : Env}

theorem Env.Reliable.marks (he : e.Reliable) : V.Marks e := ⟨he.fails _, he.allWritten _ _⟩

theorem written_eq_zero {n : Nat} (hn : 0 < n) : written e n 0 = 0 ↔ e.loses (.store 0) = true := by
  obtain ⟨n, rfl⟩ := Nat.exists_eq_add_of_le' hn
  unfold written
  cases e.loses (.store 0) with
  | true => simp
  | false =>
      cases (e.fails (.store 0) || e.fails (.verify 0)) with
      | true => simp
      | false => simp

theorem Volume.Marks.not_aborts (hm : V.Marks e) : ¬ e.Aborts := by
  have hpos := V.numberOfFats_pos
  rintro (hf | hf)
  · rw [hm.1] at hf
    cases hf
  · rw [← written_eq_zero hpos, written_of_allWritten hm.2] at hf
    omega

theorem run_markClusterInFat_of_marks (hm : V.Marks e) (h : s.On V) {c : Nat} (hc : V.Has c)
    (v : Nat) : (markClusterInFat c v).run e s = some (true, s.marked V c v) := by
  rw [run_markClusterInFat e h hc, hm.1, if_neg (by decide), hm.2, if_pos rfl]
  rfl

theorem run_markClusterInFat_of_aborts (ha : e.Aborts) (h : s.On V) {c : Nat} (hc : V.Has c)
    (v : Nat) : (markClusterInFat c v).run e s = some (false, s) := by
  rw [run_markClusterInFat e h hc]
  cases hf : e.fails .fat with
  | true => rfl
  | false =>
      have hs : e.loses (.store 0) = true := by
        rcases ha with hf' | hs
        · rw [hf] at hf'
          cases hf'
        · exact hs
      have hw := (written_eq_zero V.numberOfFats_pos).mpr hs
      have hno : ¬ allWritten e V.bs.numberOfFats 0 = true := by
        intro hall
        have := V.numberOfFats_pos
        rw [written_of_allWritten hall] at hw
        omega
      rw [if_neg (by decide), if_neg hno, hw, V.setFat_zero, Fs.withDisk_self]

/-- Between the two: some copies have been written, and the caller is told that it failed. -/
theorem run_markClusterInFat_partial (ha : ¬ e.Aborts) (hm : ¬ V.Marks e) (h : s.On V) {c : Nat}
    (hc : V.Has c) (v : Nat) :
    ∃ m, 0 < m ∧ m ≤ V.bs.numberOfFats ∧
      (markClusterInFat c v).run e s = some (false, s.withDisk (V.setFat s.disk c v m)) := by
  have hf : e.fails .fat = false := by
    rw [Bool.eq_false_iff]
    exact fun hf => ha (Or.inl hf)
  have hno : ¬ allWritten e V.bs.numberOfFats 0 = true := fun hall => hm ⟨hf, hall⟩
  refine ⟨written e V.bs.numberOfFats 0, ?_, written_le _ _ _, ?_⟩
  · rw [Nat.pos_iff_ne_zero]
    exact fun h0 => ha (Or.inr ((written_eq_zero V.numberOfFats_pos).mp h0))
  · rw [run_markClusterInFat e h hc, hf, if_neg (by decide), if_neg hno]

theorem fat_marked {c v y : Nat} (hc : V.Has c) (hy : V.Has y) :
    V.fat (s.marked V c v).disk y = if y = c then v % 2 ^ 28 else V.fat s.disk y := by
  rw [Fs.marked_disk, V.fat_setFat _ hc.2 hy.2 V.numberOfFats_pos]

theorem fat_marked_self {c : Nat} (hc : V.Has c) : V.fat (s.marked V c 0).disk c = 0 := by
  rw [fat_marked hc hc, if_pos rfl, Nat.zero_mod]

end mark

/-! ## Freeing a chain -/

/-- `free_cluster_chain`, at the `i`-th cluster of its walk, frees the clusters of the list: all
marks succeed, and so do the reads that lead from one cluster to the next. -/
def Volume.FreesAll (V : Volume) (e : Env) : Nat → List Nat → Prop
  | _, [] => True
  | i, _ :: l => V.Marks ((e.enter (.cluster i)).enter .mark) ∧
      (l ≠ [] → ((e.enter (.cluster i)).enter .next).fails .fat = false) ∧ V.FreesAll e (i + 1) l

/-- Nothing has changed but FAT entries of the clusters in the list. -/
structure FreedWithin (V : Volume) (l : List Nat) (s s₁ : Fs) : Prop where
  ready : s₁.Ready V
  cwd : s₁.currentDirectoryCluster = s.currentDirectoryCluster
  data : ∀ c, V.clusterBytes s₁.disk c = V.clusterBytes s.disk c
  fat : ∀ y, V.Has y → y ∉ l → V.fat s₁.disk y = V.fat s.disk y

/-- What `free_cluster_chain`, at the `i`-th cluster of its walk along the list, has done. -/
structure FreeOutcome (V : Volume) (e : Env) (i c : Nat) (l : List Nat) (s : Fs) (b : Bool)
    (s₁ : Fs) : Prop where
  within : FreedWithin V l s s₁
  aborted : ((e.enter (.cluster i)).enter .mark).Aborts → b = false ∧ s₁ = s
  first : ¬ ((e.enter (.cluster i)).enter .mark).Aborts → V.fat s₁.disk c = 0
  returns : V.FreesAll e i l → b = true
  complete : b = true → (V.FreesAll e i l ↔ ∀ y, y ∈ l → V.fat s₁.disk y = 0)

section free

variable {V : Volume} {s s₁ s₂ : Fs} {e : Env}

theorem Env.Reliable.freesAll (he : e.Reliable) (i : Nat) (l : List Nat) : V.FreesAll e i l := by
  induction l generalizing i with
  | nil => trivial
  | cons c l ih =>
      exact ⟨((he.enter _).enter _).marks, fun _ => ((he.enter _).enter _).fails _, ih (i + 1)⟩

theorem FreedWithin.refl (h : s.Ready V) (l : List Nat) : FreedWithin V l s s :=
  ⟨h, rfl, fun _ => rfl, fun _ _ _ => rfl⟩

theorem FreedWithin.cons {l : List Nat} {a : Nat} (h1 : FreedWithin V [a] s s₁)
    (h2 : FreedWithin V l s₁ s₂) : FreedWithin V (a :: l) s s₂ where
  ready := h2.ready
  cwd := by rw [h2.cwd, h1.cwd]
  data := fun c => by rw [h2.data, h1.data]
  fat := by
    intro y hy hmem
    rw [List.mem_cons, not_or] at hmem
    rw [h2.fat y hy hmem.2, h1.fat y hy (by simpa using hmem.1)]

theorem FreedWithin.slot {l : List Nat} (h : FreedWithin V l s s₁) (c j : Nat) :
    V.slot s₁.disk c j = V.slot s.disk c j := by
  unfold Volume.slot
  rw [h.data]

theorem freedWithin_marked (h : s.Ready V) {a : Nat} (ha : V.Has a) {l : List Nat} (hl : a ∈ l) :
    FreedWithin V l s (s.marked V a 0) where
  ready := h.marked a 0
  cwd := s.marked_cwd V a 0
  data := fun c => by rw [Fs.marked_disk, V.clusterBytes_setFat _ ha.2 (Nat.le_refl _)]
  fat := by
    intro y hy hmem
    rw [fat_marked ha hy, if_neg]
    rintro rfl
    exact hmem hl

/-- The FAT after a chain has been freed without a failure. -/
theorem FreeOutcome.fat {i c : Nat} {l : List Nat} {b : Bool} (h : FreeOutcome V e i c l s b s₁)
    (hall : V.FreesAll e i l) {y : Nat} (hy : V.Has y) :
    V.fat s₁.disk y = if y ∈ l then 0 else V.fat s.disk y := by
  split
  next hmem => exact (h.complete (h.returns hall)).mp hall y hmem
  next hmem => exact h.within.fat y hy hmem

/-- A walk goes on with every number below the markers of an end. -/
theorem goes_on {c : Nat} (hc : c < eocMin) :
    ¬ (c = invalidCluster ∨ isEndOfClusterChain c = true) := by
  simp only [isEndOfClusterChain, invalidCluster, Bool.and_eq_true, decide_eq_true_eq]
  unfold eocMin at *
  omega

/-! ### One turn of the loop -/

section turn

variable {c c' k i : Nat} {l : List Nat}

theorem run_freeChainLoop_unmarked (h : s.On V) (hc : V.Has c)
    (hmark : (markClusterInFat c 0).run ((e.enter (.cluster i)).enter .mark) s = some (false, s₁)) :
    (freeChainLoop (k + 1) i c).run e s = some (false, s₁) := by
  rw [freeChainLoop, Prog.run_bind, run_within, run_within, run_getNextClusterInChain _ h hc.2,
    Option.bind_some, Prog.run_bind, run_within, run_within, hmark]
  rfl

theorem run_freeChainLoop_marked (h : s.Ready V) (hc : V.Has c)
    (hm : V.Marks ((e.enter (.cluster i)).enter .mark)) (hc' : V.Has c')
    (hnext : nextOf (V.fat s.disk c) = c' ∨ nextOf (V.fat s.disk c) = invalidCluster) :
    (freeChainLoop (k + 1) i c).run e s
      = if ((e.enter (.cluster i)).enter .next).fails .fat = true ∨
            nextOf (V.fat s.disk c) = invalidCluster then some (true, s.marked V c 0)
        else (freeChainLoop k (i + 1) c').run e (s.marked V c 0) := by
  rw [freeChainLoop, Prog.run_bind, run_within, run_within, run_getNextClusterInChain _ h.on hc.2,
    Option.bind_some, Prog.run_bind, run_within, run_within,
    run_markClusterInFat_of_marks hm h.on hc, Option.bind_some]
  simp only [Bool.not_true, Bool.false_eq_true, if_false]
  by_cases hend : ((e.enter (.cluster i)).enter .next).fails .fat = true ∨
      nextOf (V.fat s.disk c) = invalidCluster
  · -- a link that cannot be read is the invalid marker as well
    have hinv : (if ((e.enter (.cluster i)).enter .next).fails .fat = true then invalidCluster
        else nextOf (V.fat s.disk c)) = invalidCluster := by
      split
      next => rfl
      next hread => exact hend.resolve_left hread
    rw [hinv, if_pos (Or.inl rfl), if_pos hend]
    rfl
  · have hval : nextOf (V.fat s.disk c) = c' := hnext.resolve_right fun h0 => hend (Or.inr h0)
    rw [if_neg fun hread => hend (Or.inl hread), if_neg hend, hval, if_neg (goes_on hc'.lt_eocMin),
      Prog.run_bind, Prog.run_get, Option.bind_some]
    dsimp only
    rw [(h.marked c 0).on.boot, (isValidCluster_iff hc'.lt_eocMin).mpr hc', Bool.not_true,
      if_neg (by decide)]

/-- Nothing has happened. -/
theorem freeOutcome_of_aborts (h : s.Ready V) (hab : ((e.enter (.cluster i)).enter .mark).Aborts) :
    FreeOutcome V e i c (c :: l) s false s :=
  ⟨.refl h _, fun _ => ⟨rfl, rfl⟩, fun hno => absurd hab hno,
    fun hall => absurd hab hall.1.not_aborts, fun hb => by cases hb⟩

/-- Some copies of the FAT have been written. -/
theorem freeOutcome_of_partial (h : s.Ready V) (hc : V.Has c)
    (hab : ¬ ((e.enter (.cluster i)).enter .mark).Aborts)
    (hm : ¬ V.Marks ((e.enter (.cluster i)).enter .mark)) {m : Nat} (hpos : 0 < m)
    (hle : m ≤ V.bs.numberOfFats) :
    FreeOutcome V e i c (c :: l) s false (s.withDisk (V.setFat s.disk c 0 m)) := by
  refine ⟨⟨h.withDisk _, rfl, fun c' => ?_, fun y hy hmem => ?_⟩,
    fun hab' => absurd hab' hab, fun _ => ?_, fun hall => absurd hall.1 hm, fun hb => by cases hb⟩
  · rw [Fs.withDisk_disk, V.clusterBytes_setFat _ hc.2 hle]
  · rw [Fs.withDisk_disk, V.fat_setFat _ hc.2 hy.2 hpos, if_neg]
    rintro rfl
    exact hmem List.mem_cons_self
  · rw [Fs.withDisk_disk, V.fat_setFat _ hc.2 hc.2 hpos, if_pos rfl, Nat.zero_mod]

/-- The last cluster has been marked. -/
theorem freeOutcome_last (h : s.Ready V) (hc : V.Has c)
    (hm : V.Marks ((e.enter (.cluster i)).enter .mark)) :
    FreeOutcome V e i c [c] s true (s.marked V c 0) := by
  have hzero := fat_marked_self (s := s) hc
  refine ⟨freedWithin_marked h hc (List.mem_singleton_self c),
    fun hab => absurd hab hm.not_aborts, fun _ => hzero, fun _ => rfl, fun _ => ?_⟩
  refine ⟨fun _ y hy => ?_, fun _ => ⟨hm, fun hne => absurd rfl hne, trivial⟩⟩
  rw [List.mem_singleton] at hy
  rw [hy, hzero]

/-- The rest of a chain is not changed by the mark. -/
theorem fat_marked_rest (hc : V.Has c) (hl : V.Chain s.disk c' l) (hnotin : c ∉ l) {y : Nat}
    (hy : y ∈ l) : V.fat (s.marked V c 0).disk y = V.fat s.disk y := by
  rw [fat_marked hc (Volume.Chain.has hl hy), if_neg]
  rintro rfl
  exact hnotin hy

/-- The chain seems to end here: the call succeeds, the rest stays allocated. -/
theorem freeOutcome_cut (h : s.Ready V) (hc : V.Has c)
    (hm : V.Marks ((e.enter (.cluster i)).enter .mark)) (hl : V.Chain s.disk c' l) (hnotin : c ∉ l)
    (hnext : ((e.enter (.cluster i)).enter .next).fails .fat = true) :
    FreeOutcome V e i c (c :: l) s true (s.marked V c 0) := by
  refine ⟨freedWithin_marked h hc List.mem_cons_self, fun hab => absurd hab hm.not_aborts,
    fun _ => fat_marked_self hc, fun _ => rfl, fun _ => ⟨fun hall => ?_, fun hall => ?_⟩⟩
  · have hne : l ≠ [] := by
      obtain ⟨l', rfl⟩ := hl.eq_cons
      simp
    have := hall.2.1 hne
    rw [hnext] at this
    cases this
  · have h0 := hall c' (List.mem_cons_of_mem _ hl.head_mem)
    rw [fat_marked_rest hc hl hnotin hl.head_mem] at h0
    exact absurd h0 (Volume.Chain.fat_ne_zero hl hl.head_mem)

/-- The rest of the chain has been walked along after the mark. -/
theorem FreeOutcome.cons {b : Bool} (h : s.Ready V) (hc : V.Has c)
    (hm : V.Marks ((e.enter (.cluster i)).enter .mark)) (hnotin : c ∉ l)
    (hnext : ((e.enter (.cluster i)).enter .next).fails .fat = false)
    (ho : FreeOutcome V e (i + 1) c' l (s.marked V c 0) b s₁) : FreeOutcome V e i c (c :: l) s b s₁ := by
  have hfirst : V.fat s₁.disk c = 0 := by
    rw [ho.within.fat c hc hnotin, fat_marked_self hc]
  refine ⟨(freedWithin_marked h hc (List.mem_singleton_self c)).cons ho.within,
    fun hab => absurd hab hm.not_aborts, fun _ => hfirst, fun hall => ho.returns hall.2.2,
    fun hb => ⟨fun hall y hy => ?_, fun hall => ?_⟩⟩
  · rcases List.mem_cons.mp hy with rfl | hy
    · exact hfirst
    · exact (ho.complete hb).mp hall.2.2 y hy
  · refine ⟨hm, fun _ => hnext, (ho.complete hb).mpr fun y hy => ?_⟩
    exact hall y (List.mem_cons_of_mem _ hy)

end turn

theorem run_freeChainLoop {l : List Nat} {c k i : Nat} (h : s.Ready V) (hl : V.Chain s.disk c l)
    (hk : l.length ≤ k) :
    ∃ b s₁, (freeChainLoop k i c).run e s = some (b, s₁) ∧ FreeOutcome V e i c l s b s₁ := by
  induction l generalizing s c k i with
  | nil =>
      obtain ⟨l', hl'⟩ := hl.eq_cons
      cases hl'
  | cons a l ih =>
      obtain ⟨k, rfl⟩ := Nat.exists_eq_add_of_le' (Nat.one_le_of_lt hk)
      have hc := hl.has hl.head_mem
      obtain rfl : c = a := by
        obtain ⟨l', hl'⟩ := hl.eq_cons
        cases hl'
        rfl
      by_cases hab : ((e.enter (.cluster i)).enter .mark).Aborts
      · exact ⟨false, s, run_freeChainLoop_unmarked h.on hc
          (run_markClusterInFat_of_aborts hab h.on hc 0), freeOutcome_of_aborts h hab⟩
      by_cases hm : V.Marks ((e.enter (.cluster i)).enter .mark)
      · cases hl with
        | last hs =>
            have hinv : nextOf (V.fat s.disk c) = invalidCluster := by
              rw [nextOf, if_pos (Volume.link_eq_stop hs).2]
            refine ⟨true, s.marked V c 0, ?_, freeOutcome_last h hc hm⟩
            rw [run_freeChainLoop_marked h hc hm hc (Or.inr hinv), if_pos (Or.inr hinv)]
        | @cons _ c' _ hn hl =>
            obtain ⟨-, hfat, hlt, -⟩ := Volume.link_eq_next hn
            have hc' := Volume.Chain.has hl hl.head_mem
            have hnotin : c ∉ l := (List.nodup_cons.mp (Lib.Chain.cons hn hl).nodup).1
            have hval : nextOf (V.fat s.disk c) = c' := by
              rw [nextOf, hfat, if_neg (by omega)]
            rw [run_freeChainLoop_marked h hc hm hc' (Or.inl hval), hval]
            cases hnext : ((e.enter (.cluster i)).enter .next).fails .fat with
            | true =>
                exact ⟨true, _, if_pos (Or.inl rfl), freeOutcome_cut h hc hm hl hnotin hnext⟩
            | false =>
                obtain ⟨b, s₁, hrun, ho⟩ := ih (i := i + 1) (h.marked c 0)
                  (Volume.Chain.congr_fat hl fun y hy => fat_marked_rest hc hl hnotin hy)
                  (by simpa using hk)
                refine ⟨b, s₁, ?_, ho.cons h hc hm hnotin hnext⟩
                rw [if_neg (by simpa using hc'.ne_invalidCluster), hrun]
      · obtain ⟨m, hpos, hle, hrun⟩ := run_markClusterInFat_partial hab hm h.on hc 0
        exact ⟨false, _, run_freeChainLoop_unmarked h.on hc hrun,
          freeOutcome_of_partial h hc hab hm hpos hle⟩

/-- **`free_cluster_chain`** on a chain, for every pattern of failing calls. -/
theorem run_freeClusterChain {l : List Nat} {c : Nat} (e : Env) (h : s.Ready V)
    (hl : V.Chain s.disk c l) :
    ∃ b s₁, (freeClusterChain c).run e s = some (b, s₁) ∧ FreeOutcome V e 0 c l s b s₁ := by
  have hc := hl.has hl.head_mem
  obtain ⟨b, s₁, hrun, ho⟩ := run_freeChainLoop (e := e) (i := 0) h hl (Nat.le_of_lt hl.length_lt)
  refine ⟨b, s₁, ?_, ho⟩
  unfold freeClusterChain
  rw [Prog.run_bind, Prog.run_get, Option.bind_some]
  dsimp only
  rw [h.on.boot, (isValidCluster_iff hc.lt_eocMin).mpr hc, Bool.not_true, if_neg (by decide)]
  exact hrun

end free

end MicroKernel.Fat32
