import MicroKernel.Fat32.Scan
import Mathlib.Logic.Relation

set_option autoImplicit false

/-! # What an operation can do

For each operation on the current directory, the states it can return in. The lemmas called
`_cases` hold for every pattern of failing calls or, where they say so, when no call fails; they
hold whatever the FAT and the directories contain, including chains that run in circles or out
of the volume, as long as the operation returns. The invariants of the driver are all derived
from them.
-/

namespace MicroKernel.Fat32

open MicroKernel.Lib Bytes

/-! ## States -/

/-- The state after a `mark_cluster_in_fat` that succeeds. -/
def Fs.marked (s : Fs) (V : Volume) (c v : Nat) : Fs :=
  (s.withDisk (V.setFat s.disk c v V.bs.numberOfFats)).adjustCount (V.fat s.disk c) v

/-- The state after a `write_fsinfo` during which nothing fails. -/
def Fs.flushed (s : Fs) (V : Volume) : Fs := if s.fsinfoValid then s.synced V else s

/-- Moving the free count changes nothing else. -/
theorem Fs.adjustCount_eq (s : Fs) (old v : Nat) :
    ∃ f, s.adjustCount old v = { s with fsinfo := f } := by
  have hu : ∀ delta : Int, ∃ f, s.updateFsinfoFreeCount delta = { s with fsinfo := f } := by
    intro delta
    unfold Fs.updateFsinfoFreeCount
    split
    · exact ⟨s.fsinfo, rfl⟩
    · split
      · exact ⟨s.fsinfo, rfl⟩
      · split
        · exact ⟨_, rfl⟩
        · exact ⟨_, rfl⟩
  unfold Fs.adjustCount
  split
  · exact hu _
  · split
    · exact hu _
    · exact ⟨s.fsinfo, rfl⟩

theorem Fs.withHint_eq (s : Fs) (c : Nat) : ∃ f, s.withHint c = { s with fsinfo := f } := by
  unfold Fs.withHint
  split
  · exact ⟨_, rfl⟩
  · exact ⟨s.fsinfo, rfl⟩

namespace Fs

variable (s : Fs) (V : Volume)

@[simp] theorem withHint_disk (c : Nat) : (s.withHint c).disk = s.disk := by
  obtain ⟨f, hf⟩ := s.withHint_eq c
  rw [hf]
  rfl

@[simp] theorem withHint_cwd (c : Nat) :
    (s.withHint c).currentDirectoryCluster = s.currentDirectoryCluster := by
  obtain ⟨f, hf⟩ := s.withHint_eq c
  rw [hf]

@[simp] theorem withHint_fsinfoValid (c : Nat) : (s.withHint c).fsinfoValid = s.fsinfoValid := by
  obtain ⟨f, hf⟩ := s.withHint_eq c
  rw [hf]

@[simp] theorem marked_disk (c v : Nat) :
    (s.marked V c v).disk = V.setFat s.disk c v V.bs.numberOfFats := by
  unfold marked
  obtain ⟨f, hf⟩ := adjustCount_eq (s.withDisk (V.setFat s.disk c v V.bs.numberOfFats))
    (V.fat s.disk c) v
  rw [hf]
  show (s.withDisk (V.setFat s.disk c v V.bs.numberOfFats)).disk = _
  rw [withDisk_disk]

@[simp] theorem marked_cwd (c v : Nat) :
    (s.marked V c v).currentDirectoryCluster = s.currentDirectoryCluster := by
  unfold marked
  obtain ⟨f, hf⟩ := adjustCount_eq (s.withDisk (V.setFat s.disk c v V.bs.numberOfFats))
    (V.fat s.disk c) v
  rw [hf]
  rfl

@[simp] theorem marked_fsinfoValid (c v : Nat) :
    (s.marked V c v).fsinfoValid = s.fsinfoValid := by
  unfold marked
  obtain ⟨f, hf⟩ := adjustCount_eq (s.withDisk (V.setFat s.disk c v V.bs.numberOfFats))
    (V.fat s.disk c) v
  rw [hf]
  rfl

@[simp] theorem flushed_cwd :
    (s.flushed V).currentDirectoryCluster = s.currentDirectoryCluster := by
  unfold flushed
  split <;> rfl

@[simp] theorem flushed_fsinfo : (s.flushed V).fsinfo = s.fsinfo := by
  unfold flushed
  split <;> rfl

@[simp] theorem flushed_fsinfoValid : (s.flushed V).fsinfoValid = s.fsinfoValid := by
  unfold flushed
  split <;> rfl

end Fs

namespace Fs.Ready

variable {s : Fs} {V : Volume} (h : s.Ready V)

include h

theorem withDisk (d : Disk) : (s.withDisk d).Ready V := ⟨h.on.withDisk d, h.info, h.cwd⟩

theorem withFsinfo (f : Sector) : Fs.Ready { s with fsinfo := f } V :=
  ⟨⟨h.on.boot, h.on.offset, h.on.drive⟩, h.info, h.cwd⟩

theorem withHint (c : Nat) : (s.withHint c).Ready V := by
  obtain ⟨f, hf⟩ := s.withHint_eq c
  rw [hf]
  exact h.withFsinfo f

theorem marked (c v : Nat) : (s.marked V c v).Ready V := by
  unfold Fs.marked
  obtain ⟨f, hf⟩ := Fs.adjustCount_eq (s.withDisk (V.setFat s.disk c v V.bs.numberOfFats))
    (V.fat s.disk c) v
  rw [hf]
  exact (h.withDisk _).withFsinfo f

theorem flushed : (s.flushed V).Ready V := by
  unfold Fs.flushed
  split
  · exact h.withDisk _
  · exact h

end Fs.Ready

/-- The FAT and the clusters are the same. -/
def Volume.SameData (V : Volume) (d d' : Disk) : Prop :=
  ∀ n, V.offset + V.bs.reservedSectorCount ≤ n → d' n = d n

theorem Volume.SameData.rawFat {V : Volume} {d d' : Disk} (h : V.SameData d d') (k c : Nat) :
    V.rawFat d' k c = V.rawFat d k c := by
  unfold Volume.rawFat
  rw [h]
  unfold Volume.fatPos
  omega

theorem Volume.SameData.fat {V : Volume} {d d' : Disk} (h : V.SameData d d') (c : Nat) :
    V.fat d' c = V.fat d c := by
  unfold Volume.fat
  rw [h.rawFat]

theorem Volume.SameData.slot {V : Volume} {d d' : Disk} (h : V.SameData d d') (c i : Nat) :
    V.slot d' c i = V.slot d c i := by
  funext k
  unfold Volume.slot entryAt Volume.clusterBytes
  have := V.dataStart_le_dataPos c
  rw [h]
  unfold Volume.dataStart at this
  omega

/-- FSInfo is no part of the FAT or of a cluster. -/
theorem sameData_flushed {s : Fs} {V : Volume} (h : s.Ready V) :
    V.SameData s.disk (s.flushed V).disk := by
  intro n hn
  unfold Fs.flushed
  split
  next hv =>
    have hlt := h.info hv
    unfold Fs.synced
    rw [Fs.withDisk_disk, Function.update_of_ne]
    unfold Volume.fsinfoPos
    omega
  next => rfl

theorem fat_flushed {s : Fs} {V : Volume} (h : s.Ready V) (c : Nat) :
    V.fat (s.flushed V).disk c = V.fat s.disk c := (sameData_flushed h).fat c

theorem slot_flushed {s : Fs} {V : Volume} (h : s.Ready V) (c i : Nat) :
    V.slot (s.flushed V).disk c i = V.slot s.disk c i := (sameData_flushed h).slot c i

/-- `write_fsinfo`, for every pattern of failing calls. -/
theorem run_writeFsinfo_sameData {s : Fs} {V : Volume} (e : Env) (h : s.Ready V) :
    ∃ b t, writeFsinfo.run e s = some (b, t) ∧ V.SameData s.disk t.disk := by
  obtain ⟨b, hb⟩ := run_writeFsinfo e h.on h.info
  refine ⟨b, _, hb, ?_⟩
  split
  next hv =>
    have := sameData_flushed h
    rwa [Fs.flushed, if_pos hv.1] at this
  next => exact fun n _ => rfl

theorem Env.Reliable.enter {e : Env} (h : e.Reliable) (l : Label) : (e.enter l).Reliable := h

theorem Env.Reliable.fails {e : Env} (h : e.Reliable) (l : Label) : e.fails l = false := h _

/-! ## The FAT -/

section fat

variable {V : Volume} {s s' : Fs} {e : Env}

theorem run_markClusterInFat_reliable (he : e.Reliable) (h : s.On V) {c : Nat} (hc : V.Has c)
    (v : Nat) : (markClusterInFat c v).run e s = some (true, s.marked V c v) := by
  rw [run_markClusterInFat e h hc, he.fails, if_neg (by decide), he.allWritten, if_pos rfl]
  rfl

theorem markClusterInFat_cases (he : e.Reliable) (h : s.On V) {c v : Nat} {b : Bool}
    (hr : (markClusterInFat c v).run e s = some (b, s')) :
    (b = true ∧ V.Has c ∧ s' = s.marked V c v) ∨ (b = false ∧ s' = s) := by
  by_cases hc : V.Has c
  · rw [run_markClusterInFat_reliable he h hc, Option.some.injEq, Prod.mk.injEq] at hr
    exact Or.inl ⟨hr.1.symm, hc, hr.2.symm⟩
  · rw [run_markClusterInFat_of_not_has e h hc, Option.some.injEq, Prod.mk.injEq] at hr
    exact Or.inr ⟨hr.1.symm, hr.2.symm⟩

/-- Some entries are set to zero, one after the other. -/
abbrev Frees (V : Volume) : Fs → Fs → Prop :=
  Relation.ReflTransGen fun s s' => ∃ c, V.Has c ∧ s' = s.marked V c 0

theorem Frees.ready (hf : Frees V s s') (h : s.Ready V) : s'.Ready V := by
  induction hf with
  | refl => exact h
  | tail _ hstep ih =>
      obtain ⟨c, -, rfl⟩ := hstep
      exact ih.marked c 0

theorem Frees.cwd (hf : Frees V s s') :
    s'.currentDirectoryCluster = s.currentDirectoryCluster := by
  induction hf with
  | refl => rfl
  | tail _ hstep ih =>
      obtain ⟨c, -, rfl⟩ := hstep
      rw [Fs.marked_cwd, ih]

theorem Frees.slot (hf : Frees V s s') (c j : Nat) :
    V.slot s'.disk c j = V.slot s.disk c j := by
  induction hf with
  | refl => rfl
  | tail _ hstep ih =>
      obtain ⟨c', hc', rfl⟩ := hstep
      rw [Fs.marked_disk, V.slot_setFat _ hc'.2 (Nat.le_refl _), ih]

theorem Frees.fat (hf : Frees V s s') {y : Nat} (hy : V.Has y) :
    V.fat s'.disk y = 0 ∨ V.fat s'.disk y = V.fat s.disk y := by
  induction hf with
  | refl => exact Or.inr rfl
  | tail _ hstep ih =>
      obtain ⟨c, hc, rfl⟩ := hstep
      rw [Fs.marked_disk, V.fat_setFat _ hc.2 hy.2 V.numberOfFats_pos]
      split
      · exact Or.inl rfl
      · exact ih

theorem freeChainLoop_cases (he : e.Reliable) {k i c : Nat} {b : Bool} (h : s.Ready V)
    (hc : V.Has c) (hr : (freeChainLoop k i c).run e s = some (b, s')) :
    b = true ∧ Frees V s s' := by
  induction k generalizing i c s with
  | zero => cases hr
  | succ k ih =>
      rw [freeChainLoop, Prog.run_bind, run_within, run_within,
        run_getNextClusterInChain _ h.on hc.2, Option.bind_some, Prog.run_bind, run_within,
        run_within, run_markClusterInFat_reliable ((he.enter _).enter _) h.on hc,
        Option.bind_some] at hr
      have hm : Frees V s (s.marked V c 0) := .single ⟨c, hc, rfl⟩
      simp only [Env.fails, Env.enter, he _, Bool.false_eq_true, if_false,
        Bool.not_true] at hr
      rw [Prog.run_ite] at hr
      split at hr
      · simp only [Prog.run_pure, Option.some.injEq, Prod.mk.injEq] at hr
        obtain ⟨rfl, rfl⟩ := hr
        exact ⟨rfl, hm⟩
      next hne =>
        rw [Prog.run_bind, Prog.run_get, Option.bind_some, Prog.run_ite] at hr
        dsimp only at hr
        split at hr
        · simp only [Prog.run_pure, Option.some.injEq, Prod.mk.injEq] at hr
          obtain ⟨rfl, rfl⟩ := hr
          exact ⟨rfl, hm⟩
        next hvalid =>
          -- a valid number below the end-of-chain range is a cluster
          have hlt : nextOf (V.fat s.disk c) < eocMin := by
            unfold nextOf at hne ⊢
            split at hne
            · exact absurd (Or.inl rfl) hne
            · rw [if_neg (by assumption)]
              omega
          have hnext : V.Has (nextOf (V.fat s.disk c)) := by
            rw [(h.marked c 0).on.boot, Bool.not_eq_true', Bool.not_eq_false] at hvalid
            exact (isValidCluster_iff hlt).mp hvalid
          obtain ⟨hb, hf⟩ := ih (h.marked c 0) hnext hr
          exact ⟨hb, hm.trans hf⟩

/-- `free_cluster_chain` of a number that is no cluster fails. An end-of-chain mark passes for a
valid number, but cannot be freed. -/
theorem run_freeClusterChain_of_not_has (e : Env) (h : s.On V) {c : Nat} (hc : ¬ V.Has c) :
    (freeClusterChain c).run e s = some (false, s) := by
  unfold freeClusterChain
  rw [Prog.run_bind, Prog.run_get, Option.bind_some, Prog.run_ite]
  dsimp only
  split
  · rfl
  · obtain ⟨v, hv⟩ := getNextClusterInChain_returns ((e.enter (.cluster 0)).enter .next) s c
    rw [steps, show (2 : Nat) ^ 32 = (2 ^ 32 - 1) + 1 by norm_num, freeChainLoop, Prog.run_bind,
      run_within, run_within, hv, Option.bind_some, Prog.run_bind, run_within, run_within,
      run_markClusterInFat_of_not_has _ h hc, Option.bind_some]
    rfl

/-- **`free_cluster_chain`** fails without a change, or sets some entries to zero. -/
theorem freeClusterChain_cases (he : e.Reliable) (h : s.Ready V) {c : Nat} {b : Bool}
    (hr : (freeClusterChain c).run e s = some (b, s')) :
    (b = false ∧ s' = s) ∨ (b = true ∧ V.Has c ∧ Frees V s s') := by
  by_cases hc : V.Has c
  · unfold freeClusterChain at hr
    rw [Prog.run_bind, Prog.run_get, Option.bind_some, Prog.run_ite] at hr
    dsimp only at hr
    split at hr
    · simp only [Prog.run_pure, Option.some.injEq, Prod.mk.injEq] at hr
      exact Or.inl ⟨hr.1.symm, hr.2.symm⟩
    · obtain ⟨hb, hf⟩ := freeChainLoop_cases he h hc hr
      exact Or.inr ⟨hb, hc, hf⟩
  · rw [run_freeClusterChain_of_not_has e h.on hc, Option.some.injEq, Prod.mk.injEq] at hr
    exact Or.inl ⟨hr.1.symm, hr.2.symm⟩

end fat

/-! ## Directories -/

section directory

variable {V : Volume} {s s' : Fs} {e : Env}

theorem getNextClusterInChain_not_end (e : Env) {c v : Nat}
    (hr : (getNextClusterInChain c).run e s = some (v, s')) : isEndOfClusterChain v = false := by
  unfold isEndOfClusterChain
  rcases (getNextClusterInChain_state e hr).2 with rfl | hlt
  · decide
  · rw [decide_eq_false (by omega)]
    rfl

/-- The buffer after `read_cluster` of the `i`-th cluster of a walk. -/
def Volume.buffer (V : Volume) (e : Env) (d : Disk) (i c : Nat) (b : Bytes) : Bytes :=
  loaded (e.enter (.cluster i)) (V.clusterBytes d c) V.bs.sectorsPerCluster 0 b

/-- How many sectors of the `i`-th cluster of a walk are written back. -/
def Volume.stored (V : Volume) (e : Env) (i : Nat) : Nat :=
  written ((e.enter (.cluster i)).enter .write) V.bs.sectorsPerCluster 0

/-- The loop of `add_entry_to_directory` changes nothing, or writes back one cluster of the walk
in which it has replaced the first slot that looked free. The branch that makes the directory
longer is never taken. `R` is any property of the clusters of the walk. -/
theorem addEntryLoop_cases {R : Nat → Nat → Prop}
    (hR : ∀ i c v entries, R i c → c < eocMin →
      (V.Has c → freeSlot (V.buffer e s.disk i c entries) V.slots = none) →
      (getNextClusterInChain c).run ((e.enter (.cluster i)).enter .next) s = some (v, s) →
      R (i + 1) v)
    (h : s.On V) {x : DirEntry} {parent k i c : Nat} {entries : Bytes} {b : Bool} (hc : R i c)
    (hfree : V.Has c ∨ freeSlot entries V.slots = none)
    (hr : (addEntryLoop x parent k i false c entries).run e s = some (b, s')) :
    (b = false ∧ s' = s) ∨
      (b = true ∧ ∃ i c j entries, R i c ∧ V.Has c ∧
        freeSlot (V.buffer e s.disk i c entries) V.slots = some j ∧
        s' = s.withDisk (V.putCluster s.disk c
          (setEntry (V.buffer e s.disk i c entries) j x) (V.stored e i))) := by
  -- on the turns: `R` holds of the cluster that each of them comes to
  induction k generalizing i c entries with
  | zero => cases hr
  | succ k ih =>
      rw [addEntryLoop, Prog.run_ite] at hr
      split at hr
      · simp only [Prog.run_pure, Option.some.injEq, Prod.mk.injEq] at hr
        exact Or.inl ⟨hr.1.symm, hr.2.symm⟩
      next hlt =>
        rw [not_not] at hlt
        rw [Prog.run_bind_eq_some] at hr
        obtain ⟨buf, s₁, hread, hr⟩ := hr
        rw [run_within] at hread
        -- the buffer: what was read, or what was there before
        have hbuf : s₁ = s ∧ (V.Has c → buf = V.buffer e s.disk i c entries) ∧
            (¬ V.Has c → freeSlot buf V.slots = none) := by
          by_cases hcc : V.Has c
          · rw [run_readCluster _ h hcc, Option.some.injEq, Prod.mk.injEq] at hread
            exact ⟨hread.2.symm, fun _ => hread.1.symm, fun hno => absurd hcc hno⟩
          · rw [run_readCluster_of_not_has _ h hlt hcc, Option.some.injEq, Prod.mk.injEq] at hread
            obtain ⟨rfl, rfl⟩ := hread
            exact ⟨rfl, fun hyes => absurd hyes hcc, fun _ => hfree.resolve_left hcc⟩
        obtain ⟨rfl, hbuf, hno⟩ := hbuf
        rw [Prog.run_bind, Prog.run_get, Option.bind_some] at hr
        dsimp only at hr
        rw [getEntriesPerCluster_eq h] at hr
        cases hslot : freeSlot buf V.slots with
        | some j =>
            have hcc : V.Has c := by
              by_contra hcc
              rw [hno hcc] at hslot
              cases hslot
            obtain rfl := hbuf hcc
            rw [hslot] at hr
            simp only [Prog.run_bind, run_within, run_writeCluster _ h hcc, Option.bind_some,
              Prog.run_pure, Option.some.injEq, Prod.mk.injEq] at hr
            exact Or.inr ⟨hr.1.symm, i, c, j, entries, hc, hcc, hslot, hr.2.symm⟩
        | none =>
            rw [hslot] at hr
            simp only [Bool.false_eq_true, if_false] at hr
            rw [Prog.run_bind_eq_some] at hr
            obtain ⟨v, s₂, hnext, hr⟩ := hr
            rw [run_within, run_within] at hnext
            have hs := (getNextClusterInChain_state _ hnext).1
            subst hs
            have hend := getNextClusterInChain_not_end _ hnext
            simp only [hend, Bool.false_eq_true, if_false] at hr
            refine ih (hR i c v entries hc hlt (fun hcc => ?_) hnext) (Or.inr hslot) hr
            rw [← hbuf hcc, hslot]

/-- The entry that an operation makes. -/
def Env.newEntry (e : Env) (nm : List UInt8) (cluster : Nat) (attributes : UInt8) : DirEntry :=
  newDirectoryEntry (e.clock (.store 0 :: e.path)) (e.clock (.store 1 :: e.path))
    (e.clock (.store 2 :: e.path)) nm cluster attributes

theorem run_createDirectoryEntry (nm : List UInt8) (cluster : Nat) (attributes : UInt8) :
    (createDirectoryEntry nm cluster attributes).run e s
      = some (e.newEntry nm cluster attributes, s) := rfl

/-- A buffer without a failed read. -/
theorem buffer_eq (he : e.Reliable) (d : Disk) (i c : Nat) (b : Bytes) {y : Nat}
    (hy : y / 512 < V.bs.sectorsPerCluster) : V.buffer e d i c b y = V.clusterBytes d c y :=
  loaded_inside _ b ((he.enter _).allLoaded _ _) (Nat.le_refl _) hy

theorem stored_eq (he : e.Reliable) (i : Nat) : V.stored e i = V.bs.sectorsPerCluster :=
  written_of_allWritten (((he.enter _).enter _).allWritten _ _)

/-- **`add_entry_to_directory`** when nothing fails. -/
theorem addEntryToDirectory_cases (he : e.Reliable) {R : Nat → Nat → Prop}
    (hR : ∀ i c v, R i c → c < eocMin →
      (V.Has c → ∀ j, j < V.slots → (V.slot s.disk c j).isFree = false) →
      (getNextClusterInChain c).run ((e.enter (.cluster i)).enter .next) s = some (v, s) →
      R (i + 1) v)
    (h : s.On V) {parent cluster : Nat} {nm : List UInt8} {attributes : UInt8} {b : Bool}
    (hparent : V.Has parent) (h0 : R 0 parent)
    (hr : (addEntryToDirectory parent nm cluster attributes).run e s = some (b, s')) :
    (b = false ∧ s' = s) ∨
      (b = true ∧ ∃ i c j, R i c ∧ V.Has c ∧ j < V.slots ∧ (V.slot s.disk c j).isFree = true ∧
        (∀ j', j' < j → (V.slot s.disk c j').isFree = false) ∧
        s' = s.withDisk (V.putSlot s.disk c j (e.newEntry nm cluster attributes))) := by
  unfold addEntryToDirectory at hr
  rw [Prog.run_bind, run_createDirectoryEntry, Option.bind_some, Prog.run_bind, run_uninitialised,
    Option.bind_some] at hr
  have hent : ∀ i c b j', j' < V.slots →
      entryAt (V.buffer e s.disk i c b) j' = V.slot s.disk c j' :=
    fun i c b j' hj' => entryAt_loaded _ _ _ hj' ((he.enter _).allLoaded _ _)
  have hR' : ∀ i c v entries, R i c → c < eocMin →
      (V.Has c → freeSlot (V.buffer e s.disk i c entries) V.slots = none) →
      (getNextClusterInChain c).run ((e.enter (.cluster i)).enter .next) s = some (v, s) →
      R (i + 1) v := by
    intro i c v entries hc hlt hfull hnext
    refine hR i c v hc hlt (fun hcc j hj => ?_) hnext
    rw [← hent i c entries j hj]
    exact freeSlot_eq_none.mp (hfull hcc) j hj
  rcases addEntryLoop_cases hR' h h0 (Or.inl hparent) hr with
    hf | ⟨hb, i, c, j, b, hc, hcc, hj, hs⟩
  · exact Or.inl hf
  · obtain ⟨hlt, hfree, hbefore⟩ := freeSlot_eq_some_iff.mp hj
    have hlt' : j / 16 < V.bs.sectorsPerCluster := by
      unfold Volume.slots at hlt
      omega
    rw [stored_eq he, V.putCluster_setEntry _ _ fun y hy => buffer_eq he _ _ _ _ hy,
      if_pos hlt'] at hs
    rw [hent i c b j hlt] at hfree
    refine Or.inr ⟨hb, i, c, j, hc, hcc, hlt, hfree, fun j' hj' => ?_, hs⟩
    rw [← hent i c b j' (by omega)]
    exact hbefore j' hj'

/-- `add_entry_to_directory` succeeds where the first cluster has a free slot. -/
theorem exists_addEntryToDirectory (he : e.Reliable) (h : s.On V) {parent : Nat}
    (hparent : V.Has parent) (hfree : ∃ j, j < V.slots ∧ (V.slot s.disk parent j).isFree = true)
    (nm : List UInt8) (cluster : Nat) (attributes : UInt8) :
    ∃ s', (addEntryToDirectory parent nm cluster attributes).run e s = some (true, s') := by
  unfold addEntryToDirectory
  rw [Prog.run_bind, run_createDirectoryEntry, Option.bind_some, Prog.run_bind, run_uninitialised,
    Option.bind_some, steps, show (2 : Nat) ^ 32 = (2 ^ 32 - 1) + 1 by norm_num, addEntryLoop,
    Prog.run_ite, if_neg (not_not.mpr hparent.lt_eocMin), Prog.run_bind, run_within,
    run_readCluster _ h hparent, Option.bind_some, Prog.run_bind, Prog.run_get, Option.bind_some]
  dsimp only
  rw [getEntriesPerCluster_eq h]
  cases hslot : freeSlot (loaded (e.enter (.cluster 0)) (V.clusterBytes s.disk parent)
      V.bs.sectorsPerCluster 0 (e.junk (.insert :: e.path))) V.slots with
  | some j =>
      simp only [Prog.run_bind, run_within, run_writeCluster _ h hparent, Option.bind_some,
        Prog.run_pure]
      exact ⟨_, rfl⟩
  | none =>
      obtain ⟨j, hj, hj'⟩ := hfree
      have hused := freeSlot_eq_none.mp hslot j hj
      rw [entryAt_loaded _ _ _ hj ((he.enter _).allLoaded _ _), hj'] at hused
      cases hused

/-- The buffer of `remove_entry_from_directory` after it has read the first cluster. -/
def Volume.removeBuffer (V : Volume) (e : Env) (d : Disk) (c : Nat) : Bytes :=
  V.buffer e d 0 c (e.junk (.remove :: e.path))

/-- **`remove_entry_from_directory`** when the entry is in the buffer for the first cluster. -/
theorem run_removeEntryFromDirectory (h : s.On V) {parent j : Nat} {x : DirEntry}
    (hparent : V.Has parent)
    (hslot : slotOf x (V.removeBuffer e s.disk parent) V.slots = some j) :
    (removeEntryFromDirectory parent x).run e s
      = some (true, s.withDisk (V.putCluster s.disk parent
          (setEntry (V.removeBuffer e s.disk parent) j zeroEntry) (V.stored e 0))) := by
  unfold removeEntryFromDirectory
  rw [Prog.run_bind, run_uninitialised, Option.bind_some, steps,
    show (2 : Nat) ^ 32 = (2 ^ 32 - 1) + 1 by norm_num, removeEntryLoop, Prog.run_ite,
    if_neg (not_not.mpr hparent.lt_eocMin), Prog.run_bind, run_within,
    run_readCluster _ h hparent, Option.bind_some, Prog.run_bind, Prog.run_get, Option.bind_some]
  dsimp only
  rw [getEntriesPerCluster_eq h]
  unfold Volume.removeBuffer Volume.buffer at hslot ⊢
  rw [hslot]
  simp only [Prog.run_bind, run_within, run_writeCluster _ h hparent, Option.bind_some,
    Prog.run_pure]
  rfl

theorem stored_le (V : Volume) (e : Env) (i : Nat) : V.stored e i ≤ V.bs.sectorsPerCluster :=
  written_le _ _ _

/-- `remove_entry_from_directory` when the sectors that are written back have been read without a
failure, and the first slot with the entry is in one of them. -/
theorem run_removeEntryFromDirectory_of_read (h : s.On V) {parent j : Nat} {x : DirEntry}
    (hparent : V.Has parent) (hl : allLoaded (e.enter (.cluster 0)) (V.stored e 0) 0 = true)
    (hstored : j / 16 < V.stored e 0)
    (hj : ∀ b, (∀ i, i ≤ j → entryAt b i = V.slot s.disk parent i) →
      slotOf x b V.slots = some j) :
    (removeEntryFromDirectory parent x).run e s
      = some (true, s.withDisk (V.putSlot s.disk parent j zeroEntry)) := by
  have hread : ∀ y, y / 512 < V.stored e 0 →
      V.removeBuffer e s.disk parent y = V.clusterBytes s.disk parent y :=
    fun y hy => loaded_inside _ _ hl (stored_le V e 0) hy
  have hslot := hj (V.removeBuffer e s.disk parent) fun i hi => by
    funext k
    have := k.isLt
    exact hread _ (by omega)
  rw [run_removeEntryFromDirectory h hparent hslot, V.putCluster_setEntry _ _ hread,
    if_pos hstored]

end directory

/-! ## Creating -/

section create

variable {V : Volume} {s s' : Fs} {e : Env} {b : Bool}

theorem run_writeFsinfo_reliable (he : e.Reliable) (h : s.Ready V) :
    ∃ b, writeFsinfo.run e s = some (b, s.flushed V) := by
  obtain ⟨b, hb⟩ := run_writeFsinfo e h.on h.info
  refine ⟨b, ?_⟩
  rw [hb, loses_of_not_fails (he.fails _)]
  unfold Fs.flushed
  simp

/-- The end of both create operations, after the new cluster has been marked. -/
abbrev insertEnd (m : Io Bool) (r : Nat) : Io Bool := do
  if !(← within .insert m) then
    let _ ← within .rollback (markClusterInFat r 0)
    return false
  let _ ← within .sync writeFsinfo
  return true

theorem insert_cases (he : e.Reliable) {m : Io Bool} {r : Nat} (hr : V.Has r)
    (hm : ∀ b₁ s₁, m.run (e.enter .insert) s = some (b₁, s₁) → s₁.Ready V)
    (hrun : (insertEnd m r).run e s = some (b, s')) :
    ∃ s₁, m.run (e.enter .insert) s = some (b, s₁) ∧
      s' = if b then s₁.flushed V else s₁.marked V r 0 := by
  rw [Prog.run_bind_eq_some] at hrun
  obtain ⟨b₁, s₁, h1, h2⟩ := hrun
  rw [run_within] at h1
  have hs₁ := hm b₁ s₁ h1
  cases b₁ with
  | false =>
      simp only [Bool.not_false, if_true, Prog.run_bind, run_within,
        run_markClusterInFat_reliable (he.enter _) hs₁.on hr, Option.bind_some, Prog.run_pure,
        Option.some.injEq, Prod.mk.injEq] at h2
      obtain ⟨rfl, rfl⟩ := h2
      exact ⟨s₁, h1, rfl⟩
  | true =>
      obtain ⟨b₂, hb₂⟩ := run_writeFsinfo_reliable (he.enter .sync) hs₁
      simp only [Bool.not_true, Bool.false_eq_true, if_false, Prog.run_bind, run_within, hb₂,
        Option.bind_some, Prog.run_pure, Option.some.injEq, Prod.mk.injEq] at h2
      obtain ⟨rfl, rfl⟩ := h2
      exact ⟨s₁, h1, rfl⟩

/-- The end of both create operations, when the entry is inserted. -/
theorem run_insert (he : e.Reliable) {m : Io Bool} {r : Nat} {s₁ : Fs}
    (hm : m.run (e.enter .insert) s = some (true, s₁)) (h₁ : s₁.Ready V) :
    (insertEnd m r).run e s = some (true, s₁.flushed V) := by
  obtain ⟨b₂, hb₂⟩ := run_writeFsinfo_reliable (he.enter .sync) h₁
  rw [Prog.run_bind, run_within, hm, Option.bind_some]
  simp only [Bool.not_true, Bool.false_eq_true, if_false, Prog.run_bind, run_within, hb₂,
    Option.bind_some, Prog.run_pure]

theorem addEntryToDirectory_ready (he : e.Reliable) (h : s.Ready V) {parent cluster : Nat}
    {nm : List UInt8} {attributes : UInt8} (hparent : V.Has parent)
    (hr : (addEntryToDirectory parent nm cluster attributes).run e s = some (b, s')) :
    s'.Ready V := by
  rcases addEntryToDirectory_cases he (R := fun _ _ => True) (fun _ _ _ _ _ _ _ => trivial) h.on
    hparent trivial hr with ⟨-, rfl⟩ | ⟨-, i, c, j, -, -, -, -, -, rfl⟩
  · exact h
  · exact h.withDisk _

/-- The state after `fat32_create_file` has taken cluster `r`. -/
def Fs.taking (s : Fs) (V : Volume) (r : Nat) : Fs := (s.withHint (r + 1)).marked V r eocMax

theorem Fs.Ready.taking (h : s.Ready V) (r : Nat) : (s.taking V r).Ready V :=
  (h.withHint _).marked _ _

@[simp] theorem Fs.taking_cwd (s : Fs) (V : Volume) (r : Nat) :
    (s.taking V r).currentDirectoryCluster = s.currentDirectoryCluster := by
  simp [Fs.taking]

@[simp] theorem Fs.taking_disk (s : Fs) (V : Volume) (r : Nat) :
    (s.taking V r).disk = V.setFat s.disk r eocMax V.bs.numberOfFats := by
  simp [Fs.taking]

theorem Volume.Has.ne_invalidCluster {r : Nat} (hr : V.Has r) : r ≠ invalidCluster := by
  have := hr.lt_eocMin
  unfold eocMin at this
  unfold invalidCluster
  omega

/-- **`fat32_create_file`** up to the insertion of the entry. -/
theorem run_fat32CreateFile (he : e.Reliable) (h : s.Ready V) (filename : List UInt8) :
    (¬ s.Offers V e ∧ (fat32CreateFile filename).run e s = some (false, s)) ∨
      ∃ r, V.Has r ∧ V.fat s.disk r = 0 ∧ (fat32CreateFile filename).run e s
        = (insertEnd (addEntryToDirectory s.currentDirectoryCluster filename r 0) r).run e
            (s.taking V r) := by
  unfold fat32CreateFile
  rw [Prog.run_bind]
  rcases run_findFreeCluster e h.on with ⟨hno, hf⟩ | ⟨-, r, hr, h0, hf⟩
  · rw [hf]
    exact Or.inl ⟨hno, rfl⟩
  · refine Or.inr ⟨r, hr, h0, ?_⟩
    rw [hf, Option.bind_some]
    dsimp only
    rw [if_neg hr.ne_invalidCluster, Prog.run_bind, run_within,
      run_markClusterInFat_reliable (he.enter _) (h.withHint _).on hr, Option.bind_some]
    simp only [Bool.not_true, Bool.false_eq_true, if_false]
    rw [Prog.run_bind, Prog.run_get, Option.bind_some]
    dsimp only
    rw [Fs.marked_cwd, Fs.withHint_cwd]
    rfl

/-- **`fat32_create_file`** when nothing fails. -/
theorem fat32CreateFile_cases (he : e.Reliable) (h : s.Ready V) {filename : List UInt8}
    (hrun : (fat32CreateFile filename).run e s = some (b, s')) :
    (b = false ∧ s' = s) ∨ ∃ r, V.Has r ∧ V.fat s.disk r = 0 ∧
      ∃ s₁, (addEntryToDirectory s.currentDirectoryCluster filename r 0).run (e.enter .insert)
          (s.taking V r) = some (b, s₁) ∧
        s' = if b then s₁.flushed V else s₁.marked V r 0 := by
  rcases run_fat32CreateFile he h filename with ⟨-, hno⟩ | ⟨r, hr, h0, hend⟩
  · rw [hno, Option.some.injEq, Prod.mk.injEq] at hrun
    exact Or.inl ⟨hrun.1.symm, hrun.2.symm⟩
  · rw [hend] at hrun
    exact Or.inr ⟨r, hr, h0, insert_cases he hr
      (fun _ _ hm => addEntryToDirectory_ready (he.enter _) (h.taking r) h.cwd hm) hrun⟩

/-- There is a free cluster, and the first cluster of the current directory has a free slot. -/
structure Fs.CanCreate (s : Fs) (V : Volume) : Prop where
  cluster : ∃ c, V.Has c ∧ V.fat s.disk c = 0
  slot : ∃ j, j < V.slots ∧ (V.slot s.disk s.currentDirectoryCluster j).isFree = true

theorem Fs.CanCreate.offers (h : s.CanCreate V) (he : e.Reliable) : s.Offers V e := by
  obtain ⟨c, hc, h0⟩ := h.cluster
  exact ⟨c, hc, h0, (he.enter _).fails _⟩

/-- `fat32_create_file` succeeds where there is room. -/
theorem exists_fat32CreateFile (he : e.Reliable) (h : s.Ready V) (hcan : s.CanCreate V)
    (filename : List UInt8) : ∃ s', (fat32CreateFile filename).run e s = some (true, s') := by
  rcases run_fat32CreateFile he h filename with ⟨hno, -⟩ | ⟨r, hr, -, hend⟩
  · exact absurd (hcan.offers he) hno
  · have hslots : ∃ j, j < V.slots ∧
        (V.slot (s.taking V r).disk s.currentDirectoryCluster j).isFree = true := by
      rw [Fs.taking_disk]
      simp only [V.slot_setFat _ hr.2 (Nat.le_refl _)]
      exact hcan.slot
    obtain ⟨s₁, hadd⟩ := exists_addEntryToDirectory (he.enter .insert) (h.taking r).on h.cwd hslots
      filename r 0
    refine ⟨s₁.flushed V, ?_⟩
    rw [hend]
    exact run_insert he hadd (addEntryToDirectory_ready (he.enter _) (h.taking r) h.cwd hadd)

/-- The first cluster of a new directory. -/
def Env.dots (e : Env) (cluster parent : Nat) : Bytes :=
  setEntry (setEntry (fun _ => 0) 0 ((e.enter (.cluster 0)).newEntry [0x2E] cluster 0x10)) 1
    ((e.enter (.cluster 1)).newEntry [0x2E, 0x2E] parent 0x10)

theorem entryAt_dots (e : Env) (cluster parent j : Nat) : entryAt (e.dots cluster parent) j
    = if j = 1 then (e.enter (.cluster 1)).newEntry [0x2E, 0x2E] parent 0x10
      else if j = 0 then (e.enter (.cluster 0)).newEntry [0x2E] cluster 0x10 else zeroEntry := by
  rw [Env.dots, entryAt_setEntry, entryAt_setEntry]
  rfl

/-- The state after `fat32_create_dir` has taken cluster `r` and written it. -/
def Fs.takingDir (s : Fs) (V : Volume) (e : Env) (r : Nat) : Fs :=
  (s.taking V r).withDisk (V.putCluster (s.taking V r).disk r
    ((e.enter .init).dots r s.currentDirectoryCluster) V.bs.sectorsPerCluster)

theorem Fs.Ready.takingDir (h : s.Ready V) (e : Env) (r : Nat) : (s.takingDir V e r).Ready V :=
  (h.taking r).withDisk _

/-- **`fat32_create_dir`** up to the insertion of the entry. -/
theorem run_fat32CreateDir (he : e.Reliable) (h : s.Ready V) (dirname : List UInt8) :
    (¬ s.Offers V e ∧ (fat32CreateDir dirname).run e s = some (false, s)) ∨
      ∃ r, V.Has r ∧ V.fat s.disk r = 0 ∧ (fat32CreateDir dirname).run e s
        = (insertEnd (addEntryToDirectory s.currentDirectoryCluster dirname r 0x10) r).run e
            (s.takingDir V e r) := by
  unfold fat32CreateDir
  rw [Prog.run_bind]
  rcases run_findFreeCluster e h.on with ⟨hno, hf⟩ | ⟨-, r, hr, h0, hf⟩
  · rw [hf]
    exact Or.inl ⟨hno, rfl⟩
  · refine Or.inr ⟨r, hr, h0, ?_⟩
    rw [hf, Option.bind_some]
    dsimp only
    rw [if_neg hr.ne_invalidCluster, Prog.run_bind, run_within,
      run_markClusterInFat_reliable (he.enter _) (h.withHint _).on hr, Option.bind_some]
    simp only [Bool.not_true, Bool.false_eq_true, if_false]
    rw [Prog.run_bind, Prog.run_get, Option.bind_some]
    dsimp only
    rw [Fs.marked_cwd, Fs.withHint_cwd, Prog.run_bind]
    change Option.bind (some ((e.enter .init).dots r s.currentDirectoryCluster,
      s.taking V r)) _ = _
    rw [Option.bind_some]
    dsimp only
    rw [Prog.run_bind, run_within, run_writeCluster _ (h.taking r).on hr, Option.bind_some,
      (he.enter _).allWritten, written_of_allWritten ((he.enter _).allWritten _ _)]
    simp only [Bool.not_true, Bool.false_eq_true, if_false]
    rfl

/-- **`fat32_create_dir`** when nothing fails. -/
theorem fat32CreateDir_cases (he : e.Reliable) (h : s.Ready V) {dirname : List UInt8}
    (hrun : (fat32CreateDir dirname).run e s = some (b, s')) :
    (b = false ∧ s' = s) ∨ ∃ r, V.Has r ∧ V.fat s.disk r = 0 ∧
      ∃ s₁, (addEntryToDirectory s.currentDirectoryCluster dirname r 0x10).run (e.enter .insert)
          (s.takingDir V e r) = some (b, s₁) ∧
        s' = if b then s₁.flushed V else s₁.marked V r 0 := by
  rcases run_fat32CreateDir he h dirname with ⟨-, hno⟩ | ⟨r, hr, h0, hend⟩
  · rw [hno, Option.some.injEq, Prod.mk.injEq] at hrun
    exact Or.inl ⟨hrun.1.symm, hrun.2.symm⟩
  · rw [hend] at hrun
    exact Or.inr ⟨r, hr, h0, insert_cases he hr
      (fun _ _ hm => addEntryToDirectory_ready (he.enter _) (h.takingDir e r) h.cwd hm) hrun⟩

end create

/-! ## Deleting -/

section delete

variable {V : Volume} {s s' : Fs} {e : Env} {b : Bool}

/-- The entry at slot `j` of the current directory, found by its name, has been deleted. -/
def Deletes (V : Volume) (e : Env) (nm : List UInt8) (j : Nat) (s s' : Fs) : Prop :=
  V.FoundAt s.disk s.currentDirectoryCluster nm j ∧
    V.Has (readStartCluster (V.slot s.disk s.currentDirectoryCluster j)) ∧
    ∃ s₁, (freeClusterChain (readStartCluster
        (V.slot s.disk s.currentDirectoryCluster j))).run (e.enter .free) s = some (true, s₁) ∧
      Frees V s s₁ ∧
      s' = (s₁.withDisk (V.putSlot s₁.disk s.currentDirectoryCluster j zeroEntry)).flushed V

/-- Removing the entry that was found, after some FAT entries have been set to zero. -/
theorem run_removeEntry_found (he : e.Reliable) (h : s.Ready V) {nm : List UInt8} {j : Nat}
    (hj : V.FoundAt s.disk s.currentDirectoryCluster nm j) {s₁ : Fs} (hf : Frees V s s₁) :
    (removeEntryFromDirectory s.currentDirectoryCluster
        (V.slot s.disk s.currentDirectoryCluster j)).run e s₁
      = some (true, s₁.withDisk (V.putSlot s₁.disk s.currentDirectoryCluster j zeroEntry)) := by
  have hlt : j / 16 < V.bs.sectorsPerCluster := by
    have := hj.lt
    unfold Volume.slots at this
    omega
  rw [← stored_eq he 0] at hlt
  refine run_removeEntryFromDirectory_of_read (hf.ready h).on h.cwd ((he.enter _).allLoaded _ _)
    hlt fun b hb => hj.slotOf fun i hi => ?_
  rw [hb i hi, hf.slot]

theorem freeAndRemove_cases (he : e.Reliable) (h : s.Ready V) {nm : List UInt8} {j : Nat}
    (hj : V.FoundAt s.disk s.currentDirectoryCluster nm j)
    (hrun : (freeAndRemove (V.slot s.disk s.currentDirectoryCluster j)).run e s = some (b, s')) :
    (b = false ∧ s' = s) ∨ (b = true ∧ Deletes V e nm j s s') := by
  unfold freeAndRemove at hrun
  rw [Prog.run_bind_eq_some] at hrun
  obtain ⟨b₁, s₁, h1, h2⟩ := hrun
  rw [run_within] at h1
  rcases freeClusterChain_cases (he.enter _) h h1 with ⟨rfl, rfl⟩ | ⟨rfl, hstart, hf⟩
  · simp only [Bool.not_false, if_true, Prog.run_pure, Option.some.injEq, Prod.mk.injEq] at h2
    exact Or.inl ⟨h2.1.symm, h2.2.symm⟩
  · right
    have hready := (hf.ready h).withDisk (V.putSlot s₁.disk s.currentDirectoryCluster j zeroEntry)
    obtain ⟨b₂, hb₂⟩ := run_writeFsinfo_reliable (he.enter .sync) hready
    simp only [Bool.not_true, Bool.false_eq_true, if_false, Prog.run_bind, Prog.run_get,
      Option.bind_some, run_within, hf.cwd, run_removeEntry_found (he.enter _) h hj hf, hb₂,
      Prog.run_pure, Option.some.injEq, Prod.mk.injEq] at h2
    exact ⟨h2.1.symm, hj, hstart, s₁, h1, hf, h2.2.symm⟩

/-- **`fat32_delete_file`** when nothing fails. -/
theorem fat32DeleteFile_cases (he : e.Reliable) (h : s.Ready V) {filename : List UInt8}
    (hrun : (fat32DeleteFile filename).run e s = some (b, s')) :
    (b = false ∧ s' = s) ∨ (b = true ∧ ∃ j, Deletes V e filename j s s') := by
  unfold fat32DeleteFile at hrun
  rw [Prog.run_bind_eq_some] at hrun
  obtain ⟨r, s₁, h1, h2⟩ := hrun
  rw [run_within] at h1
  obtain ⟨rfl, rfl | ⟨j, hj, rfl⟩⟩ := findFileInDirectory_cases h h1
  · simp only [Prog.run_pure, Option.some.injEq, Prod.mk.injEq] at h2
    exact Or.inl ⟨h2.1.symm, h2.2.symm⟩
  · rcases freeAndRemove_cases he h hj h2 with hno | ⟨hb, hd⟩
    · exact Or.inl hno
    · exact Or.inr ⟨hb, j, hd⟩

/-- **`fat32_delete_dir`** when nothing fails. -/
theorem fat32DeleteDir_cases (he : e.Reliable) (h : s.Ready V) {dirname : List UInt8}
    (hrun : (fat32DeleteDir dirname).run e s = some (b, s')) :
    (b = false ∧ s' = s) ∨ (b = true ∧ ∃ j, Deletes V e dirname j s s' ∧
      V.bs.sectorsPerCluster = 1 ∧
      V.looksEmpty s.disk (readStartCluster (V.slot s.disk s.currentDirectoryCluster j))
        = true) := by
  unfold fat32DeleteDir at hrun
  rw [Prog.run_bind_eq_some] at hrun
  obtain ⟨r, s₁, h1, h2⟩ := hrun
  rw [run_within] at h1
  obtain ⟨rfl, rfl | ⟨j, hj, rfl⟩⟩ := findFileInDirectory_cases h h1
  · simp only [Prog.run_pure, Option.some.injEq, Prod.mk.injEq] at h2
    exact Or.inl ⟨h2.1.symm, h2.2.symm⟩
  · dsimp only at h2
    rw [Prog.run_bind_eq_some] at h2
    obtain ⟨b₁, s₂, h3, h4⟩ := h2
    rw [run_within] at h3
    obtain ⟨rfl, hone⟩ := isDirectoryEmpty_state _ h3
    rw [h.on.boot] at hone
    cases b₁ with
    | false =>
        simp only [Bool.not_false, if_true, Prog.run_pure, Option.some.injEq,
          Prod.mk.injEq] at h4
        exact Or.inl ⟨h4.1.symm, h4.2.symm⟩
    | true =>
        simp only [Bool.not_true, Bool.false_eq_true, if_false] at h4
        rcases freeAndRemove_cases he h hj h4 with hno | ⟨hb, hd⟩
        · exact Or.inl hno
        · refine Or.inr ⟨hb, j, hd, ((he.enter _).storesOne_iff V).mp hone, ?_⟩
          rw [run_isDirectoryEmpty h.on hone hd.2.1, (he.enter _).fails, if_neg (by decide),
            Option.some.injEq, Prod.mk.injEq] at h3
          exact h3.1

end delete

/-! ## All four -/

/-- The operations on names in the current directory. -/
inductive DirOp where
  | createFile
  | createDir
  | deleteFile
  | deleteDir

/-- The function of the driver. -/
def DirOp.call : DirOp → List UInt8 → Io Bool
  | .createFile => fat32CreateFile
  | .createDir => fat32CreateDir
  | .deleteFile => fat32DeleteFile
  | .deleteDir => fat32DeleteDir

/-- `fat32_delete_dir` finds an entry, and `is_directory_empty` writes over the end of its array. -/
def DirOp.Overruns (op : DirOp) (nm : List UInt8) (e : Env) (s : Fs) : Prop :=
  op = .deleteDir ∧ ∃ x s₁, (findFileInDirectory nm).run (e.enter .find) s = some (some x, s₁) ∧
    (isDirectoryEmpty x).run (e.enter .empty) s₁ = none

/-- What a call may leave behind: the states it returns in, and any state at all when it has written
over the stack. -/
inductive DirOp.Leaves (op : DirOp) (nm : List UInt8) (e : Env) (s : Fs) : Fs → Prop where
  | returned {b : Bool} {s' : Fs} (hrun : (op.call nm).run e s = some (b, s')) : op.Leaves nm e s s'
  | overrun {s' : Fs} (ho : op.Overruns nm e s) : op.Leaves nm e s s'

/-- If `fat32_delete_dir` finds an entry, then `is_directory_empty` stores one sector, for which its
array has room. -/
def DirOp.Fits (op : DirOp) (V : Volume) (e : Env) (nm : List UInt8) (s : Fs) : Prop :=
  op = .deleteDir → (e.enter .find).Searches V →
    ∀ j, V.FoundAt s.disk s.currentDirectoryCluster nm j →
      (e.enter .empty).StoresOne V.bs.sectorsPerCluster

/-- `fat32_delete_file` goes on with the entry that it has found; `fat32_delete_dir` does when
`is_directory_empty` says so. -/
def DirOp.GoesOn (op : DirOp) (V : Volume) (e : Env) (d : Disk) (start : Nat) : Prop :=
  op = .deleteDir → (if (e.enter .empty).fails (.load 0)
    then emptyScan ((e.enter .empty).junk (.load 0 :: (e.enter .empty).path))
    else V.looksEmpty d start) = true

section delete

variable {V : Volume} {s : Fs} {e : Env} {op : DirOp} {nm : List UInt8} {j : Nat}

theorem DirOp.fits_of_one (he : e.Reliable) (hone : V.bs.sectorsPerCluster = 1) (op : DirOp)
    (nm : List UInt8) (s : Fs) : op.Fits V e nm s :=
  fun _ _ _ _ => ((he.enter _).storesOne_iff V).mpr hone

/-- What has no cluster is not removed. -/
theorem run_freeAndRemove_false (e : Env) (h : s.On V) {x : DirEntry}
    (hx : ¬ V.Has (readStartCluster x)) : (freeAndRemove x).run e s = some (false, s) := by
  unfold freeAndRemove
  rw [Prog.run_bind, run_within, run_freeClusterChain_of_not_has (e.enter .free) h hx,
    Option.bind_some]
  rfl

/-- A deletion that finds its entry and goes on with it. -/
theorem run_delete_found (h : s.Ready V) (hop : op = .deleteFile ∨ op = .deleteDir)
    (hfits : op.Fits V e nm s) (he : (e.enter .find).Searches V)
    (hj : V.FoundAt s.disk s.currentDirectoryCluster nm j)
    (hhas : V.Has (readStartCluster (V.slot s.disk s.currentDirectoryCluster j)))
    (hgo : op.GoesOn V e s.disk (readStartCluster (V.slot s.disk s.currentDirectoryCluster j))) :
    (op.call nm).run e s
      = (freeAndRemove (V.slot s.disk s.currentDirectoryCluster j)).run e s := by
  rcases hop with rfl | rfl
  · show (fat32DeleteFile nm).run e s = _
    unfold fat32DeleteFile
    rw [Prog.run_bind, run_within, run_findFileInDirectory he h hj, Option.bind_some]
  · show (fat32DeleteDir nm).run e s = _
    unfold fat32DeleteDir
    rw [Prog.run_bind, run_within, run_findFileInDirectory he h hj, Option.bind_some]
    dsimp only
    rw [Prog.run_bind, run_within, run_isDirectoryEmpty h.on (hfits rfl he j hj) hhas,
      hgo rfl, Option.bind_some]
    rfl

/-- In every other case nothing is done. -/
theorem run_delete_refused (h : s.Ready V) (hop : op = .deleteFile ∨ op = .deleteDir)
    (hfits : op.Fits V e nm s)
    (hno : ∀ j, (e.enter .find).Searches V → V.FoundAt s.disk s.currentDirectoryCluster nm j →
      V.Has (readStartCluster (V.slot s.disk s.currentDirectoryCluster j)) →
      ¬ op.GoesOn V e s.disk (readStartCluster (V.slot s.disk s.currentDirectoryCluster j))) :
    (op.call nm).run e s = some (false, s) := by
  by_cases hex : (e.enter .find).Searches V ∧
      ∃ j, V.FoundAt s.disk s.currentDirectoryCluster nm j
  · obtain ⟨he, j, hj⟩ := hex
    have hfree := fun hhas : ¬ V.Has (readStartCluster
      (V.slot s.disk s.currentDirectoryCluster j)) => run_freeAndRemove_false e h.on hhas
    rcases hop with rfl | rfl
    · show (fat32DeleteFile nm).run e s = _
      unfold fat32DeleteFile
      rw [Prog.run_bind, run_within, run_findFileInDirectory he h hj, Option.bind_some]
      exact hfree fun hhas => hno j he hj hhas fun hop => by cases hop
    · show (fat32DeleteDir nm).run e s = _
      unfold fat32DeleteDir
      rw [Prog.run_bind, run_within, run_findFileInDirectory he h hj, Option.bind_some]
      dsimp only
      have hone := hfits rfl he j hj
      obtain ⟨b, hb⟩ := isDirectoryEmpty_returns s
        (V.slot s.disk s.currentDirectoryCluster j) (by rwa [h.on.boot])
      rw [Prog.run_bind, run_within, hb, Option.bind_some]
      cases b with
      | false => rfl
      | true =>
          refine hfree fun hhas => hno j he hj hhas fun _ => ?_
          rw [run_isDirectoryEmpty h.on hone hhas, Option.some.injEq, Prod.mk.injEq] at hb
          exact hb.1
  · have hfind : (findFileInDirectory nm).run (e.enter .find) s = some (none, s) :=
      run_findFileInDirectory_none h fun he j hj => hex ⟨he, j, hj⟩
    rcases hop with rfl | rfl
    · show (fat32DeleteFile nm).run e s = _
      unfold fat32DeleteFile
      rw [Prog.run_bind, run_within, hfind, Option.bind_some]
      rfl
    · show (fat32DeleteDir nm).run e s = _
      unfold fat32DeleteDir
      rw [Prog.run_bind, run_within, hfind, Option.bind_some]
      rfl

end delete

/-- The state in which a create operation has taken cluster `r`, and perhaps written it, and has
not touched a directory yet. -/
def Prepared (V : Volume) (s : Fs) (r : Nat) (t : Fs) : Prop :=
  t = s.taking V r ∨ ∃ b, t = (s.taking V r).withDisk
    (V.putCluster (s.taking V r).disk r b V.bs.sectorsPerCluster)

/-- What an operation returns, and in which state, when nothing fails. -/
inductive Outcome (V : Volume) (s : Fs) : Bool → Fs → Prop where
  /-- Nothing has changed. -/
  | same : Outcome V s false s
  /-- A cluster has been taken and given back. -/
  | undone {r : Nat} {t : Fs} (hr : V.Has r) (h0 : V.fat s.disk r = 0) (ht : Prepared V s r t) :
      Outcome V s false (t.marked V r 0)
  /-- A cluster has been taken and a slot filled. -/
  | created {r c j : Nat} {t : Fs} (x : DirEntry) (hr : V.Has r) (h0 : V.fat s.disk r = 0)
      (ht : Prepared V s r t) (hc : V.Has c) (hj : j < V.slots) :
      Outcome V s true ((t.withDisk (V.putSlot t.disk c j x)).flushed V)
  /-- Clusters have been given back and a slot emptied. -/
  | deleted {e : Env} {nm : List UInt8} {j : Nat} {s' : Fs} (hd : Deletes V e nm j s s') :
      Outcome V s true s'

section outcome

variable {V : Volume} {s s' : Fs} {e : Env} {b : Bool}

theorem Prepared.ready {r : Nat} {t : Fs} (ht : Prepared V s r t) (h : s.Ready V) : t.Ready V := by
  rcases ht with rfl | ⟨b, rfl⟩
  · exact h.taking r
  · exact (h.taking r).withDisk _

theorem Prepared.cwd {r : Nat} {t : Fs} (ht : Prepared V s r t) :
    t.currentDirectoryCluster = s.currentDirectoryCluster := by
  rcases ht with rfl | ⟨b, rfl⟩
  · exact s.taking_cwd V r
  · exact s.taking_cwd V r

/-- The FAT once a cluster has been taken. -/
theorem Prepared.fat {r c : Nat} {t : Fs} (ht : Prepared V s r t) (hr : V.Has r) (hc : V.Has c) :
    V.fat t.disk c = if c = r then eocMax else V.fat s.disk c := by
  rcases ht with rfl | ⟨b, rfl⟩
  · rw [Fs.taking_disk, V.fat_setFat _ hr.2 hc.2 V.numberOfFats_pos]
    rfl
  · rw [Fs.withDisk_disk, V.fat_putCluster _ _ hc.2, Fs.taking_disk,
      V.fat_setFat _ hr.2 hc.2 V.numberOfFats_pos]
    rfl

/-- The slots of the other clusters, once a cluster has been taken. -/
theorem Prepared.slot {r c j : Nat} {t : Fs} (ht : Prepared V s r t) (hr : V.Has r)
    (hc : V.Has c) (hcr : c ≠ r) (hj : j < V.slots) : V.slot t.disk c j = V.slot s.disk c j := by
  rcases ht with rfl | ⟨b, rfl⟩
  · rw [Fs.taking_disk, V.slot_setFat _ hr.2 (Nat.le_refl _)]
  · rw [Fs.withDisk_disk, V.slot_putCluster_ne _ _ hr.1 hc.1 hcr (Nat.le_refl _) hj,
      Fs.taking_disk, V.slot_setFat _ hr.2 (Nat.le_refl _)]

theorem outcome_of_insert (he : e.Reliable) (h : s.Ready V) {r : Nat} {t s₁ : Fs}
    {nm : List UInt8} {attributes : UInt8} (hr : V.Has r) (h0 : V.fat s.disk r = 0)
    (ht : Prepared V s r t)
    (hadd : (addEntryToDirectory s.currentDirectoryCluster nm r attributes).run e t
      = some (b, s₁)) :
    Outcome V s b (if b then s₁.flushed V else s₁.marked V r 0) := by
  rcases addEntryToDirectory_cases he (R := fun _ _ => True) (fun _ _ _ _ _ _ _ => trivial)
    (ht.ready h).on h.cwd trivial hadd with ⟨rfl, rfl⟩ | ⟨rfl, i, c, j, -, hc, hj, -, -, rfl⟩
  · exact .undone hr h0 ht
  · exact .created _ hr h0 ht hc hj

/-- **Every operation**, when nothing fails. -/
theorem DirOp.outcome (he : e.Reliable) (h : s.Ready V) (op : DirOp) {nm : List UInt8}
    (hrun : (op.call nm).run e s = some (b, s')) : Outcome V s b s' := by
  cases op with
  | createFile =>
      rcases fat32CreateFile_cases he h hrun with ⟨rfl, rfl⟩ | ⟨r, hr, h0, s₁, hadd, rfl⟩
      · exact .same
      · exact outcome_of_insert (he.enter _) h hr h0 (Or.inl rfl) hadd
  | createDir =>
      rcases fat32CreateDir_cases he h hrun with ⟨rfl, rfl⟩ | ⟨r, hr, h0, s₁, hadd, rfl⟩
      · exact .same
      · exact outcome_of_insert (he.enter _) h hr h0 (Or.inr ⟨_, rfl⟩) hadd
  | deleteFile =>
      rcases fat32DeleteFile_cases he h hrun with ⟨rfl, rfl⟩ | ⟨rfl, j, hd⟩
      · exact .same
      · exact .deleted hd
  | deleteDir =>
      rcases fat32DeleteDir_cases he h hrun with ⟨rfl, rfl⟩ | ⟨rfl, j, hd, -, -⟩
      · exact .same
      · exact .deleted hd

/-- A call that writes over the stack has no outcome. -/
theorem DirOp.Overruns.run_eq_none {op : DirOp} {nm : List UInt8} (ho : op.Overruns nm e s) :
    (op.call nm).run e s = none := by
  obtain ⟨rfl, x, s₁, hfind, hempty⟩ := ho
  change (fat32DeleteDir nm).run e s = none
  unfold fat32DeleteDir
  rw [Prog.run_bind, run_within, hfind, Option.bind_some]
  dsimp only
  rw [Prog.run_bind, run_within, hempty]
  rfl

theorem DirOp.overruns_iff (h : s.Ready V) {op : DirOp} {nm : List UInt8} :
    op.Overruns nm e s ↔ ¬ op.Fits V e nm s := by
  constructor
  · rintro ⟨rfl, x, s₁, hfind, hempty⟩ hfits
    by_cases hex : (e.enter .find).Searches V ∧
        ∃ j, V.FoundAt s.disk s.currentDirectoryCluster nm j
    · obtain ⟨he, j, hj⟩ := hex
      obtain ⟨rfl, -⟩ := findFileInDirectory_cases h hfind
      obtain ⟨b, hb⟩ := isDirectoryEmpty_returns s₁ x
        (by rw [h.on.boot]; exact hfits rfl he j hj)
      rw [hb] at hempty
      cases hempty
    · rw [run_findFileInDirectory_none h fun he j hj => hex ⟨he, j, hj⟩] at hfind
      cases hfind
  · intro hno
    unfold DirOp.Fits at hno
    push Not at hno
    obtain ⟨rfl, he, j, hj, hone⟩ := hno
    refine ⟨rfl, _, s, run_findFileInDirectory he h hj, run_isDirectoryEmpty_none _ ?_⟩
    rwa [h.on.boot]

/-- **Every operation** that leaves the stack alone. -/
theorem DirOp.outcome_of_fits (he : e.Reliable) (h : s.Ready V) {op : DirOp} {nm : List UInt8}
    (hfits : op.Fits V e nm s) (hl : op.Leaves nm e s s') :
    ∃ b, (op.call nm).run e s = some (b, s') ∧ Outcome V s b s' := by
  cases hl with
  | returned hrun => exact ⟨_, hrun, op.outcome he h hrun⟩
  | overrun ho => exact absurd hfits ((DirOp.overruns_iff h).mp ho)

theorem Outcome.ready (ho : Outcome V s b s') (h : s.Ready V) : s'.Ready V := by
  cases ho with
  | same => exact h
  | undone _ _ ht => exact (ht.ready h).marked _ _
  | created x _ _ ht _ _ => exact ((ht.ready h).withDisk _).flushed
  | deleted hd =>
      obtain ⟨-, -, s₁, -, hf, rfl⟩ := hd
      exact ((hf.ready h).withDisk _).flushed

end outcome

end MicroKernel.Fat32
