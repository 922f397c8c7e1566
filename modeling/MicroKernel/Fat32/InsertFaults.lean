import MicroKernel.Fat32.Faults

set_option autoImplicit false

/-! # Inserting an entry while calls fail

The second half of `fat32_create_file` and `fat32_create_dir`: with a cluster marked, an entry is
put into the current directory, or the mark is taken back. The directory is read without a check
and written back without a look at the result, and the way back may stop after some copies of the
FAT. `Volume.InsertsCleanly` says which failing calls do no harm; for all others there is
something that the stack can hold with which they do (`exists_notAtomic`).
-/

namespace MicroKernel.Fat32

open MicroKernel.Lib Bytes

/-! ## The walk along the directory -/

/-- The two walks end at the same place with the same entries in the buffer. -/
structure Insertion.Same (V : Volume) (p p' : Insertion) : Prop where
  step : p.step = p'.step
  cluster : p.cluster = p'.cluster
  slot : p.slot = p'.slot
  entries : ∀ q, q < V.slots → entryAt p.buffer q = entryAt p'.buffer q

section walk

variable {V : Volume} {e : Env} {d d' : Disk} {i c : Nat} {l : List Nat} {b b' : Bytes}

theorem freeSlot_congr {n : Nat} (h : ∀ q, q < n → entryAt b q = entryAt b' q) :
    freeSlot b n = freeSlot b' n := by
  cases hs : freeSlot b' n with
  | none =>
      rw [freeSlot_eq_none] at hs ⊢
      intro q hq
      rw [h q hq, hs q hq]
  | some j =>
      rw [freeSlot_eq_some_iff] at hs ⊢
      obtain ⟨hj, hfree, hbefore⟩ := hs
      refine ⟨hj, by rw [h j hj, hfree], fun q hq => ?_⟩
      rw [h q (by omega), hbefore q hq]

theorem insertion_cons_congr
    (hbuffer : ∀ q, q < V.slots →
      entryAt (V.buffer e d i c b) q = entryAt (V.buffer e d' i c b') q)
    (htail : Option.Rel (Insertion.Same V)
      (V.insertion e d (i + 1) l (V.buffer e d i c b))
      (V.insertion e d' (i + 1) l (V.buffer e d' i c b'))) :
    Option.Rel (Insertion.Same V) (V.insertion e d i (c :: l) b)
      (V.insertion e d' i (c :: l) b') := by
  rw [Volume.insertion, Volume.insertion, freeSlot_congr hbuffer]
  cases freeSlot (V.buffer e d' i c b') V.slots with
  | some j => exact .some ⟨rfl, rfl, rfl, hbuffer⟩
  | none =>
      dsimp only
      split
      · exact .none
      · exact htail

/-- The walk depends only on the slots of the clusters and of the buffer it starts with. -/
theorem insertion_congr
    (hslot : ∀ c, c ∈ l → ∀ q, q < V.slots → V.slot d c q = V.slot d' c q)
    (hb : ∀ q, q < V.slots → entryAt b q = entryAt b' q) :
    Option.Rel (Insertion.Same V) (V.insertion e d i l b) (V.insertion e d' i l b') := by
  induction l generalizing i b b' with
  | nil => exact .none
  | cons c l ih =>
      have hbuffer : ∀ q, q < V.slots →
          entryAt (V.buffer e d i c b) q = entryAt (V.buffer e d' i c b') q := by
        intro q hq
        rw [entryAt_buffer _ _ _ _ _ hq, entryAt_buffer _ _ _ _ _ hq, hb q hq,
          hslot c List.mem_cons_self q hq]
      exact insertion_cons_congr hbuffer
        (ih (fun c' hc' => hslot c' (List.mem_cons_of_mem _ hc')) hbuffer)

theorem insertion_mem {p : Insertion} (h : V.insertion e d i l b = some p) :
    p.cluster ∈ l ∧ p.slot < V.slots := by
  induction l generalizing i b with
  | nil => cases h
  | cons c l ih =>
      rw [Volume.insertion] at h
      split at h
      next j hj =>
        cases h
        exact ⟨List.mem_cons_self, (freeSlot_eq_some_iff.mp hj).1⟩
      next =>
        split at h
        · cases h
        · obtain ⟨h1, h2⟩ := ih h
          exact ⟨List.mem_cons_of_mem _ h1, h2⟩

/-- What the slots of the clusters and of the first buffer have in common, the slots of the last
buffer have too. -/
theorem insertion_entries {P : DirEntry → Prop} {p : Insertion}
    (hslot : ∀ c, c ∈ l → ∀ q, q < V.slots → P (V.slot d c q))
    (hb : ∀ q, q < V.slots → P (entryAt b q)) (h : V.insertion e d i l b = some p) :
    ∀ q, q < V.slots → P (entryAt p.buffer q) := by
  induction l generalizing i b with
  | nil => cases h
  | cons c l ih =>
      have hbuffer : ∀ q, q < V.slots → P (entryAt (V.buffer e d i c b) q) := by
        intro q hq
        rw [entryAt_buffer _ _ _ _ _ hq]
        split
        · exact hb q hq
        · exact hslot c List.mem_cons_self q hq
      rw [Volume.insertion] at h
      split at h
      next =>
        cases h
        exact hbuffer
      next =>
        split at h
        · cases h
        · exact ih (fun c' hc' => hslot c' (List.mem_cons_of_mem _ hc')) hbuffer h

end walk

/-! ## All or nothing -/

/-- A live entry for the name, with a first cluster that was free on `d` and is marked in every
copy of the FAT on `d'`. -/
structure Volume.NewEntry (V : Volume) (d d' : Disk) (nm : List UInt8) (x : DirEntry) : Prop where
  live : x.isLive = true
  name : ∀ i, i < 11 → DirEntry.name x i = convertTo83Format nm i
  has : V.Has (readStartCluster x)
  free : V.fat d (readStartCluster x) = 0
  marked : ∀ k, k < V.bs.numberOfFats → V.rawFat d' k (readStartCluster x) % 2 ^ 28 ≠ 0

/-- What a creation that has returned `b` owes: after a success one free slot of the directory
holds a new entry and the others are as before, after a failure nothing has changed. -/
structure CreateAtomic (V : Volume) (s : Fs) (nm : List UInt8) (l : List Nat) (b : Bool) (s' : Fs) :
    Prop where
  created : b = true → ∃ c j, c ∈ l ∧ j < V.slots ∧ (V.slot s.disk c j).isFree = true ∧
    V.NewEntry s.disk s'.disk nm (V.slot s'.disk c j) ∧
    ∀ c', c' ∈ l → ∀ j', j' < V.slots → (c', j') ≠ (c, j) →
      V.slot s'.disk c' j' = V.slot s.disk c' j'
  undone : b = false →
    (∀ k, k < V.bs.numberOfFats → ∀ y, y < V.total →
      V.rawFat s'.disk k y = V.rawFat s.disk k y) ∧
    ∀ c, c ∈ l → ∀ j, j < V.slots → V.slot s'.disk c j = V.slot s.disk c j

/-- A `mark_cluster_in_fat` in this environment writes all copies of the FAT. Nobody looks at its
result when it takes a mark back, so the last check may fail. -/
def Volume.Undoes (V : Volume) (e : Env) : Prop :=
  e.fails .fat = false ∧ written e V.bs.numberOfFats 0 = V.bs.numberOfFats

/-- The entry goes into a slot that is free, in a sector that is written back, and what is written
back beside it is what the disk holds. -/
structure Insertion.Clean (V : Volume) (e : Env) (d : Disk) (p : Insertion) : Prop where
  stored : p.slot / 16 < V.stored e p.step
  free : (V.slot d p.cluster p.slot).isFree = true
  same : ∀ q, q < V.slots → q / 16 < V.stored e p.step → q ≠ p.slot →
    entryAt p.buffer q = V.slot d p.cluster q

/-- The walk ends with a clean insertion, or with nothing and the mark is taken back. -/
def Volume.EndsCleanly (V : Volume) (e : Env) (d : Disk) (undone : Prop) : Option Insertion → Prop
  | none => undone
  | some p => p.Clean V e d

/-- The calls that fail while an entry is put into the directory `dir` with the chain `l` do no
harm: with a copy of the first cluster in the buffer at the start the walk ends cleanly, and the
first cluster is read without a failure, as far as it is written back if it has a free slot and
as a whole otherwise. -/
structure Volume.InsertsCleanly (V : Volume) (e : Env) (d : Disk) (dir : Nat) (l : List Nat)
    (undone : Prop) : Prop where
  ends : V.EndsCleanly e d undone (V.insertion e d 0 l (V.clusterBytes d dir))
  read : allLoaded (e.enter (.cluster 0)) (if (freeSlot (V.clusterBytes d dir) V.slots).isSome
    then V.stored e 0 else V.bs.sectorsPerCluster) 0 = true

/-! ## Inserting an entry, or taking the mark back -/

/-- Cluster `r` has been marked in all copies of the FAT; the directory with the chain `l` and the
other entries of the FAT are as in `s`. -/
structure Allocated (V : Volume) (s : Fs) (r : Nat) (l : List Nat) (t : Fs) : Prop where
  ready : t.Ready V
  rawFat : ∀ k, k < V.bs.numberOfFats → ∀ y, y < V.total → V.rawFat t.disk k y
    = if y = r then withLow28 (V.rawFat s.disk k r) eocMax else V.rawFat s.disk k y
  slot : ∀ c, c ∈ l → ∀ q, q < V.slots → V.slot t.disk c q = V.slot s.disk c q

/-- The end of both create operations. -/
def insertOrUndo (parent : Nat) (nm : List UInt8) (cluster : Nat) (attributes : UInt8) :
    Io Bool := do
  if !(← within .insert (addEntryToDirectory parent nm cluster attributes)) then
    let _ ← within .rollback (markClusterInFat cluster 0)
    return false
  let _ ← within .sync writeFsinfo
  return true

section insert

variable {V : Volume} {s t : Fs} {e : Env} {r : Nat} {l : List Nat}

/-- The disk after `mark_cluster_in_fat`, for every pattern of failing calls. -/
theorem run_markClusterInFat_disk (e : Env) (h : s.On V) {c : Nat} (hc : V.Has c) (v : Nat) :
    ∃ b s', (markClusterInFat c v).run e s = some (b, s') ∧
      s'.disk = if e.fails .fat then s.disk
        else V.setFat s.disk c v (written e V.bs.numberOfFats 0) := by
  rw [run_markClusterInFat e h hc]
  cases e.fails .fat with
  | true => exact ⟨false, s, rfl, rfl⟩
  | false =>
      simp only [Bool.false_eq_true, if_false]
      split
      next hall =>
        refine ⟨true, s.marked V c v, rfl, ?_⟩
        rw [Fs.marked_disk, written_of_allWritten hall]
      next => exact ⟨false, _, rfl, Fs.withDisk_disk _ _⟩

/-- Taking the mark back restores the FAT exactly when all copies are written. -/
theorem run_rollback (ht : Allocated V s r l t) (hm : V.Mirrored s.disk) (hr : V.Has r)
    (h0 : V.fat s.disk r = 0) :
    ∃ b s', (markClusterInFat r 0).run e t = some (b, s') ∧
      (V.Undoes e ↔ ∀ k, k < V.bs.numberOfFats → ∀ y, y < V.total →
        V.rawFat s'.disk k y = V.rawFat s.disk k y) ∧
      ∀ c, c ∈ l → ∀ q, q < V.slots → V.slot s'.disk c q = V.slot s.disk c q := by
  obtain ⟨b, s', hrun, hdisk⟩ := run_markClusterInFat_disk e ht.ready.on hr 0
  have hle := written_le e V.bs.numberOfFats 0
  have hpos := V.numberOfFats_pos
  have hraw : ∀ k, k < V.bs.numberOfFats → V.rawFat s.disk k r % 2 ^ 28 = 0 := by
    intro k hk
    rw [hm.rawFat hk hr.2]
    exact h0
  -- the mark is still there in a copy that is not written
  have hkept : ∀ k, k < V.bs.numberOfFats → V.rawFat t.disk k r ≠ V.rawFat s.disk k r := by
    intro k hk
    have := hraw k hk
    rw [ht.rawFat k hk r hr.2, if_pos rfl]
    unfold withLow28 eocMax
    omega
  refine ⟨b, s', hrun, ⟨fun hu k hk y hy => ?_, fun hsame => ?_⟩, fun c hc q hq => ?_⟩
  · rw [hdisk, hu.1, if_neg (by decide), hu.2, V.rawFat_setFat _ hr.2 hy]
    have hk0 := hraw 0 hpos
    have hlt := V.rawFat_lt s.disk 0 r
    by_cases hyr : y = r
    · subst hyr
      rw [if_pos ⟨hk, rfl⟩, if_pos rfl, ht.rawFat 0 hpos y hy, if_pos rfl, hm.rawFat hk hy]
      unfold withLow28 eocMax
      omega
    · rw [if_neg hyr, ht.rawFat 0 hpos y hy, if_neg hyr, ht.rawFat k hk y hy, if_neg hyr,
        hm.rawFat hk hy, ite_self]
  · by_contra hno
    cases hf : e.fails .fat with
    | true =>
        refine hkept 0 hpos ?_
        rw [← hsame 0 hpos r hr.2, hdisk, hf, if_pos rfl]
    | false =>
        have hlt : written e V.bs.numberOfFats 0 < V.bs.numberOfFats :=
          Nat.lt_of_le_of_ne hle fun heq => hno ⟨hf, heq⟩
        refine hkept _ hlt ?_
        rw [← hsame _ hlt r hr.2, hdisk, hf, if_neg (by decide), V.rawFat_setFat _ hr.2 hr.2,
          if_neg (by omega)]
  · rw [hdisk]
    split
    · exact ht.slot c hc q hq
    · rw [V.slot_setFat _ hr.2 hle, ht.slot c hc q hq]

/-- How `insertOrUndo` ends: nothing was inserted and the mark is taken back, or the buffer is
written back with the new entry `x`. -/
def Ends (V : Volume) (e : Env) (s : Fs) (r : Nat) (l : List Nat) (x : DirEntry) (b : Bool)
    (s' : Fs) : Option Insertion → Prop
  | none => b = false ∧
      (V.Undoes (e.enter .rollback) ↔ ∀ k, k < V.bs.numberOfFats → ∀ y, y < V.total →
        V.rawFat s'.disk k y = V.rawFat s.disk k y) ∧
      ∀ c, c ∈ l → ∀ q, q < V.slots → V.slot s'.disk c q = V.slot s.disk c q
  | some p => b = true ∧
      (∀ k, k < V.bs.numberOfFats → V.rawFat s'.disk k r % 2 ^ 28 ≠ 0) ∧
      ∀ c, c ∈ l → ∀ q, q < V.slots → V.slot s'.disk c q
        = if c = p.cluster ∧ q / 16 < V.stored (e.enter .insert) p.step then
            if q = p.slot then x else entryAt p.buffer q
          else V.slot s.disk c q

theorem run_insertOrUndo (e : Env) (hl : V.Chain s.disk s.currentDirectoryCluster l)
    (hm : V.Mirrored s.disk) (hr : V.Has r) (h0 : V.fat s.disk r = 0)
    (ht : Allocated V s r l t) (nm : List UInt8) (attributes : UInt8) :
    ∃ b s', (insertOrUndo s.currentDirectoryCluster nm r attributes).run e t = some (b, s') ∧
      Ends V e s r l ((e.enter .insert).newEntry nm r attributes) b s'
        (V.insertion (e.enter .insert) s.disk 0 l
          ((e.enter .insert).junk (.insert :: (e.enter .insert).path))) := by
  -- the mark on `r` is not on the chain of the directory
  have hlt : V.Chain t.disk s.currentDirectoryCluster l := by
    refine hl.congr_fat fun y hy => ?_
    unfold Volume.fat
    rw [ht.rawFat 0 V.numberOfFats_pos y (hl.has hy).2, if_neg]
    rintro rfl
    exact hl.fat_ne_zero hy h0
  have hadd : (addEntryToDirectory s.currentDirectoryCluster nm r attributes).run (e.enter .insert) t
      = some (t.inserted V (e.enter .insert) ((e.enter .insert).newEntry nm r attributes)
          (V.insertion (e.enter .insert) t.disk 0 l
            ((e.enter .insert).junk (.insert :: (e.enter .insert).path)))) := by
    unfold addEntryToDirectory
    rw [Prog.run_bind, run_createDirectoryEntry, Option.bind_some, Prog.run_bind,
      run_uninitialised, Option.bind_some]
    exact run_addEntryLoop _ ht.ready.on _ _ hlt hlt.length_lt _
  -- the slot is the one that the disk before the mark would have given
  have hrel := insertion_congr (e := e.enter .insert) (i := 0)
    (b := (e.enter .insert).junk (.insert :: (e.enter .insert).path)) ht.slot fun _ _ => rfl
  unfold insertOrUndo
  rw [Prog.run_bind, run_within, hadd, Option.bind_some]
  cases hp : V.insertion (e.enter .insert) t.disk 0 l
      ((e.enter .insert).junk (.insert :: (e.enter .insert).path)) with
  | none =>
      -- no slot has been found, and the mark is taken back
      rw [hp] at hrel
      generalize V.insertion (e.enter .insert) s.disk 0 l _ = o at hrel
      cases hrel
      obtain ⟨b, s', hrun, hundo, hslots⟩ := run_rollback (e := e.enter .rollback) ht hm hr h0
      refine ⟨false, s', ?_, rfl, hundo, hslots⟩
      simp only [Fs.inserted, Bool.not_false, if_true, Prog.run_bind, run_within, hrun,
        Option.bind_some, Prog.run_pure]
  | some p =>
      -- FSInfo is written as well, which is neither in the FAT nor in the directory
      obtain ⟨hcl, -⟩ := insertion_mem hp
      rw [hp] at hrel
      generalize V.insertion (e.enter .insert) s.disk 0 l _ = o at hrel
      cases hrel with
      | @some _ p' hsame =>
          obtain ⟨b, s', hrun, hdata⟩ := run_writeFsinfo_sameData (e.enter .sync)
            (ht.ready.withDisk (V.putCluster t.disk p.cluster (setEntry p.buffer p.slot
              ((e.enter .insert).newEntry nm r attributes))
              (V.stored (e.enter .insert) p.step)))
          rw [Fs.withDisk_disk] at hdata
          refine ⟨true, s', ?_, rfl, fun k hk => ?_, fun c hc q hq => ?_⟩
          · simp only [Fs.inserted, Bool.not_true, Bool.false_eq_true, if_false, Prog.run_bind,
              run_within, hrun, Option.bind_some, Prog.run_pure]
          · rw [hdata.rawFat, V.rawFat_putCluster _ _ hk hr.2, ht.rawFat k hk r hr.2, if_pos rfl,
              withLow28_mod]
            decide
          · rw [hdata.slot, ← hsame.cluster, ← hsame.step, ← hsame.slot]
            by_cases hcc : c = p.cluster
            · rw [hcc, V.slot_putCluster_same, entryAt_setEntry, hsame.entries q hq,
                ← hcc, ht.slot c hc q hq]
              simp
            · rw [V.slot_putCluster_ne _ _ (hl.has hcl).1 (hl.has hc).1 hcc
                (stored_le V _ _) hq, ht.slot c hc q hq, if_neg fun hand => hcc hand.1]

/-- A clean end is all or nothing. -/
theorem atomic_of_endsCleanly {nm : List UInt8} {attributes : UInt8} {b : Bool} {s' : Fs}
    {o : Option Insertion} (ha : (attributes &&& 0x0F == 0x0F) = false) (hr : V.Has r)
    (h0 : V.fat s.disk r = 0) (ho : ∀ p, o = some p → p.cluster ∈ l ∧ p.slot < V.slots)
    (hends : Ends V e s r l ((e.enter .insert).newEntry nm r attributes) b s' o)
    (hclean : V.EndsCleanly (e.enter .insert) s.disk (V.Undoes (e.enter .rollback)) o) :
    CreateAtomic V s nm l b s' := by
  cases o with
  | none =>
      obtain ⟨rfl, hundo, hslots⟩ := hends
      refine ⟨fun hb => ?_, fun _ => ⟨hundo.mp hclean, hslots⟩⟩
      cases hb
  | some p =>
      obtain ⟨rfl, hmarked, hslots⟩ := hends
      obtain ⟨hc, hj⟩ := ho p rfl
      have hstart := newEntry_start (e := e.enter .insert) nm attributes hr.lt_u32
      have hnew := hslots p.cluster hc p.slot hj
      rw [if_pos ⟨rfl, hclean.stored⟩, if_pos rfl] at hnew
      refine ⟨fun _ => ⟨p.cluster, p.slot, hc, hj, hclean.free, ?_, fun c' hc' j' hj' hne => ?_⟩,
        fun hb => by cases hb⟩
      · rw [hnew]
        refine ⟨newEntry_live nm r ha, fun i hi => name_newDirectoryEntry _ _ _ _ _ _ hi, ?_, ?_, ?_⟩
        · rw [hstart]
          exact hr
        · rw [hstart]
          exact h0
        · rw [hstart]
          exact hmarked
      · rw [hslots c' hc' j' hj']
        split
        next hand =>
          obtain ⟨rfl, hstored⟩ := hand
          have hjj : j' ≠ p.slot := fun hjj => hne (by rw [hjj])
          rw [if_neg hjj, hclean.same j' hj' hstored hjj]
        next => rfl

/-- When everything in the buffers comes from the disk, all or nothing is a clean end: an entry
from the disk does not lead to a free cluster and so is not the new one. -/
theorem endsCleanly_of_atomic {nm : List UInt8} {x : DirEntry} {b : Bool} {s' : Fs}
    {o : Option Insertion}
    (ho : ∀ p, o = some p → p.cluster ∈ l ∧ p.slot < V.slots ∧ ∀ q, q < V.slots →
      (entryAt p.buffer q).isLive = true → V.Has (readStartCluster (entryAt p.buffer q)) →
      V.fat s.disk (readStartCluster (entryAt p.buffer q)) ≠ 0)
    (hends : Ends V e s r l x b s' o) (hatomic : CreateAtomic V s nm l b s') :
    V.EndsCleanly (e.enter .insert) s.disk (V.Undoes (e.enter .rollback)) o := by
  cases o with
  | none =>
      obtain ⟨rfl, hundo, hslots⟩ := hends
      exact hundo.mpr (hatomic.undone rfl).1
  | some p =>
      obtain ⟨rfl, hmarked, hslots⟩ := hends
      obtain ⟨hc, hj, hdisk⟩ := ho p rfl
      obtain ⟨c₀, j₀, hc₀, hj₀, hfree, hnew, hothers⟩ := hatomic.created rfl
      -- the slot of the new entry has changed, so it is one of those written back
      have hwritten : c₀ = p.cluster ∧ j₀ / 16 < V.stored (e.enter .insert) p.step := by
        by_contra hno
        have hlive := hnew.live
        rw [hslots c₀ hc₀ j₀ hj₀, if_neg hno] at hlive
        rw [DirEntry.not_isFree_of_isLive hlive] at hfree
        cases hfree
      obtain ⟨rfl, hstored⟩ := hwritten
      have hjj : j₀ = p.slot := by
        by_contra hne
        have hbuffer := hslots p.cluster hc j₀ hj₀
        rw [if_pos ⟨rfl, hstored⟩, if_neg hne] at hbuffer
        rw [hbuffer] at hnew
        exact hdisk j₀ hj₀ hnew.live hnew.has hnew.free
      subst hjj
      refine ⟨hstored, hfree, fun q hq hqs hne => ?_⟩
      have hq' := hothers p.cluster hc q hq fun heq => hne (Prod.mk.inj heq).2
      rw [hslots p.cluster hc q hq, if_pos ⟨rfl, hqs⟩, if_neg hne] at hq'
      exact hq'

end insert

/-! ## What the stack can do -/

/-- A part of a long name that differs from the slot `x`. -/
def DirEntry.garbage (x : DirEntry) : DirEntry :=
  Function.update (Function.update (Function.update x 0 0x41) 11 0x0F) 31 (x 31 + 1)

theorem DirEntry.garbage_ne (x : DirEntry) : garbage x ≠ x := by
  intro he
  have h31 := congrFun he 31
  rw [garbage, Function.update_self] at h31
  have := congrArg UInt8.toNat h31
  rw [UInt8.toNat_add] at this
  have hlt := (x 31).toNat_lt
  simp only [UInt8.reduceToNat] at this
  omega

theorem DirEntry.isFree_garbage (x : DirEntry) : isFree (garbage x) = false := rfl

theorem DirEntry.isLive_garbage (x : DirEntry) : isLive (garbage x) = false := by
  have hlfn : isLfn (garbage x) = true := by
    show ((0x0F : UInt8) &&& 0x0F == 0x0F) = true
    decide
  simp [isLive, hlfn]

section stack

variable {V : Volume} {s t : Fs} {e : Env} {r dir : Nat} {l : List Nat} {d : Disk}

/-- The entries of the first buffer, when a copy of the cluster with one other entry lies on the
stack and the sector of that entry cannot be read. -/
theorem entryAt_buffer_setEntry {q : Nat} (x : DirEntry)
    (hfails : (e.enter (.cluster 0)).fails (.load (q / 16)) = true) {i : Nat} (hi : i < V.slots) :
    entryAt (V.buffer e d 0 dir (setEntry (V.clusterBytes d dir) q x)) i
      = if i = q then x else V.slot d dir i := by
  rw [entryAt_buffer _ _ _ _ _ hi, entryAt_setEntry]
  by_cases hiq : i = q
  · subst hiq
    rw [if_pos hfails, if_pos rfl, if_pos rfl]
  · rw [if_neg hiq, if_neg hiq]
    exact ite_self _

/-- With a copy of the first cluster on the stack failing reads of it make no difference. -/
theorem entryAt_buffer_copy {i : Nat} (hi : i < V.slots) :
    entryAt (V.buffer e d 0 dir (V.clusterBytes d dir)) i = V.slot d dir i := by
  rw [entryAt_buffer _ _ _ _ _ hi]
  exact ite_self _

theorem insertion_of_freeSlot {b : Bytes} {j : Nat} (hl : V.Chain d dir l)
    (hj : freeSlot (V.buffer e d 0 dir b) V.slots = some j) :
    V.insertion e d 0 l b = some ⟨0, dir, j, V.buffer e d 0 dir b⟩ := by
  obtain ⟨l', rfl⟩ := hl.eq_cons
  rw [Volume.insertion, hj]

/-- A clean insertion is one whatever the stack holds. -/
theorem Volume.InsertsCleanly.endsCleanly {undone : Prop} (hl : V.Chain d dir l)
    (h : V.InsertsCleanly e d dir l undone) (b : Bytes) :
    V.EndsCleanly e d undone (V.insertion e d 0 l b) := by
  have hends := h.ends
  have hread := h.read
  cases hs : freeSlot (V.clusterBytes d dir) V.slots with
  | some j =>
      rw [hs, Option.isSome_some, if_pos rfl] at hread
      obtain ⟨hj, hfree, hbefore⟩ := freeSlot_eq_some_iff.mp hs
      have hcopy : freeSlot (V.buffer e d 0 dir (V.clusterBytes d dir)) V.slots = some j := by
        rw [freeSlot_congr fun q hq => entryAt_buffer_copy hq]
        exact hs
      rw [insertion_of_freeSlot hl hcopy] at hends
      have hstored : j / 16 < V.stored e 0 := hends.stored
      -- the sectors that are written back have been read
      have hsame : ∀ q, q < V.slots → q / 16 < V.stored e 0 →
          entryAt (V.buffer e d 0 dir b) q = V.slot d dir q := by
        intro q hq hqs
        rw [entryAt_buffer _ _ _ _ _ hq,
          allLoaded_iff.mp hread (q / 16) (Nat.zero_le _) (by omega), if_neg (by decide)]
      have hslot : freeSlot (V.buffer e d 0 dir b) V.slots = some j := by
        rw [freeSlot_eq_some_iff]
        refine ⟨hj, ?_, fun i hi => ?_⟩
        · rw [hsame j hj hstored]
          exact hfree
        · rw [hsame i (by omega) (by omega)]
          exact hbefore i hi
      rw [insertion_of_freeSlot hl hslot]
      exact ⟨hstored, hends.free, fun q hq hqs _ => hsame q hq hqs⟩
  | none =>
      -- the first cluster is full, and all of it has been read
      rw [hs, Option.isSome_none, if_neg (by decide)] at hread
      have hsame : ∀ q, q < V.slots → entryAt (V.buffer e d 0 dir b) q
          = entryAt (V.buffer e d 0 dir (V.clusterBytes d dir)) q := by
        intro q hq
        have hlt : q / 16 < V.bs.sectorsPerCluster := by
          unfold Volume.slots at hq
          omega
        rw [entryAt_buffer_copy hq, entryAt_buffer _ _ _ _ _ hq,
          allLoaded_iff.mp hread (q / 16) (Nat.zero_le _) (by omega), if_neg (by decide)]
      have hrel : Option.Rel (Insertion.Same V) (V.insertion e d 0 l b)
          (V.insertion e d 0 l (V.clusterBytes d dir)) := by
        obtain ⟨l', rfl⟩ := hl.eq_cons
        exact insertion_cons_congr hsame (insertion_congr (fun _ _ _ _ => rfl) hsame)
      generalize V.insertion e d 0 l b = o at hrel
      generalize V.insertion e d 0 l (V.clusterBytes d dir) = o' at hrel hends
      cases hrel with
      | none => exact hends
      | @some p p' hp =>
          refine ⟨?_, ?_, fun q hq hqs hne => ?_⟩
          · rw [hp.slot, hp.step]
            exact hends.stored
          · rw [hp.cluster, hp.slot]
            exact hends.free
          · rw [hp.slot] at hne
            rw [hp.step] at hqs
            rw [hp.entries q hq, hp.cluster]
            exact hends.same q hq hqs hne

/-- What the stack holds when `add_entry_to_directory` finds `b` there, and zeros are everywhere
else. -/
def insertJunk (b : Bytes) : List Label → Bytes
  | .insert :: _ => b
  | _ => fun _ => 0

/-- How `insertOrUndo` ends with `b` on the stack. -/
theorem ends_insertJunk (hl : V.Chain s.disk s.currentDirectoryCluster l) (hm : V.Mirrored s.disk)
    (hr : V.Has r) (h0 : V.fat s.disk r = 0) (ht : Allocated V s r l t) (b : Bytes)
    {nm : List UInt8} {attributes : UInt8} {ok : Bool} {s' : Fs}
    (hrun : (insertOrUndo s.currentDirectoryCluster nm r attributes).run
      (e.withJunk (insertJunk b)) t = some (ok, s')) :
    Ends V e s r l ((e.enter .insert).newEntry nm r attributes) ok s'
      (V.insertion (e.enter .insert) s.disk 0 l b) := by
  obtain ⟨ok', s'', hrun', hends⟩ := run_insertOrUndo (e.withJunk (insertJunk b)) hl hm hr h0 ht nm
    attributes
  rw [hrun, Option.some.injEq, Prod.mk.injEq] at hrun'
  obtain ⟨rfl, rfl⟩ := hrun'
  simp only [withJunk_enter, withJunk_junk, insertJunk, insertion_withJunk] at hends
  cases ho : V.insertion (e.enter .insert) s.disk 0 l b with
  | none =>
      rw [ho] at hends
      simpa [Ends, Volume.Undoes] using hends
  | some p =>
      rw [ho] at hends
      simp only [Ends, withJunk_enter, stored_withJunk] at hends
      exact hends

/-- With `b` on the stack, putting an entry into the directory is not all or nothing. -/
def NotAtomicWith (V : Volume) (e : Env) (s : Fs) (l : List Nat) (b : Bytes) : Prop :=
  ∀ r t, V.Has r → V.fat s.disk r = 0 → Allocated V s r l t → ∀ nm attributes ok s',
    (insertOrUndo s.currentDirectoryCluster nm r attributes).run (e.withJunk (insertJunk b)) t
      = some (ok, s') → ¬ CreateAtomic V s nm l ok s'

/-- A sector that is written back cannot be read, and the stack holds garbage for it. -/
theorem notAtomic_garbage (hs : V.Sound s.disk s.currentDirectoryCluster l)
    (hm : V.Mirrored s.disk) {j q : Nat}
    (hslot : freeSlot (V.clusterBytes s.disk s.currentDirectoryCluster) V.slots = some j)
    (hqj : q ≠ j) (hq : q < V.slots) (hstored : q / 16 < V.stored (e.enter .insert) 0)
    (hfails : ((e.enter .insert).enter (.cluster 0)).fails (.load (q / 16)) = true) :
    NotAtomicWith V e s l (setEntry (V.clusterBytes s.disk s.currentDirectoryCluster) q
      (V.slot s.disk s.currentDirectoryCluster q).garbage) := by
  intro r t hr h0 ht nm attributes ok s' hrun hatomic
  have hends := ends_insertJunk hs.chain hm hr h0 ht _ hrun
  obtain ⟨hj, hfree, hbefore⟩ := freeSlot_eq_some_iff.mp hslot
  rw [insertion_of_freeSlot (j := j) hs.chain] at hends
  · obtain ⟨rfl, -, hslots⟩ := hends
    obtain ⟨c₀, j₀, hc₀, hj₀, -, hnew, hothers⟩ := hatomic.created rfl
    have hgarbage := hslots s.currentDirectoryCluster hs.chain.head_mem q hq
    rw [if_pos ⟨rfl, hstored⟩, if_neg hqj, entryAt_buffer_setEntry _ hfails hq, if_pos rfl]
      at hgarbage
    -- the garbage is not the new entry, and it has changed a slot
    have hne : (s.currentDirectoryCluster, q) ≠ (c₀, j₀) := by
      intro heq
      have hlive := hnew.live
      rw [← (Prod.mk.inj heq).1, ← (Prod.mk.inj heq).2, hgarbage, DirEntry.isLive_garbage] at hlive
      cases hlive
    have hkept := hothers _ hs.chain.head_mem q hq hne
    rw [hgarbage] at hkept
    exact DirEntry.garbage_ne _ hkept
  · rw [freeSlot_eq_some_iff]
    refine ⟨hj, ?_, fun i hi => ?_⟩
    · rw [entryAt_buffer_setEntry _ hfails hj, if_neg (Ne.symm hqj)]
      exact hfree
    · rw [entryAt_buffer_setEntry _ hfails (by omega)]
      split
      · exact DirEntry.isFree_garbage _
      · exact hbefore i hi

/-- The first cluster is full, but a sector of it cannot be read, and the stack holds zeros for
it. -/
theorem notAtomic_zero (hs : V.Sound s.disk s.currentDirectoryCluster l)
    (hm : V.Mirrored s.disk) {q : Nat}
    (hfull : freeSlot (V.clusterBytes s.disk s.currentDirectoryCluster) V.slots = none)
    (hq : q < V.slots)
    (hfails : ((e.enter .insert).enter (.cluster 0)).fails (.load (q / 16)) = true) :
    NotAtomicWith V e s l
      (setEntry (V.clusterBytes s.disk s.currentDirectoryCluster) q zeroEntry) := by
  intro r t hr h0 ht nm attributes ok s' hrun hatomic
  have hends := ends_insertJunk hs.chain hm hr h0 ht _ hrun
  have htaken : ∀ i, i < V.slots → (V.slot s.disk s.currentDirectoryCluster i).isFree = false :=
    freeSlot_eq_none.mp hfull
  rw [insertion_of_freeSlot (j := q) hs.chain] at hends
  · obtain ⟨rfl, -, hslots⟩ := hends
    obtain ⟨c₀, j₀, hc₀, hj₀, hfree, hnew, -⟩ := hatomic.created rfl
    -- the slot of the new entry was free, so it is not the one that has been written
    have hsame : V.slot s'.disk c₀ j₀ = V.slot s.disk c₀ j₀ := by
      rw [hslots c₀ hc₀ j₀ hj₀]
      split
      next hand =>
        obtain ⟨rfl, -⟩ := hand
        have hne : j₀ ≠ q := by
          rintro rfl
          rw [htaken j₀ hj₀] at hfree
          cases hfree
        rw [if_neg hne, entryAt_buffer_setEntry _ hfails hj₀, if_neg hne]
      next => rfl
    have hlive := hnew.live
    rw [hsame] at hlive
    rw [DirEntry.not_isFree_of_isLive hlive] at hfree
    cases hfree
  · rw [freeSlot_eq_some_iff]
    refine ⟨hq, ?_, fun i hi => ?_⟩
    · rw [entryAt_buffer_setEntry _ hfails hq, if_pos rfl]
      rfl
    · rw [entryAt_buffer_setEntry _ hfails (by omega), if_neg (by omega)]
      exact htaken i (by omega)

/-- The walk does not end cleanly although a copy of the directory lies on the stack. -/
theorem notAtomic_copy (hs : V.Sound s.disk s.currentDirectoryCluster l) (hm : V.Mirrored s.disk)
    (hbad : ¬ V.EndsCleanly (e.enter .insert) s.disk (V.Undoes (e.enter .rollback))
      (V.insertion (e.enter .insert) s.disk 0 l
        (V.clusterBytes s.disk s.currentDirectoryCluster))) :
    NotAtomicWith V e s l (V.clusterBytes s.disk s.currentDirectoryCluster) := by
  intro r t hr h0 ht nm attributes ok s' hrun hatomic
  have hends := ends_insertJunk hs.chain hm hr h0 ht _ hrun
  refine hbad (endsCleanly_of_atomic (fun p hp => ?_) hends hatomic)
  obtain ⟨hc, hj⟩ := insertion_mem hp
  -- every entry of the directory leads to a cluster in use
  have hused : ∀ c, c ∈ l → ∀ q, q < V.slots → (V.slot s.disk c q).isLive = true →
      V.Has (readStartCluster (V.slot s.disk c q)) →
      V.fat s.disk (readStartCluster (V.slot s.disk c q)) ≠ 0 := by
    intro c hc q hq hlive hhas
    obtain ⟨lo, hlo⟩ := hs.heads c hc q hq hlive hhas
    exact hlo.fat_ne_zero hlo.head_mem
  exact ⟨hc, hj, insertion_entries (P := fun x => x.isLive = true → V.Has (readStartCluster x) →
    V.fat s.disk (readStartCluster x) ≠ 0) hused (hused _ hs.chain.head_mem) hp⟩

/-- An unclean insertion is not all or nothing for some contents of the stack. -/
theorem exists_notAtomic (hs : V.Sound s.disk s.currentDirectoryCluster l) (hm : V.Mirrored s.disk)
    (hbad : ¬ V.InsertsCleanly (e.enter .insert) s.disk s.currentDirectoryCluster l
      (V.Undoes (e.enter .rollback))) : ∃ b, NotAtomicWith V e s l b := by
  by_cases hclean : V.EndsCleanly (e.enter .insert) s.disk (V.Undoes (e.enter .rollback))
      (V.insertion (e.enter .insert) s.disk 0 l (V.clusterBytes s.disk s.currentDirectoryCluster))
  · obtain ⟨i, hi, hfails⟩ : ∃ i, (i < if (freeSlot (V.clusterBytes s.disk
        s.currentDirectoryCluster) V.slots).isSome then V.stored (e.enter .insert) 0
          else V.bs.sectorsPerCluster) ∧
        ((e.enter .insert).enter (.cluster 0)).fails (.load i) = true := by
      by_contra hno
      push Not at hno
      refine hbad ⟨hclean, allLoaded_iff.mpr fun i _ hi => ?_⟩
      rw [Bool.eq_false_iff]
      exact hno i (by omega)
    cases hslot : freeSlot (V.clusterBytes s.disk s.currentDirectoryCluster) V.slots with
    | some j =>
        rw [hslot, Option.isSome_some, if_pos rfl] at hi
        obtain ⟨q, hqj, rfl⟩ : ∃ q, q ≠ j ∧ q / 16 = i := by
          by_cases hj0 : 16 * i = j
          · exact ⟨16 * i + 1, by omega, by omega⟩
          · exact ⟨16 * i, hj0, by omega⟩
        have hq : q < V.slots := by
          have := stored_le V (e.enter .insert) 0
          unfold Volume.slots
          omega
        exact ⟨_, notAtomic_garbage hs hm hslot hqj hq hi hfails⟩
    | none =>
        rw [hslot, Option.isSome_none, if_neg (by decide)] at hi
        have hq : 16 * i < V.slots := by
          unfold Volume.slots
          omega
        rw [show i = 16 * i / 16 by omega] at hfails
        exact ⟨_, notAtomic_zero hs hm hslot hq hfails⟩
  · exact ⟨_, notAtomic_copy hs hm hclean⟩

end stack

end MicroKernel.Fat32
