import MicroKernel.Fat32.Faults

set_option autoImplicit false

/-! # Deleting while calls fail

`fat32_delete_file` and `fat32_delete_dir` free the chain of an entry, cluster by cluster, and
only then write zeros over its slot. When they stop in between, the entry is still there and its
first cluster is free: the next file that takes the cluster shares it with the entry.
`delete_safe_iff` says for which failing calls this cannot happen, whatever the stack holds.
-/

namespace MicroKernel.Fat32

open MicroKernel.Lib Bytes

/-! ## Dangling entries -/

/-- The FAT leads from one cluster to another. -/
def Volume.Follows (V : Volume) (d : Disk) : Nat → Nat → Prop :=
  Relation.ReflTransGen fun b c => V.Has b ∧ V.fat d b = c ∧ c < eocMin

/-- No entry of the directory with the chain `l` leads to a free cluster. -/
def Volume.NoDangling (V : Volume) (d : Disk) (l : List Nat) : Prop :=
  ∀ c, c ∈ l → ∀ j, j < V.slots → (V.slot d c j).isLive = true →
    ∀ y, V.Follows d (readStartCluster (V.slot d c j)) y → V.Has y → V.fat d y ≠ 0

section dangling

variable {V : Volume} {d d' : Disk} {a y dir j : Nat} {l lo : List Nat}

theorem Volume.Chain.mem_of_follows (hl : V.Chain d a lo) (hf : V.Follows d a y) : y ∈ lo := by
  induction hf with
  | refl => exact hl.head_mem
  | tail _ hstep ih =>
      obtain ⟨hb, hfat, hlt⟩ := hstep
      have h0 := hl.fat_ne_zero ih
      refine hl.next_mem ih ?_
      unfold Volume.link
      rw [if_pos hb, if_neg (by omega), if_neg h0, hfat]

/-- From a first cluster that starts a chain, or is no cluster, only clusters in use are
reached. -/
theorem fat_ne_zero_of_follows (ha : V.Has a → ∃ lo, V.Chain d a lo) (hf : V.Follows d a y)
    (hy : V.Has y) : V.fat d y ≠ 0 := by
  rcases hf.cases_head with rfl | ⟨b, ⟨hhas, -, -⟩, -⟩
  · obtain ⟨lo, hlo⟩ := ha hy
    exact hlo.fat_ne_zero hlo.head_mem
  · obtain ⟨lo, hlo⟩ := ha hhas
    exact hlo.fat_ne_zero (hlo.mem_of_follows hf)

theorem Volume.Sound.noDangling (hs : V.Sound d dir l) : V.NoDangling d l :=
  fun c hc j hj hlive _ hf hy => fat_ne_zero_of_follows (hs.heads c hc j hj hlive) hf hy

/-- An entry has been taken away and its chain freed, and nothing else has changed. -/
theorem Volume.Sound.noDangling_removed (hs : V.Sound d dir l) (hj : j < V.slots)
    (hlive : (V.slot d dir j).isLive = true)
    (hlo : V.Chain d (readStartCluster (V.slot d dir j)) lo)
    (hfat : ∀ y, V.Has y → V.fat d' y = if y ∈ lo then 0 else V.fat d y)
    (hgone : (V.slot d' dir j).isLive = false)
    (hslot : ∀ c, c ∈ l → ∀ i, i < V.slots → (c, i) ≠ (dir, j) → V.slot d' c i = V.slot d c i) :
    V.NoDangling d' l := by
  intro c hc i hi hlive' y hf hy
  have hne : (c, i) ≠ (dir, j) := by
    rintro hcj
    cases hcj
    rw [hgone] at hlive'
    cases hlive'
  rw [hslot c hc i hi hne] at hf hlive'
  refine fat_ne_zero_of_follows (fun hhas => ?_) hf hy
  obtain ⟨lo', hlo'⟩ := hs.heads c hc i hi hlive' hhas
  have hdisj := hs.apart c dir hc hs.chain.head_mem i j hi hj hne hlive' hlive lo' lo hlo' hlo
  refine ⟨lo', hlo'.congr_fat fun z hz => ?_⟩
  rw [hfat z (hlo'.has hz), if_neg fun hz' => hdisj hz hz']

end dangling

/-! ## Freeing and removing -/

/-- What a deletion that has returned `b` owes: no entry of the directory dangles, and after a
success the entry is gone and its chain free. -/
structure DeleteSafe (V : Volume) (s : Fs) (nm : List UInt8) (l : List Nat) (b : Bool) (s' : Fs) :
    Prop where
  noDangling : V.NoDangling s'.disk l
  gone : b = true → ∃ j, V.FoundAt s.disk s.currentDirectoryCluster nm j ∧
    (V.slot s'.disk s.currentDirectoryCluster j).isLive = false ∧
    ∀ lo, V.Chain s.disk (readStartCluster (V.slot s.disk s.currentDirectoryCluster j)) lo →
      ∀ y, y ∈ lo → V.fat s'.disk y = 0

/-- The calls that fail while the entry of slot `j` with the chain `lo` is deleted do no harm.
Either the first mark fails before it has changed anything, or all of the chain is freed, the
directory is written back at least as far as the slot, and what is written back has been read. -/
def Volume.DeletesCleanly (V : Volume) (e : Env) (j : Nat) (lo : List Nat) : Prop :=
  (((e.enter .free).enter (.cluster 0)).enter .mark).Aborts ∨
    V.FreesAll (e.enter .free) 0 lo ∧ j / 16 < V.stored (e.enter .remove) 0 ∧
      allLoaded ((e.enter .remove).enter (.cluster 0)) (V.stored (e.enter .remove) 0) 0 = true

section freeAndRemove

variable {V : Volume} {s : Fs} {e : Env} {nm : List UInt8} {j : Nat} {l lo : List Nat}

/-- A deletion that stops before the first change. -/
theorem DeleteSafe.refused (hs : V.Sound s.disk s.currentDirectoryCluster l) :
    DeleteSafe V s nm l false s :=
  ⟨hs.noDangling, fun hb => by cases hb⟩

theorem freeAndRemove_safe (h : s.Ready V) (hs : V.Sound s.disk s.currentDirectoryCluster l)
    (hj : V.FoundAt s.disk s.currentDirectoryCluster nm j)
    (hlo : V.Chain s.disk (readStartCluster (V.slot s.disk s.currentDirectoryCluster j)) lo)
    (hclean : V.DeletesCleanly e j lo) :
    ∃ b s', (freeAndRemove (V.slot s.disk s.currentDirectoryCluster j)).run e s = some (b, s') ∧
      DeleteSafe V s nm l b s' := by
  obtain ⟨b₁, s₁, hfree, ho⟩ := run_freeClusterChain (e.enter .free) h hlo
  unfold freeAndRemove
  rw [Prog.run_bind, run_within, hfree, Option.bind_some]
  rcases hclean with hab | ⟨hall, hstored, hl⟩
  · obtain ⟨rfl, rfl⟩ := ho.aborted hab
    exact ⟨false, s₁, rfl, .refused hs⟩
  · obtain rfl := ho.returns hall
    -- the removal writes one slot
    have hremove := run_removeEntryFromDirectory_of_read ho.within.ready.on h.cwd hl hstored
      (x := V.slot s.disk s.currentDirectoryCluster j) fun b hb => hj.slotOf fun i hi => by
        rw [hb i hi, ho.within.slot]
    have hready := ho.within.ready.withDisk
      (V.putSlot s₁.disk s.currentDirectoryCluster j zeroEntry)
    obtain ⟨b₂, s₂, hsync, hsame⟩ := run_writeFsinfo_sameData (e.enter .sync) hready
    rw [Fs.withDisk_disk] at hsame
    simp only [Bool.not_true, Bool.false_eq_true, if_false, Prog.run_bind, Prog.run_get,
      Option.bind_some, run_within, ho.within.cwd, hremove, hsync, Prog.run_pure]
    have hfat : ∀ y, V.Has y → V.fat s₂.disk y = if y ∈ lo then 0 else V.fat s.disk y := by
      intro y hy
      rw [hsame.fat, V.fat_putSlot _ _ hj.lt hy.2, ho.fat hall hy]
    have hgone : (V.slot s₂.disk s.currentDirectoryCluster j).isLive = false := by
      rw [hsame.slot, V.slot_putSlot_same _ _ hj.lt, if_pos rfl]
      decide
    refine ⟨true, s₂, rfl, ?_, fun _ => ⟨j, hj, hgone, fun lo' hlo' y hy => ?_⟩⟩
    · refine hs.noDangling_removed hj.lt (taken_isLive hj.taken) hlo hfat hgone
        fun c hc i hi hne => ?_
      rw [hsame.slot, V.slot_putSlot _ _ hj.lt h.cwd.1 (hs.chain.has hc).1 hi, if_neg ?_,
        ho.within.slot]
      rintro ⟨rfl, rfl⟩
      exact hne rfl
    · rw [hfat y (hlo'.has hy), if_pos (hlo.unique hlo' ▸ hy)]

/-- The end of a deletion whose chain has been freed, as far as that went, when the removal finds
the entry in its buffer for the first cluster. -/
theorem run_freeAndRemove_found (h : s.Ready V) {s₁ : Fs}
    (hfree : (freeClusterChain (readStartCluster
      (V.slot s.disk s.currentDirectoryCluster j))).run (e.enter .free) s = some (true, s₁))
    (ho : FreedWithin V lo s s₁)
    (hslot : slotOf (V.slot s.disk s.currentDirectoryCluster j)
      (V.removeBuffer (e.enter .remove) s₁.disk s.currentDirectoryCluster) V.slots = some j) :
    ∃ s', (freeAndRemove (V.slot s.disk s.currentDirectoryCluster j)).run e s = some (true, s') ∧
      (∀ y, V.Has y → V.fat s'.disk y = V.fat s₁.disk y) ∧
      ∀ q, V.slot s'.disk s.currentDirectoryCluster q
        = if q / 16 < V.stored (e.enter .remove) 0 then
            if q = j then zeroEntry
            else entryAt
              (V.removeBuffer (e.enter .remove) s₁.disk s.currentDirectoryCluster) q
          else V.slot s.disk s.currentDirectoryCluster q := by
  obtain ⟨b₂, s₂, hsync, hsame⟩ := run_writeFsinfo_sameData (e.enter .sync)
    (ho.ready.withDisk (V.putCluster s₁.disk s.currentDirectoryCluster (setEntry
      (V.removeBuffer (e.enter .remove) s₁.disk s.currentDirectoryCluster) j zeroEntry)
      (V.stored (e.enter .remove) 0)))
  rw [Fs.withDisk_disk] at hsame
  refine ⟨s₂, ?_, fun y hy => ?_, fun q => ?_⟩
  · unfold freeAndRemove
    simp only [Prog.run_bind, run_within, hfree, Bool.not_true, Bool.false_eq_true, if_false,
      Prog.run_get, Option.bind_some, ho.cwd,
      run_removeEntryFromDirectory ho.ready.on h.cwd hslot, hsync, Prog.run_pure]
  · rw [hsame.fat, V.fat_putCluster _ _ hy.2]
  · rw [hsame.slot, V.slot_putCluster_same, entryAt_setEntry, ho.slot]

theorem Volume.not_noDangling {d : Disk} {c q a : Nat} (hc : c ∈ l) (hq : q < V.slots)
    (hlive : (V.slot d c q).isLive = true) (hstart : readStartCluster (V.slot d c q) = a)
    (ha : V.Has a) (h0 : V.fat d a = 0) : ¬ V.NoDangling d l := by
  intro hn
  refine hn c hc q hq hlive a ?_ ha h0
  rw [hstart]
  exact .refl

/-- The removal finds the entry, as long as nothing before it in the buffer is equal to it. -/
theorem slotOf_removeBuffer {s₁ : Fs} (ho : FreedWithin V lo s s₁)
    (hj : V.FoundAt s.disk s.currentDirectoryCluster nm j)
    (hjunk : entryAt (e.junk (.remove :: e.path)) j = V.slot s.disk s.currentDirectoryCluster j)
    (hne : ∀ i, i < j → entryAt (e.junk (.remove :: e.path)) i
      ≠ V.slot s.disk s.currentDirectoryCluster j) :
    slotOf (V.slot s.disk s.currentDirectoryCluster j)
      (V.removeBuffer e s₁.disk s.currentDirectoryCluster) V.slots = some j := by
  have hlt := hj.lt
  refine slotOf_eq_some hlt ?_ fun i hi => ?_
  · rw [Volume.removeBuffer, entryAt_buffer _ _ _ _ _ hlt, hjunk, ho.slot, ite_self]
  · rw [Volume.removeBuffer, entryAt_buffer _ _ _ _ _ (by omega), ho.slot]
    split
    · exact hne i hi
    · exact hj.ne hi

/-- The chain is not freed as a whole, or the removal does not get to the slot. On the stack there
happens to be a copy of the directory, so that failing reads make no difference. -/
theorem freeAndRemove_unsafe (h : s.Ready V) (hs : V.Sound s.disk s.currentDirectoryCluster l)
    (hj : V.FoundAt s.disk s.currentDirectoryCluster nm j)
    (hlo : V.Chain s.disk (readStartCluster (V.slot s.disk s.currentDirectoryCluster j)) lo)
    (hab : ¬ (((e.enter .free).enter (.cluster 0)).enter .mark).Aborts)
    (hbad : ¬ (V.FreesAll (e.enter .free) 0 lo ∧ j / 16 < V.stored (e.enter .remove) 0))
    (hjunk : e.junk (.remove :: .remove :: e.path)
      = V.clusterBytes s.disk s.currentDirectoryCluster) :
    ∃ b s', (freeAndRemove (V.slot s.disk s.currentDirectoryCluster j)).run e s = some (b, s') ∧
      ¬ DeleteSafe V s nm l b s' := by
  have hlive := taken_isLive hj.taken
  have hstart := hlo.has hlo.head_mem
  obtain ⟨b₁, s₁, hfree, ho⟩ := run_freeClusterChain (e.enter .free) h hlo
  cases b₁ with
  | false =>
      -- the call gives up and leaves the entry
      refine ⟨false, s₁, ?_, fun hsafe => ?_⟩
      · unfold freeAndRemove
        rw [Prog.run_bind, run_within, hfree, Option.bind_some]
        rfl
      · refine V.not_noDangling hs.chain.head_mem hj.lt ?_ ?_ hstart (ho.first hab)
          hsafe.noDangling
        · rw [ho.within.slot, hlive]
        · rw [ho.within.slot]
  | true =>
      have hslot : slotOf (V.slot s.disk s.currentDirectoryCluster j)
          (V.removeBuffer (e.enter .remove) s₁.disk s.currentDirectoryCluster) V.slots
            = some j := by
        refine slotOf_removeBuffer ho.within hj ?_ fun i hi => ?_
        · exact congrArg (fun b => entryAt b j) hjunk
        · rw [show (e.enter .remove).junk (.remove :: (e.enter .remove).path) = _ from hjunk]
          exact hj.ne hi
      obtain ⟨s', hrun, hfat, hslots⟩ := run_freeAndRemove_found h hfree ho.within hslot
      refine ⟨true, s', hrun, fun hsafe => ?_⟩
      by_cases hall : V.FreesAll (e.enter .free) 0 lo
      · -- the slot is not reached
        have hno : ¬ j / 16 < V.stored (e.enter .remove) 0 := fun hlt => hbad ⟨hall, hlt⟩
        have hkept := hslots j
        rw [if_neg hno] at hkept
        refine V.not_noDangling hs.chain.head_mem hj.lt ?_ ?_ hstart ?_ hsafe.noDangling
        · rw [hkept, hlive]
        · rw [hkept]
        · rw [hfat _ hstart]
          exact ho.first hab
      · -- a part of the chain is still marked as used
        obtain ⟨j', hj', -, hchain⟩ := hsafe.gone rfl
        obtain rfl := hj.unique hj'
        refine hall ((ho.complete rfl).mpr fun y hy => ?_)
        rw [← hfat y (hlo.has hy)]
        exact hchain lo hlo y hy

/-- Another entry with the same first cluster. -/
def DirEntry.twin (x : DirEntry) : DirEntry := Function.update x 31 (x 31 + 1)

theorem DirEntry.twin_ne (x : DirEntry) : twin x ≠ x := by
  intro he
  have h31 := congrFun he 31
  rw [twin, Function.update_self] at h31
  have := congrArg UInt8.toNat h31
  rw [UInt8.toNat_add] at this
  have hlt := (x 31).toNat_lt
  simp only [UInt8.reduceToNat] at this
  omega

theorem DirEntry.isLive_twin (x : DirEntry) : isLive (twin x) = isLive x := rfl

theorem readStartCluster_twin (x : DirEntry) : readStartCluster x.twin = readStartCluster x := rfl

/-- A sector that is written back has not been read. On the stack there happens to be a copy of
the directory in which that sector holds another entry with the first cluster that is freed. -/
theorem freeAndRemove_unsafe_unread (h : s.Ready V)
    (hs : V.Sound s.disk s.currentDirectoryCluster l)
    (hj : V.FoundAt s.disk s.currentDirectoryCluster nm j)
    (hlo : V.Chain s.disk (readStartCluster (V.slot s.disk s.currentDirectoryCluster j)) lo)
    (hall : V.FreesAll (e.enter .free) 0 lo) {q : Nat} (hq : q ≠ j)
    (hstored : q / 16 < V.stored (e.enter .remove) 0)
    (hfails : ((e.enter .remove).enter (.cluster 0)).fails (.load (q / 16)) = true)
    (hjunk : e.junk (.remove :: .remove :: e.path)
      = setEntry (V.clusterBytes s.disk s.currentDirectoryCluster) q
          (V.slot s.disk s.currentDirectoryCluster j).twin) :
    ∃ b s', (freeAndRemove (V.slot s.disk s.currentDirectoryCluster j)).run e s = some (b, s') ∧
      ¬ DeleteSafe V s nm l b s' := by
  have hstart := hlo.has hlo.head_mem
  have hlt : q < V.slots := by
    have := stored_le V (e.enter .remove) 0
    unfold Volume.slots
    omega
  have hentry : ∀ i, entryAt (e.junk (.remove :: .remove :: e.path)) i
      = if i = q then (V.slot s.disk s.currentDirectoryCluster j).twin
        else V.slot s.disk s.currentDirectoryCluster i := by
    intro i
    rw [hjunk, entryAt_setEntry]
    rfl
  obtain ⟨b₁, s₁, hfree, ho⟩ := run_freeClusterChain (e.enter .free) h hlo
  obtain rfl := ho.returns hall
  have hslot : slotOf (V.slot s.disk s.currentDirectoryCluster j)
      (V.removeBuffer (e.enter .remove) s₁.disk s.currentDirectoryCluster) V.slots = some j := by
    refine slotOf_removeBuffer ho.within hj ((hentry j).trans (if_neg (Ne.symm hq))) fun i hi => ?_
    rw [show entryAt ((e.enter .remove).junk (.remove :: (e.enter .remove).path)) i = _
      from hentry i]
    split
    · exact DirEntry.twin_ne _
    · exact hj.ne hi
  obtain ⟨s', hrun, hfat, hslots⟩ := run_freeAndRemove_found h hfree ho.within hslot
  refine ⟨true, s', hrun, fun hsafe => ?_⟩
  have htwin : V.slot s'.disk s.currentDirectoryCluster q
      = (V.slot s.disk s.currentDirectoryCluster j).twin := by
    rw [hslots q, if_pos hstored, if_neg hq, Volume.removeBuffer, entryAt_buffer _ _ _ _ _ hlt,
      if_pos hfails]
    exact (hentry q).trans (if_pos rfl)
  refine V.not_noDangling hs.chain.head_mem hlt ?_ ?_ hstart ?_ hsafe.noDangling
  · rw [htwin, DirEntry.isLive_twin]
    exact taken_isLive hj.taken
  · rw [htwin, readStartCluster_twin]
  · rw [hfat _ hstart]
    exact (ho.complete rfl).mp hall _ hlo.head_mem

end freeAndRemove

/-! ## The two operations -/

/-- The calls that fail during a deletion do no harm: what `is_directory_empty` stores has room in its
array, and if the entry is found, starts a chain and, for `fat32_delete_dir`, looks empty or cannot be
looked at, then it is deleted cleanly. -/
def DirOp.DeletesHarmlessly (op : DirOp) (V : Volume) (e : Env) (s : Fs) (nm : List UInt8) : Prop :=
  op.Fits V e nm s ∧ ∀ j lo, V.FoundAt s.disk s.currentDirectoryCluster nm j →
    V.Chain s.disk (readStartCluster (V.slot s.disk s.currentDirectoryCluster j)) lo →
    (e.enter .find).Searches V →
    (op = .deleteDir → (e.enter .empty).fails (.load 0) = true ∨
      V.looksEmpty s.disk (readStartCluster (V.slot s.disk s.currentDirectoryCluster j)) = true) →
    V.DeletesCleanly e j lo

section delete

variable {V : Volume} {s : Fs} {e : Env} {op : DirOp} {nm : List UInt8} {j : Nat} {l : List Nat}

theorem delete_safe (h : s.Ready V) (hs : V.Sound s.disk s.currentDirectoryCluster l)
    (hop : op = .deleteFile ∨ op = .deleteDir) (hok : op.DeletesHarmlessly V e s nm) :
    ∃ b s', (op.call nm).run e s = some (b, s') ∧ DeleteSafe V s nm l b s' := by
  by_cases hex : ∃ j, (e.enter .find).Searches V ∧
      V.FoundAt s.disk s.currentDirectoryCluster nm j ∧
      V.Has (readStartCluster (V.slot s.disk s.currentDirectoryCluster j)) ∧
      op.GoesOn V e s.disk (readStartCluster (V.slot s.disk s.currentDirectoryCluster j))
  · obtain ⟨j, he, hj, hhas, hgo⟩ := hex
    obtain ⟨lo, hlo⟩ := hs.heads _ hs.chain.head_mem j hj.lt (taken_isLive hj.taken) hhas
    rw [run_delete_found h hop hok.1 he hj hhas hgo]
    refine freeAndRemove_safe h hs hj hlo (hok.2 j lo hj hlo he fun hdir => ?_)
    have := hgo hdir
    split at this
    next hf => exact Or.inl hf
    next => exact Or.inr this
  · rw [run_delete_refused h hop hok.1 fun j he hj hhas hgo => hex ⟨j, he, hj, hhas, hgo⟩]
    exact ⟨false, s, rfl, .refused hs⟩

/-- What the stack holds when `remove_entry_from_directory` finds `b` there, and zeros are
everywhere else. -/
def removeJunk (b : Bytes) : List Label → Bytes
  | .remove :: _ => b
  | _ => fun _ => 0

theorem fits_withJunk (junk : List Label → Bytes) :
    op.Fits V (e.withJunk junk) nm s ↔ op.Fits V e nm s := by
  unfold DirOp.Fits
  rw [withJunk_enter, searches_withJunk]
  exact Iff.rfl

/-- When the array overflows the call does not get to its end. -/
theorem delete_unsafe_of_overrun (h : s.Ready V) (hbad : ¬ op.Fits V e nm s)
    (junk : List Label → Bytes) : (op.call nm).run (e.withJunk junk) s = none := by
  rw [← fits_withJunk junk, ← DirOp.overruns_iff h] at hbad
  exact hbad.run_eq_none

theorem delete_unsafe (h : s.Ready V) (hs : V.Sound s.disk s.currentDirectoryCluster l)
    (hop : op = .deleteFile ∨ op = .deleteDir) (hfits : op.Fits V e nm s)
    (hbad : ¬ op.DeletesHarmlessly V e s nm) :
    ∃ junk b s', (op.call nm).run (e.withJunk junk) s = some (b, s') ∧
      ¬ DeleteSafe V s nm l b s' := by
  unfold DirOp.DeletesHarmlessly at hbad
  rw [not_and] at hbad
  have hunclean := hbad hfits
  push Not at hunclean
  obtain ⟨j, lo, hj, hlo, he, hempty, hclean⟩ := hunclean
  unfold Volume.DeletesCleanly at hclean
  rw [not_or] at hclean
  obtain ⟨hab, hclean⟩ := hclean
  -- zeros on the stack pass for an empty directory
  have hgo : ∀ b, op.GoesOn V (e.withJunk (removeJunk b)) s.disk
      (readStartCluster (V.slot s.disk s.currentDirectoryCluster j)) := by
    intro b hdir
    split
    next => rfl
    next hf => exact (hempty hdir).resolve_left hf
  have hrun : ∀ b, (op.call nm).run (e.withJunk (removeJunk b)) s
      = (freeAndRemove (V.slot s.disk s.currentDirectoryCluster j)).run
          (e.withJunk (removeJunk b)) s :=
    fun b => run_delete_found h hop ((fits_withJunk _).mpr hfits) (by simpa using he) hj
      (hlo.has hlo.head_mem) (hgo b)
  by_cases hfar : V.FreesAll (e.enter .free) 0 lo ∧ j / 16 < V.stored (e.enter .remove) 0
  · -- some sector `t` that is written back has not been read
    obtain ⟨t, ht, hfails⟩ : ∃ t, t < V.stored (e.enter .remove) 0 ∧
        ((e.enter .remove).enter (.cluster 0)).fails (.load t) = true := by
      by_contra hno
      push Not at hno
      refine hclean ⟨hfar.1, hfar.2, allLoaded_iff.mpr fun t _ ht => ?_⟩
      rw [Bool.eq_false_iff]
      exact hno t (by omega)
    obtain ⟨q, hq, rfl⟩ : ∃ q, q ≠ j ∧ q / 16 = t := by
      by_cases hj0 : 16 * t = j
      · exact ⟨16 * t + 1, by omega, by omega⟩
      · exact ⟨16 * t, hj0, by omega⟩
    refine ⟨removeJunk (setEntry (V.clusterBytes s.disk s.currentDirectoryCluster) q
      (V.slot s.disk s.currentDirectoryCluster j).twin), ?_⟩
    rw [hrun]
    exact freeAndRemove_unsafe_unread h hs hj hlo (by simpa using hfar.1) hq (by simpa using ht)
      hfails rfl
  · refine ⟨removeJunk (V.clusterBytes s.disk s.currentDirectoryCluster), ?_⟩
    rw [hrun]
    exact freeAndRemove_unsafe h hs hj hlo (by simpa using hab) (by simpa using hfar) rfl

/-- **Deleting while calls fail.** Whatever the stack holds, the call returns, no entry of the
current directory dangles, and after a success the entry is gone and its chain free: this holds
exactly for the patterns of failing calls that do no harm. -/
theorem delete_safe_iff (h : s.Ready V) (hs : V.Sound s.disk s.currentDirectoryCluster l)
    (hop : op = .deleteFile ∨ op = .deleteDir) :
    (∀ junk, ∃ b s', (op.call nm).run (e.withJunk junk) s = some (b, s') ∧
      DeleteSafe V s nm l b s') ↔ op.DeletesHarmlessly V e s nm := by
  constructor
  · intro hsafe
    by_contra hbad
    by_cases hfits : op.Fits V e nm s
    · obtain ⟨junk, b, s', hrun, hno⟩ := delete_unsafe h hs hop hfits hbad
      obtain ⟨b', s'', hrun', hyes⟩ := hsafe junk
      rw [hrun, Option.some.injEq, Prod.mk.injEq] at hrun'
      obtain ⟨rfl, rfl⟩ := hrun'
      exact hno hyes
    · obtain ⟨b, s', hrun, -⟩ := hsafe e.junk
      rw [delete_unsafe_of_overrun h hfits] at hrun
      cases hrun
  · intro hok junk
    refine delete_safe h hs hop ⟨(fits_withJunk junk).mpr hok.1, fun j lo hj hlo he hempty => ?_⟩
    have := hok.2 j lo hj hlo (by simpa using he) (by simpa using hempty)
    unfold Volume.DeletesCleanly at this ⊢
    simpa using this

end delete

/-! ## Two files -/

/-- Deleting A is safe when the check of the directory and the write of FSInfo fail. -/
theorem delete_safe_iff_harmless :
    ∃ b s', (fat32DeleteFile [0x41]).run harmlessEnv twoFilesFs = some (b, s') ∧
      DeleteSafe smallVolume twoFilesFs [0x41] [2] b s' := by
  have hop : DirOp.deleteFile = .deleteFile ∨ DirOp.deleteFile = .deleteDir := Or.inl rfl
  have hok : DirOp.deleteFile.DeletesHarmlessly smallVolume harmlessEnv twoFilesFs [0x41] := by
    refine ⟨nofun, fun j lo hj hlo _ _ => ?_⟩
    obtain rfl := hj.unique twoFilesFs_foundAtA
    rw [show twoFilesFs.currentDirectoryCluster = 2 from rfl,
      twoFilesFs_start (show 0 < 2 by omega)] at hlo
    obtain rfl := hlo.unique (twoFilesFs_chain (by omega) (by omega))
    exact Or.inr ⟨⟨⟨rfl, rfl⟩, nofun, trivial⟩, by decide, rfl⟩
  exact (delete_safe_iff twoFilesFs_ready twoFilesFs_sound hop).mpr hok harmlessEnv.junk

/-- The write of the second copy of the FAT fails while the first cluster of a chain is freed. -/
def secondCopyEnv : Env :=
  { quietEnv with fault := fun p =>
      match p with
      | [.store 1, .mark, .cluster 0, .free] => true
      | _ => false }

/-- The deletion of A then fails, with A in the directory and its cluster free. -/
theorem delete_dangles_secondCopy : twoFilesFs.Ready smallVolume ∧
    smallVolume.Sound twoFilesFs.disk 2 [2] ∧
    ∃ s', (fat32DeleteFile [0x41]).run secondCopyEnv twoFilesFs = some (false, s') ∧
      ¬ DeleteSafe smallVolume twoFilesFs [0x41] [2] false s' := by
  have hrun : ((fat32DeleteFile [0x41]).run secondCopyEnv twoFilesFs).map
      (fun r => (r.1, smallVolume.fat r.2.disk 3, (smallVolume.slot r.2.disk 2 0).isLive,
        readStartCluster (smallVolume.slot r.2.disk 2 0))) = some (false, 0, true, 3) := by
    decide +kernel
  obtain ⟨⟨b, s'⟩, hr, hb⟩ := Option.map_eq_some_iff.mp hrun
  simp only [Prod.mk.injEq] at hb
  obtain ⟨rfl, hfat, hlive, hstart⟩ := hb
  refine ⟨twoFilesFs_ready, twoFilesFs_sound, s', hr, fun hsafe => ?_⟩
  exact smallVolume.not_noDangling (List.mem_singleton_self 2) (by decide) hlive hstart (by decide)
    hfat hsafe.noDangling

end MicroKernel.Fat32
