import MicroKernel.Fat32.Mirror
import MicroKernel.Fat32.Chain
import MicroKernel.Fat32.FreeCount
import MicroKernel.Fat32.Names
import MicroKernel.Fat32.Reach

set_option autoImplicit false

/-! # What a creation leaves behind

`CreatedAt` says everything that a `fat32_create_file` or `fat32_create_dir` that returns true has
done: one cluster has been taken, a new directory has its two dot entries there, and one free slot
of the current directory has the new entry. Everything later that is about new entries goes by
this description.
-/

namespace MicroKernel.Fat32

open MicroKernel.Lib Bytes

/-! ## New entries -/

/-- The attributes of the entry that an operation makes. -/
def DirOp.attributes : DirOp → UInt8
  | .createDir => 0x10
  | _ => 0

theorem name_newEntry (e : Env) (nm : List UInt8) (r : Nat) (attributes : UInt8) {i : Nat}
    (hi : i < 11) : (e.newEntry nm r attributes).name i = convertTo83Format nm i :=
  name_newDirectoryEntry _ _ _ nm r attributes hi

theorem isFree_newEntry (e : Env) (nm : List UInt8) (r : Nat) (attributes : UInt8) :
    (e.newEntry nm r attributes).isFree = false := by
  obtain ⟨h1, h2⟩ := newDirectoryEntry_live (e.clock (.store 0 :: e.path))
    (e.clock (.store 1 :: e.path)) (e.clock (.store 2 :: e.path)) nm r attributes
  unfold Env.newEntry DirEntry.isFree
  rw [h1, h2]
  rfl

theorem isLfn_newEntry (e : Env) (nm : List UInt8) (r : Nat) (op : DirOp) :
    (e.newEntry nm r op.attributes).isLfn = false := by
  unfold DirEntry.isLfn
  rw [Env.newEntry, attr_newDirectoryEntry]
  cases op <;> decide

theorem skip_newEntry (e : Env) (nm : List UInt8) (r : Nat) (op : DirOp) :
    skipDeletedLfn (e.newEntry nm r op.attributes) = false := by
  have hfree := isFree_newEntry e nm r op.attributes
  unfold DirEntry.isFree at hfree
  rw [Bool.or_eq_false_iff] at hfree
  unfold skipDeletedLfn
  rw [hfree.2, isLfn_newEntry]
  rfl

/-! ## The state after a creation -/

/-- The slots while the entry is not in the directory yet: a new directory has been written. -/
def Fs.preparedSlot (s : Fs) (V : Volume) (e : Env) (op : DirOp) (r c j : Nat) : DirEntry :=
  if c = r ∧ op.attributes = 0x10 then entryAt ((e.enter .init).dots r s.currentDirectoryCluster) j
  else V.slot s.disk c j

theorem Fs.preparedSlot_ne (s : Fs) (V : Volume) (e : Env) (op : DirOp) {r c : Nat} (j : Nat)
    (hne : c ≠ r) : s.preparedSlot V e op r c j = V.slot s.disk c j :=
  if_neg fun hn => hne hn.1

/-- Cluster `r` has been taken, and slot `j` of cluster `c` has the new entry. -/
structure CreatedAt (V : Volume) (e : Env) (op : DirOp) (nm : List UInt8) (r c j : Nat)
    (s s' : Fs) : Prop where
  taken : V.Has r
  unused : V.fat s.disk r = 0
  has : V.Has c
  lt : j < V.slots
  free : (s.preparedSlot V e op r c j).isFree = true
  before : ∀ i, i < j → (s.preparedSlot V e op r c i).isFree = false
  first : c = s.currentDirectoryCluster ∨
    ∀ i, i < V.slots → (s.preparedSlot V e op r s.currentDirectoryCluster i).isFree = false
  inChain : ∀ l, V.Chain s.disk s.currentDirectoryCluster l → c ∈ l
  fat : ∀ y, V.Has y → V.fat s'.disk y = if y = r then eocMax else V.fat s.disk y
  slot : ∀ c' i, V.Has c' → i < V.slots → V.slot s'.disk c' i
    = if c' = c ∧ i = j then (e.enter .insert).newEntry nm r op.attributes
      else s.preparedSlot V e op r c' i
  ready : s'.Ready V
  cwd : s'.currentDirectoryCluster = s.currentDirectoryCluster

section create

variable {V : Volume} {s s' : Fs} {e : Env}

/-- The clusters that `add_entry_to_directory` comes to: the first one, or any after a first one
without a free slot; and on a chain only clusters of it. -/
def VisitedBy (V : Volume) (d : Disk) (slots : Nat → DirEntry) (cwd c : Nat) : Prop :=
  (c = cwd ∨ ∀ i, i < V.slots → (slots i).isFree = false) ∧
    (c < eocMin → ∀ l, V.Chain d cwd l → c ∈ l)

/-- The walk comes to the cluster that the FAT names after a full one. -/
theorem VisitedBy.next (he : e.Reliable) (h : s.Ready V) {r i c v : Nat} {t : Fs} (hr : V.Has r)
    (h0 : V.fat s.disk r = 0) (ht : Prepared V s r t)
    (hvisited : VisitedBy V s.disk (V.slot t.disk s.currentDirectoryCluster)
      s.currentDirectoryCluster c) (hlt : c < eocMin)
    (hfull : V.Has c → ∀ j, j < V.slots → (V.slot t.disk c j).isFree = false)
    (hnext : (getNextClusterInChain c).run ((e.enter (.cluster i)).enter .next) t = some (v, t)) :
    VisitedBy V s.disk (V.slot t.disk s.currentDirectoryCluster) s.currentDirectoryCluster v := by
  obtain ⟨hfirst, hchain⟩ := hvisited
  constructor
  · right
    rcases hfirst with rfl | hfirst
    · exact hfull h.cwd
    · exact hfirst
  · intro hv l hl
    have hc := hchain hlt l hl
    have hhas := Volume.Chain.has hl hc
    have hne : c ≠ r := by
      rintro rfl
      exact Volume.Chain.fat_ne_zero hl hc h0
    rw [run_getNext_reliable ((he.enter _).enter _) (ht.ready h).on hhas, Option.some.injEq,
      Prod.mk.injEq, ht.fat hr hhas, if_neg hne] at hnext
    obtain ⟨l', hl', hsuffix⟩ := hl.suffix hc
    rw [← hnext.1] at hv ⊢
    cases hl' with
    | last hs =>
        rw [nextOf, if_pos (Volume.link_eq_stop hs).2] at hv
        exact absurd hv (by decide)
    | cons hn hl' =>
        obtain ⟨-, hfat, hlt', -⟩ := Volume.link_eq_next hn
        rw [nextOf, hfat, if_neg (by omega)]
        exact hsuffix.subset (List.mem_cons_of_mem _ hl'.head_mem)

theorem createdAt_of_insert (he : e.Reliable) (h : s.Ready V) {op : DirOp} {nm : List UInt8}
    {r : Nat} {t s₁ : Fs} (hr : V.Has r) (h0 : V.fat s.disk r = 0) (ht : Prepared V s r t)
    (hslot : ∀ c i, V.Has c → i < V.slots →
      V.slot t.disk c i = s.preparedSlot V e op r c i)
    (hadd : (addEntryToDirectory s.currentDirectoryCluster nm r op.attributes).run
      (e.enter .insert) t = some (true, s₁)) :
    ∃ c j, CreatedAt V e op nm r c j s (s₁.flushed V) := by
  have htr := ht.ready h
  rcases addEntryToDirectory_cases (he.enter .insert)
    (R := fun _ c => VisitedBy V s.disk (V.slot t.disk s.currentDirectoryCluster)
      s.currentDirectoryCluster c)
    (fun _ _ _ hv hlt hfull hnext => hv.next (he.enter _) h hr h0 ht hlt hfull hnext) htr.on h.cwd
    ⟨Or.inl rfl, fun _ l hl => hl.head_mem⟩ hadd with
    ⟨hb, -⟩ | ⟨-, i, c, j, ⟨hfirst, hchain⟩, hc, hj, hfree, hbefore, rfl⟩
  · cases hb
  · have hready : (t.withDisk (V.putSlot t.disk c j
        ((e.enter .insert).newEntry nm r op.attributes))).Ready V := htr.withDisk _
    refine ⟨c, j, ?_⟩
    exact
      { taken := hr
        unused := h0
        has := hc
        lt := hj
        free := by rwa [hslot c j hc hj] at hfree
        before := fun i hi => by
          have := hbefore i hi
          rwa [hslot c i hc (by omega)] at this
        first := by
          rcases hfirst with hfirst | hfirst
          · exact Or.inl hfirst
          · right
            intro i hi
            rw [← hslot _ i h.cwd hi]
            exact hfirst i hi
        inChain := hchain hc.lt_eocMin
        fat := by
          intro y hy
          rw [fat_flushed hready, Fs.withDisk_disk, V.fat_putSlot _ _ hj hy.2, ht.fat hr hy]
        slot := by
          intro c' i hc' hi
          rw [slot_flushed hready, Fs.withDisk_disk, V.slot_putSlot _ _ hj hc.1 hc'.1 hi,
            hslot c' i hc' hi]
        ready := hready.flushed
        cwd := by rw [Fs.flushed_cwd, Fs.withDisk_currentDirectoryCluster, ht.cwd] }

/-- **A creation that returns true.** -/
theorem createdAt_of_run (he : e.Reliable) (h : s.Ready V) {op : DirOp} {nm : List UInt8}
    (hop : op = .createFile ∨ op = .createDir) (hrun : (op.call nm).run e s = some (true, s')) :
    ∃ r c j, CreatedAt V e op nm r c j s s' := by
  rcases hop with rfl | rfl
  · rcases fat32CreateFile_cases he h hrun with ⟨hb, -⟩ | ⟨r, hr, h0, s₁, hadd, rfl⟩
    · cases hb
    · refine ⟨r, createdAt_of_insert he h hr h0 (Or.inl rfl) ?_ hadd⟩
      intro c i _ _
      rw [Fs.preparedSlot, if_neg fun hn => absurd hn.2 (by decide), Fs.taking_disk,
        V.slot_setFat _ hr.2 (Nat.le_refl _)]
  · rcases fat32CreateDir_cases he h hrun with ⟨hb, -⟩ | ⟨r, hr, h0, s₁, hadd, rfl⟩
    · cases hb
    · refine ⟨r, createdAt_of_insert he h hr h0 (Or.inr ⟨_, rfl⟩) ?_ hadd⟩
      intro c i hc hi
      unfold Fs.preparedSlot
      by_cases hcr : c = r
      · subst hcr
        have hi' := hi
        unfold Volume.slots at hi'
        rw [if_pos ⟨rfl, rfl⟩, Fs.withDisk_disk, V.slot_putCluster_same, if_pos (by omega)]
      · rw [if_neg fun hn => hcr hn.1]
        exact Prepared.slot (Or.inr ⟨_, rfl⟩) hr hc hcr hi

/-- What an operation has done to the FAT and to the directories. -/
inductive Change (V : Volume) (e : Env) (op : DirOp) (nm : List UInt8) (s s' : Fs) : Prop where
  /-- The FAT and the clusters in use are as they were. -/
  | quiet (fat : ∀ y, V.Has y → V.fat s'.disk y = V.fat s.disk y)
      (slot : ∀ c i, V.Has c → i < V.slots → V.fat s.disk c ≠ 0 →
        V.slot s'.disk c i = V.slot s.disk c i)
  | created {r c j : Nat} (hop : op = .createFile ∨ op = .createDir)
      (h : CreatedAt V e op nm r c j s s')
  | deleted {j : Nat} (h : Deletes V e nm j s s')

/-- A failed operation changes neither the FAT nor a cluster in use. -/
theorem change_of_failed {op : DirOp} {nm : List UInt8} (ho : Outcome V s false s') :
    Change V e op nm s s' := by
  cases ho with
  | same => exact .quiet (fun _ _ => rfl) fun _ _ _ _ _ => rfl
  | undone hr h0 ht =>
      refine .quiet (fun y hy => ?_) fun c i hc hi hne => ?_
      · rw [Fs.marked_disk, V.fat_setFat _ hr.2 hy.2 V.numberOfFats_pos, ht.fat hr hy]
        split
        next heq => rw [heq, h0, Nat.zero_mod]
        next => rfl
      · rw [Fs.marked_disk, V.slot_setFat _ hr.2 (Nat.le_refl _)]
        refine ht.slot hr hc (fun heq => hne ?_) hi
        rw [heq, h0]

theorem DirOp.change (he : e.Reliable) (h : s.Ready V) (op : DirOp) {nm : List UInt8} {b : Bool}
    (hrun : (op.call nm).run e s = some (b, s')) : Change V e op nm s s' := by
  have ho := op.outcome he h hrun
  cases b with
  | false => exact change_of_failed ho
  | true =>
      cases op with
      | createFile =>
          obtain ⟨r, c, j, hc⟩ := createdAt_of_run he h (Or.inl rfl) hrun
          exact .created (Or.inl rfl) hc
      | createDir =>
          obtain ⟨r, c, j, hc⟩ := createdAt_of_run he h (Or.inr rfl) hrun
          exact .created (Or.inr rfl) hc
      | deleteFile =>
          rcases fat32DeleteFile_cases he h hrun with ⟨hb, -⟩ | ⟨-, j, hd⟩
          · cases hb
          · exact .deleted hd
      | deleteDir =>
          rcases fat32DeleteDir_cases he h hrun with ⟨hb, -⟩ | ⟨-, j, hd, -⟩
          · cases hb
          · exact .deleted hd

end create

/-! ## Create, then find

`add_entry_to_directory` takes the first free slot along the chain of the directory and writes the
name as `convert_to_83_format` makes it; `find_file_in_directory` looks at the first cluster only
and compares with `compare_names`. -/

/-- The first cluster of the current directory has a slot for a new entry. -/
def Fs.HasFreeSlot (s : Fs) (V : Volume) : Prop :=
  ∃ j, j < V.slots ∧ (V.slot s.disk s.currentDirectoryCluster j).isFree = true

section find

variable {V : Volume} {s s' : Fs} {e : Env} {op : DirOp} {nm : List UInt8} {r c j : Nat}

theorem CreatedAt.compareNames_iff (h : CreatedAt V e op nm r c j s s') :
    compareNames (V.slot s'.disk c j).name nm = true ↔ Fits83 nm := by
  rw [h.slot c j h.has h.lt, if_pos ⟨rfl, rfl⟩, ← compareNames_convert_iff]
  rw [compareNames_congr fun k hk => name_newEntry _ nm r op.attributes hk]

/-- The slots of an allocated current directory, before the new entry is in it. -/
theorem CreatedAt.preparedSlot_cwd (h : CreatedAt V e op nm r c j s s')
    (hdir : V.fat s.disk s.currentDirectoryCluster ≠ 0) (i : Nat) :
    s.preparedSlot V e op r s.currentDirectoryCluster i
      = V.slot s.disk s.currentDirectoryCluster i := by
  apply Fs.preparedSlot_ne
  intro heq
  apply hdir
  rw [heq]
  exact h.unused

/-- The new entry is in the first cluster exactly when there was a slot. -/
theorem CreatedAt.first_iff (h : CreatedAt V e op nm r c j s s')
    (hdir : V.fat s.disk s.currentDirectoryCluster ≠ 0) :
    c = s.currentDirectoryCluster ↔ s.HasFreeSlot V := by
  constructor
  · rintro rfl
    have hfree := h.free
    rw [h.preparedSlot_cwd hdir] at hfree
    exact ⟨j, h.lt, hfree⟩
  · rintro ⟨i, hi, hfree⟩
    rcases h.first with hc | hfull
    · exact hc
    · have := hfull i hi
      rw [h.preparedSlot_cwd hdir, hfree] at this
      cases this

/-- In the first cluster the new entry is not after a slot that was free. -/
theorem CreatedAt.le_of_isFree (h : CreatedAt V e op nm r c j s s')
    (hdir : V.fat s.disk s.currentDirectoryCluster ≠ 0) (hc : c = s.currentDirectoryCluster) {i : Nat}
    (hfree : (V.slot s.disk s.currentDirectoryCluster i).isFree = true) : j ≤ i := by
  by_contra hlt
  have hused := h.before i (Nat.lt_of_not_le hlt)
  rw [hc, h.preparedSlot_cwd hdir, hfree] at hused
  cases hused

/-- The new entry is the one that is found, when it is in the first cluster and its name
matches. -/
theorem CreatedAt.found (h : CreatedAt V e op nm r c j s s')
    (hdir : V.fat s.disk s.currentDirectoryCluster ≠ 0)
    (hno : ∀ i, ¬ V.FoundAt s.disk s.currentDirectoryCluster nm i)
    (hc : c = s.currentDirectoryCluster) (hfits : Fits83 nm) :
    V.FoundAt s'.disk s'.currentDirectoryCluster nm j := by
  have hlt := h.lt
  have hold : ∀ i, i < j → (V.slot s.disk c i).isFree = false ∧
      V.slot s'.disk c i = V.slot s.disk c i := by
    intro i hi
    have hbefore := h.before i hi
    rw [hc, h.preparedSlot_cwd hdir] at hbefore
    rw [h.slot c i h.has (by omega), if_neg fun hn => absurd hn.2 (by omega), hc,
      h.preparedSlot_cwd hdir]
    exact ⟨hbefore, rfl⟩
  have hend : ∀ i, i < j → (V.slot s.disk c i).isEnd = false := by
    intro i hi
    have hfree := (hold i hi).1
    unfold DirEntry.isFree at hfree
    exact (Bool.or_eq_false_iff.mp hfree).1
  rw [h.cwd, ← hc]
  rw [← hc] at hno
  refine ⟨hlt, ?_, ?_⟩
  · -- what is before the new entry was there before, and nothing of that matched
    intro i hi
    rw [(hold i hi).2]
    refine ⟨hend i hi, fun hskip => ?_⟩
    rw [← Bool.not_eq_true]
    intro hacc
    have htaken : Taken skipDeletedLfn (fun x => compareNames x.name nm) (V.slot s.disk c i) :=
      ⟨hend i hi, hskip, hacc⟩
    obtain ⟨i', -, hfound⟩ := exists_firstTaken (show i < V.slots by omega)
      (fun i' hi' => hend i' (by omega)) htaken
    exact hno i' hfound
  · have hname := h.compareNames_iff.mpr hfits
    have hslot := h.slot c j h.has hlt
    rw [if_pos ⟨rfl, rfl⟩] at hslot
    refine ⟨?_, ?_, hname⟩
    · have hfree := isFree_newEntry (e.enter .insert) nm r op.attributes
      unfold DirEntry.isFree at hfree
      rw [hslot]
      exact (Bool.or_eq_false_iff.mp hfree).1
    · rw [hslot]
      exact skip_newEntry _ nm r op

/-- **Create, then find.** A creation succeeds in a directory where `find_file_in_directory` finds
nothing with the name. Then `find_file_in_directory`, which has its memory, returns the new entry
exactly when the first cluster of the directory had a free slot and the name keeps all its
characters in the 8.3 form. -/
theorem create_then_find_iff {e' : Env} (he : e.Reliable) (he' : e'.Reliable) (h : s.Ready V)
    (hdir : V.fat s.disk s.currentDirectoryCluster ≠ 0)
    (hop : op = .createFile ∨ op = .createDir)
    (hno : ∀ i, ¬ V.FoundAt s.disk s.currentDirectoryCluster nm i)
    (hrun : (op.call nm).run e s = some (true, s')) :
    ∃ r c j, CreatedAt V e op nm r c j s s' ∧
      ((findFileInDirectory nm).run e' s' = some (some (V.slot s'.disk c j), s') ↔
        e'.outOfMemory (.load 0 :: e'.path) = false ∧
          e'.outOfMemory (.store 0 :: e'.path) = false ∧ s.HasFreeSlot V ∧ Fits83 nm) := by
  obtain ⟨r, c, j, hc⟩ := createdAt_of_run he h hop hrun
  refine ⟨r, c, j, hc, ?_⟩
  constructor
  · intro hfind
    have hsearch : e'.Searches V := by
      by_contra hn
      rw [run_findFileInDirectory_none hc.ready fun hs => absurd hs hn] at hfind
      simp at hfind
    obtain ⟨-, hnone | ⟨i, hi, hx⟩⟩ := findFileInDirectory_cases hc.ready hfind
    · cases hnone
    · rw [Option.some.injEq] at hx
      have hfits : Fits83 nm := by
        rw [← hc.compareNames_iff, hx]
        exact hi.taken.2.2
      refine ⟨hsearch.buffer, hsearch.result, ?_, hfits⟩
      rw [← hc.first_iff hdir]
      by_contra hne
      -- the first cluster is as it was, so what is found now was found before
      apply hno i
      apply hi.congr
      intro k hk
      have := hi.lt
      rw [hc.cwd, hc.slot _ k h.cwd (by omega), if_neg fun hn => hne hn.1.symm,
        hc.preparedSlot_cwd hdir]
  · rintro ⟨hbuffer, hresult, hfree, hfits⟩
    have hcwd := (hc.first_iff hdir).mpr hfree
    have hfound := hc.found hdir hno hcwd hfits
    rw [run_findFileInDirectory ⟨hbuffer, he'.allLoaded _ _, hresult⟩ hc.ready hfound, hc.cwd, hcwd]

end find

theorem emptyRootFs_slot {i : Nat} (hi : i < smallVolume.slots) :
    smallVolume.slot emptyRootFs.disk 2 i = zeroEntry := by
  rw [emptyRootFs, smallFs_disk, smallVolume.slot_image _ _ _ (Nat.le_refl 2) hi]

theorem emptyRootFs_notFound (nm : List UInt8) (i : Nat) :
    ¬ smallVolume.FoundAt emptyRootFs.disk emptyRootFs.currentDirectoryCluster nm i := by
  intro hi
  have hend := hi.noEnd (Nat.zero_le i)
  rw [show (smallVolume.slot emptyRootFs.disk emptyRootFs.currentDirectoryCluster 0).isEnd = true by
    decide] at hend
  cases hend

/-- The first entry of the empty root is put into its first slot. -/
theorem CreatedAt.emptyRoot {e : Env} {op : DirOp} {nm : List UInt8} {r c j : Nat} {s' : Fs}
    (h : CreatedAt smallVolume e op nm r c j emptyRootFs s') :
    c = 2 ∧ j = 0 ∧ ∀ i, i < smallVolume.slots → smallVolume.slot s'.disk 2 i
      = if i = 0 then (e.enter .insert).newEntry nm r op.attributes else zeroEntry := by
  have hdir : smallVolume.fat emptyRootFs.disk emptyRootFs.currentDirectoryCluster ≠ 0 := by
    decide
  have hold : ∀ i, i < smallVolume.slots → emptyRootFs.preparedSlot smallVolume e op r 2 i
      = zeroEntry := fun i hi => (h.preparedSlot_cwd hdir i).trans (emptyRootFs_slot hi)
  have hpos : 0 < smallVolume.slots := by decide
  have hfree : (smallVolume.slot emptyRootFs.disk 2 0).isFree = true := by
    rw [emptyRootFs_slot hpos]
    rfl
  obtain rfl : c = 2 := (h.first_iff hdir).mpr ⟨0, hpos, hfree⟩
  obtain rfl : j = 0 := Nat.le_zero.mp (h.le_of_isFree hdir rfl hfree)
  refine ⟨rfl, rfl, fun i hi => ?_⟩
  rw [h.slot 2 i h.has hi, hold i hi]
  simp only [true_and]

/-- A file `A` in an empty root. -/
theorem create_then_find_letter : ∃ s', (fat32CreateFile [0x41]).run quietEnv emptyRootFs
      = some (true, s') ∧
    ∃ r c j, CreatedAt smallVolume quietEnv .createFile [0x41] r c j emptyRootFs s' ∧
      (findFileInDirectory [0x41]).run quietEnv s'
        = some (some (smallVolume.slot s'.disk c j), s') := by
  obtain ⟨s', hr⟩ := emptyRootFs_createFile [0x41]
  have hready : emptyRootFs.Ready smallVolume := smallFs_ready _ _ _
  have hcall : (DirOp.createFile.call [0x41]).run quietEnv emptyRootFs = some (true, s') := hr
  obtain ⟨r, c, j, hc, hiff⟩ := create_then_find_iff quietEnv_reliable quietEnv_reliable hready
    (by decide) (Or.inl rfl) (emptyRootFs_notFound [0x41]) hcall
  exact ⟨s', hr, r, c, j, hc,
    hiff.mpr ⟨rfl, rfl, ⟨0, by decide, by decide⟩, by decide +kernel⟩⟩

/-- The name `a_b` is written as `AB`: the file is created and is not found. -/
theorem create_then_find_underscore : ∃ s',
    (∀ i, ¬ smallVolume.FoundAt emptyRootFs.disk emptyRootFs.currentDirectoryCluster
      [0x61, 0x5F, 0x62] i) ∧
    (fat32CreateFile [0x61, 0x5F, 0x62]).run quietEnv emptyRootFs = some (true, s') ∧
    (findFileInDirectory [0x61, 0x5F, 0x62]).run quietEnv s' = some (none, s') := by
  obtain ⟨s', hr⟩ := emptyRootFs_createFile [0x61, 0x5F, 0x62]
  have hcall : (DirOp.createFile.call [0x61, 0x5F, 0x62]).run quietEnv emptyRootFs
      = some (true, s') := hr
  obtain ⟨r, c, j, hc⟩ := createdAt_of_run quietEnv_reliable (smallFs_ready _ _ _) (Or.inl rfl) hcall
  obtain ⟨rfl, rfl, hslot⟩ := hc.emptyRoot
  have hno : ∀ i, ¬ smallVolume.FoundAt s'.disk s'.currentDirectoryCluster [0x61, 0x5F, 0x62] i := by
    intro i hi
    rw [hc.cwd] at hi
    have htaken := hi.taken
    rcases Nat.eq_zero_or_pos i with rfl | hpos
    · -- the entry, whose name is `AB`
      exact absurd (hc.compareNames_iff.mp htaken.2.2) (by decide)
    · have hend := htaken.1
      change (smallVolume.slot s'.disk 2 i).isEnd = false at hend
      rw [hslot i hi.lt, if_neg (by omega)] at hend
      cases hend
  exact ⟨s', emptyRootFs_notFound _, hr, run_findFileInDirectory_none hc.ready fun _ => hno⟩

end MicroKernel.Fat32
