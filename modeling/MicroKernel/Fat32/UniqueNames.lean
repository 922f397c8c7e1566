import MicroKernel.Fat32.Create
import MicroKernel.Fat32.Ownership

set_option autoImplicit false

/-! # Unique names

Neither `fat32_create_file` nor `fat32_create_dir` looks whether the name is in the directory
already, and `convert_to_83_format` maps many strings to one name. So names stay unique exactly as
long as the callers see to it. Deletions and changes of directory do no harm, and neither do entries
that a deletion has cut off and a creation uncovers again: a slot counts here as long as its bytes
are those of an entry, behind an end marker as well.
-/

namespace MicroKernel.Fat32

open MicroKernel.Lib Bytes

/-! ## Directories and their names -/

namespace Volume

variable (V : Volume) (d : Disk)

/-- Slot `j` of cluster `c` belongs to the clusters `l` and holds an entry. -/
structure Holds (l : List Nat) (c j : Nat) : Prop where
  mem : c ∈ l
  lt : j < V.slots
  live : (V.slot d c j).isLive = true

/-- The directories: the root, and what the entries of directories lead to. -/
inductive Directory : Nat → Prop where
  | root : Directory V.bs.rootCluster
  | sub {dir c j : Nat} {l : List Nat} (hdir : Directory dir) (hl : V.Chain d dir l)
      (h : V.Holds d l c j) (hd : (V.slot d c j).isDirectory = true) :
      Directory (readStartCluster (V.slot d c j))

/-- No directory holds two entries with the same eleven bytes as their names. -/
def UniqueNames : Prop :=
  ∀ dir l, V.Directory d dir → V.Chain d dir l → ∀ c j c' j', V.Holds d l c j →
    V.Holds d l c' j' → (∀ k, k < 11 → (V.slot d c j).name k = (V.slot d c' j').name k) →
    c = c' ∧ j = j'

end Volume

/-! ## What a step keeps -/

/-- Every directory of `d'` is a directory of `d`, with the same chain, and what it holds there it
holds here. -/
structure Shrinks (V : Volume) (d d' : Disk) : Prop where
  chain : ∀ dir l, V.Chain d' dir l → V.Chain d dir l
  slot : ∀ dir l c j, V.Chain d' dir l → V.Holds d' l c j → V.slot d' c j = V.slot d c j

section shrinks

variable {V : Volume} {d d' : Disk}

theorem Shrinks.holds (h : Shrinks V d d') {dir c j : Nat} {l : List Nat}
    (hl : V.Chain d' dir l) (hh : V.Holds d' l c j) : V.Holds d l c j := by
  refine ⟨hh.mem, hh.lt, ?_⟩
  rw [← h.slot dir l c j hl hh]
  exact hh.live

theorem Shrinks.directory (h : Shrinks V d d') {dir : Nat} (hdir : V.Directory d' dir) :
    V.Directory d dir := by
  induction hdir with
  | root => exact .root
  | sub hdir hl hh hd ih =>
      rw [h.slot _ _ _ _ hl hh] at hd ⊢
      exact .sub ih (h.chain _ _ hl) (h.holds hl hh) hd

theorem Shrinks.uniqueNames (h : Shrinks V d d') (hu : V.UniqueNames d) : V.UniqueNames d' := by
  intro dir l hdir hl c j c' j' h1 h2 hname
  apply hu dir l (h.directory hdir) (h.chain dir l hl) c j c' j' (h.holds hl h1) (h.holds hl h2)
  rw [← h.slot dir l c j hl h1, ← h.slot dir l c' j' hl h2]
  exact hname

end shrinks

section change

variable {V : Volume} {s s' : Fs} {e : Env} {op : DirOp} {nm : List UInt8} {r c j : Nat}

/-- A deletion takes entries and chains away. -/
theorem Deletes.shrinks (hd : Deletes V e nm j s s') (h : s.Ready V) :
    Shrinks V s.disk s'.disk where
  chain := by
    intro dir l hl
    apply hl.congr_fat
    intro y hy
    exact ((hd.fat h (hl.has hy)).resolve_left (hl.fat_ne_zero hy)).symm
  slot := by
    intro dir l c i hl hh
    have hslot := hd.slotAt h (hl.has hh.mem) hh.lt
    rw [hslot]
    split at hslot
    next =>
      have hlive := hh.live
      rw [hslot] at hlive
      cases hlive
    next hne => rw [if_neg hne]

/-- A failed operation leaves all chains and what is in them. -/
theorem shrinks_of_quiet (hfat : ∀ y, V.Has y → V.fat s'.disk y = V.fat s.disk y)
    (hslot : ∀ c i, V.Has c → i < V.slots → V.fat s.disk c ≠ 0 →
      V.slot s'.disk c i = V.slot s.disk c i) : Shrinks V s.disk s'.disk where
  chain := by
    intro dir l hl
    apply hl.congr_fat
    intro y hy
    exact (hfat y (hl.has hy)).symm
  slot := by
    intro dir l c i hl hh
    refine hslot c i (hl.has hh.mem) hh.lt ?_
    rw [← hfat c (hl.has hh.mem)]
    exact hl.fat_ne_zero hh.mem

end change

/-! ## Creations -/

/-- The condition for a creation of `nm`: every directory has a well-formed chain, the current
directory is one of them, and no directory that has the cluster of the new entry holds an entry with
the name that `convert_to_83_format` makes. -/
structure Fs.Fresh (s : Fs) (V : Volume) (nm : List UInt8) : Prop where
  chains : ∀ dir, V.Directory s.disk dir → ∃ l, V.Chain s.disk dir l
  cwd : V.Directory s.disk s.currentDirectoryCluster
  unused : ∀ dir l l₀ c i, V.Directory s.disk dir → V.Chain s.disk dir l →
    V.Chain s.disk s.currentDirectoryCluster l₀ → c ∈ l → c ∈ l₀ → i < V.slots →
    (V.slot s.disk c i).isFree = true → ∀ c' j', V.Holds s.disk l c' j' →
      ¬ ∀ k, k < 11 → (V.slot s.disk c' j').name k = convertTo83Format nm k

section create

variable {V : Volume} {s s' : Fs} {e : Env} {op : DirOp} {nm : List UInt8} {r c j : Nat}

theorem CreatedAt.mem_ne (h : CreatedAt V e op nm r c j s s') {dir y : Nat} {l : List Nat}
    (hl : V.Chain s.disk dir l) (hy : y ∈ l) : y ≠ r := by
  rintro rfl
  exact hl.fat_ne_zero hy h.unused

/-- The chains stay. -/
theorem CreatedAt.chain (h : CreatedAt V e op nm r c j s s') {dir : Nat} {l : List Nat}
    (hl : V.Chain s.disk dir l) : V.Chain s'.disk dir l := by
  apply hl.congr_fat
  intro y hy
  rw [h.fat y (hl.has hy), if_neg (h.mem_ne hl hy)]

/-- The new cluster is a chain of its own. -/
theorem CreatedAt.chain_new (h : CreatedAt V e op nm r c j s s') : V.Chain s'.disk r [r] := by
  refine .last ?_
  unfold Volume.link
  rw [if_pos h.taken, h.fat r h.taken, if_pos rfl, if_pos (by decide)]

/-- The slots of a chain: the new entry, and otherwise what was there. -/
theorem CreatedAt.slot_chain (h : CreatedAt V e op nm r c j s s') {dir c' i : Nat} {l : List Nat}
    (hl : V.Chain s.disk dir l) (hc : c' ∈ l) (hi : i < V.slots) : V.slot s'.disk c' i
      = if c' = c ∧ i = j then (e.enter .insert).newEntry nm r op.attributes
        else V.slot s.disk c' i := by
  rw [h.slot c' i (hl.has hc) hi, Fs.preparedSlot_ne _ _ _ _ _ (h.mem_ne hl hc)]

/-- The new entry is in the chain of the current directory, in a slot that was free. -/
theorem CreatedAt.slot_free (h : CreatedAt V e op nm r c j s s') {l₀ : List Nat}
    (hl : V.Chain s.disk s.currentDirectoryCluster l₀) :
    c ∈ l₀ ∧ (V.slot s.disk c j).isFree = true := by
  have hc := h.inChain l₀ hl
  have hfree := h.free
  rw [Fs.preparedSlot_ne _ _ _ _ _ (h.mem_ne hl hc)] at hfree
  exact ⟨hc, hfree⟩

/-- What a new directory holds: its two dot entries. -/
theorem CreatedAt.holds_new (h : CreatedAt V e .createDir nm r c j s s') {l₀ : List Nat}
    (hl : V.Chain s.disk s.currentDirectoryCluster l₀) {c' i : Nat}
    (hh : V.Holds s'.disk [r] c' i) : c' = r ∧
      ((i = 0 ∧ V.slot s'.disk r i
          = ((e.enter .init).enter (.cluster 0)).newEntry [0x2E] r 0x10) ∨
        (i = 1 ∧ V.slot s'.disk r i = ((e.enter .init).enter (.cluster 1)).newEntry [0x2E, 0x2E]
          s.currentDirectoryCluster 0x10)) := by
  obtain rfl : c' = r := by simpa using hh.mem
  have hne : c ≠ c' := h.mem_ne hl (h.slot_free hl).1
  have hlive := hh.live
  have hslot := h.slot c' i h.taken hh.lt
  rw [if_neg fun hn => hne hn.1.symm, Fs.preparedSlot, if_pos ⟨rfl, rfl⟩, entryAt_dots] at hslot
  refine ⟨rfl, ?_⟩
  rw [hslot] at hlive ⊢
  by_cases h1 : i = 1
  · rw [if_pos h1]
    exact Or.inr ⟨h1, rfl⟩
  · by_cases h0 : i = 0
    · rw [if_neg h1, if_pos h0]
      exact Or.inl ⟨h0, rfl⟩
    · rw [if_neg h1, if_neg h0] at hlive
      cases hlive

/-- The directories after a creation: those there were, and the new one. -/
theorem CreatedAt.directory_cases (h : CreatedAt V e op nm r c j s s')
    (hop : op = .createFile ∨ op = .createDir) (hs : s.Ready V) (hf : s.Fresh V nm) {dir : Nat}
    (hdir : V.Directory s'.disk dir) :
    V.Directory s.disk dir ∨ (op = .createDir ∧ dir = r) := by
  obtain ⟨l₀, hl₀⟩ := hf.chains _ hf.cwd
  induction hdir with
  | root => exact Or.inl .root
  | @sub dir c' i l hdir hl hh hd ih =>
      rcases ih with hold | ⟨rfl, rfl⟩
      · obtain ⟨l', hl'⟩ := hf.chains dir hold
        obtain rfl := hl.unique (h.chain hl')
        have hslot := h.slot_chain hl' hh.mem hh.lt
        have hlive := hh.live
        by_cases hnew : c' = c ∧ i = j
        · rw [if_pos hnew] at hslot
          rw [hslot] at hd ⊢
          right
          rcases hop with rfl | rfl
          · -- a file is no directory
            rw [DirEntry.isDirectory, Env.newEntry, attr_newDirectoryEntry] at hd
            exact absurd hd (by decide)
          · exact ⟨rfl, newEntry_start _ _ h.taken.lt_u32⟩
        · rw [if_neg hnew] at hslot
          rw [hslot] at hd hlive ⊢
          exact Or.inl (.sub hold hl' ⟨hh.mem, hh.lt, hlive⟩ hd)
      · obtain rfl := hl.unique h.chain_new
        obtain ⟨rfl, ⟨rfl, hslot⟩ | ⟨rfl, hslot⟩⟩ := h.holds_new hl₀ hh
        · rw [hslot]
          exact Or.inr ⟨rfl, newEntry_start _ _ h.taken.lt_u32⟩
        · rw [hslot, newEntry_start _ _ hs.cwd.lt_u32]
          exact Or.inl hf.cwd

theorem CreatedAt.uniqueNames (h : CreatedAt V e op nm r c j s s')
    (hop : op = .createFile ∨ op = .createDir) (hs : s.Ready V) (hf : s.Fresh V nm)
    (hu : V.UniqueNames s.disk) : V.UniqueNames s'.disk := by
  obtain ⟨l₀, hl₀⟩ := hf.chains _ hf.cwd
  intro dir l hdir hl c₁ j₁ c₂ j₂ h1 h2 hname
  rcases h.directory_cases hop hs hf hdir with hold | ⟨rfl, rfl⟩
  · -- in a directory that was there, one of the two entries at most is the new one
    obtain ⟨l', hl'⟩ := hf.chains dir hold
    obtain rfl := hl.unique (h.chain hl')
    have hs1 := h.slot_chain hl' h1.mem h1.lt
    have hs2 := h.slot_chain hl' h2.mem h2.lt
    -- an entry that was there does not have the new name
    have hno : ∀ c' i, c ∈ l → V.Holds s'.disk l c' i → ¬ (c' = c ∧ i = j) →
        ¬ ∀ k, k < 11 → (V.slot s'.disk c' i).name k = convertTo83Format nm k := by
      intro c' i hc hh hne
      obtain ⟨hc₀, hfree⟩ := h.slot_free hl₀
      have hslot := h.slot_chain hl' hh.mem hh.lt
      rw [if_neg hne] at hslot
      have hlive := hh.live
      rw [hslot] at hlive ⊢
      exact hf.unused dir l l₀ c j hold hl' hl₀ hc hc₀ h.lt hfree c' i ⟨hh.mem, hh.lt, hlive⟩
    by_cases hn1 : c₁ = c ∧ j₁ = j
    · by_cases hn2 : c₂ = c ∧ j₂ = j
      · rw [hn1.1, hn1.2, hn2.1, hn2.2]
        exact ⟨rfl, rfl⟩
      · refine absurd ?_ (hno c₂ j₂ (hn1.1 ▸ h1.mem) h2 hn2)
        intro k hk
        rw [← hname k hk, hs1, if_pos hn1]
        exact name_newEntry _ nm r _ hk
    · by_cases hn2 : c₂ = c ∧ j₂ = j
      · refine absurd ?_ (hno c₁ j₁ (hn2.1 ▸ h2.mem) h1 hn1)
        intro k hk
        rw [hname k hk, hs2, if_pos hn2]
        exact name_newEntry _ nm r _ hk
      · rw [if_neg hn1] at hs1
        rw [if_neg hn2] at hs2
        have hlive1 := h1.live
        have hlive2 := h2.live
        rw [hs1] at hlive1 hname
        rw [hs2] at hlive2 hname
        exact hu dir l hold hl' c₁ j₁ c₂ j₂ ⟨h1.mem, h1.lt, hlive1⟩ ⟨h2.mem, h2.lt, hlive2⟩ hname
  · -- a new directory holds its dot entries only
    obtain rfl := hl.unique h.chain_new
    obtain ⟨rfl, h1'⟩ := h.holds_new hl₀ h1
    obtain ⟨rfl, h2'⟩ := h.holds_new hl₀ h2
    -- the names `.` and `..` differ in their second characters
    have hdot := hname 1 (by omega)
    rcases h1' with ⟨rfl, hs1⟩ | ⟨rfl, hs1⟩
    · rcases h2' with ⟨rfl, -⟩ | ⟨rfl, hs2⟩
      · exact ⟨rfl, rfl⟩
      · rw [hs1, hs2, name_newEntry _ _ _ _ (by omega), name_newEntry _ _ _ _ (by omega)] at hdot
        exact absurd hdot (by decide)
    · rcases h2' with ⟨rfl, hs2⟩ | ⟨rfl, -⟩
      · rw [hs1, hs2, name_newEntry _ _ _ _ (by omega), name_newEntry _ _ _ _ (by omega)] at hdot
        exact absurd hdot (by decide)
      · exact ⟨rfl, rfl⟩

end create

/-! ## Runs -/

/-- There is a cluster for a new entry and a slot in the chain of the current directory. -/
def Fs.HasRoom (s : Fs) (V : Volume) : Prop :=
  (∃ r, V.Has r ∧ V.fat s.disk r = 0) ∧
    ∀ l, V.Chain s.disk s.currentDirectoryCluster l → ∃ c j, c ∈ l ∧ j < V.slots ∧
      (V.slot s.disk c j).isFree = true

/-- The condition on the state before a call: the current directory is a cluster of the volume, a
creation that has room uses a fresh name, and `is_directory_empty` has room for what it reads. -/
def TreeCall.UsesFreshName (V : Volume) (e : Env) (s : Fs) : TreeCall → Prop
  | .dir op nm => V.Has s.currentDirectoryCluster ∧ op.Fits V e nm s ∧
      (op = .createFile ∨ op = .createDir → s.HasRoom V → s.Fresh V nm)
  | .changeDirectory _ => True

/-- One call that meets the condition, and nothing fails in it. -/
def FreshStep (V : Volume) (s s' : Fs) : Prop :=
  ∃ (c : TreeCall) (e : Env), e.Reliable ∧ c.UsesFreshName V e s ∧ c.Leaves e s s'

section runs

variable {V : Volume} {s s' : Fs} {e : Env} {op : DirOp} {nm : List UInt8} {r c j : Nat}

theorem CreatedAt.hasRoom (h : CreatedAt V e op nm r c j s s') : s.HasRoom V := by
  refine ⟨⟨r, h.taken, h.unused⟩, fun l hl => ?_⟩
  obtain ⟨hc, hfree⟩ := h.slot_free hl
  exact ⟨c, j, hc, h.lt, hfree⟩

/-- One call keeps names unique. -/
theorem FreshStep.uniqueNames (hstep : FreshStep V s s') (hon : s.On V)
    (hinfo : s.InfoReserved V) (hu : V.UniqueNames s.disk) :
    s'.On V ∧ s'.InfoReserved V ∧ V.UniqueNames s'.disk := by
  obtain ⟨call, e, he, hok, hl⟩ := hstep
  cases call with
  | dir op nm =>
      have hs : s.Ready V := ⟨hon, hinfo, hok.1⟩
      obtain ⟨b, hrun, ho⟩ := DirOp.outcome_of_fits he hs hok.2.1 hl
      have hready := ho.ready hs
      refine ⟨hready.on, hready.info, ?_⟩
      cases op.change he hs hrun with
      | quiet hfat hslot => exact (shrinks_of_quiet hfat hslot).uniqueNames hu
      | created hop hc => exact hc.uniqueNames hop hs (hok.2.2 hop hc.hasRoom) hu
      | deleted hd => exact (hd.shrinks hs).uniqueNames hu
  | changeDirectory path =>
      obtain ⟨b, hrun⟩ := hl
      obtain ⟨target, rfl⟩ := changeDirectory_state he hon hrun
      exact ⟨⟨hon.boot, hon.offset, hon.drive⟩, hinfo, hu⟩

/-- **Unique names.** From a volume in which no directory holds two entries of the same name, in
every run whose creations all use fresh names, no directory holds two entries of the same name after
any call. -/
theorem uniqueNames_of_freshCalls (hon : s.On V) (hinfo : s.InfoReserved V)
    (hu : V.UniqueNames s.disk) (hrun : Relation.ReflTransGen (FreshStep V) s s') :
    V.UniqueNames s'.disk := by
  suffices hinv : s'.On V ∧ s'.InfoReserved V ∧ V.UniqueNames s'.disk from hinv.2.2
  induction hrun with
  | refl => exact ⟨hon, hinfo, hu⟩
  | tail _ hstep ih => exact hstep.uniqueNames ih.1 ih.2.1 ih.2.2

end runs

/-! ## An empty root -/

section emptyRoot

theorem emptyRootFs_chain : smallVolume.Chain emptyRootFs.disk 2 [2] := .last (by decide)

theorem emptyRootFs_not_holds {l : List Nat} (hl : smallVolume.Chain emptyRootFs.disk 2 l)
    (c j : Nat) : ¬ smallVolume.Holds emptyRootFs.disk l c j := by
  intro hh
  obtain rfl := hl.unique emptyRootFs_chain
  obtain rfl : c = 2 := by simpa using hh.mem
  have hdead : ∀ j, j < 16 → (smallVolume.slot emptyRootFs.disk 2 j).isLive = false := by
    decide
  have hlive := hh.live
  rw [hdead j hh.lt] at hlive
  cases hlive

theorem emptyRootFs_directory {dir : Nat} (h : smallVolume.Directory emptyRootFs.disk dir) :
    dir = 2 := by
  induction h with
  | root => rfl
  | sub hdir hl hh hd ih =>
      subst ih
      exact absurd hh (emptyRootFs_not_holds hl _ _)

theorem emptyRootFs_uniqueNames : smallVolume.UniqueNames emptyRootFs.disk := by
  intro dir l hdir hl c j c' j' hh
  rw [emptyRootFs_directory hdir] at hl
  exact absurd hh (emptyRootFs_not_holds hl c j)

theorem emptyRootFs_fresh (nm : List UInt8) : emptyRootFs.Fresh smallVolume nm where
  chains := by
    intro dir hdir
    rw [emptyRootFs_directory hdir]
    exact ⟨[2], emptyRootFs_chain⟩
  cwd := .root
  unused := by
    intro dir l l₀ c i hdir hl _ _ _ _ _ c' j' hh
    rw [emptyRootFs_directory hdir] at hl
    exact absurd hh (emptyRootFs_not_holds hl c' j')

/-- The file A in it. -/
theorem uniqueNames_createFile : ∃ s', FreshStep smallVolume emptyRootFs s' ∧
    smallVolume.UniqueNames s'.disk := by
  obtain ⟨s', hr⟩ := emptyRootFs_createFile [0x41]
  have hready : emptyRootFs.Ready smallVolume := smallFs_ready _ _ _
  have hstep : FreshStep smallVolume emptyRootFs s' :=
    ⟨.dir .createFile [0x41], quietEnv, quietEnv_reliable,
      ⟨hready.cwd, nofun, fun _ _ => emptyRootFs_fresh _⟩, .returned hr⟩
  exact ⟨s', hstep, uniqueNames_of_freshCalls hready.on hready.info emptyRootFs_uniqueNames
    (.single hstep)⟩

/-- The file A a second time. -/
theorem not_uniqueNames_createFile_twice : ∃ s₁ s₂,
    smallVolume.UniqueNames emptyRootFs.disk ∧
    (fat32CreateFile [0x41]).run quietEnv emptyRootFs = some (true, s₁) ∧
    (fat32CreateFile [0x41]).run quietEnv s₁ = some (true, s₂) ∧
    ¬ smallVolume.UniqueNames s₂.disk := by
  obtain ⟨s₁, h1⟩ := emptyRootFs_createFile [0x41]
  have hcall₁ : (DirOp.createFile.call [0x41]).run quietEnv emptyRootFs = some (true, s₁) := h1
  have hready : emptyRootFs.Ready smallVolume := smallFs_ready _ _ _
  obtain ⟨r, c, j, hc₁⟩ := createdAt_of_run quietEnv_reliable hready (Or.inl rfl) hcall₁
  obtain ⟨rfl, rfl, hslot₁⟩ := hc₁.emptyRoot
  have hcwd₁ : s₁.currentDirectoryCluster = 2 := hc₁.cwd
  have hfree₁ : (smallVolume.slot s₁.disk 2 1).isFree = true := by
    rw [hslot₁ 1 (by decide)]
    rfl
  have hused₁ : (smallVolume.slot s₁.disk 2 0).isFree = false := by
    rw [hslot₁ 0 (by decide), if_pos rfl]
    exact isFree_newEntry _ _ _ _
  have hchain₁ := hc₁.chain emptyRootFs_chain
  -- of the clusters 3 and 4 the first file has taken one at most
  have hcan : s₁.CanCreate smallVolume := by
    constructor
    · by_cases h3 : r = 3
      · refine ⟨4, by decide, ?_⟩
        rw [hc₁.fat 4 (by decide), if_neg (by omega)]
        decide
      · refine ⟨3, by decide, ?_⟩
        rw [hc₁.fat 3 (by decide), if_neg (Ne.symm h3)]
        decide
    · rw [hcwd₁]
      exact ⟨1, by decide, hfree₁⟩
  obtain ⟨s₂, h2⟩ := exists_fat32CreateFile quietEnv_reliable hc₁.ready hcan [0x41]
  have hcall₂ : (DirOp.createFile.call [0x41]).run quietEnv s₁ = some (true, s₂) := h2
  obtain ⟨r₂, c₂, j₂, hc₂⟩ := createdAt_of_run quietEnv_reliable hc₁.ready (Or.inl rfl) hcall₂
  have hdir : smallVolume.fat s₁.disk s₁.currentDirectoryCluster ≠ 0 := by
    rw [hcwd₁]
    exact hchain₁.fat_ne_zero List.mem_cons_self
  obtain rfl : c₂ = 2 := ((hc₂.first_iff hdir).mpr hcan.slot).trans hcwd₁
  -- the second entry goes to the first free slot, the one after the first entry
  obtain rfl : j₂ = 1 := by
    apply le_antisymm
    · apply hc₂.le_of_isFree hdir hcwd₁.symm
      rwa [hcwd₁]
    · have hfree₂ := hc₂.free
      rw [← hcwd₁, hc₂.preparedSlot_cwd hdir, hcwd₁] at hfree₂
      apply Nat.one_le_iff_ne_zero.mpr
      rintro rfl
      rw [hused₁] at hfree₂
      cases hfree₂
  have hslot₂ : ∀ i, i < smallVolume.slots → smallVolume.slot s₂.disk 2 i
      = if 2 = 2 ∧ i = 1 then (quietEnv.enter .insert).newEntry [0x41] r₂ 0
        else smallVolume.slot s₁.disk 2 i :=
    fun i hi => hc₂.slot_chain hchain₁ List.mem_cons_self hi
  have hfirst := (hslot₂ 0 (by decide)).trans (hslot₁ 0 (by decide))
  have hsecond := hslot₂ 1 (by decide)
  rw [if_pos rfl] at hfirst
  rw [if_pos ⟨rfl, rfl⟩] at hsecond
  refine ⟨s₁, s₂, emptyRootFs_uniqueNames, h1, h2, fun hu => ?_⟩
  have h01 := hu 2 [2] .root (hc₂.chain hchain₁) 2 0 2 1 ⟨by simp, by decide, ?_⟩ ⟨by simp, by decide, ?_⟩ ?_
  · exact absurd h01.2 (by decide)
  · rw [hfirst]
    exact newEntry_live _ _ (by decide)
  · rw [hsecond]
    exact newEntry_live _ _ (by decide)
  · intro k hk
    rw [hfirst, hsecond, name_newEntry _ _ _ _ hk, name_newEntry _ _ _ _ hk]

end emptyRoot

end MicroKernel.Fat32
