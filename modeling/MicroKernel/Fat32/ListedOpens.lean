import MicroKernel.Fat32.AbsolutePath
import MicroKernel.Vfs.Resolve

set_option autoImplicit false

/-! # Can what is listed be opened?

`vfs_readdir` makes a string of the eleven characters of an entry, and `vfs_open` compares the
eleven characters of the entries with a string. The first one stops at the first blank of a part,
"to skip trailing spaces", and the second one wants blanks up to the end of the part; the second one
takes a dot in the first eight characters for the one before the extension, and it also looks at
volume labels. `compareNames_vfsName_iff` says which names survive the way through a string, and
`listedOpens_iff` which root directories can be opened entry by entry.
-/

namespace MicroKernel.Fat32

open MicroKernel.Lib Bytes Adapter

/-! ## Names that survive -/

/-- The characters of a part of a name before the first blank. -/
def partOf (name : Nat → UInt8) (i n : Nat) : List UInt8 :=
  ((List.range n).map fun k => name (i + k)).takeWhile (· ≠ 0x20)

/-- All blanks of a part of a name are at its end. -/
def BlanksLast (name : Nat → UInt8) (i n : Nat) : Prop :=
  ∀ k, k < n → (partOf name i n).length ≤ k → name (i + k) = 0x20

/-- The eleven characters have blanks only at the end of the two parts, no zero, and no dot in the
first part. -/
structure WellNamed (name : Nat → UInt8) : Prop where
  base : BlanksLast name 0 8
  extension : BlanksLast name 8 3
  noDot : ∀ c ∈ partOf name 0 8, c ≠ 0x2E
  noZero : ∀ c ∈ partOf name 0 8 ++ partOf name 8 3, c ≠ 0

section names

variable {name : Nat → UInt8} {x : DirEntry} {i n k : Nat}

theorem length_partOf_le : (partOf name i n).length ≤ n := by
  calc (partOf name i n).length
      ≤ ((List.range n).map fun k => name (i + k)).length := (List.takeWhile_sublist _).length_le
    _ = n := by simp

theorem partOf_getD (hk : k < (partOf name i n).length) :
    (partOf name i n).getD k 0 = name (i + k) ∧ name (i + k) ≠ 0x20 := by
  have hlen : (partOf name i n).length ≤ n := length_partOf_le
  have hget : ((List.range n).map fun k => name (i + k)).getD k 0 = name (i + k) := by
    rw [List.getD_eq_getElem _ _ (by simp; omega)]
    simp
  obtain ⟨h1, h2⟩ := getD_takeWhile hk
  rw [hget] at h1 h2
  exact ⟨h1, by simpa using h2⟩

/-- A part matches its own characters exactly when its blanks are at the end. -/
theorem partMatches_partOf_iff : PartMatches name i n (partOf name i n) ↔ BlanksLast name i n := by
  constructor
  · intro h k hk hle
    exact h.blank k hk hle
  · intro h
    refine ⟨fun k _ hlt => ?_, h⟩
    rw [(partOf_getD hlt).1]

/-- A part does not match a string that breaks off within it. -/
theorem eq_partOf_of_partMatches {part : List UInt8} (hpre : part <+: partOf name i n)
    (h : PartMatches name i n part) : part = partOf name i n := by
  apply hpre.eq_of_length_le
  by_contra hlt
  have hshort : part.length < (partOf name i n).length := by omega
  have hn : part.length < n := Nat.lt_of_lt_of_le hshort length_partOf_le
  exact (partOf_getD hshort).2 (h.blank part.length hn (Nat.le_refl _))

/-- The name that is reported: the two parts, with a dot between them if there is a second one. -/
theorem vfsName_eq (x : DirEntry) : vfsName x = if partOf x.name 8 3 = [] then partOf x.name 0 8
    else partOf x.name 0 8 ++ 0x2E :: partOf x.name 8 3 := by
  have hbase : ((List.range 8).map x.name).takeWhile (· ≠ 0x20) = partOf x.name 0 8 := by
    unfold partOf
    simp only [Nat.zero_add]
  have hext : partOf x.name 8 3 = [] ↔ x.name 8 = 0x20 := by
    unfold partOf
    rw [show List.range 3 = [0, 1, 2] from rfl, List.map_cons, List.takeWhile_cons]
    by_cases h8 : x.name 8 = 0x20
    · simp [h8]
    · simp [h8]
  unfold vfsName
  simp only [hbase, hext]
  by_cases h8 : x.name 8 = 0x20
  · simp [h8]
  · simp only [ne_eq, h8, not_false_eq_true, if_true, if_false]
    rfl

/-- `compare_names` takes the characters before the first zero or dot for the first part. -/
theorem baseOf_vfsName (x : DirEntry) :
    baseOf (vfsName x) = (partOf x.name 0 8).takeWhile fun c => c ≠ 0 ∧ c ≠ 0x2E := by
  have hgood : ∀ nm, baseOf nm = nm.takeWhile fun c => c ≠ 0 ∧ c ≠ 0x2E := by
    intro nm
    unfold baseOf cString
    rw [List.takeWhile_takeWhile]
    congr 1
    funext c
    simp [and_comm]
  rw [hgood, vfsName_eq]
  split
  · rfl
  · -- the dot between the two parts ends the first one in any case
    rw [List.takeWhile_append]
    split
    next hall =>
      rw [List.takeWhile_cons, if_neg (by decide), List.append_nil]
      exact ((List.takeWhile_sublist _).eq_of_length hall).symm
    next => rfl

theorem baseOf_vfsName_eq (hgood : ∀ c ∈ partOf x.name 0 8, c ≠ 0 ∧ c ≠ 0x2E) :
    baseOf (vfsName x) = partOf x.name 0 8 := by
  rw [baseOf_vfsName, List.takeWhile_eq_self_iff]
  intro c hc
  simpa using hgood c hc

/-- What it compares with the extension, if the first part has neither. -/
theorem restOf_vfsName (hgood : ∀ c ∈ partOf x.name 0 8, c ≠ 0 ∧ c ≠ 0x2E) :
    restOf (vfsName x) = cString (partOf x.name 8 3) := by
  have hzero : ∀ c ∈ partOf x.name 0 8, decide (c ≠ 0) = true := by
    intro c hc
    simpa using (hgood c hc).1
  unfold restOf
  rw [baseOf_vfsName_eq hgood, if_pos length_partOf_le, vfsName_eq]
  split
  next hext =>
    rw [hext, cString, List.takeWhile_eq_self_iff.mpr hzero]
    simp [cString]
  next =>
    rw [cString, List.takeWhile_append_of_pos hzero, List.takeWhile_cons, if_pos (by decide),
      ← List.drop_drop, List.drop_left]
    rfl

/-- **The reported name of an entry is one that the entry matches** exactly when the entry is well
named. -/
theorem compareNames_vfsName_iff (x : DirEntry) :
    compareNames x.name (vfsName x) = true ↔ WellNamed x.name := by
  rw [compareNames_iff]
  constructor
  · rintro ⟨hbase, hext, -⟩
    rw [baseOf_vfsName] at hbase
    have hall := eq_partOf_of_partMatches (List.takeWhile_prefix _) hbase
    rw [hall, partMatches_partOf_iff] at hbase
    have hgood : ∀ c ∈ partOf x.name 0 8, c ≠ 0 ∧ c ≠ 0x2E := by
      intro c hc
      simpa using List.takeWhile_eq_self_iff.mp hall c hc
    rw [restOf_vfsName hgood, cString] at hext
    have hall' := eq_partOf_of_partMatches (List.takeWhile_prefix _) hext
    rw [hall', partMatches_partOf_iff] at hext
    refine ⟨hbase, hext, fun c hc => (hgood c hc).2, fun c hc => ?_⟩
    rcases List.mem_append.mp hc with hc | hc
    · exact (hgood c hc).1
    · simpa using List.takeWhile_eq_self_iff.mp hall' c hc
  · intro h
    have hgood : ∀ c ∈ partOf x.name 0 8, c ≠ 0 ∧ c ≠ 0x2E :=
      fun c hc => ⟨h.noZero c (List.mem_append_left _ hc), h.noDot c hc⟩
    have hrest : restOf (vfsName x) = partOf x.name 8 3 := by
      rw [restOf_vfsName hgood, cString, List.takeWhile_eq_self_iff]
      intro c hc
      simpa using h.noZero c (List.mem_append_right _ hc)
    rw [baseOf_vfsName_eq hgood, hrest, partMatches_partOf_iff, partMatches_partOf_iff]
    exact ⟨h.base, h.extension, length_partOf_le⟩

end names

/-! ## What `vfs_readdir` reports -/

/-- The name of an entry as a caller of `vfs_readdir` sees it: up to the terminating zero. -/
def shownName (x : DirEntry) : List UInt8 := cString (vfsName x)

/-- What `vfs_readdir` says about an entry. -/
def listedInfo (y : Vfs.DirEntry) : NodeInfo := ⟨y.inode, y.type, y.size⟩

/-- The slot has an entry of the root that `vfs_readdir` reports: in the first cluster before the
end of the directory, not deleted, not a part of a long name and not a volume label. -/
structure Volume.Reported (V : Volume) (d : Disk) (p : Nat × Nat) : Prop where
  mem : p ∈ V.listing d [V.bs.rootCluster]
  kept : skipReaddir (V.entryIn d p) = false

section readdir

variable {V : Volume} {e : Env} {fs : Vfs.Filesystem sig} {g : Fs} {index : Nat}

/-- The buffer of `fat32_vfs_readdir` with the first cluster of the root. -/
def Volume.rootBuffer (V : Volume) (e : Env) (d : Disk) : Bytes :=
  loaded e (V.clusterBytes d V.bs.rootCluster) V.bs.sectorsPerCluster 0 (e.junk (.load 0 :: e.path))

/-- **`vfs_readdir`** of the mount point, below the resolution of its path. -/
theorem run_listPath_root (h : Fs.On { g with currentDrive := fs.drive } V)
    (hroot : fs.root = some V.bs.rootCluster) (hc : V.Has V.bs.rootCluster) :
    (listPath fs [0x2F] index).run e g = some
      (if e.outOfMemory (.load 0 :: e.path) then .error .noMemory
        else if allLoaded e V.bs.sectorsPerCluster 0 then
          match nthEntry (V.rootBuffer e (g.disks fs.drive)) index V.slots 0 0 with
          | none => .error .notFound
          | some x => .ok (fat32EntryToVfsEntry x)
        else .error .io, { g with currentDrive := fs.drive }) := by
  unfold listPath
  rw [Prog.run_bind, run_fat32VfsOpen_root hroot, Option.bind_some]
  dsimp only
  rw [Prog.run_ite, if_neg (by simp [rootNode])]
  unfold Adapter.fat32VfsReaddir
  rw [Prog.run_ite, if_neg (by simp [rootNode]), Prog.run_bind]
  change Option.bind (some ((), { g with currentDrive := fs.drive })) _ = _
  rw [Option.bind_some, Prog.run_bind, Prog.run_get, Option.bind_some]
  change Prog.run (Bind.bind (Prog.ask fun e => e.outOfMemory (.load 0 :: e.path)) _) e _ = _
  rw [Prog.run_bind, Prog.run_ask, Option.bind_some, Prog.run_ite]
  by_cases hm : e.outOfMemory (.load 0 :: e.path) = true
  · rw [if_pos hm, if_pos hm]
    rfl
  · rw [if_neg hm, if_neg hm, Prog.run_bind, run_uninitialised, Option.bind_some, Prog.run_bind]
    dsimp only
    rw [show (rootNode fs V.bs.rootCluster).inode = V.bs.rootCluster from rfl,
      clusterToSector_eq h hc, h.boot, run_readSectorsChecked e hc _ (by omega), Option.bind_some]
    by_cases hl : allLoaded e V.bs.sectorsPerCluster 0 = true
    · simp only [if_pos hl]
      rw [Nat.mul_comm V.bs.sectorsPerCluster 16]
      change Prog.run (match nthEntry (V.rootBuffer e (g.disks fs.drive)) index V.slots 0 0 with
        | none => _
        | some x => _) e _ = _
      cases nthEntry (V.rootBuffer e (g.disks fs.drive)) index V.slots 0 0 with
      | none => rfl
      | some x => rfl
    · simp only [if_neg hl]
      rfl

/-- What it reports is in a slot of the listing. -/
theorem listed_of_listPath (h : Fs.On { g with currentDrive := fs.drive } V)
    (hroot : fs.root = some V.bs.rootCluster) (hc : V.Has V.bs.rootCluster) {y : Vfs.DirEntry}
    {g' : Fs} (hr : (listPath fs [0x2F] index).run e g = some (.ok y, g')) :
    g' = { g with currentDrive := fs.drive } ∧ ∃ p, V.Reported (g.disks fs.drive) p ∧
      y = fat32EntryToVfsEntry (V.entryIn (g.disks fs.drive) p) := by
  rw [run_listPath_root h hroot hc, Option.some.injEq, Prod.mk.injEq] at hr
  obtain ⟨hy, rfl⟩ := hr
  refine ⟨rfl, ?_⟩
  split at hy
  · cases hy
  · split at hy
    next hl =>
      have hslot : ∀ j, j < V.slots → entryAt (V.rootBuffer e (g.disks fs.drive)) j
          = V.slot (g.disks fs.drive) V.bs.rootCluster j := fun j hj => entryAt_loaded _ _ _ hj hl
      split at hy
      · cases hy
      next x hx =>
        obtain ⟨i, -, hlt, hend, hskip, rfl⟩ := nthEntry_eq_some hx
        rw [Nat.zero_add] at hlt
        rw [hslot i hlt] at hskip hy
        refine ⟨(V.bs.rootCluster, i), ⟨Volume.mem_listing_one.mpr ⟨rfl, hlt, fun i' hi' => ?_⟩,
          hskip⟩, (Except.ok.inj hy).symm⟩
        rw [← hslot i' (Nat.lt_of_le_of_lt hi' hlt)]
        exact hend i' (Nat.zero_le i') hi'
    next => cases hy

/-- And the entry of every such slot is reported for some index. -/
theorem listPath_of_listed (h : Fs.On { g with currentDrive := fs.drive } V)
    (hroot : fs.root = some V.bs.rootCluster) (hc : V.Has V.bs.rootCluster) {p : Nat × Nat}
    (hp : V.Reported (g.disks fs.drive) p) :
    ∃ index, (listPath fs [0x2F] index).run quietEnv g = some
      (.ok (fat32EntryToVfsEntry (V.entryIn (g.disks fs.drive) p)),
        { g with currentDrive := fs.drive }) := by
  obtain ⟨c, j⟩ := p
  obtain ⟨hcj, hlt, hend⟩ := Volume.mem_listing_one.mp hp.mem
  obtain rfl : c = V.bs.rootCluster := hcj
  have hl : allLoaded quietEnv V.bs.sectorsPerCluster 0 = true := quietEnv_reliable.allLoaded _ _
  have hslot : ∀ i, i < V.slots → entryAt (V.rootBuffer quietEnv (g.disks fs.drive)) i
      = V.slot (g.disks fs.drive) V.bs.rootCluster i := fun i hi => entryAt_loaded _ _ _ hi hl
  obtain ⟨index, -, hn⟩ := exists_nthEntry (b := V.rootBuffer quietEnv (g.disks fs.drive))
    (n := V.slots) 0 (Nat.zero_le j) (by dsimp only at hlt; omega)
    (fun i _ hi => by rw [hslot i (Nat.lt_of_le_of_lt hi hlt)]; exact hend i hi)
    (by rw [hslot j hlt]; exact hp.kept)
  refine ⟨index, ?_⟩
  rw [run_listPath_root h hroot hc, if_neg (by decide), if_pos hl, hn, hslot j hlt]
  rfl

end readdir

/-! ## What `vfs_open` finds -/

/-- Slot `q` has the first entry of the first cluster of the root that matches `nm`, be it a volume
label. -/
structure Volume.FirstNamed (V : Volume) (d : Disk) (nm : List UInt8) (q : Nat × Nat) : Prop where
  mem : q ∈ V.listing d [V.bs.rootCluster]
  kept : skipDeletedLfn (V.entryIn d q) = false
  named : compareNames (V.entryIn d q).name nm = true
  first : ∀ q' ∈ V.listing d [V.bs.rootCluster], skipDeletedLfn (V.entryIn d q') = false →
    compareNames (V.entryIn d q').name nm = true → q.2 ≤ q'.2

/-- What is found below the mount point under the name `nm`. A path with nothing behind the last
slash is the mount point itself. -/
def FoundBelow (V : Volume) (e : Env) (d : Disk) (nm : List UInt8) (i : NodeInfo) : Prop :=
  if nm = [] then i = V.rootInfo
  else (e.enter .find).Searches V ∧ e.outOfMemory (.store 0 :: e.path) = false ∧
    ∃ q, V.FirstNamed d nm q ∧ entryInfo (V.entryIn d q) = i

section openBelow

variable {V : Volume} {e : Env} {d : Disk} {nm : List UInt8}

theorem firstNamed_iff {q : Nat × Nat} : V.FirstNamed d nm q ↔
    V.firstOf d skipDeletedLfn (isNamed nm) [V.bs.rootCluster] = some q := by
  rw [Volume.firstOf_one_eq_some]
  constructor
  · intro h
    obtain ⟨hc, hlt, hend⟩ := Volume.mem_listing_one.mp h.mem
    have hslot : V.slot d V.bs.rootCluster q.2 = V.entryIn d q := by rw [← hc]; rfl
    refine ⟨hc, hlt, fun i hi => ⟨hend i (Nat.le_of_lt hi), fun hskip => ?_⟩, ?_, ?_, ?_⟩
    · -- an entry before it that matches would be the first
      rw [← Bool.not_eq_true]
      intro hnamed
      have hmem : (V.bs.rootCluster, i) ∈ V.listing d [V.bs.rootCluster] :=
        Volume.mem_listing_one.mpr ⟨rfl, by dsimp only; omega, fun i' hi' =>
          hend i' (by dsimp only at hi'; omega)⟩
      have hle : q.2 ≤ i := h.first _ hmem hskip hnamed
      omega
    · exact hend q.2 (Nat.le_refl _)
    · rw [hslot]
      exact h.kept
    · rw [hslot]
      exact h.named
  · rintro ⟨hc, h⟩
    have hslot : V.slot d V.bs.rootCluster q.2 = V.entryIn d q := by rw [← hc]; rfl
    refine ⟨Volume.mem_listing_one.mpr ⟨hc, h.lt, fun i hi => h.noEnd hi⟩, ?_, ?_, ?_⟩
    · rw [← hslot]
      exact h.taken.2.1
    · rw [← hslot]
      exact h.taken.2.2
    · intro q' hq' hskip hnamed
      by_contra hlt
      obtain ⟨hc', -, hend⟩ := Volume.mem_listing_one.mp hq'
      refine (h.passed q'.2 (by omega)).not_taken ⟨hend q'.2 (Nat.le_refl _), ?_, ?_⟩
      · rw [← hc']
        exact hskip
      · rw [← hc']
        exact hnamed

/-- **`vfs_open`** below the mount point, with the root as current directory. -/
theorem fat32VfsOpen_below_iff {fs : Vfs.Filesystem sig} {g : Fs}
    (h : Fs.Ready { g with currentDrive := fs.drive } V) (hroot : fs.root = some V.bs.rootCluster)
    (hcwd : g.currentDirectoryCluster = V.bs.rootCluster) (i : NodeInfo) :
    (∃ node g', (fat32VfsOpen fs (0x2F :: nm)).run e g = some (.ok node, g') ∧ nodeInfo node = i) ↔
      FoundBelow V e (g.disks fs.drive) nm i := by
  unfold FoundBelow
  by_cases hnm : nm = []
  · subst hnm
    rw [if_pos rfl, run_fat32VfsOpen_root hroot]
    constructor
    · rintro ⟨node, g', heq, rfl⟩
      obtain ⟨hnode, -⟩ := Prod.mk.inj (Option.some.inj heq)
      rw [← Except.ok.inj hnode]
      rfl
    · rintro rfl
      exact ⟨_, _, rfl, rfl⟩
  · -- a name: the search of the current directory, and the memory for the node
    have hpath : (0x2F :: nm : List UInt8) ≠ [0x2F] := fun hn => hnm (List.cons.inj hn).2
    have hfind : ∀ x s', (findFileInDirectory nm).run (e.enter .find)
        { g with currentDrive := fs.drive } = some (some x, s') ↔ s' = _ ∧ _ ∧ _ :=
      fun x s' => findFile_iff h
    rw [if_neg hnm, run_fat32VfsOpen hpath, show lookupName (0x2F :: nm) = nm from rfl]
    constructor
    · rintro ⟨node, g', heq, rfl⟩
      obtain ⟨⟨r, s'⟩, hr, heq⟩ := Option.map_eq_some_iff.mp heq
      cases r with
      | none => cases (Prod.mk.inj heq).1
      | some x =>
          obtain ⟨-, hsearch, q, hq, rfl⟩ := (hfind x s').mp hr
          dsimp only at heq hq
          rw [hcwd] at hq
          cases hm : e.outOfMemory (.store 0 :: e.path) with
          | true =>
              rw [hm] at heq
              cases (Prod.mk.inj heq).1
          | false =>
              rw [hm] at heq
              obtain ⟨hnode, -⟩ := Prod.mk.inj heq
              obtain rfl := Except.ok.inj hnode
              exact ⟨hsearch, rfl, q, firstNamed_iff.mpr hq, rfl⟩
    · rintro ⟨hsearch, hm, q, hq, rfl⟩
      rw [firstNamed_iff, ← hcwd] at hq
      rw [(hfind _ _).mpr ⟨rfl, hsearch, q, hq, rfl⟩, Option.map_some]
      dsimp only
      rw [hm]
      exact ⟨_, _, rfl, rfl⟩

end openBelow

/-! ## The exact condition -/

/-- The volume is mounted at `m`, no mount path goes on below that path, and the root is the current
directory. -/
structure RootMounted (V : Volume) (s : Vfs.State sig) (m : Vfs.Mount sig) : Prop where
  mem : m ∈ s.mountList.mounts
  found : Vfs.vfsGetFilesystem s.mountList m.path = some m.fs
  below : ∀ m' ∈ s.mountList.mounts, ¬ m.path ++ [0x2F] <+: m'.path
  root : m.fs.root = some V.bs.rootCluster
  ready : Fs.Ready { s.globals with currentDrive := m.fs.drive } V
  cwd : s.globals.currentDirectoryCluster = V.bs.rootCluster

/-- Whatever `vfs_readdir` reports for the mount point `m`, `vfs_open` of its name then succeeds, and
the node says what `vfs_readdir` says about an entry of that name. -/
def ListedOpens (e : Env) (s : Vfs.State sig) (m : Vfs.Mount sig) : Prop :=
  ∀ e₁ index x s₁, (Vfs.vfsReaddir tables m.path index).run e₁ s = some (.ok x, s₁) →
    ∃ node s₂, (Vfs.vfsOpen tables (m.path ++ 0x2F :: cString x.name)).run e s₁
        = some (.ok node, s₂) ∧
      ∃ e₂ index' y s₃, (Vfs.vfsReaddir tables m.path index').run e₂ s = some (.ok y, s₃) ∧
        cString y.name = cString x.name ∧ nodeInfo node = listedInfo y

/-- For every entry of the listing there is an entry of the listing that has the same reported name
and says what is found below the mount point under that name. -/
def ListedFound (V : Volume) (e : Env) (d : Disk) : Prop :=
  ∀ p, V.Reported d p → ∃ r, V.Reported d r ∧
    shownName (V.entryIn d r) = shownName (V.entryIn d p) ∧
    FoundBelow V e d (shownName (V.entryIn d p)) (entryInfo (V.entryIn d r))

section iff

variable {V : Volume} {e : Env} {s : Vfs.State sig} {m : Vfs.Mount sig}

/-- The kernel after a call that went to the file system of `m` and changed nothing else. -/
def turnedTo (s : Vfs.State sig) (m : Vfs.Mount sig) : Vfs.State sig :=
  { s with globals := { s.globals with currentDrive := m.fs.drive } }

theorem RootMounted.has_root (hs : RootMounted V s m) : V.Has V.bs.rootCluster :=
  hs.cwd ▸ hs.ready.cwd

theorem RootMounted.run_readdir (hs : RootMounted V s m) (e : Env) (index : Nat) :
    (Vfs.vfsReaddir tables m.path index).run e s
      = (Vfs.onGlobals (listPath m.fs [0x2F] index)).run e s := by
  rw [run_vfsReaddir hs.found, Vfs.vfsGetRelativePath_of_mem _ hs.mem (List.prefix_refl _),
    if_pos rfl]

theorem RootMounted.listed_of_readdir (hs : RootMounted V s m) {index : Nat} {y : Vfs.DirEntry}
    {s' : Vfs.State sig}
    (hr : (Vfs.vfsReaddir tables m.path index).run e s = some (.ok y, s')) :
    s' = turnedTo s m ∧ ∃ p, V.Reported (s.globals.disks m.fs.drive) p ∧
      y = fat32EntryToVfsEntry (V.entryIn (s.globals.disks m.fs.drive) p) := by
  rw [hs.run_readdir] at hr
  obtain ⟨⟨r, g'⟩, hlist, heq⟩ := Option.map_eq_some_iff.mp hr
  obtain ⟨rfl, rfl⟩ := Prod.mk.inj heq
  obtain ⟨rfl, hp⟩ := listed_of_listPath hs.ready.on hs.root hs.has_root hlist
  exact ⟨rfl, hp⟩

theorem RootMounted.readdir_of_listed (hs : RootMounted V s m) {p : Nat × Nat}
    (hp : V.Reported (s.globals.disks m.fs.drive) p) :
    ∃ index, (Vfs.vfsReaddir tables m.path index).run quietEnv s = some
      (.ok (fat32EntryToVfsEntry (V.entryIn (s.globals.disks m.fs.drive) p)), turnedTo s m) := by
  obtain ⟨index, hrun⟩ := listPath_of_listed hs.ready.on hs.root hs.has_root hp
  refine ⟨index, ?_⟩
  rw [hs.run_readdir]
  change Option.map _ ((listPath m.fs [0x2F] index).run quietEnv s.globals) = _
  rw [hrun]
  rfl

theorem RootMounted.open_iff (hs : RootMounted V s m) (nm : List UInt8) (i : NodeInfo) :
    (∃ node s₂, (Vfs.vfsOpen tables (m.path ++ 0x2F :: nm)).run e (turnedTo s m)
        = some (.ok node, s₂) ∧ nodeInfo node = i) ↔
      FoundBelow V e (s.globals.disks m.fs.drive) nm i := by
  have hfs := Vfs.vfsGetFilesystem_below s.mountList hs.found hs.below nm
  have hrel : Vfs.vfsGetRelativePath s.mountList (m.path ++ 0x2F :: nm) m.fs = 0x2F :: nm := by
    rw [Vfs.vfsGetRelativePath_of_mem _ hs.mem (List.prefix_append _ _), if_neg (by simp),
      List.drop_left]
  have hopen : (∃ node g', (fat32VfsOpen m.fs (0x2F :: nm)).run e (turnedTo s m).globals
      = some (.ok node, g') ∧ nodeInfo node = i) ↔ _ :=
    fat32VfsOpen_below_iff (g := (turnedTo s m).globals) hs.ready hs.root hs.cwd i
  refine Iff.trans ?_ hopen
  rw [run_vfsOpen (s := turnedTo s m) hfs]
  change (∃ node s₂, (Vfs.onGlobals (fat32VfsOpen m.fs (Vfs.vfsGetRelativePath s.mountList
    (m.path ++ 0x2F :: nm) m.fs))).run e (turnedTo s m) = _ ∧ _) ↔ _
  rw [hrel]
  constructor
  · rintro ⟨node, s₂, hr, hi⟩
    obtain ⟨⟨r, g'⟩, hr, heq⟩ := Option.map_eq_some_iff.mp hr
    obtain ⟨rfl, -⟩ := Prod.mk.inj heq
    exact ⟨node, g', hr, hi⟩
  · rintro ⟨node, g', hr, hi⟩
    exact ⟨node, _, Option.map_eq_some_iff.mpr ⟨_, hr, rfl⟩, hi⟩

theorem RootMounted.listedOpens (hs : RootMounted V s m)
    (h : ListedFound V e (s.globals.disks m.fs.drive)) : ListedOpens e s m := by
  intro e₁ index x s₁ hlist
  obtain ⟨rfl, p, hp, rfl⟩ := hs.listed_of_readdir hlist
  obtain ⟨r, hr, hname, hfound⟩ := h p hp
  obtain ⟨node, s₂, hopen, hinfo⟩ := (hs.open_iff _ _).mpr hfound
  obtain ⟨index', hlist'⟩ := hs.readdir_of_listed hr
  exact ⟨node, s₂, hopen, quietEnv, index', _, _, hlist', hname, hinfo⟩

/-- **What is listed can be opened** exactly when, for every entry of the listing, an entry of the
listing with the same reported name says what is found below the mount point under that name. -/
theorem listedOpens_iff (hs : RootMounted V s m) :
    ListedOpens e s m ↔ ListedFound V e (s.globals.disks m.fs.drive) := by
  constructor
  · intro h p hp
    obtain ⟨index, hlist⟩ := hs.readdir_of_listed hp
    obtain ⟨node, s₂, hopen, e₂, index', y, s₃, hlist', hname, hinfo⟩ :=
      h quietEnv index _ _ hlist
    obtain ⟨-, r, hr, rfl⟩ := hs.listed_of_readdir hlist'
    exact ⟨r, hr, hname, (hs.open_iff _ _).mp ⟨node, s₂, hopen, hinfo⟩⟩
  · exact hs.listedOpens

/-- `compare_names` does not look behind the terminating zero. -/
theorem compareNames_cString (name : Nat → UInt8) (nm : List UInt8) :
    compareNames name (cString nm) = compareNames name nm := by
  have hc : cString (cString nm) = cString nm := by
    unfold cString
    rw [List.takeWhile_takeWhile]
    simp
  have hbase : baseOf (cString nm) = baseOf nm := by
    unfold baseOf
    rw [hc]
  have hrest : restOf (cString nm) = restOf nm := by
    unfold restOf
    rw [hbase, hc]
  rw [Bool.eq_iff_iff, compareNames_iff, compareNames_iff, hbase, hrest]

/-- A root directory in which every name that is listed is well named, not empty, and not the name
of another entry or label up to case, can be opened entry by entry. -/
theorem listedOpens_of_wellNamed (hs : RootMounted V s m) (hsearch : (e.enter .find).Searches V)
    (hmem : e.outOfMemory (.store 0 :: e.path) = false)
    (hnamed : ∀ p, V.Reported (s.globals.disks m.fs.drive) p →
      WellNamed (V.entryIn (s.globals.disks m.fs.drive) p).name ∧
        shownName (V.entryIn (s.globals.disks m.fs.drive) p) ≠ [])
    (hunique : ∀ p q, V.Reported (s.globals.disks m.fs.drive) p →
      q ∈ V.listing (s.globals.disks m.fs.drive) [V.bs.rootCluster] →
      skipDeletedLfn (V.entryIn (s.globals.disks m.fs.drive) q) = false →
      SameName (V.entryIn (s.globals.disks m.fs.drive) q).name
        (V.entryIn (s.globals.disks m.fs.drive) p).name → q = p) : ListedOpens e s m := by
  apply hs.listedOpens
  intro p hp
  obtain ⟨hwell, hne⟩ := hnamed p hp
  refine ⟨p, hp, rfl, ?_⟩
  unfold FoundBelow
  rw [if_neg hne]
  have hown : isNamed (shownName (V.entryIn (s.globals.disks m.fs.drive) p))
      (V.entryIn (s.globals.disks m.fs.drive) p) = true := by
    rw [isNamed, shownName, compareNames_cString, compareNames_vfsName_iff]
    exact hwell
  -- something is found, and it has the name of `p`
  obtain ⟨q, hq, -⟩ := exists_firstOf (s := (turnedTo s m).globals) _ hp.mem
    (skipReaddir_eq_false.mp hp.kept).1 hown
  have hfirst := firstNamed_iff.mpr hq
  obtain rfl := hunique p q hp hfirst.mem hfirst.kept (sameName_of_compareNames hfirst.named hown)
  exact ⟨hsearch, hmem, q, hfirst, rfl⟩

end iff

/-! ### A name with a blank in it -/

/-- The mount point of the small volume. -/
def rootMount : Vfs.Mount sig := ⟨[0x2F], smallMount⟩

theorem smallFs_rootMounted {g : Fs} (h : g.Ready smallVolume)
    (hdrive : g.currentDrive = smallMount.drive) (hcwd : g.currentDirectoryCluster = 2) :
    RootMounted smallVolume (mountedAtRoot g) rootMount where
  mem := List.mem_singleton.mpr rfl
  found := rfl
  below := by
    intro m' hm'
    obtain rfl : m' = rootMount := List.mem_singleton.mp hm'
    decide
  root := rfl
  ready := by
    change Fs.Ready { g with currentDrive := smallMount.drive } smallVolume
    rw [← hdrive]
    exact h
  cwd := hcwd

/-- The files A and B can be opened. -/
theorem listedOpens_twoFiles : ListedOpens quietEnv (mountedAtRoot twoFilesFs) rootMount := by
  have hlisting : ∀ p ∈ smallVolume.listing twoFilesFs.disk [2],
      shownName (smallVolume.entryIn twoFilesFs.disk p) ≠ [] ∧
        smallVolume.firstOf twoFilesFs.disk skipDeletedLfn
          (isNamed (shownName (smallVolume.entryIn twoFilesFs.disk p))) [2] = some p := by
    rw [twoFilesFs_listing]
    decide
  have hs : RootMounted smallVolume (mountedAtRoot twoFilesFs) rootMount :=
    smallFs_rootMounted twoFilesFs_ready rfl rfl
  rw [listedOpens_iff hs]
  intro p hp
  obtain ⟨hne, hfirst⟩ := hlisting p hp.mem
  refine ⟨p, hp, rfl, ?_⟩
  change FoundBelow smallVolume quietEnv twoFilesFs.disk
    (shownName (smallVolume.entryIn twoFilesFs.disk p)) _
  unfold FoundBelow
  rw [if_neg hne]
  exact ⟨(quietEnv_reliable.enter .find).searches fun _ => rfl, rfl, p, firstNamed_iff.mpr hfirst, rfl⟩

/-- The file `A B`. -/
def blankEntry : DirEntry := fun i =>
  if i.val = 0 then 0x41 else if i.val = 2 then 0x42 else if i.val < 11 then 0x20 else 0

/-- The small volume with that file in the root. -/
def blankFs : Fs :=
  smallFs (fun c => if c = 2 then eocMax else 0)
    (fun c j => if c = 2 ∧ j = 0 then blankEntry else zeroEntry) (fun _ => 0)

/-- The file is listed as `A`, and no entry has that name. -/
theorem not_listedOpens_blank : RootMounted smallVolume (mountedAtRoot blankFs) rootMount ∧
    ¬ ListedOpens quietEnv (mountedAtRoot blankFs) rootMount := by
  refine ⟨smallFs_rootMounted (smallFs_ready _ _ _) rfl rfl, fun h => ?_⟩
  have hlist : ((Vfs.vfsReaddir tables [0x2F] 0).run quietEnv (mountedAtRoot blankFs)).map
      (fun r => r.1.map (·.name)) = some (.ok [0x41]) := by decide
  have hopen : ((Vfs.vfsReaddir tables [0x2F] 0).run quietEnv (mountedAtRoot blankFs)).bind
      (fun r => ((Vfs.vfsOpen tables [0x2F, 0x2F, 0x41]).run quietEnv r.2).map (·.1.isOk))
      = some false := by decide
  obtain ⟨⟨r, s₁⟩, hrun, hname⟩ := Option.map_eq_some_iff.mp hlist
  cases r with
  | error err => cases hname
  | ok x =>
      have hx : x.name = [0x41] := Except.ok.inj hname
      obtain ⟨node, s₂, hnode, -⟩ := h quietEnv 0 x s₁ hrun
      rw [hx] at hnode
      rw [hrun, Option.bind_some] at hopen
      change Option.map _ ((Vfs.vfsOpen tables [0x2F, 0x2F, 0x41]).run quietEnv s₁) = _ at hopen
      rw [show (Vfs.vfsOpen tables [0x2F, 0x2F, 0x41]).run quietEnv s₁ = _ from hnode] at hopen
      cases hopen

end MicroKernel.Fat32
