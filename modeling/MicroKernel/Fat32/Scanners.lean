import MicroKernel.Fat32.Adapter
import MicroKernel.Fat32.Listing

set_option autoImplicit false

/-! # Do the scanners of a directory agree?

`fat32_vfs_readdir`, `find_file_in_directory` and `find_next_cluster` are three loops over the same
directory. They differ in the clusters they read (the first two look at one cluster only) and in
what they make of a volume label, and the names that the first one reports are not always names that
the other two find. `scannersAgree_iff` says exactly for which directories the differences do not
show.
-/

namespace MicroKernel.Fat32

open MicroKernel.Lib Bytes

/-! ## Entries and their names -/

/-- The entry is a volume label. -/
def DirEntry.isLabel (x : DirEntry) : Bool := (attr x &&& 0x08) != 0

/-- A part of a long name has the bit of a volume label. -/
theorem isLabel_of_isLfn {x : DirEntry} (h : x.isLfn = true) : x.isLabel = true := by
  unfold DirEntry.isLfn at h
  unfold DirEntry.isLabel
  rw [beq_iff_eq] at h
  have h8 : x.attr &&& 0x08 = 0x08 := by
    calc x.attr &&& 0x08 = (x.attr &&& 0x0F) &&& 0x08 := by rw [UInt8.and_assoc]; rfl
      _ = 0x08 := by rw [h]; rfl
  rw [h8]
  decide

/-- `fat32_vfs_readdir` passes over what the other two pass over, and over volume labels. -/
theorem skipReaddir_eq_false {x : DirEntry} :
    skipReaddir x = false ↔ skipDeletedLfn x = false ∧ x.isLabel = false := by
  have hlfn : x.isLabel = false → x.isLfn = false ∧ (x.attr == 0x0F) = false := by
    intro h
    have hl : x.isLfn = false := by
      rw [← Bool.not_eq_true]
      intro hn
      rw [isLabel_of_isLfn hn] at h
      cases h
    refine ⟨hl, ?_⟩
    rw [beq_eq_false_iff_ne]
    intro h15
    unfold DirEntry.isLfn at hl
    rw [h15] at hl
    cases hl
  unfold skipReaddir skipDeletedLfn
  change (x.isDeleted || x.attr == 0x0F || x.isLabel) = false ↔ _
  constructor
  · intro h
    simp only [Bool.or_eq_false_iff] at h
    exact ⟨by rw [h.1.1, (hlfn h.2).1]; rfl, h.2⟩
  · rintro ⟨h1, h2⟩
    rw [Bool.or_eq_false_iff] at h1
    rw [h1.1, (hlfn h2).2, h2]
    rfl

/-- Whether a string matches a name does not depend on the case of the name. -/
theorem compareNames_of_sameName {a b : Nat → UInt8} (h : SameName a b) {nm : List UInt8}
    (ha : compareNames a nm = true) : compareNames b nm = true := by
  have hpart : ∀ i n part, i + n ≤ 11 → PartMatches a i n part → PartMatches b i n part := by
    intro i n part hn hp
    constructor
    · intro k hk hlt
      rw [← h _ (by omega)]
      exact hp.equal k hk hlt
    · intro k hk hle
      have heq := h (i + k) (by omega)
      rw [hp.blank k hk hle] at heq
      exact (toupper_eq_iff (by decide)).mp heq.symm
  obtain ⟨h1, h2, h3⟩ := compareNames_iff.mp ha
  exact compareNames_iff.mpr ⟨hpart 0 8 _ (by omega) h1, hpart 8 3 _ (by omega) h2, h3⟩

theorem SameName.symm {a b : Nat → UInt8} (h : SameName a b) : SameName b a :=
  fun k hk => (h k hk).symm

/-! ## The two sides -/

/-- Slot `q` comes before `p` in the list, or is `p`. -/
def NotAfter (ps : List (Nat × Nat)) (q p : Nat × Nat) : Prop :=
  ∃ l₁ l₂, ps = l₁ ++ q :: l₂ ∧ p ∈ q :: l₂

/-- The slot has an entry of the directory with the clusters `l`: it is before the end of the
directory, not deleted, not a part of a long name and not a volume label. -/
structure Volume.Proper (V : Volume) (d : Disk) (l : List Nat) (p : Nat × Nat) : Prop where
  mem : p ∈ V.listing d l
  kept : skipDeletedLfn (V.entryIn d p) = false
  noLabel : (V.entryIn d p).isLabel = false

/-- The slot has the first directory of its name in the clusters `l`, be it a volume label. -/
structure Volume.Leading (V : Volume) (d : Disk) (l : List Nat) (p : Nat × Nat) : Prop where
  kept : skipDeletedLfn (V.entryIn d p) = false
  directory : (V.entryIn d p).isDirectory = true
  first : ∃ l₁ l₂, V.listing d l = l₁ ++ p :: l₂ ∧ ∀ q ∈ l₁,
    skipDeletedLfn (V.entryIn d q) = false → (V.entryIn d q).isDirectory = true →
      ¬ SameName (V.entryIn d q).name (V.entryIn d p).name

/-- All scanners agree on the current directory, whose clusters are `l`: each of them finds every
entry, or one before it that has the same name, and none of them reports anything else. -/
structure ScannersAgree (V : Volume) (e : Env) (s : Fs) (l : List Nat) : Prop where
  readdir : ∀ p, V.Proper s.disk l p → ∃ index,
    (fat32VfsReaddir s.currentDirectoryCluster index).run e s = some (some (V.entryIn s.disk p), s)
  findFile : ∀ p, V.Proper s.disk l p → ∃ q, V.Proper s.disk l q ∧
    NotAfter (V.listing s.disk l) q p ∧
    SameName (V.entryIn s.disk q).name (V.entryIn s.disk p).name ∧
    (findFileInDirectory (vfsName (V.entryIn s.disk p))).run e s
      = some (some (V.entryIn s.disk q), s)
  findNext : ∀ p, V.Proper s.disk l p → (V.entryIn s.disk p).isDirectory = true →
    ∃ q, V.Proper s.disk l q ∧ (V.entryIn s.disk q).isDirectory = true ∧
      NotAfter (V.listing s.disk l) q p ∧
      SameName (V.entryIn s.disk q).name (V.entryIn s.disk p).name ∧
      (findNextCluster (vfsName (V.entryIn s.disk p)) s.currentDirectoryCluster).run e s
        = some (readStartCluster (V.entryIn s.disk q), s)
  onlyReaddir : ∀ index x s',
    (fat32VfsReaddir s.currentDirectoryCluster index).run e s = some (some x, s') →
      ∃ q, V.Proper s.disk l q ∧ x = V.entryIn s.disk q
  onlyFile : ∀ nm x s', (findFileInDirectory nm).run e s = some (some x, s') →
    ∃ q, V.Proper s.disk l q ∧ x = V.entryIn s.disk q
  onlyNext : ∀ nm v s', (findNextCluster nm s.currentDirectoryCluster).run e s = some (v, s') →
    v = invalidCluster ∨ ∃ q, V.Proper s.disk l q ∧
      (V.entryIn s.disk q).isDirectory = true ∧ v = readStartCluster (V.entryIn s.disk q)

/-- What a directory has to be like for that.

The calls get their memory; every entry matches the name that is reported for it and lies in the
first cluster, or has a copy of itself there. A volume label in the first cluster is behind an entry
of the same name, unless no string matches it. A volume label that is the first directory of its
name, and that some string matches, has the same first cluster as a directory that is none. -/
structure Scannable (V : Volume) (e : Env) (s : Fs) (l : List Nat) : Prop where
  visible : ∀ p, V.Proper s.disk l p → e.Searches V ∧
    compareNames (V.entryIn s.disk p).name (vfsName (V.entryIn s.disk p)) = true ∧
    ∃ q ∈ V.listing s.disk [s.currentDirectoryCluster], V.entryIn s.disk q = V.entryIn s.disk p
  labels : e.Searches V → ∀ p ∈ V.listing s.disk [s.currentDirectoryCluster],
    skipDeletedLfn (V.entryIn s.disk p) = false → (V.entryIn s.disk p).isLabel = true →
    (∃ nm, compareNames (V.entryIn s.disk p).name nm = true) →
    ∃ q ∈ V.listing s.disk [s.currentDirectoryCluster], q.2 < p.2 ∧
      skipDeletedLfn (V.entryIn s.disk q) = false ∧
      SameName (V.entryIn s.disk q).name (V.entryIn s.disk p).name
  labelDirs : ∀ p, V.Leading s.disk l p → (V.entryIn s.disk p).isLabel = true →
    (∃ nm, compareNames (V.entryIn s.disk p).name nm = true) →
    (readStartCluster (V.entryIn s.disk p) = invalidCluster ∨ ∃ q, V.Proper s.disk l q ∧
      (V.entryIn s.disk q).isDirectory = true ∧
      readStartCluster (V.entryIn s.disk q) = readStartCluster (V.entryIn s.disk p)) ∧
    ∀ q, V.Proper s.disk l q → (V.entryIn s.disk q).isDirectory = true →
      SameName (V.entryIn s.disk q).name (V.entryIn s.disk p).name →
      ∃ q', V.Proper s.disk l q' ∧ (V.entryIn s.disk q').isDirectory = true ∧
        NotAfter (V.listing s.disk l) q' q ∧
        SameName (V.entryIn s.disk q').name (V.entryIn s.disk q).name ∧
        readStartCluster (V.entryIn s.disk q') = readStartCluster (V.entryIn s.disk p)

/-! ## The functions on the listing -/

theorem notAfter_of_find? {ps : List (Nat × Nat)} {f : Nat × Nat → Bool} {p q : Nat × Nat}
    (hq : ps.find? f = some q) (hp : p ∈ ps) (hf : f p = true) : NotAfter ps q p := by
  obtain ⟨-, l₁, l₂, rfl, hbefore⟩ := List.find?_eq_some_iff_append.mp hq
  refine ⟨l₁, l₂, rfl, ?_⟩
  rcases List.mem_append.mp hp with hp | hp
  · have := hbefore p hp
    rw [hf] at this
    cases this
  · exact hp

section functions

variable {V : Volume} {s s' : Fs} {e : Env}

/-- What `find_file_in_directory` looks for. -/
def isNamed (nm : List UInt8) (x : DirEntry) : Bool := compareNames x.name nm

theorem findFile_iff (h : s.Ready V) {nm : List UInt8} {x : DirEntry} :
    (findFileInDirectory nm).run e s = some (some x, s') ↔ s' = s ∧ e.Searches V ∧
      ∃ p, V.firstOf s.disk skipDeletedLfn (isNamed nm) [s.currentDirectoryCluster] = some p ∧
        x = V.entryIn s.disk p := by
  constructor
  · intro hr
    obtain ⟨rfl, hno | ⟨j, hj, hx⟩⟩ := findFileInDirectory_cases h hr
    · cases hno
    · have hsearch : e.Searches V := by
        by_contra hn
        rw [run_findFileInDirectory_none h fun hs => absurd hs hn] at hr
        cases hr
      exact ⟨rfl, hsearch, (s'.currentDirectoryCluster, j),
        Volume.firstOf_one_eq_some.mpr ⟨rfl, hj⟩, Option.some.inj hx⟩
  · rintro ⟨rfl, hsearch, p, hp, rfl⟩
    obtain ⟨hc, hj⟩ := Volume.firstOf_one_eq_some.mp hp
    rw [run_findFileInDirectory hsearch h hj, ← hc]
    rfl

theorem findNext_eq (he : e.Reliable) (h : s.Ready V) {l : List Nat}
    (hl : V.Chain s.disk s.currentDirectoryCluster l) (nm : List UInt8) :
    (findNextCluster nm s.currentDirectoryCluster).run e s
      = some (startOr V s.disk (V.firstOf s.disk skipDeletedLfn (Fs.isDirNamed nm) l), s) := by
  rw [run_findNextCluster he h.on, searchFrom_chain h.on nm hl (Nat.le_of_lt hl.length_lt)]
  rfl

theorem mem_listing_of_sees (h : s.Ready V) {skip : DirEntry → Bool} {j : Nat} :
    s.Sees skip s.currentDirectoryCluster j ↔
      (s.currentDirectoryCluster, j) ∈ V.listing s.disk [s.currentDirectoryCluster] ∧
        skip (V.slot s.disk s.currentDirectoryCluster j) = false := by
  rw [sees_iff h.on h.cwd, Volume.mem_listing_one]
  constructor
  · rintro ⟨h1, h2, h3⟩
    exact ⟨⟨rfl, h1, h2⟩, h3⟩
  · rintro ⟨⟨-, h1, h2⟩, h3⟩
    exact ⟨h1, h2, h3⟩

theorem readdir_mem (he : e.Reliable) (h : s.Ready V) {index : Nat} {x : DirEntry}
    (hr : (fat32VfsReaddir s.currentDirectoryCluster index).run e s = some (some x, s')) :
    ∃ p ∈ V.listing s.disk [s.currentDirectoryCluster],
      skipReaddir (V.entryIn s.disk p) = false ∧ x = V.entryIn s.disk p := by
  obtain ⟨j, ⟨-, hsees⟩, hx⟩ := fat32VfsReaddir_reaches he h hr
  obtain ⟨hmem, hskip⟩ := (mem_listing_of_sees h).mp hsees
  refine ⟨_, hmem, hskip, ?_⟩
  rw [hx, dirSlot_eq h.on h.cwd (Volume.mem_listing_one.mp hmem).2.1]
  rfl

theorem readdir_of_mem (he : e.Reliable) (hm : e.outOfMemory (.load 0 :: e.path) = false)
    (h : s.Ready V) {p : Nat × Nat} (hp : p ∈ V.listing s.disk [s.currentDirectoryCluster])
    (hskip : skipReaddir (V.entryIn s.disk p) = false) :
    ∃ index, (fat32VfsReaddir s.currentDirectoryCluster index).run e s
      = some (some (V.entryIn s.disk p), s) := by
  obtain ⟨c, j⟩ := p
  obtain ⟨hc, hlt, -⟩ := Volume.mem_listing_one.mp hp
  obtain rfl : c = s.currentDirectoryCluster := hc
  obtain ⟨index, hrun⟩ := reaches_fat32VfsReaddir he hm h
    ⟨rfl, (mem_listing_of_sees h).mpr ⟨hp, hskip⟩⟩
  rw [dirSlot_eq h.on h.cwd hlt] at hrun
  exact ⟨index, hrun⟩

end functions

/-! ## The exact condition -/

section agree

variable {V : Volume} {s : Fs} {e : Env} {l : List Nat}

theorem mem_listing_of_first (hl : V.Chain s.disk s.currentDirectoryCluster l) {p : Nat × Nat}
    (hp : p ∈ V.listing s.disk [s.currentDirectoryCluster]) : p ∈ V.listing s.disk l := by
  obtain ⟨l', rfl⟩ := hl.eq_cons
  exact (Volume.listing_first _ l').subset hp

/-- A search of the first cluster that finds something is a search of the whole chain. -/
theorem firstOf_of_first (hl : V.Chain s.disk s.currentDirectoryCluster l)
    {accept : DirEntry → Bool} {p : Nat × Nat}
    (hp : V.firstOf s.disk skipDeletedLfn accept [s.currentDirectoryCluster] = some p) :
    V.firstOf s.disk skipDeletedLfn accept l = some p := by
  obtain ⟨l', rfl⟩ := hl.eq_cons
  rw [Volume.firstOf_cons, hp]
  rfl

/-- What a search takes. -/
theorem firstOf_taken {accept : DirEntry → Bool} {p : Nat × Nat}
    (hp : V.firstOf s.disk skipDeletedLfn accept l = some p) : p ∈ V.listing s.disk l ∧
      skipDeletedLfn (V.entryIn s.disk p) = false ∧ accept (V.entryIn s.disk p) = true := by
  have htaken := List.find?_some hp
  rw [Bool.and_eq_true, Bool.not_eq_true'] at htaken
  exact ⟨List.mem_of_find?_eq_some hp, htaken⟩

/-- A search that could take a slot takes that slot or one before it. -/
theorem exists_firstOf (accept : DirEntry → Bool) {p : Nat × Nat} (hp : p ∈ V.listing s.disk l)
    (hskip : skipDeletedLfn (V.entryIn s.disk p) = false)
    (hacc : accept (V.entryIn s.disk p) = true) :
    ∃ q, V.firstOf s.disk skipDeletedLfn accept l = some q ∧
      NotAfter (V.listing s.disk l) q p := by
  have hf : (!skipDeletedLfn (V.entryIn s.disk p) && accept (V.entryIn s.disk p)) = true := by
    rw [hskip, hacc]
    rfl
  cases hq : V.firstOf s.disk skipDeletedLfn accept l with
  | none =>
      have := Volume.firstOf_eq_none.mp hq p hp hskip
      rw [hacc] at this
      cases this
  | some q => exact ⟨q, rfl, notAfter_of_find? hq hp hf⟩

/-- The first directory that a string matches is the first of its name. -/
theorem leading_of_firstOf {nm : List UInt8} {p : Nat × Nat}
    (hp : V.firstOf s.disk skipDeletedLfn (Fs.isDirNamed nm) l = some p) :
    V.Leading s.disk l p := by
  obtain ⟨-, hskip, hnamed⟩ := firstOf_taken hp
  obtain ⟨hdir, hname⟩ := Bool.and_eq_true _ _ ▸ hnamed
  obtain ⟨-, l₁, l₂, heq, hbefore⟩ := List.find?_eq_some_iff_append.mp hp
  refine ⟨hskip, hdir, l₁, l₂, heq, fun q hq hskip' hdir' hsame => ?_⟩
  have hno := hbefore q hq
  rw [hskip', Fs.isDirNamed, hdir', compareNames_of_sameName hsame.symm hname] at hno
  cases hno

/-- And the other way round. -/
theorem Volume.Leading.firstOf {p : Nat × Nat} (h : V.Leading s.disk l p) {nm : List UInt8}
    (hname : compareNames (V.entryIn s.disk p).name nm = true) :
    V.firstOf s.disk skipDeletedLfn (Fs.isDirNamed nm) l = some p := by
  obtain ⟨l₁, l₂, heq, hbefore⟩ := h.first
  refine List.find?_eq_some_iff_append.mpr ⟨?_, l₁, l₂, heq, fun q hq => ?_⟩
  · rw [h.kept, Fs.isDirNamed, h.directory, hname]
    rfl
  · rw [Bool.not_eq_true', ← Bool.not_eq_true]
    intro htaken
    rw [Bool.and_eq_true, Bool.not_eq_true', Fs.isDirNamed, Bool.and_eq_true] at htaken
    exact hbefore q hq htaken.1 htaken.2.1 (sameName_of_compareNames htaken.2.2 hname)

/-- Under the condition `find_file_in_directory` reports no volume label. -/
theorem Scannable.noLabel (hs : Scannable V e s l) (hsearch : e.Searches V) {nm : List UInt8}
    {p : Nat × Nat} (hp : V.firstOf s.disk skipDeletedLfn (isNamed nm)
      [s.currentDirectoryCluster] = some p) : (V.entryIn s.disk p).isLabel = false := by
  obtain ⟨hmem, hskip, hname⟩ := firstOf_taken hp
  rw [← Bool.not_eq_true]
  intro hlabel
  obtain ⟨q, hq, hlt, hskip', hsame⟩ := hs.labels hsearch p hmem hskip hlabel ⟨nm, hname⟩
  -- the entry before it would have been found
  obtain ⟨hc, hfirst⟩ := Volume.firstOf_one_eq_some.mp hp
  obtain ⟨hc', -, hend⟩ := Volume.mem_listing_one.mp hq
  apply (hfirst.passed q.2 hlt).not_taken
  rw [← hc']
  refine ⟨?_, hskip', compareNames_of_sameName hsame.symm hname⟩
  rw [hc']
  exact hend q.2 (Nat.le_refl _)

theorem Scannable.agree (he : e.Reliable) (h : s.Ready V)
    (hl : V.Chain s.disk s.currentDirectoryCluster l) (hs : Scannable V e s l) :
    ScannersAgree V e s l where
  readdir := by
    intro p hp
    obtain ⟨hsearch, -, q, hq, heq⟩ := hs.visible p hp
    rw [← heq]
    refine readdir_of_mem he hsearch.buffer h hq ?_
    rw [heq]
    exact skipReaddir_eq_false.mpr ⟨hp.kept, hp.noLabel⟩
  findFile := by
    intro p hp
    obtain ⟨hsearch, hname, q, hq, heq⟩ := hs.visible p hp
    have hskip := hp.kept
    rw [← heq] at hskip hname
    -- some entry of the first cluster has the name; the first one that has it is found
    obtain ⟨q₁, hq₁, -⟩ := exists_firstOf (isNamed (vfsName (V.entryIn s.disk q))) hq hskip hname
    rw [heq] at hq₁ hname
    obtain ⟨hmem, hskip₁, hname₁⟩ := firstOf_taken hq₁
    refine ⟨q₁, ⟨mem_listing_of_first hl hmem, hskip₁, hs.noLabel hsearch hq₁⟩, ?_,
      sameName_of_compareNames hname₁ hname, (findFile_iff h).mpr ⟨rfl, hsearch, q₁, hq₁, rfl⟩⟩
    apply notAfter_of_find? (firstOf_of_first hl hq₁) hp.mem
    rw [hp.kept, isNamed, hname]
    rfl
  findNext := by
    intro p hp hdir
    obtain ⟨-, hname, -⟩ := hs.visible p hp
    have hnamed : Fs.isDirNamed (vfsName (V.entryIn s.disk p)) (V.entryIn s.disk p) = true := by
      rw [Fs.isDirNamed, hdir, hname]
      rfl
    obtain ⟨q, hq, hle⟩ := exists_firstOf _ hp.mem hp.kept hnamed
    obtain ⟨hmem, hskip, hnamed'⟩ := firstOf_taken hq
    obtain ⟨hdir', hname'⟩ := Bool.and_eq_true _ _ ▸ hnamed'
    have hsame := sameName_of_compareNames hname' hname
    cases hlabel : (V.entryIn s.disk q).isLabel with
    | false =>
        refine ⟨q, ⟨hmem, hskip, hlabel⟩, hdir', hle, hsame, ?_⟩
        rw [findNext_eq he h hl, hq]
        rfl
    | true =>
        -- the label is found first, and its cluster is that of a directory
        obtain ⟨-, hbehind⟩ := hs.labelDirs q (leading_of_firstOf hq) hlabel ⟨_, hname'⟩
        obtain ⟨q', hq', hdir'', hle', hsame', hstart⟩ := hbehind p hp hdir hsame.symm
        refine ⟨q', hq', hdir'', hle', hsame', ?_⟩
        rw [findNext_eq he h hl, hq, hstart]
        rfl
  onlyReaddir := by
    intro index x s' hr
    obtain ⟨p, hp, hskip, rfl⟩ := readdir_mem he h hr
    obtain ⟨h1, h2⟩ := skipReaddir_eq_false.mp hskip
    exact ⟨p, ⟨mem_listing_of_first hl hp, h1, h2⟩, rfl⟩
  onlyFile := by
    intro nm x s' hr
    obtain ⟨-, hsearch, p, hp, rfl⟩ := (findFile_iff h).mp hr
    obtain ⟨hmem, hskip, -⟩ := firstOf_taken hp
    exact ⟨p, ⟨mem_listing_of_first hl hmem, hskip, hs.noLabel hsearch hp⟩, rfl⟩
  onlyNext := by
    intro nm v s' hr
    rw [findNext_eq he h hl, Option.some.injEq, Prod.mk.injEq] at hr
    rw [← hr.1]
    cases hp : V.firstOf s.disk skipDeletedLfn (Fs.isDirNamed nm) l with
    | none => exact Or.inl rfl
    | some p =>
        obtain ⟨hmem, hskip, hnamed⟩ := firstOf_taken hp
        obtain ⟨hdir, hname⟩ := Bool.and_eq_true _ _ ▸ hnamed
        cases hlabel : (V.entryIn s.disk p).isLabel with
        | false => exact Or.inr ⟨p, ⟨hmem, hskip, hlabel⟩, hdir, rfl⟩
        | true =>
            obtain ⟨hstart, -⟩ := hs.labelDirs p (leading_of_firstOf hp) hlabel ⟨nm, hname⟩
            rcases hstart with hstart | ⟨q, hq, hdir', hstart⟩
            · exact Or.inl hstart
            · exact Or.inr ⟨q, hq, hdir', hstart.symm⟩

theorem ScannersAgree.scannable (he : e.Reliable) (h : s.Ready V)
    (hl : V.Chain s.disk s.currentDirectoryCluster l) (ha : ScannersAgree V e s l) :
    Scannable V e s l := by
  have hname : ∀ p, V.Proper s.disk l p → e.Searches V ∧
      compareNames (V.entryIn s.disk p).name (vfsName (V.entryIn s.disk p)) = true := by
    intro p hp
    obtain ⟨q, -, -, hsame, hr⟩ := ha.findFile p hp
    obtain ⟨-, hsearch, q', hq', heq⟩ := (findFile_iff h).mp hr
    obtain ⟨-, -, hname⟩ := firstOf_taken hq'
    rw [← heq] at hname
    exact ⟨hsearch, compareNames_of_sameName hsame hname⟩
  constructor
  · intro p hp
    obtain ⟨hsearch, hmatch⟩ := hname p hp
    obtain ⟨index, hr⟩ := ha.readdir p hp
    obtain ⟨q, hq, -, heq⟩ := readdir_mem he h hr
    exact ⟨hsearch, hmatch, q, hq, heq.symm⟩
  · intro hsearch p hp hskip hlabel hmatch
    obtain ⟨nm, hmatch⟩ := hmatch
    obtain ⟨q, hq, -⟩ := exists_firstOf (isNamed nm) hp hskip hmatch
    obtain ⟨q', hq', heq⟩ := ha.onlyFile nm _ s
      ((findFile_iff h).mpr ⟨rfl, hsearch, q, hq, rfl⟩)
    obtain ⟨hmem, hskip', hmatch'⟩ := firstOf_taken hq
    refine ⟨q, hmem, ?_, hskip', sameName_of_compareNames hmatch' hmatch⟩
    -- what is found is no label, so it is another slot, and it is the first
    obtain ⟨hc, hfirst⟩ := Volume.firstOf_one_eq_some.mp hq
    obtain ⟨hc', -, hend⟩ := Volume.mem_listing_one.mp hp
    rcases Nat.lt_trichotomy q.2 p.2 with hlt | heq2 | hgt
    · exact hlt
    · have hqp : q = p := Prod.ext (hc.trans hc'.symm) heq2
      rw [← hqp, heq, hq'.noLabel] at hlabel
      cases hlabel
    · refine absurd ?_ (hfirst.passed p.2 hgt).not_taken
      rw [← hc']
      refine ⟨?_, hskip, hmatch⟩
      rw [hc']
      exact hend p.2 (Nat.le_refl _)
  · intro p hp hlabel hmatch
    obtain ⟨nm, hmatch⟩ := hmatch
    constructor
    · have hr := findNext_eq he h hl nm
      rw [hp.firstOf hmatch] at hr
      rcases ha.onlyNext nm _ s hr with hv | ⟨q, hq, hdir, hv⟩
      · exact Or.inl hv
      · exact Or.inr ⟨q, hq, hdir, hv.symm⟩
    · intro q hq hdir hsame
      obtain ⟨q', hq', hdir', hle, hsame', hr⟩ := ha.findNext q hq hdir
      have hmatch' := compareNames_of_sameName hsame (hname q hq).2
      rw [findNext_eq he h hl, hp.firstOf hmatch', Option.some.injEq, Prod.mk.injEq] at hr
      exact ⟨q', hq', hdir', hle, hsame', hr.1.symm⟩

/-- **All directory scanners agree** on a directory with a well-formed chain exactly when it is
scannable. -/
theorem scannersAgree_iff (he : e.Reliable) (h : s.Ready V)
    (hl : V.Chain s.disk s.currentDirectoryCluster l) :
    ScannersAgree V e s l ↔ Scannable V e s l :=
  ⟨fun ha => ha.scannable he h hl, fun hs => hs.agree he h hl⟩

end agree

theorem twoFilesFs_listing :
    smallVolume.listing twoFilesFs.disk [2] = [(2, 0), (2, 1)] := by decide

/-- The files A and B in the root. -/
theorem scannersAgree_twoFiles :
    ScannersAgree smallVolume quietEnv twoFilesFs [2] := by
  have hchain : smallVolume.Chain twoFilesFs.disk 2 [2] := .last (by decide)
  have hall : ∀ p ∈ smallVolume.listing twoFilesFs.disk [2],
      (smallVolume.entryIn twoFilesFs.disk p).isLabel = false ∧
        compareNames (smallVolume.entryIn twoFilesFs.disk p).name
          (vfsName (smallVolume.entryIn twoFilesFs.disk p)) = true := by
    rw [twoFilesFs_listing]
    decide
  apply (scannersAgree_iff quietEnv_reliable twoFilesFs_ready hchain).mpr
  constructor
  · intro p hp
    exact ⟨quietEnv_reliable.searches quietEnv_hasMemory, (hall p hp.mem).2, p, hp.mem, rfl⟩
  · intro _ p hp _ hlabel
    rw [(hall p hp).1] at hlabel
    cases hlabel
  · intro p hp hlabel
    obtain ⟨l₁, l₂, heq, -⟩ := hp.first
    rw [(hall p (heq ▸ List.mem_append_right l₁ List.mem_cons_self)).1] at hlabel
    cases hlabel

/-- The small volume with a root directory of two clusters: deleted entries in the first, the file A
in the second. -/
def secondClusterFs : Fs :=
  smallFs (fun c => if c = 2 then 3 else if c = 3 ∨ c = 4 then eocMax else 0)
    (fun c j => if c = 2 then fun _ => 0xE5
      else if c = 3 ∧ j = 0 then quietEnv.newEntry [0x41] 4 0 else zeroEntry) (fun _ => 0)

/-- The file is neither listed nor found. -/
theorem secondClusterFs_disagree : smallVolume.Chain secondClusterFs.disk 2 [2, 3] ∧
    ¬ ScannersAgree smallVolume quietEnv secondClusterFs [2, 3] := by
  have hchain : smallVolume.Chain secondClusterFs.disk 2 [2, 3] :=
    .cons (b := 3) (by decide) (.last (by decide))
  refine ⟨hchain, fun ha => ?_⟩
  have hready : secondClusterFs.Ready smallVolume := smallFs_ready _ _ _
  have hs := ha.scannable quietEnv_reliable hready hchain
  have hproper : smallVolume.Proper secondClusterFs.disk [2, 3] (3, 0) :=
    ⟨by decide, by decide, by decide⟩
  obtain ⟨-, -, q, hq, heq⟩ := hs.visible (3, 0) hproper
  have hdeleted : ∀ q ∈ smallVolume.listing secondClusterFs.disk [2],
      (smallVolume.entryIn secondClusterFs.disk q).isDeleted = true := by decide
  have hdel := hdeleted q hq
  rw [heq] at hdel
  exact absurd hdel (by decide)

end MicroKernel.Fat32
