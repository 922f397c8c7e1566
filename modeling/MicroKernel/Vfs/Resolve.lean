import MicroKernel.Vfs.Mount

set_option autoImplicit false

/-! # How a path finds its file system

`vfs_get_filesystem` takes the longest mount path that is a prefix of the path, character by
character, and the newest of several mounts at the same path (`bestMatch_eq_some`). The mount that
is chosen is also the one `vfs_get_relative_path` finds, since a file system is mounted once
(`relativeTo_split`).

A prefix of the characters is not a prefix of the components: `/mnt/hdd1` is taken for
`/mnt/hdd10/f`. `resolvesComponents_iff` says for which tables and paths this does no harm.
-/

namespace MicroKernel.Vfs

open MicroKernel.Lib

variable {S : Sig}

/-! ## The two scans -/

@[simp] theorem strncmpEq_length (path p : List UInt8) :
    strncmpEq path p p.length = true ↔ p <+: path := by
  induction p generalizing path with
  | nil => simp [strncmpEq]
  | cons b t ih =>
      cases path with
      | nil => simp [strncmpEq]
      | cons a s =>
          rw [List.length_cons, strncmpEq, List.cons_prefix_cons]
          by_cases h : a = b
          · rw [if_pos h, ih]
            exact ⟨fun hp => ⟨h.symm, hp⟩, fun hp => hp.2⟩
          · rw [if_neg h]
            constructor
            · intro hf
              cases hf
            · intro hp
              exact absurd hp.1.symm h

/-- No mount of the list matches `path` with more than `n` characters. -/
def NoneLonger (path : List UInt8) (n : Nat) (ms : List (Mount S)) : Prop :=
  ∀ m ∈ ms, m.path <+: path → m.path.length ≤ n

/-- `m` is the first of the longest matches in the list, and longer than `n`. -/
def FirstLongest (path : List UInt8) (n : Nat) (ms : List (Mount S)) (m : Mount S) : Prop :=
  m.path <+: path ∧ n < m.path.length ∧ ∃ newer older, ms = newer ++ m :: older ∧
    (∀ m' ∈ newer, m'.path <+: path → m'.path.length < m.path.length) ∧
    NoneLonger path m.path.length older

theorem FirstLongest.cons {path : List UInt8} {n n' : Nat} {ms : List (Mount S)}
    {m current : Mount S} (h : FirstLongest path n' ms m) (hn : n ≤ n')
    (hc : current.path <+: path → current.path.length ≤ n') :
    FirstLongest path n (current :: ms) m := by
  obtain ⟨hp, hlt, newer, older, rfl, hnew, hold⟩ := h
  refine ⟨hp, by omega, current :: newer, older, rfl, ?_, hold⟩
  intro m' hm' hp'
  rcases List.mem_cons.mp hm' with rfl | hm'
  · have := hc hp'
    omega
  · exact hnew m' hm' hp'

/-- What the loop of `vfs_get_filesystem` comes to. -/
theorem bestMatch_cases (path : List UInt8) (ms : List (Mount S)) (best : Option (Mount S))
    (n : Nat) :
    (bestMatch path ms best n = best ∧ NoneLonger path n ms) ∨
      ∃ m, bestMatch path ms best n = some m ∧ FirstLongest path n ms m := by
  induction ms generalizing best n with
  | nil =>
      left
      exact ⟨rfl, fun m hm => absurd hm (by simp)⟩
  | cons current ms ih =>
      rw [bestMatch]
      by_cases h : strncmpEq path current.path current.path.length = true ∧
          n < current.path.length
      · -- the mount becomes the best match; a later one has to be longer still
        rw [if_pos h]
        obtain ⟨hp, hlt⟩ := h
        rw [strncmpEq_length] at hp
        right
        rcases ih (some current) current.path.length with ⟨heq, hnone⟩ | ⟨m, heq, hm⟩
        · refine ⟨current, heq, hp, hlt, [], ms, rfl, ?_, hnone⟩
          intro m' hm'
          cases hm'
        · exact ⟨m, heq, hm.cons (by omega) fun _ => Nat.le_refl _⟩
      · rw [if_neg h]
        rw [strncmpEq_length] at h
        have hc : current.path <+: path → current.path.length ≤ n := by
          intro hp
          by_contra hlt
          exact h ⟨hp, by omega⟩
        rcases ih best n with ⟨heq, hnone⟩ | ⟨m, heq, hm⟩
        · left
          refine ⟨heq, ?_⟩
          intro m' hm' hp'
          rcases List.mem_cons.mp hm' with rfl | hm'
          · exact hc hp'
          · exact hnone m' hm' hp'
        · right
          exact ⟨m, heq, hm.cons (Nat.le_refl _) hc⟩

variable (t : MountTable S) {path : List UInt8}

/-- `vfs_get_filesystem` finds the newest of the longest matches that are not empty. -/
theorem vfsGetFilesystem_cases (hp : path.head? = some 0x2F) :
    (vfsGetFilesystem t path = none ∧ NoneLonger path 0 t.mounts) ∨
      ∃ m, vfsGetFilesystem t path = some m.fs ∧ FirstLongest path 0 t.mounts m := by
  unfold vfsGetFilesystem
  rw [if_pos hp]
  rcases bestMatch_cases path t.mounts none 0 with ⟨heq, hnone⟩ | ⟨m, heq, hm⟩
  · left
    rw [heq]
    exact ⟨rfl, hnone⟩
  · right
    rw [heq]
    exact ⟨m, rfl, hm⟩

theorem relativeTo_append (fs : Filesystem S) (newer older : List (Mount S))
    (h : ∀ m ∈ newer, m.fs.addr ≠ fs.addr) :
    relativeTo path fs (newer ++ older) = relativeTo path fs older := by
  induction newer with
  | nil => rfl
  | cons m newer ih =>
      rw [List.cons_append, relativeTo, if_neg fun hm => h m (by simp) hm.1,
        ih fun m' hm' => h m' (by simp [hm'])]

/-- The relative path of a mount that matches: what follows its path, or `/`. -/
theorem vfsGetRelativePath_of_mem {m : Mount S} (hm : m ∈ t.mounts) (hp : m.path <+: path) :
    vfsGetRelativePath t path m.fs
      = if path = m.path then [0x2F] else path.drop m.path.length := by
  obtain ⟨newer, older, hsplit⟩ := List.append_of_mem hm
  have hnew : ∀ m' ∈ newer, m'.fs.addr ≠ m.fs.addr := by
    have hd := t.distinct
    rw [hsplit, List.pairwise_append] at hd
    exact fun m' hm' => hd.2.2 m' hm' m (by simp)
  unfold vfsGetRelativePath
  rw [hsplit, relativeTo_append m.fs newer _ hnew, relativeTo,
    if_pos ⟨rfl, (strncmpEq_length path m.path).mpr hp⟩]
  obtain ⟨rest, rfl⟩ := hp
  simp only [List.drop_left, List.append_right_eq_self]

/-! ## Paths below a mount point -/

theorem isPrefix_below_iff {p : List UInt8} {c : UInt8} {rest : List UInt8}
    (hp : ¬ path ++ [c] <+: p) : p <+: path ++ c :: rest ↔ p <+: path := by
  constructor
  · intro h
    rcases Nat.lt_or_ge path.length p.length with hlt | hle
    · -- a longer one would go on with the same character
      refine absurd (List.prefix_of_prefix_length_le ?_ h ?_) hp
      · exact ⟨rest, by simp⟩
      · simp only [List.length_append, List.length_singleton]
        omega
    · exact List.prefix_of_prefix_length_le h (List.prefix_append _ _) hle
  · intro h
    exact h.trans (List.prefix_append _ _)

/-- The scan depends only on which mount paths match. -/
theorem bestMatch_congr {path path' : List UInt8} {ms : List (Mount S)}
    (h : ∀ m ∈ ms, m.path <+: path ↔ m.path <+: path') (best : Option (Mount S)) (n : Nat) :
    bestMatch path ms best n = bestMatch path' ms best n := by
  induction ms generalizing best n with
  | nil => rfl
  | cons current ms ih =>
      have hrest : ∀ m ∈ ms, m.path <+: path ↔ m.path <+: path' := fun m hm => h m (by simp [hm])
      simp only [bestMatch, strncmpEq_length, h current (by simp), ih hrest]

/-- Where no mount path goes on below the mount point `m`, every path below it is a path of its file
system. -/
theorem vfsGetFilesystem_below {m : Mount S} (hfs : vfsGetFilesystem t m.path = some m.fs)
    (hbelow : ∀ m' ∈ t.mounts, ¬ m.path ++ [0x2F] <+: m'.path) (rest : List UInt8) :
    vfsGetFilesystem t (m.path ++ 0x2F :: rest) = some m.fs := by
  have hhead : m.path.head? = some 0x2F := by
    by_contra hn
    unfold vfsGetFilesystem at hfs
    rw [if_neg hn] at hfs
    cases hfs
  have hhead' : (m.path ++ 0x2F :: rest).head? = some 0x2F := by
    rw [List.head?_append, hhead]
    rfl
  rw [← hfs]
  unfold vfsGetFilesystem
  rw [if_pos hhead, if_pos hhead',
    bestMatch_congr fun m' hm' => isPrefix_below_iff (hbelow m' hm')]

/-! ## Prefixes by components -/

/-- `mountPath` is a prefix of the components of `path`. -/
def ComponentPrefix (mountPath path : List UInt8) : Prop :=
  path = mountPath ∨ mountPath = [0x2F] ∨ mountPath ++ [0x2F] <+: path

instance (mountPath path : List UInt8) : Decidable (ComponentPrefix mountPath path) :=
  inferInstanceAs (Decidable (_ ∨ _ ∨ _))

/-- What `vfs_get_filesystem` returns is the file system of the longest mount path that is a
prefix of the components of `path`. -/
def ResolvesComponents (t : MountTable S) (path : List UInt8) : Prop :=
  match vfsGetFilesystem t path with
  | none => ∀ m ∈ t.mounts, ¬ ComponentPrefix m.path path
  | some fs => ∃ m ∈ t.mounts, m.fs = fs ∧ ComponentPrefix m.path path ∧
      ∀ m' ∈ t.mounts, ComponentPrefix m'.path path → m'.path.length ≤ m.path.length

/-- Every mount path that is a prefix of the characters of `path` is at most as long as one that
is not empty and ends where a component of `path` ends. -/
def EndsAtComponent (t : MountTable S) (path : List UInt8) : Prop :=
  ∀ m ∈ t.mounts, m.path <+: path →
    ∃ m' ∈ t.mounts, m'.path ≠ [] ∧ ComponentPrefix m'.path path ∧
      m.path.length ≤ m'.path.length

instance (t : MountTable S) (path : List UInt8) : Decidable (EndsAtComponent t path) :=
  inferInstanceAs (Decidable (∀ m ∈ t.mounts, _ → ∃ m' ∈ t.mounts, _))

theorem head?_eq_iff_startsWith (c : UInt8) (path : List UInt8) :
    path.head? = some c ↔ [c] <+: path := by
  cases path with
  | nil => simp
  | cons a rest => simp [List.cons_prefix_cons, eq_comm]

theorem ComponentPrefix.isPrefix {mountPath : List UInt8} (hp : path.head? = some 0x2F)
    (h : ComponentPrefix mountPath path) : mountPath <+: path := by
  rcases h with rfl | rfl | h
  · exact List.prefix_refl _
  · exact (head?_eq_iff_startsWith _ _).mp hp
  · exact (List.prefix_append _ _).trans h

theorem componentPrefix_nil (hp : path.head? = some 0x2F) : ComponentPrefix [] path :=
  Or.inr (Or.inr ((head?_eq_iff_startsWith _ _).mp hp))

theorem FirstLongest.mem {n : Nat} {ms : List (Mount S)} {m : Mount S}
    (h : FirstLongest path n ms m) : m ∈ ms := by
  obtain ⟨-, -, newer, older, rfl, -⟩ := h
  simp

theorem FirstLongest.noneLonger {n : Nat} {ms : List (Mount S)} {m : Mount S}
    (h : FirstLongest path n ms m) : NoneLonger path m.path.length ms := by
  obtain ⟨-, -, newer, older, rfl, hnew, hold⟩ := h
  intro m' hm' hp'
  rcases List.mem_append.mp hm' with hm' | hm'
  · exact Nat.le_of_lt (hnew m' hm' hp')
  · rcases List.mem_cons.mp hm' with rfl | hm'
    · exact Nat.le_refl _
    · exact hold m' hm' hp'

/-- A file system belongs to one mount. -/
theorem MountTable.eq_of_fs {m m' : Mount S} (hm : m ∈ t.mounts) (hm' : m' ∈ t.mounts)
    (h : m.fs = m'.fs) : m = m' := by
  by_contra hne
  have : Std.Symm fun m m' : Mount S => m.fs.addr ≠ m'.fs.addr := ⟨fun _ _ hn => hn.symm⟩
  exact t.distinct.forall hm hm' hne (by rw [h])

/-- The code resolves a path by its components exactly when the longest mount path that is a
prefix of its characters ends where a component ends. -/
theorem resolvesComponents_iff (t : MountTable S) (path : List UInt8)
    (hp : path.head? = some 0x2F) : ResolvesComponents t path ↔ EndsAtComponent t path := by
  unfold ResolvesComponents
  rcases vfsGetFilesystem_cases t hp with ⟨heq, hnone⟩ | ⟨m, heq, hm⟩
  · rw [heq]
    constructor
    · intro h m hm hpre
      -- only an empty mount path can match here, and it is a prefix of the components
      have hnil : m.path = [] := List.length_eq_zero_iff.mp (by have := hnone m hm hpre; omega)
      exact absurd (hnil ▸ componentPrefix_nil hp) (h m hm)
    · intro h m hm hc
      obtain ⟨m', hm', hne, hc', -⟩ := h m hm (hc.isPrefix hp)
      have hle := hnone m' hm' (hc'.isPrefix hp)
      exact hne (List.length_eq_zero_iff.mp (by omega))
  · rw [heq]
    have hle := hm.noneLonger
    constructor
    · rintro ⟨m₁, hm₁, hfs, hc, -⟩ m' hm' hpre
      obtain rfl := t.eq_of_fs hm₁ hm.mem hfs
      have hpos : 0 < m₁.path.length := hm.2.1
      exact ⟨m₁, hm₁, List.ne_nil_of_length_pos hpos, hc, hle m' hm' hpre⟩
    · intro h
      obtain ⟨m', hm', -, hc, hlen⟩ := h m hm.mem hm.1
      have hpath : m'.path = m.path :=
        (List.prefix_of_prefix_length_le (hc.isPrefix hp) hm.1
          (hle m' hm' (hc.isPrefix hp))).eq_of_length_le hlen
      refine ⟨m, hm.mem, rfl, hpath ▸ hc, ?_⟩
      intro m'' hm'' hc''
      exact hle m'' hm'' (hc''.isPrefix hp)

/-! ### Drives with numbers -/

/-- A signature in which nothing but the VFS has a state. -/
def plainSig : Sig := ⟨Unit, Nat, Unit, Unit, Unit, Unit⟩

/-- The bytes of a string. -/
def ofString (str : String) : List UInt8 := str.toList.map fun c => UInt8.ofNat c.toNat

/-- The file system of drive `n`, at address `n`. -/
def plainFs (n : Nat) : Filesystem plainSig := ⟨n, ofString "fat32", n, (), some (), some 2⟩

/-- The first drive at `/` and the second one at `/mnt/hdd1`. -/
def numberedDrives : MountTable plainSig :=
  ⟨[⟨ofString "/mnt/hdd1", plainFs 2⟩, ⟨ofString "/", plainFs 1⟩], by decide⟩

/-- A path on the first drive, below a directory with a longer number, goes to the second. -/
theorem not_resolvesComponents_hdd10 :
    (ofString "/mnt/hdd10/F").head? = some 0x2F ∧
      ¬ ResolvesComponents numberedDrives (ofString "/mnt/hdd10/F") := by
  have hfs : vfsGetFilesystem numberedDrives (ofString "/mnt/hdd10/F") = some (plainFs 2) := rfl
  refine ⟨by decide, ?_⟩
  unfold ResolvesComponents
  rw [hfs]
  rintro ⟨m, hm, hm2, hc, -⟩
  rcases List.mem_cons.mp hm with rfl | hm
  · exact absurd hc (by decide)
  · obtain rfl := List.mem_singleton.mp hm
    exact absurd (congrArg Filesystem.addr hm2) (by decide)

theorem resolvesComponents_hdd1 :
    ResolvesComponents numberedDrives (ofString "/mnt/hdd1/F") := by
  apply (resolvesComponents_iff _ _ (by decide)).mpr
  decide

end MicroKernel.Vfs
