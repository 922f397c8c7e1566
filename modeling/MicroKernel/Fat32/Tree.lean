import MicroKernel.Fat32.Chain

set_option autoImplicit false

/-! # The directory tree

The meaning of a volume above the driver: the directories reachable from the root, their
entries, and who owns which cluster. An owner is the root or an entry of a reachable directory
other than the two dot entries that every directory below the root starts with; it owns the
clusters of the chain that starts at its first cluster. `Volume.Owned` says that every cluster
with a non-zero FAT entry has exactly one owner: nothing is lost and nothing is shared.

`Tree` adds what makes a volume well formed besides. The file ends with the two ways in which
the driver changes a tree, adding an entry (`Tree.create`) and taking one away (`Tree.remove`),
stated for any two disks that are related as the driver relates them.
-/

namespace MicroKernel.Fat32

open MicroKernel.Lib Bytes

/-- The slot holds an entry: it is no end marker, not deleted and not a part of a long name. -/
def DirEntry.isLive (x : DirEntry) : Bool := !isEnd x && !isDeleted x && !isLfn x

theorem DirEntry.isLive_iff {x : DirEntry} :
    isLive x = true ↔ isEnd x = false ∧ isDeleted x = false ∧ isLfn x = false := by
  simp [isLive, and_assoc]

theorem DirEntry.not_isFree_of_isLive {x : DirEntry} (h : isLive x = true) : isFree x = false := by
  obtain ⟨h1, h2, -⟩ := isLive_iff.mp h
  simp [isFree, h1, h2]

/-! ## Directories and owners -/

namespace Volume

variable (V : Volume) (d : Disk) (root : Nat)

/-- Slot `j` of cluster `c` comes before the end of the directory with the given chain. -/
def Listed : List Nat → Nat → Nat → Prop
  | [], _, _ => False
  | c :: l, c', j =>
      (c' = c ∧ j < V.slots ∧ ∀ i, i ≤ j → (V.slot d c i).isEnd = false) ∨
        (∀ i, i < V.slots → (V.slot d c i).isEnd = false) ∧ Listed l c' j

/-- The directory `dir` has an entry at slot `j` of cluster `c`. -/
def Entry (dir c j : Nat) : Prop :=
  ∃ l, V.Chain d dir l ∧ V.Listed d l c j ∧ (V.slot d c j).isLive = true

/-- The slots of the dot entries of a directory that is not the root. -/
def IsDot (dir c j : Nat) : Prop := dir ≠ root ∧ c = dir ∧ j < 2

/-- The directory `dir` has an entry there that is not a dot entry. -/
def Child (dir c j : Nat) : Prop := V.Entry d dir c j ∧ ¬ IsDot root dir c j

/-- The directories that can be reached from the root, by their first clusters. -/
inductive IsDir : Nat → Prop where
  | root : IsDir root
  | child {dir c j : Nat} (hdir : IsDir dir) (h : V.Child d root dir c j)
      (hd : (V.slot d c j).isDirectory = true) : IsDir (readStartCluster (V.slot d c j))

/-- The root (`none`), or an entry of a directory. -/
def Owner : Option (Nat × Nat) → Prop
  | none => True
  | some (c, j) => ∃ dir, V.IsDir d root dir ∧ V.Child d root dir c j

/-- The first cluster of an owner. -/
def start : Option (Nat × Nat) → Nat
  | none => root
  | some (c, j) => readStartCluster (V.slot d c j)

@[simp] theorem start_some (c j : Nat) :
    V.start d root (some (c, j)) = readStartCluster (V.slot d c j) := rfl

/-- Cluster `x` is in the chain of the owner `o`. -/
def Owns (o : Option (Nat × Nat)) (x : Nat) : Prop :=
  V.Owner d root o ∧ ∃ l, V.Chain d (V.start d root o) l ∧ x ∈ l

/-- **No leak and no cross-link**: every non-zero FAT entry belongs to the chain of exactly one
owner. -/
def Owned : Prop := ∀ x, V.Has x → V.fat d x ≠ 0 → ∃! o, V.Owns d root o x

/-- The dot entries of `dir`, whose parent is `parent`. The second may say 0 for the root. -/
structure Dots (dir parent : Nat) : Prop where
  taken : ∀ j, j < 2 → (V.slot d dir j).isFree = false
  self : (V.slot d dir 0).isDirectory = true → readStartCluster (V.slot d dir 0) = dir
  up : (V.slot d dir 1).isDirectory = true →
    readStartCluster (V.slot d dir 1) = 0 ∨ readStartCluster (V.slot d dir 1) = parent

end Volume

theorem Volume.Dots.congr {V : Volume} {d d' : Disk} {dir parent : Nat} (h : V.Dots d dir parent)
    (hs : ∀ i, i < 2 → V.slot d' dir i = V.slot d dir i) : V.Dots d' dir parent where
  taken := by
    intro j hj
    rw [hs j hj]
    exact h.taken j hj
  self := by
    rw [hs 0 (by omega)]
    exact h.self
  up := by
    rw [hs 1 (by omega)]
    exact h.up

theorem Volume.two_lt_slots (V : Volume) : 2 < V.slots := by
  have := V.sectorsPerCluster_pos
  unfold Volume.slots
  omega

/-- A well-formed volume: directories have chains, every first cluster that is a cluster starts a
chain, there are no entries behind the end of a directory, directories below the root start with
dot entries, and the clusters in use are owned. -/
structure Tree (V : Volume) (d : Disk) (root : Nat) : Prop where
  dirHas : ∀ dir, V.IsDir d root dir → V.Has dir
  chains : ∀ o, V.Owner d root o → V.Has (V.start d root o) → ∃ l, V.Chain d (V.start d root o) l
  compact : ∀ dir l, V.IsDir d root dir → V.Chain d dir l → ∀ c, c ∈ l → ∀ j, j < V.slots →
    (V.slot d c j).isLive = true → V.Listed d l c j
  dots : ∀ dir c j, V.IsDir d root dir → V.Child d root dir c j →
    (V.slot d c j).isDirectory = true → V.Dots d (readStartCluster (V.slot d c j)) dir
  owned : V.Owned d root

/-! ## Listed slots -/

section listed

variable {V : Volume} {d d' : Disk} {l : List Nat} {c j : Nat}

theorem Volume.Listed.mem (h : V.Listed d l c j) : c ∈ l ∧ j < V.slots := by
  induction l with
  | nil => cases h
  | cons a l ih =>
      rcases h with ⟨rfl, hj, -⟩ | ⟨-, h⟩
      · exact ⟨List.mem_cons_self, hj⟩
      · obtain ⟨h1, h2⟩ := ih h
        exact ⟨List.mem_cons_of_mem _ h1, h2⟩

/-- A directory in which end markers are only taken away lists what it listed. -/
theorem Volume.Listed.mono (h : V.Listed d l c j)
    (hd : ∀ c, c ∈ l → ∀ i, i < V.slots → (V.slot d c i).isEnd = false →
      (V.slot d' c i).isEnd = false) : V.Listed d' l c j := by
  induction l with
  | nil => cases h
  | cons a l ih =>
      rcases h with ⟨rfl, hj, hend⟩ | ⟨hend, h⟩
      · exact Or.inl ⟨rfl, hj, fun i hi => hd c List.mem_cons_self i (by omega) (hend i hi)⟩
      · refine Or.inr ⟨fun i hi => hd a List.mem_cons_self i hi (hend i hi), ih h ?_⟩
        exact fun c' hc' => hd c' (List.mem_cons_of_mem _ hc')

theorem Volume.listed_append {l₁ l₂ : List Nat}
    (h1 : ∀ c', c' ∈ l₁ → ∀ i, i < V.slots → (V.slot d c' i).isEnd = false) (hj : j < V.slots)
    (h2 : ∀ i, i ≤ j → (V.slot d c i).isEnd = false) : V.Listed d (l₁ ++ c :: l₂) c j := by
  induction l₁ with
  | nil => exact Or.inl ⟨rfl, hj, h2⟩
  | cons a l₁ ih =>
      exact Or.inr ⟨h1 a List.mem_cons_self, ih fun c' hc' => h1 c' (List.mem_cons_of_mem _ hc')⟩

theorem Volume.Listed.head (h : V.Listed d (c :: l) c j) (hc : c ∉ l) :
    ∀ i, i ≤ j → (V.slot d c i).isEnd = false := by
  rcases h with ⟨-, -, hend⟩ | ⟨-, h⟩
  · exact hend
  · exact absurd h.mem.1 hc

end listed

/-! ## Trees -/

/-- A reachable directory is the root or the first cluster of an entry that is a directory. -/
theorem Volume.IsDir.owner {V : Volume} {d : Disk} {root dir : Nat} (h : V.IsDir d root dir) :
    ∃ o, V.Owner d root o ∧ V.start d root o = dir ∧
      ∀ c j, o = some (c, j) → (V.slot d c j).isDirectory = true := by
  cases h with
  | root => exact ⟨none, trivial, rfl, fun c j h => by cases h⟩
  | @child dir c j hdir h hd =>
      refine ⟨some (c, j), ⟨dir, hdir, h⟩, rfl, fun c' j' he => ?_⟩
      cases he
      exact hd

namespace Tree

variable {V : Volume} {d : Disk} {root : Nat} (t : Tree V d root)

include t

theorem dirChain {dir : Nat} (h : V.IsDir d root dir) : ∃ l, V.Chain d dir l := by
  obtain ⟨o, ho, rfl, -⟩ := h.owner
  exact t.chains o ho (t.dirHas _ h)

theorem owner_unique {o o' : Option (Nat × Nat)} {x : Nat} (h : V.Owns d root o x)
    (h' : V.Owns d root o' x) : o = o' := by
  obtain ⟨l, hl, hx⟩ := h.2
  obtain ⟨o₁, -, hu⟩ := t.owned x (hl.has hx) (hl.fat_ne_zero hx)
  rw [hu o h, hu o' h']

/-- Different directories share no cluster. -/
theorem dir_eq {dir dir' x : Nat} {l l' : List Nat} (h : V.IsDir d root dir)
    (h' : V.IsDir d root dir') (hl : V.Chain d dir l) (hl' : V.Chain d dir' l') (hx : x ∈ l)
    (hx' : x ∈ l') : dir = dir' := by
  obtain ⟨o, ho, rfl, -⟩ := h.owner
  obtain ⟨o', ho', rfl, -⟩ := h'.owner
  rw [t.owner_unique ⟨ho, l, hl, hx⟩ ⟨ho', l', hl', hx'⟩]

/-- In a tree the entries of a directory are its live slots. -/
theorem entry_iff {dir c j : Nat} {l : List Nat} (h : V.IsDir d root dir) (hl : V.Chain d dir l) :
    V.Entry d dir c j ↔ c ∈ l ∧ j < V.slots ∧ (V.slot d c j).isLive = true := by
  constructor
  · rintro ⟨l', hl', hlist, hlive⟩
    rw [hl'.unique hl] at hlist
    exact ⟨hlist.mem.1, hlist.mem.2, hlive⟩
  · rintro ⟨hc, hj, hlive⟩
    exact ⟨l, hl, t.compact dir l h hl c hc j hj hlive, hlive⟩

/-- The dot slots of a directory below the root are taken. -/
theorem dots_taken {dir j : Nat} (h : V.IsDir d root dir) (hne : dir ≠ root) (hj : j < 2) :
    (V.slot d dir j).isFree = false := by
  cases h with
  | root => exact absurd rfl hne
  | child hdir hc hd => exact (t.dots _ _ _ hdir hc hd).taken j hj

end Tree

/-! ## Disks that hold the same tree -/

/-- The disks have the same FAT and the same slots in the clusters that are in use. -/
structure Agrees (V : Volume) (d d' : Disk) : Prop where
  fat : ∀ y, V.Has y → V.fat d' y = V.fat d y
  slot : ∀ c, V.Has c → V.fat d c ≠ 0 → ∀ j, j < V.slots → V.slot d' c j = V.slot d c j

namespace Agrees

variable {V : Volume} {d d' : Disk} {root : Nat} (h : Agrees V d d')

include h

theorem symm : Agrees V d' d where
  fat := fun y hy => (h.fat y hy).symm
  slot := by
    intro c hc h0 j hj
    rw [h.fat c hc] at h0
    exact (h.slot c hc h0 j hj).symm

theorem chain {y : Nat} {l : List Nat} (hl : V.Chain d y l) : V.Chain d' y l :=
  hl.congr_fat fun z hz => h.fat z (hl.has hz)

theorem slot_mem {y c j : Nat} {l : List Nat} (hl : V.Chain d y l) (hc : c ∈ l)
    (hj : j < V.slots) : V.slot d' c j = V.slot d c j :=
  h.slot c (hl.has hc) (hl.fat_ne_zero hc) j hj

theorem entry {dir c j : Nat} (he : V.Entry d dir c j) :
    V.Entry d' dir c j ∧ V.slot d' c j = V.slot d c j := by
  obtain ⟨l, hl, hlist, hlive⟩ := he
  have hs := h.slot_mem hl hlist.mem.1 hlist.mem.2
  refine ⟨⟨l, h.chain hl, hlist.mono fun c' hc' i hi hend => ?_, by rwa [hs]⟩, hs⟩
  rwa [h.slot_mem hl hc' hi]

theorem isDir {dir : Nat} (hd : V.IsDir d root dir) : V.IsDir d' root dir := by
  induction hd with
  | root => exact .root
  | child _ hc hdirectory ih =>
      obtain ⟨he, hs⟩ := h.entry hc.1
      rw [← hs] at hdirectory ⊢
      exact .child ih ⟨he, hc.2⟩ hdirectory

theorem owner {o : Option (Nat × Nat)} (ho : V.Owner d root o) :
    V.Owner d' root o ∧ V.start d' root o = V.start d root o := by
  rcases o with _ | ⟨c, j⟩
  · exact ⟨trivial, rfl⟩
  · obtain ⟨dir, hdir, hc⟩ := ho
    obtain ⟨he, hs⟩ := h.entry hc.1
    refine ⟨⟨dir, h.isDir hdir, he, hc.2⟩, ?_⟩
    rw [Volume.start_some, Volume.start_some, hs]

theorem owns {o : Option (Nat × Nat)} {x : Nat} (ho : V.Owns d root o x) :
    V.Owns d' root o x := by
  obtain ⟨ho, l, hl, hx⟩ := ho
  obtain ⟨ho', hs⟩ := h.owner ho
  exact ⟨ho', l, by rw [hs]; exact h.chain hl, hx⟩

end Agrees

/-- The tree depends only on what is in use. -/
theorem Tree.congr {V : Volume} {d d' : Disk} {root : Nat} (t : Tree V d root)
    (h : Agrees V d d') : Tree V d' root where
  dirHas := fun dir hd => t.dirHas dir (h.symm.isDir hd)
  chains := by
    intro o ho hhas
    obtain ⟨ho', hs⟩ := h.symm.owner ho
    rw [← hs] at hhas ⊢
    obtain ⟨l, hl⟩ := t.chains o ho' hhas
    exact ⟨l, h.chain hl⟩
  compact := by
    intro dir l hd hl c hc j hj hlive
    rw [← h.symm.slot_mem hl hc hj] at hlive
    refine (t.compact dir l (h.symm.isDir hd) (h.symm.chain hl) c hc j hj hlive).mono
      fun c' hc' i hi hend => ?_
    rwa [← h.symm.slot_mem hl hc' hi]
  dots := by
    intro dir c j hd hc hdirectory
    obtain ⟨he, hs⟩ := h.symm.entry hc.1
    rw [← hs] at hdirectory ⊢
    have hdir := h.symm.isDir hd
    have hchild : V.Child d root dir c j := ⟨he, hc.2⟩
    obtain ⟨l, hl⟩ := t.dirChain (.child hdir hchild hdirectory)
    have hslots := V.two_lt_slots
    have hslot := fun i (hi : i < 2) =>
      h.slot_mem hl hl.head_mem (show i < V.slots by omega)
    exact (t.dots dir c j hdir hchild hdirectory).congr hslot
  owned := by
    intro x hx h0
    rw [h.fat x hx] at h0
    obtain ⟨o, ho, hu⟩ := t.owned x hx h0
    exact ⟨o, h.owns ho, fun o' ho' => hu o' (h.symm.owns ho')⟩

/-! ## Adding an entry -/

/-- The disk `d'` is `d` with a new entry `x` in the directory `cwd`: a free cluster `r` has
become a chain of its own, and `x`, which names it, has been put into the first free slot of the
directory. If `x` is a directory, cluster `r` holds its dot entries. -/
structure Creates (V : Volume) (d d' : Disk) (cwd : Nat) (l₁ l₂ : List Nat) (r c₀ j₀ : Nat)
    (x : DirEntry) : Prop where
  has : V.Has r
  free : V.fat d r = 0
  fat : ∀ y, V.Has y → V.fat d' y = if y = r then eocMax else V.fat d y
  chain : V.Chain d cwd (l₁ ++ c₀ :: l₂)
  lt : j₀ < V.slots
  wasFree : (V.slot d c₀ j₀).isFree = true
  before : ∀ c, c ∈ l₁ → ∀ j, j < V.slots → (V.slot d c j).isFree = false
  first : ∀ j, j < j₀ → (V.slot d c₀ j).isFree = false
  slot : ∀ c, V.Has c → c ≠ r → ∀ j, j < V.slots →
    V.slot d' c j = if c = c₀ ∧ j = j₀ then x else V.slot d c j
  live : x.isLive = true
  start : readStartCluster x = r
  dots : x.isDirectory = true →
    V.Dots d' r cwd ∧ ∀ j, 2 ≤ j → j < V.slots → (V.slot d' r j).isEnd = true

namespace Creates

variable {V : Volume} {d d' : Disk} {root cwd r c₀ j₀ : Nat} {l₁ l₂ : List Nat} {x : DirEntry}
  (h : Creates V d d' cwd l₁ l₂ r c₀ j₀ x)

include h

theorem not_mem {y : Nat} {l : List Nat} (hl : V.Chain d y l) : r ∉ l :=
  fun hr => hl.fat_ne_zero hr h.free

theorem chain_old {y : Nat} {l : List Nat} (hl : V.Chain d y l) : V.Chain d' y l := by
  refine hl.congr_fat fun z hz => ?_
  rw [h.fat z (hl.has hz), if_neg]
  rintro rfl
  exact h.not_mem hl hz

theorem chain_new : V.Chain d' r [r] := by
  refine .last ?_
  unfold Volume.link
  rw [if_pos h.has, h.fat r h.has, if_pos rfl, if_pos (by decide)]

/-- The slots of a chain, other than the one that was filled. -/
theorem slot_old {y c j : Nat} {l : List Nat} (hl : V.Chain d y l) (hc : c ∈ l)
    (hj : j < V.slots) (hne : ¬ (c = c₀ ∧ j = j₀)) : V.slot d' c j = V.slot d c j := by
  rw [h.slot c (hl.has hc) (fun hr => h.not_mem hl (hr ▸ hc)) j hj, if_neg hne]

theorem has_c₀ : V.Has c₀ := h.chain.has (by simp)

theorem slot_new : V.slot d' c₀ j₀ = x := by
  rw [h.slot c₀ h.has_c₀ (fun hr => h.not_mem h.chain (hr ▸ by simp)) j₀ h.lt, if_pos ⟨rfl, rfl⟩]

theorem ne_of_not_free {c j : Nat} (hf : (V.slot d c j).isFree = false) :
    ¬ (c = c₀ ∧ j = j₀) := by
  rintro ⟨rfl, rfl⟩
  rw [h.wasFree] at hf
  cases hf

theorem listed_old {y c j : Nat} {l : List Nat} (hl : V.Chain d y l) (hlist : V.Listed d l c j) :
    V.Listed d' l c j := by
  refine hlist.mono fun c' hc' i hi hend => ?_
  by_cases hne : c' = c₀ ∧ i = j₀
  · obtain ⟨rfl, rfl⟩ := hne
    rw [h.slot_new]
    exact (DirEntry.isLive_iff.mp h.live).1
  · rwa [h.slot_old hl hc' hi hne]

theorem listed_new : V.Listed d' (l₁ ++ c₀ :: l₂) c₀ j₀ := by
  have hend : ∀ x : DirEntry, x.isFree = false → x.isEnd = false := by
    intro x hx
    unfold DirEntry.isFree at hx
    exact (Bool.or_eq_false_iff.mp hx).1
  refine Volume.listed_append (fun c' hc' i hi => ?_) h.lt fun i hi => ?_
  · have hf := h.before c' hc' i hi
    rw [h.slot_old h.chain (by simp [hc']) hi (h.ne_of_not_free hf)]
    exact hend _ hf
  · rcases Nat.lt_or_eq_of_le hi with hi | rfl
    · have hf := h.first i hi
      rw [h.slot_old h.chain (by simp) (by have := h.lt; omega) (h.ne_of_not_free hf)]
      exact hend _ hf
    · rw [h.slot_new]
      exact (DirEntry.isLive_iff.mp h.live).1

theorem entry_old {dir c j : Nat} (he : V.Entry d dir c j) :
    V.Entry d' dir c j ∧ V.slot d' c j = V.slot d c j := by
  obtain ⟨l, hl, hlist, hlive⟩ := he
  have hs : V.slot d' c j = V.slot d c j := h.slot_old hl hlist.mem.1 hlist.mem.2
    (h.ne_of_not_free (DirEntry.not_isFree_of_isLive hlive))
  exact ⟨⟨l, h.chain_old hl, h.listed_old hl hlist, by rwa [hs]⟩, hs⟩

theorem isDir_old {dir : Nat} (hd : V.IsDir d root dir) : V.IsDir d' root dir := by
  induction hd with
  | root => exact .root
  | child _ hc hd ih =>
      obtain ⟨he, hs⟩ := h.entry_old hc.1
      rw [← hs] at hd ⊢
      exact .child ih ⟨he, hc.2⟩ hd

/-- An entry of a directory that was there before: an old entry or the new one. -/
theorem entry_cases (t : Tree V d root) {dir c j : Nat} (hd : V.IsDir d root dir)
    (he : V.Entry d' dir c j) :
    (V.Entry d dir c j ∧ V.slot d' c j = V.slot d c j) ∨ (c = c₀ ∧ j = j₀) := by
  obtain ⟨l, hl⟩ := t.dirChain hd
  obtain ⟨l', hl', hlist, hlive⟩ := he
  rw [hl'.unique (h.chain_old hl)] at hlist
  by_cases hne : c = c₀ ∧ j = j₀
  · exact Or.inr hne
  · have hs := h.slot_old hl hlist.mem.1 hlist.mem.2 hne
    rw [hs] at hlive
    exact Or.inl ⟨(t.entry_iff hd hl).mpr ⟨hlist.mem.1, hlist.mem.2, hlive⟩, hs⟩

/-- The new directory has nothing but its dot entries. -/
theorem not_child_new (hx : x.isDirectory = true) (hne : r ≠ root) {c j : Nat} :
    ¬ V.Child d' root r c j := by
  rintro ⟨⟨l, hl, hlist, hlive⟩, hdot⟩
  rw [hl.unique h.chain_new] at hlist
  obtain ⟨hc, hj⟩ := hlist.mem
  rw [List.mem_singleton] at hc
  subst hc
  refine hdot ⟨hne, rfl, ?_⟩
  by_contra hge
  have := (h.dots hx).2 j (by omega) hj
  rw [(DirEntry.isLive_iff.mp hlive).1] at this
  cases this

theorem ne_dir (t : Tree V d root) {dir : Nat} (hd : V.IsDir d root dir) : r ≠ dir := by
  rintro rfl
  obtain ⟨l, hl⟩ := t.dirChain hd
  exact h.not_mem hl hl.head_mem

theorem isDir_cases (t : Tree V d root) {dir : Nat} (hd : V.IsDir d' root dir) :
    V.IsDir d root dir ∨ (dir = r ∧ x.isDirectory = true) := by
  induction hd with
  | root => exact Or.inl .root
  | @child dir c j _ hc hd ih =>
      rcases ih with hdir | ⟨rfl, hx⟩
      · rcases h.entry_cases t hdir hc.1 with ⟨he, hs⟩ | ⟨rfl, rfl⟩
        · rw [hs] at hd ⊢
          exact Or.inl (.child hdir ⟨he, hc.2⟩ hd)
        · rw [h.slot_new] at hd ⊢
          exact Or.inr ⟨h.start, hd⟩
      · exact absurd hc (h.not_child_new hx (h.ne_dir t .root))

theorem owner_old {o : Option (Nat × Nat)} (ho : V.Owner d root o) :
    V.Owner d' root o ∧ V.start d' root o = V.start d root o := by
  rcases o with _ | ⟨c, j⟩
  · exact ⟨trivial, rfl⟩
  · obtain ⟨dir, hdir, hc⟩ := ho
    obtain ⟨he, hs⟩ := h.entry_old hc.1
    refine ⟨⟨dir, h.isDir_old hdir, he, hc.2⟩, ?_⟩
    rw [Volume.start_some, Volume.start_some, hs]

theorem child_new (t : Tree V d root) (hcwd : V.IsDir d root cwd) :
    V.Child d' root cwd c₀ j₀ := by
  refine ⟨⟨_, h.chain_old h.chain, h.listed_new, by rw [h.slot_new]; exact h.live⟩, ?_⟩
  rintro ⟨hne, rfl, hj⟩
  have := t.dots_taken hcwd hne hj
  rw [h.wasFree] at this
  cases this

theorem owner_cases (t : Tree V d root) {o : Option (Nat × Nat)} (ho : V.Owner d' root o) :
    V.Owner d root o ∨ o = some (c₀, j₀) := by
  rcases o with _ | ⟨c, j⟩
  · exact Or.inl trivial
  · obtain ⟨dir, hdir, hc⟩ := ho
    rcases h.isDir_cases t hdir with hdir | ⟨rfl, hx⟩
    · rcases h.entry_cases t hdir hc.1 with ⟨he, -⟩ | ⟨rfl, rfl⟩
      · exact Or.inl ⟨dir, hdir, he, hc.2⟩
      · exact Or.inr rfl
    · exact absurd hc (h.not_child_new hx (h.ne_dir t .root))

theorem start_new : V.start d' root (some (c₀, j₀)) = r := by
  rw [Volume.start_some, h.slot_new, h.start]

/-- The chain of an old owner is its old chain. -/
theorem owns_old (t : Tree V d root) {o : Option (Nat × Nat)} {y : Nat} (ho : V.Owner d root o)
    (hy : V.Owns d' root o y) : V.Owns d root o y := by
  obtain ⟨-, l', hl', hmem⟩ := hy
  have hs := (h.owner_old ho).2
  have hhas := hl'.has hl'.head_mem
  rw [hs] at hl' hhas
  obtain ⟨l, hl⟩ := t.chains o ho hhas
  rw [hl'.unique (h.chain_old hl)] at hmem
  exact ⟨ho, l, hl, hmem⟩

theorem owned (t : Tree V d root) (hcwd : V.IsDir d root cwd) : V.Owned d' root := by
  have hnew : V.Owner d' root (some (c₀, j₀)) := ⟨cwd, h.isDir_old hcwd, h.child_new t hcwd⟩
  intro y hy h0
  by_cases hyr : y = r
  · subst hyr
    refine ⟨some (c₀, j₀), ⟨hnew, [y], by rw [h.start_new]; exact h.chain_new,
      List.mem_singleton_self y⟩, fun o ho => ?_⟩
    rcases h.owner_cases t ho.1 with hold | rfl
    · obtain ⟨-, l, hl, hmem⟩ := h.owns_old t hold ho
      exact absurd hmem (h.not_mem hl)
    · rfl
  · rw [h.fat y hy, if_neg hyr] at h0
    obtain ⟨o, ⟨ho, l, hl, hmem⟩, hu⟩ := t.owned y hy h0
    obtain ⟨ho', hs⟩ := h.owner_old ho
    refine ⟨o, ⟨ho', l, by rw [hs]; exact h.chain_old hl, hmem⟩, fun o' ho' => ?_⟩
    rcases h.owner_cases t ho'.1 with hold | rfl
    · exact hu o' (h.owns_old t hold ho')
    · obtain ⟨-, l', hl', hmem'⟩ := ho'
      rw [h.start_new] at hl'
      rw [hl'.unique h.chain_new, List.mem_singleton] at hmem'
      exact absurd hmem' hyr

end Creates

/-- **Adding an entry** to a directory of the tree makes a tree. -/
theorem Tree.create {V : Volume} {d d' : Disk} {root cwd r c₀ j₀ : Nat} {l₁ l₂ : List Nat}
    {x : DirEntry} (t : Tree V d root) (hcwd : V.IsDir d root cwd)
    (h : Creates V d d' cwd l₁ l₂ r c₀ j₀ x) : Tree V d' root where
  dirHas := by
    intro dir hd
    rcases h.isDir_cases t hd with hd | ⟨rfl, -⟩
    · exact t.dirHas dir hd
    · exact h.has
  chains := by
    intro o ho hhas
    rcases h.owner_cases t ho with hold | rfl
    · rw [(h.owner_old hold).2] at hhas ⊢
      obtain ⟨l, hl⟩ := t.chains o hold hhas
      exact ⟨l, h.chain_old hl⟩
    · rw [h.start_new]
      exact ⟨[r], h.chain_new⟩
  compact := by
    intro dir l hd hl c hc j hj hlive
    rcases h.isDir_cases t hd with hd | ⟨rfl, hx⟩
    · obtain ⟨l', hl'⟩ := t.dirChain hd
      rw [hl.unique (h.chain_old hl')] at hc ⊢
      by_cases hne : c = c₀ ∧ j = j₀
      · -- the slot that was filled is a slot of `cwd` only
        obtain ⟨rfl, rfl⟩ := hne
        have hdir := t.dir_eq hd hcwd hl' h.chain hc (by simp)
        subst hdir
        rw [hl'.unique h.chain]
        exact h.listed_new
      · rw [h.slot_old hl' hc hj hne] at hlive
        exact h.listed_old hl' (t.compact dir l' hd hl' c hc j hj hlive)
    · rw [hl.unique h.chain_new] at hc ⊢
      rw [List.mem_singleton] at hc
      subst hc
      have hj2 : j < 2 := by
        by_contra hge
        have := (h.dots hx).2 j (by omega) hj
        rw [(DirEntry.isLive_iff.mp hlive).1] at this
        cases this
      refine Or.inl ⟨rfl, hj, fun i hi => ?_⟩
      have := (h.dots hx).1.taken i (by omega)
      exact (Bool.or_eq_false_iff.mp this).1
  dots := by
    intro dir c j hd hc hdirectory
    rcases h.isDir_cases t hd with hd | ⟨rfl, hx⟩
    · rcases h.entry_cases t hd hc.1 with ⟨he, hs⟩ | ⟨rfl, rfl⟩
      · rw [hs] at hdirectory ⊢
        have hchild : V.Child d root dir c j := ⟨he, hc.2⟩
        have hsub := Volume.IsDir.child hd hchild hdirectory
        obtain ⟨l, hl⟩ := t.dirChain hsub
        have hdots := t.dots dir c j hd hchild hdirectory
        have hslots := V.two_lt_slots
        have hslot : ∀ i, i < 2 → V.slot d' (readStartCluster (V.slot d c j)) i
            = V.slot d (readStartCluster (V.slot d c j)) i := fun i hi =>
          h.slot_old hl hl.head_mem (by omega) (h.ne_of_not_free (hdots.taken i hi))
        exact hdots.congr hslot
      · rw [h.slot_new] at hdirectory ⊢
        obtain ⟨l, hl⟩ := t.dirChain hd
        obtain ⟨l', hl', hlist, -⟩ := hc.1
        rw [hl'.unique (h.chain_old hl)] at hlist
        have hdir := t.dir_eq hd hcwd hl h.chain hlist.mem.1 (by simp)
        subst hdir
        rw [h.start]
        exact (h.dots hdirectory).1
    · exact absurd hc (h.not_child_new hx (h.ne_dir t .root))
  owned := h.owned t hcwd

/-! ## Taking an entry away -/

/-- The disk `d'` is `d` without the entry at slot `j₀` of the first cluster of the directory
`cwd`: its chain `lo` has been freed and the slot made an end marker. Nothing in the directory
lies behind the slot, and if the entry was a directory, it had no entries. -/
structure Removes (V : Volume) (d d' : Disk) (root cwd j₀ : Nat) (lo : List Nat) : Prop where
  child : V.Child d root cwd cwd j₀
  chain : V.Chain d (readStartCluster (V.slot d cwd j₀)) lo
  fat : ∀ y, V.Has y → V.fat d' y = if y ∈ lo then 0 else V.fat d y
  slot : ∀ c, V.Has c → ∀ j, j < V.slots →
    V.slot d' c j = if c = cwd ∧ j = j₀ then zeroEntry else V.slot d c j
  behind : ∀ c i, V.Entry d cwd c i → c = cwd ∧ i ≤ j₀
  empty : (V.slot d cwd j₀).isDirectory = true →
    ∀ c i, ¬ V.Child d root (readStartCluster (V.slot d cwd j₀)) c i

namespace Removes

variable {V : Volume} {d d' : Disk} {root cwd j₀ : Nat} {lo : List Nat}
  (h : Removes V d d' root cwd j₀ lo) (t : Tree V d root) (hcwd : V.IsDir d root cwd)

include h t hcwd

omit t in
theorem owns_removed {y : Nat} (hy : y ∈ lo) : V.Owns d root (some (cwd, j₀)) y :=
  ⟨⟨cwd, hcwd, h.child⟩, lo, h.chain, hy⟩

/-- The chains of the other owners stay. -/
theorem not_mem {o : Option (Nat × Nat)} {l : List Nat} {y : Nat} (ho : V.Owner d root o)
    (hne : o ≠ some (cwd, j₀)) (hl : V.Chain d (V.start d root o) l) (hy : y ∈ l) : y ∉ lo :=
  fun hlo => hne (t.owner_unique ⟨ho, l, hl, hy⟩ (h.owns_removed hcwd hlo))

theorem chain_kept {o : Option (Nat × Nat)} {l : List Nat} (ho : V.Owner d root o)
    (hne : o ≠ some (cwd, j₀)) (hl : V.Chain d (V.start d root o) l) :
    V.Chain d' (V.start d root o) l := by
  refine hl.congr_fat fun y hy => ?_
  rw [h.fat y (hl.has hy), if_neg (h.not_mem t hcwd ho hne hl hy)]

theorem dirChain_kept {dir : Nat} {l : List Nat} (hd : V.IsDir d root dir)
    (hne : dir ≠ readStartCluster (V.slot d cwd j₀)) (hl : V.Chain d dir l) :
    V.Chain d' dir l := by
  obtain ⟨o, ho, rfl, -⟩ := hd.owner
  refine h.chain_kept t hcwd ho ?_ hl
  rintro rfl
  exact hne rfl

/-- A directory with an entry is not the one that has been removed. -/
theorem ne_of_child {dir c j : Nat} (hd : V.IsDir d root dir) (hc : V.Child d root dir c j) :
    dir ≠ readStartCluster (V.slot d cwd j₀) := by
  intro heq
  obtain ⟨o, ho, hstart, hdirectory⟩ := hd.owner
  obtain ⟨l, hl⟩ := t.dirChain hd
  rw [← hstart] at hl
  have hmem : V.start d root o ∈ lo := by
    rw [hstart, heq]
    exact h.chain.head_mem
  have ho' := t.owner_unique ⟨ho, l, hl, hl.head_mem⟩ (h.owns_removed hcwd hmem)
  subst ho'
  subst heq
  exact h.empty (hdirectory cwd j₀ rfl) c j hc

theorem cwd_ne : cwd ≠ readStartCluster (V.slot d cwd j₀) := h.ne_of_child t hcwd hcwd h.child

theorem entry_kept {dir c j : Nat} (hd : V.IsDir d root dir)
    (hne : dir ≠ readStartCluster (V.slot d cwd j₀)) (hnot : ¬ (c = cwd ∧ j = j₀))
    (he : V.Entry d dir c j) : V.Entry d' dir c j ∧ V.slot d' c j = V.slot d c j := by
  obtain ⟨l, hl, hlist, hlive⟩ := he
  obtain ⟨hc, hj⟩ := hlist.mem
  have hs : V.slot d' c j = V.slot d c j := by
    rw [h.slot c (hl.has hc) j hj, if_neg hnot]
  refine ⟨⟨l, h.dirChain_kept t hcwd hd hne hl, ?_, by rwa [hs]⟩, hs⟩
  by_cases hdir : dir = cwd
  · -- in the directory itself, what is left lies before the slot
    subst hdir
    obtain ⟨rfl, hle⟩ := h.behind c j ⟨l, hl, hlist, hlive⟩
    obtain ⟨l', rfl⟩ := hl.eq_cons
    have hend := hlist.head (List.nodup_cons.mp hl.nodup).1
    refine Or.inl ⟨rfl, hj, fun i hi => ?_⟩
    rw [h.slot c (hl.has hc) i (by omega), if_neg (by omega)]
    exact hend i hi
  · refine hlist.mono fun c' hc' i hi hend => ?_
    rw [h.slot c' (hl.has hc') i hi, if_neg]
    · exact hend
    · rintro ⟨rfl, rfl⟩
      obtain ⟨l', hl'⟩ := t.dirChain hcwd
      exact hdir (t.dir_eq hd hcwd hl hl' hc' hl'.head_mem)

theorem entry_back {dir c j : Nat} (hd : V.IsDir d root dir)
    (hne : dir ≠ readStartCluster (V.slot d cwd j₀)) (he : V.Entry d' dir c j) :
    V.Entry d dir c j ∧ V.slot d' c j = V.slot d c j ∧ ¬ (c = cwd ∧ j = j₀) := by
  obtain ⟨l, hl⟩ := t.dirChain hd
  obtain ⟨l', hl', hlist, hlive⟩ := he
  rw [hl'.unique (h.dirChain_kept t hcwd hd hne hl)] at hlist
  obtain ⟨hc, hj⟩ := hlist.mem
  have hnot : ¬ (c = cwd ∧ j = j₀) := by
    intro hcj
    rw [h.slot c (hl.has hc) j hj, if_pos hcj] at hlive
    cases hlive
  have hs : V.slot d' c j = V.slot d c j := by
    rw [h.slot c (hl.has hc) j hj, if_neg hnot]
  rw [hs] at hlive
  exact ⟨(t.entry_iff hd hl).mpr ⟨hc, hj, hlive⟩, hs, hnot⟩

theorem isDir_back {dir : Nat} (hd : V.IsDir d' root dir) :
    V.IsDir d root dir ∧ dir ≠ readStartCluster (V.slot d cwd j₀) := by
  -- a first cluster that is not that of the removed entry
  have hstart : ∀ o, V.Owner d root o → V.Has (V.start d root o) → o ≠ some (cwd, j₀) →
      V.start d root o ≠ readStartCluster (V.slot d cwd j₀) := by
    intro o ho hhas hne heq
    obtain ⟨l, hl⟩ := t.chains o ho hhas
    refine h.not_mem t hcwd ho hne hl hl.head_mem ?_
    rw [heq]
    exact h.chain.head_mem
  induction hd with
  | root => exact ⟨.root, hstart none trivial (t.dirHas _ .root) (by simp)⟩
  | @child dir c j _ hc hdirectory ih =>
      obtain ⟨hdir, hne⟩ := ih
      obtain ⟨he, hs, hnot⟩ := h.entry_back t hcwd hdir hne hc.1
      rw [hs] at hdirectory ⊢
      have hchild : V.Child d root dir c j := ⟨he, hc.2⟩
      have hsub := Volume.IsDir.child hdir hchild hdirectory
      refine ⟨hsub, hstart (some (c, j)) ⟨dir, hdir, hchild⟩ (t.dirHas _ hsub) ?_⟩
      rw [ne_eq, Option.some.injEq, Prod.mk.injEq]
      exact hnot

theorem isDir_kept {dir : Nat} (hd : V.IsDir d root dir)
    (hne : dir ≠ readStartCluster (V.slot d cwd j₀)) : V.IsDir d' root dir := by
  induction hd with
  | root => exact .root
  | @child dir c j hdir hc hdirectory ih =>
      have hnedir := h.ne_of_child t hcwd hdir hc
      have hnot : ¬ (c = cwd ∧ j = j₀) := by
        rintro ⟨rfl, rfl⟩
        exact hne rfl
      obtain ⟨he, hs⟩ := h.entry_kept t hcwd hdir hnedir hnot hc.1
      rw [← hs] at hdirectory ⊢
      exact .child (ih hnedir) ⟨he, hc.2⟩ hdirectory

theorem owner_kept {o : Option (Nat × Nat)} (ho : V.Owner d root o) (hne : o ≠ some (cwd, j₀)) :
    V.Owner d' root o ∧ V.start d' root o = V.start d root o := by
  rcases o with _ | ⟨c, j⟩
  · exact ⟨trivial, rfl⟩
  · obtain ⟨dir, hdir, hc⟩ := ho
    have hnedir := h.ne_of_child t hcwd hdir hc
    have hnot : ¬ (c = cwd ∧ j = j₀) := by
      rintro ⟨rfl, rfl⟩
      exact hne rfl
    obtain ⟨he, hs⟩ := h.entry_kept t hcwd hdir hnedir hnot hc.1
    refine ⟨⟨dir, h.isDir_kept t hcwd hdir hnedir, he, hc.2⟩, ?_⟩
    rw [Volume.start_some, Volume.start_some, hs]

theorem owner_back {o : Option (Nat × Nat)} (ho : V.Owner d' root o) :
    V.Owner d root o ∧ o ≠ some (cwd, j₀) := by
  rcases o with _ | ⟨c, j⟩
  · exact ⟨trivial, by simp⟩
  · obtain ⟨dir, hdir, hc⟩ := ho
    obtain ⟨hdir, hne⟩ := h.isDir_back t hcwd hdir
    obtain ⟨he, -, hnot⟩ := h.entry_back t hcwd hdir hne hc.1
    refine ⟨⟨dir, hdir, he, hc.2⟩, ?_⟩
    rw [ne_eq, Option.some.injEq, Prod.mk.injEq]
    exact hnot

theorem owned : V.Owned d' root := by
  intro y hy h0
  rw [h.fat y hy] at h0
  have hlo : y ∉ lo := fun hlo => h0 (if_pos hlo)
  rw [if_neg hlo] at h0
  obtain ⟨o, ⟨ho, l, hl, hmem⟩, hu⟩ := t.owned y hy h0
  have hne : o ≠ some (cwd, j₀) := by
    rintro rfl
    rw [hl.unique h.chain] at hmem
    exact hlo hmem
  obtain ⟨ho', hs⟩ := h.owner_kept t hcwd ho hne
  refine ⟨o, ⟨ho', l, by rw [hs]; exact h.chain_kept t hcwd ho hne hl, hmem⟩, fun o₂ ho₂ => ?_⟩
  obtain ⟨hback, hne₂⟩ := h.owner_back t hcwd ho₂.1
  obtain ⟨-, l₂, hl₂, hmem₂⟩ := ho₂
  have hhas := hl₂.has hl₂.head_mem
  rw [(h.owner_kept t hcwd hback hne₂).2] at hl₂ hhas
  obtain ⟨l', hl'⟩ := t.chains o₂ hback hhas
  rw [hl₂.unique (h.chain_kept t hcwd hback hne₂ hl')] at hmem₂
  exact hu o₂ ⟨hback, l', hl', hmem₂⟩

end Removes

/-- **Taking an entry away** leaves a tree. -/
theorem Tree.remove {V : Volume} {d d' : Disk} {root cwd j₀ : Nat} {lo : List Nat}
    (t : Tree V d root) (hcwd : V.IsDir d root cwd) (h : Removes V d d' root cwd j₀ lo) :
    Tree V d' root where
  dirHas := fun dir hd => t.dirHas dir (h.isDir_back t hcwd hd).1
  chains := by
    intro o ho hhas
    obtain ⟨hback, hne⟩ := h.owner_back t hcwd ho
    rw [(h.owner_kept t hcwd hback hne).2] at hhas ⊢
    obtain ⟨l, hl⟩ := t.chains o hback hhas
    exact ⟨l, h.chain_kept t hcwd hback hne hl⟩
  compact := by
    intro dir l hd hl c hc j hj hlive
    obtain ⟨hd, hne⟩ := h.isDir_back t hcwd hd
    obtain ⟨l', hl'⟩ := t.dirChain hd
    have hkept := h.dirChain_kept t hcwd hd hne hl'
    rw [hl.unique hkept] at hc ⊢
    have hnot : ¬ (c = cwd ∧ j = j₀) := by
      intro hcj
      rw [h.slot c (hl'.has hc) j hj, if_pos hcj] at hlive
      cases hlive
    rw [h.slot c (hl'.has hc) j hj, if_neg hnot] at hlive
    have he := (t.entry_iff hd hl').mpr ⟨hc, hj, hlive⟩
    obtain ⟨⟨l₂, hl₂, hlist, -⟩, -⟩ := h.entry_kept t hcwd hd hne hnot he
    rwa [hl₂.unique hkept] at hlist
  dots := by
    intro dir c j hd hc hdirectory
    obtain ⟨hd, hne⟩ := h.isDir_back t hcwd hd
    obtain ⟨he, hs, -⟩ := h.entry_back t hcwd hd hne hc.1
    rw [hs] at hdirectory ⊢
    have hchild : V.Child d root dir c j := ⟨he, hc.2⟩
    have hsub := Volume.IsDir.child hd hchild hdirectory
    have hslots := V.two_lt_slots
    -- the slot that was emptied is not a dot slot
    have hnotroot : readStartCluster (V.slot d c j) ≠ root := by
      intro heq
      obtain ⟨l, hl⟩ := t.dirChain hsub
      have h1 : V.Owns d root (some (c, j)) root := ⟨⟨dir, hd, hchild⟩, l, hl, heq ▸ hl.head_mem⟩
      have h2 : V.Owns d root none root := ⟨trivial, l, heq ▸ hl, heq ▸ hl.head_mem⟩
      cases t.owner_unique h1 h2
    have hslot : ∀ i, i < 2 → V.slot d' (readStartCluster (V.slot d c j)) i
        = V.slot d (readStartCluster (V.slot d c j)) i := by
      intro i hi
      rw [h.slot _ (t.dirHas _ hsub) i (by omega), if_neg]
      rintro ⟨heq, rfl⟩
      exact h.child.2 ⟨heq ▸ hnotroot, rfl, hi⟩
    exact (t.dots dir c j hd hchild hdirectory).congr hslot
  owned := h.owned t hcwd

end MicroKernel.Fat32
