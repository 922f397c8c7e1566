import MicroKernel.Fat32.Chain

set_option autoImplicit false

/-! # Directories that are full

`add_entry_to_directory` has a branch that makes a full directory one cluster longer. It is
entered when `is_end_of_cluster_chain` accepts the answer of `get_next_cluster_in_chain`, and
that function answers the end of a chain with `INVALID_CLUSTER`, which
`is_end_of_cluster_chain` rejects. So no directory ever grows: on every full directory the
function returns false and changes nothing.
-/

namespace MicroKernel.Fat32

open MicroKernel.Lib Bytes

/-- What growing means: the chain `l` of the directory has become one cluster longer, the new
cluster was free before and holds the entry `x` and empty slots, and nothing else has changed. -/
structure Grown (V : Volume) (d d' : Disk) (parent : Nat) (l : List Nat) (x : DirEntry)
    (r : Nat) : Prop where
  has : V.Has r
  free : V.fat d r = 0
  chain : V.Chain d' parent (l ++ [r])
  first : V.slot d' r 0 = x
  empty : ∀ j, 0 < j → j < V.slots → (V.slot d' r j).isEnd = true
  kept : ∀ c, c ∈ l → ∀ j, j < V.slots → V.slot d' c j = V.slot d c j
  others : ∀ c l', V.Chain d c l' → List.Disjoint l l' → V.Chain d' c l'

/-- `add_entry_to_directory` makes the full directory with the chain `l` longer. -/
def Grows (V : Volume) (e : Env) (s : Fs) (parent : Nat) (l : List Nat) (nm : List UInt8)
    (cluster : Nat) (attributes : UInt8) : Prop :=
  ∃ s' r, (addEntryToDirectory parent nm cluster attributes).run e s = some (true, s') ∧
    Grown V s.disk s'.disk parent l (e.newEntry nm cluster attributes) r

/-- A directory with the chain `l` that has no free slot, on a volume with a free cluster. -/
structure FullDirectory (V : Volume) (d : Disk) (parent : Nat) (l : List Nat) : Prop where
  chain : V.Chain d parent l
  full : ∀ c, c ∈ l → ∀ j, j < V.slots → (V.slot d c j).isFree = false
  room : ∃ r, V.Has r ∧ V.fat d r = 0

variable {V : Volume} {s : Fs} {e : Env} {parent : Nat} {l : List Nat}

/-- On a full directory `add_entry_to_directory` returns false and changes nothing. -/
theorem run_addEntryToDirectory_full (he : e.Reliable) (h : s.On V)
    (hd : FullDirectory V s.disk parent l) (nm : List UInt8) (cluster : Nat) (attributes : UInt8) :
    (addEntryToDirectory parent nm cluster attributes).run e s = some (false, s) := by
  unfold addEntryToDirectory
  rw [Prog.run_bind, run_createDirectoryEntry, Option.bind_some, Prog.run_bind, run_uninitialised,
    Option.bind_some]
  rw [run_addEntryLoop e h _ _ hd.chain hd.chain.length_lt, insertion_full he _ hd.full]
  rfl

/-- **No directory grows**, whatever its chain, its entries and the volume are. -/
theorem not_grows (he : e.Reliable) (h : s.On V) (hd : FullDirectory V s.disk parent l)
    (nm : List UInt8) (cluster : Nat) (attributes : UInt8) :
    ¬ Grows V e s parent l nm cluster attributes := by
  rintro ⟨s', r, hr, -⟩
  rw [run_addEntryToDirectory_full he h hd, Option.some.injEq, Prod.mk.injEq] at hr
  cases hr.1

/-! ## A full root directory -/

/-- The entry of a file with a name of eleven letters A. -/
def plainEntry : DirEntry := fun i => if i < 11 then 0x41 else 0

/-- The small volume with a root whose 16 slots are all taken. Clusters 3 to 7 are free. -/
def fullRootFs : Fs :=
  smallFs (fun c => if c = 2 then eocMax else 0) (fun _ _ => plainEntry) (fun _ => 0)

theorem fullRootFs_fullDirectory : FullDirectory smallVolume fullRootFs.disk 2 [2] where
  chain := .last (by decide)
  full := by
    intro c hc j hj
    rw [List.mem_singleton] at hc
    subst hc
    rw [fullRootFs, smallFs_disk, smallVolume.slot_image _ _ _ (Nat.le_refl 2) hj]
    decide
  room := ⟨3, by decide, by decide⟩

theorem not_grows_fullRoot : FullDirectory smallVolume fullRootFs.disk 2 [2] ∧
    ¬ Grows smallVolume quietEnv fullRootFs 2 [2] [0x42] 3 0 :=
  ⟨fullRootFs_fullDirectory, not_grows quietEnv_reliable (smallFs_ready _ _ _).on
    fullRootFs_fullDirectory [0x42] 3 0⟩

/-- The claim that full directories grow fails on the full root, where the call returns false. -/
theorem addEntry_fullRoot_refused :
    ¬ (FullDirectory smallVolume fullRootFs.disk 2 [2] →
      Grows smallVolume quietEnv fullRootFs 2 [2] [0x42] 3 0) := by
  intro hclaim
  obtain ⟨s', r, hr, -⟩ := hclaim fullRootFs_fullDirectory
  have hfalse : ((addEntryToDirectory 2 [0x42] 3 0).run quietEnv fullRootFs).map Prod.fst
      = some false := by decide
  rw [hr] at hfalse
  cases hfalse

end MicroKernel.Fat32
