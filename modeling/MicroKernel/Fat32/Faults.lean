import MicroKernel.Fat32.Ownership

set_option autoImplicit false

/-! # Failing calls

What the theorems about failing calls of the ATA driver share: the current directory they start
from, and the contents of the stack, which decide what a buffer holds where a read has failed.
-/

namespace MicroKernel.Fat32

open MicroKernel.Lib Bytes

/-! ## The current directory -/

/-- The directory `dir` of a well-formed volume: its chain is `l`, every entry whose first cluster
is on the volume starts a chain, and different entries have different clusters. A slot counts as
an entry by its own bytes, also behind an end marker: the marker that a deletion leaves is
overwritten by the next creation. -/
structure Volume.Sound (V : Volume) (d : Disk) (dir : Nat) (l : List Nat) : Prop where
  chain : V.Chain d dir l
  heads : ∀ c, c ∈ l → ∀ j, j < V.slots → (V.slot d c j).isLive = true →
    V.Has (readStartCluster (V.slot d c j)) → ∃ lo, V.Chain d (readStartCluster (V.slot d c j)) lo
  apart : ∀ c c', c ∈ l → c' ∈ l → ∀ j j', j < V.slots → j' < V.slots → (c, j) ≠ (c', j') →
    (V.slot d c j).isLive = true → (V.slot d c' j').isLive = true → ∀ lo lo',
    V.Chain d (readStartCluster (V.slot d c j)) lo →
    V.Chain d (readStartCluster (V.slot d c' j')) lo' → List.Disjoint lo lo'

/-- The root with the files A and B is such a directory. -/
theorem twoFilesFs_sound : smallVolume.Sound twoFilesFs.disk 2 [2] := by
  have hslot : ∀ c, c ∈ [2] → ∀ j, j < smallVolume.slots →
      (smallVolume.slot twoFilesFs.disk c j).isLive = true → c = 2 ∧ j < 2 := by
    intro c hc j hj hlive
    rw [List.mem_singleton] at hc
    subst hc
    refine ⟨rfl, ?_⟩
    by_contra hge
    have := twoFilesFs_isEnd (Nat.le_of_not_lt hge) hj
    rw [(DirEntry.isLive_iff.mp hlive).1] at this
    cases this
  refine ⟨twoFilesFs_rootChain, fun c hc j hj hlive _ => ?_, ?_⟩
  · obtain ⟨rfl, hj2⟩ := hslot c hc j hj hlive
    rw [twoFilesFs_start hj2]
    exact ⟨[j + 3], twoFilesFs_chain (by omega) (by omega)⟩
  · intro c c' hc hc' j j' hj hj' hne hlive hlive' lo lo' hlo hlo'
    obtain ⟨rfl, hj2⟩ := hslot c hc j hj hlive
    obtain ⟨rfl, hj2'⟩ := hslot c' hc' j' hj' hlive'
    rw [twoFilesFs_start hj2] at hlo
    rw [twoFilesFs_start hj2'] at hlo'
    rw [hlo.unique (twoFilesFs_chain (by omega) (by omega)),
      hlo'.unique (twoFilesFs_chain (by omega) (by omega)), List.singleton_disjoint,
      List.mem_singleton]
    rintro heq
    exact hne (by rw [show j = j' by omega])

theorem twoFilesFs_mirrored : smallVolume.Mirrored twoFilesFs.disk := by
  rw [twoFilesFs, smallFs_disk]
  exact smallVolume.mirrored_image _ _ _

/-! ## The stack -/

/-- The same calls fail, but the arrays on the stack hold something else. -/
def Env.withJunk (e : Env) (junk : List Label → Bytes) : Env := { e with junk := junk }

section junk

variable (e : Env) (junk : List Label → Bytes)

@[simp] theorem withJunk_enter (l : Label) :
    (e.withJunk junk).enter l = (e.enter l).withJunk junk := rfl

@[simp] theorem withJunk_fails (l : Label) : (e.withJunk junk).fails l = e.fails l := rfl

@[simp] theorem withJunk_loses (l : Label) : (e.withJunk junk).loses l = e.loses l := rfl

@[simp] theorem withJunk_junk : (e.withJunk junk).junk = junk := rfl

@[simp] theorem withJunk_path : (e.withJunk junk).path = e.path := rfl

@[simp] theorem withJunk_outOfMemory : (e.withJunk junk).outOfMemory = e.outOfMemory := rfl

@[simp] theorem written_withJunk (n i : Nat) : written (e.withJunk junk) n i = written e n i := by
  induction n generalizing i with
  | zero => rfl
  | succ n ih => simp [written, ih]

@[simp] theorem allWritten_withJunk (n i : Nat) :
    allWritten (e.withJunk junk) n i = allWritten e n i := by
  induction n generalizing i with
  | zero => rfl
  | succ n ih => simp [allWritten, ih]

@[simp] theorem allLoaded_withJunk (n i : Nat) :
    allLoaded (e.withJunk junk) n i = allLoaded e n i := by
  induction n generalizing i with
  | zero => rfl
  | succ n ih => simp [allLoaded, ih]

@[simp] theorem loaded_withJunk (src : Bytes) (n i : Nat) (b : Bytes) :
    loaded (e.withJunk junk) src n i b = loaded e src n i b := by
  funext x
  rw [loaded_eq, loaded_eq, withJunk_fails]

variable (V : Volume)

@[simp] theorem buffer_withJunk (d : Disk) (i c : Nat) (b : Bytes) :
    V.buffer (e.withJunk junk) d i c b = V.buffer e d i c b := by
  simp [Volume.buffer]

@[simp] theorem insertion_withJunk (d : Disk) (i : Nat) (l : List Nat) (b : Bytes) :
    V.insertion (e.withJunk junk) d i l b = V.insertion e d i l b := by
  induction l generalizing i b with
  | nil => rfl
  | cons c l ih => simp [Volume.insertion, ih]

@[simp] theorem stored_withJunk (i : Nat) : V.stored (e.withJunk junk) i = V.stored e i := by
  simp [Volume.stored]

@[simp] theorem aborts_withJunk : (e.withJunk junk).Aborts ↔ e.Aborts := Iff.rfl

@[simp] theorem marks_withJunk : V.Marks (e.withJunk junk) ↔ V.Marks e := by
  simp [Volume.Marks]

@[simp] theorem freesAll_withJunk (i : Nat) (l : List Nat) :
    V.FreesAll (e.withJunk junk) i l ↔ V.FreesAll e i l := by
  induction l generalizing i with
  | nil => exact Iff.rfl
  | cons c l ih => simp [Volume.FreesAll, ih]

@[simp] theorem searches_withJunk : (e.withJunk junk).Searches V ↔ e.Searches V := by
  constructor
  · rintro ⟨h1, h2, h3⟩
    exact ⟨h1, by simpa using h2, h3⟩
  · rintro ⟨h1, h2, h3⟩
    exact ⟨h1, by simpa using h2, h3⟩

end junk

/-- Calls that fail without harm: `find_free_cluster` cannot look at cluster 5, a directory that has
been written back cannot be checked after an entry has been removed, and FSInfo cannot be written. -/
def harmlessEnv : Env :=
  { quietEnv with fault := fun p =>
      match p with
      | [.fat, .candidate 5] => true
      | [.verify 0, .write, .cluster _, .remove] => true
      | [.store 0, .sync] => true
      | _ => false }

end MicroKernel.Fat32
