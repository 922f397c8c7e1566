import MicroKernel.Fat12.Driver
import MicroKernel.Lib.Packed12

set_option autoImplicit false

/-! # The entries of the FAT

`get_next_cluster` takes one of the two windows of twelve bits at `3c/2`. Which one is decided by
the offset, where it should be decided by the number of the cluster. The two agree for the clusters
that leave a remainder of at most one by four; for the others the wrong window is taken.
-/

namespace MicroKernel.Fat12

open MicroKernel.Lib Bytes

/-- What `get_next_cluster` makes of an entry: the marks for the end of a chain, bad, free and
reserved are no clusters to go on with. -/
def nextOf (entry : Nat) : Option Nat :=
  if isEndOfChainFat12 entry then none
  else if entry = 0xFF7 then none
  else if entry = 0 ∨ entry = 1 then none
  else some entry

/-- The entry of cluster `c` is found where it is looked for, or what is found there means the
same. -/
def FindsEntry (fat : Bytes) (c : Nat) : Prop :=
  c % 4 < 2 ∨ nextOf (lowWindow fat (c * 3 / 2)) = nextOf (highWindow fat (c * 3 / 2))

instance (fat : Bytes) (c : Nat) : Decidable (FindsEntry fat c) :=
  inferInstanceAs (Decidable (_ ∨ _))

section decode

variable {v : Fat12T} {fat : Bytes} {c : Nat}

/-- **`get_next_cluster`** of a cluster whose entry lies in the FAT. -/
theorem getNextCluster_window (hfat : v.fat = some fat) (hc : isValidClusterFat12 c = true)
    (hin : c * 3 / 2 + 1 < v.bootSector.sectorsPerFat * 512) :
    getNextCluster (some v) c
      = if c * 3 / 2 % 2 = 0 then nextOf (lowWindow fat (c * 3 / 2))
        else nextOf (highWindow fat (c * 3 / 2)) := by
  unfold getNextCluster
  dsimp only
  rw [hfat]
  dsimp only
  rw [hc, Bool.not_true, if_neg (by decide), if_neg (by omega)]
  split <;> rfl

theorem getNextCluster_iff (hfat : v.fat = some fat) (hc : isValidClusterFat12 c = true)
    (hin : c * 3 / 2 + 1 < v.bootSector.sectorsPerFat * 512) :
    getNextCluster (some v) c = nextOf (entry12 fat c) ↔ FindsEntry fat c := by
  rw [getNextCluster_window hfat hc hin]
  unfold entry12 FindsEntry
  -- the remainder by four tells the parity of the number and that of the offset
  have hcases : c % 4 = 0 ∨ c % 4 = 1 ∨ c % 4 = 2 ∨ c % 4 = 3 := by omega
  rcases hcases with h4 | h4 | h4 | h4
  · rw [if_pos (show c * 3 / 2 % 2 = 0 by omega), if_pos (show c % 2 = 0 by omega)]
    exact iff_of_true rfl (Or.inl (by omega))
  · rw [if_neg (show ¬ c * 3 / 2 % 2 = 0 by omega), if_neg (show ¬ c % 2 = 0 by omega)]
    exact iff_of_true rfl (Or.inl (by omega))
  · rw [if_neg (show ¬ c * 3 / 2 % 2 = 0 by omega), if_pos (show c % 2 = 0 by omega)]
    exact ⟨fun h => Or.inr h.symm, fun h => (h.resolve_left (by omega)).symm⟩
  · rw [if_pos (show c * 3 / 2 % 2 = 0 by omega), if_neg (show ¬ c % 2 = 0 by omega)]
    exact ⟨Or.inr, fun h => h.resolve_left (by omega)⟩

/-- **FAT12 entries.** For a cluster number that is accepted and whose two bytes lie in the FAT, the
result is the one for the entry of that number exactly when the entry is found; and where the FAT
has been packed from a list, the entry is the one of the list. -/
theorem nextCluster_decodes_iff (hfat : v.fat = some fat) (hc : isValidClusterFat12 c = true)
    (hin : c * 3 / 2 + 1 < v.bootSector.sectorsPerFat * 512) :
    (getNextCluster (some v) c = nextOf (entry12 fat c) ↔ FindsEntry fat c) ∧
      ∀ l : List Nat, (∀ x ∈ l, x < 4096) → fat = pack12 l →
        (getNextCluster (some v) c = nextOf (l.getD c 0) ↔ FindsEntry fat c) := by
  refine ⟨getNextCluster_iff hfat hc hin, ?_⟩
  rintro l hl rfl
  rw [← entry12_pack12 hl]
  exact getNextCluster_iff hfat hc hin

end decode

/-- A boot sector with a FAT of one sector. -/
def oneSectorFat (l : List Nat) : Fat12T where
  bootSector := ⟨512, 1, 1, 2, 16, 2880, 1, 18, 2, 0, 0xAA55⟩
  fatStart := 1
  rootDirStart := 3
  dataStart := 4
  fat := some (pack12 l)

/-- It is large enough for 300 clusters, which are few enough. -/
theorem oneSectorFat_clusters_lt : 300 < 4085 := by decide

/-- Cluster 4 is followed by cluster 5. -/
theorem nextCluster_decodes_iff_even :
    (getNextCluster (some (oneSectorFat [0xFF0, 0xFFF, 3, 0xFFF, 5, 0xFFF])) 4 = nextOf 5 ↔
      FindsEntry (pack12 [0xFF0, 0xFFF, 3, 0xFFF, 5, 0xFFF]) 4) :=
  (nextCluster_decodes_iff (v := oneSectorFat [0xFF0, 0xFFF, 3, 0xFFF, 5, 0xFFF]) rfl rfl
    (by decide)).2 [0xFF0, 0xFFF, 3, 0xFFF, 5, 0xFFF] (by decide) rfl

/-- A file in the clusters 2 and 3: behind cluster 2 comes cluster 3840. -/
theorem not_nextCluster_decodes :
    getNextCluster (some (oneSectorFat [0xFF0, 0xFFF, 3, 0xFFF])) 2 = some 0xF00 ∧
      nextOf (entry12 (pack12 [0xFF0, 0xFFF, 3, 0xFFF]) 2) = some 3 := by
  decide

end MicroKernel.Fat12
