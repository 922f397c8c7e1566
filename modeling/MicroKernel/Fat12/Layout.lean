import MicroKernel.Fat12.Driver
import MicroKernel.Fat32.Image
import MicroKernel.Lib.Frame

set_option autoImplicit false

/-! # The regions of a floppy

`validate_fat12_boot_sector` subtracts the sectors in front of the data from the number of all
sectors without comparing the two. A difference below zero comes out as a number close to `2 ^ 32`:
the sectors in front of the data are few (16-bit fields, at most two FATs), and so the number of
clusters is too large for FAT12 then, whatever the size of a cluster is
(`le_of_usub_div_lt`). `validated_regions` draws the conclusion for the layout that `read_fat12`
computes a second time.
-/

namespace MicroKernel.Fat12

open MicroKernel.Lib Bytes
open MicroKernel.Fat32 (Sector Env Label)

/-! ## The fields -/

namespace BootSector

variable (bs : BootSector)

/-- `total_sectors`. -/
def total : Nat := if bs.totalSectors ≠ 0 then bs.totalSectors else bs.totalSectorsLarge

/-- `root_dir_sectors`. -/
def rootDirSectors : Nat :=
  (bs.rootEntryCount * 32 + (bs.bytesPerSector - 1)) / bs.bytesPerSector

/-- The sectors in front of the data. -/
def systemSectors : Nat :=
  bs.reservedSectors + bs.fatCount * bs.sectorsPerFat + bs.rootDirSectors

/-- `total_clusters`, with the subtraction of 32-bit words. -/
def totalClusters : Nat := usub bs.total bs.systemSectors / bs.sectorsPerCluster

end BootSector

/-- The logical sector that is read for sector `i` of cluster `c`. -/
def Fat12T.clusterSector (v : Fat12T) (c i : Nat) : Nat :=
  u32 (v.dataStart + (c - 2) * v.bootSector.sectorsPerCluster + i)

/-- The regions lie one behind the other, the data region has room for the clusters, and each
cluster has sectors of its own there. -/
structure Fat12T.Regions (v : Fat12T) : Prop where
  reserved : v.fatStart = v.bootSector.reservedSectors
  fats : v.rootDirStart = v.fatStart + v.bootSector.fatCount * v.bootSector.sectorsPerFat
  root : v.dataStart = v.rootDirStart + v.bootSector.rootDirSectors
  room : v.dataStart + v.bootSector.totalClusters * v.bootSector.sectorsPerCluster
    ≤ v.bootSector.total
  inside : ∀ c i, 2 ≤ c → c < v.bootSector.totalClusters + 2 →
    i < v.bootSector.sectorsPerCluster → v.dataStart ≤ v.clusterSector c i ∧
      v.clusterSector c i
        < v.dataStart + v.bootSector.totalClusters * v.bootSector.sectorsPerCluster
  apart : ∀ c c' i i', 2 ≤ c → c < v.bootSector.totalClusters + 2 →
    2 ≤ c' → c' < v.bootSector.totalClusters + 2 → i < v.bootSector.sectorsPerCluster →
    i' < v.bootSector.sectorsPerCluster → c ≠ c' → v.clusterSector c i ≠ v.clusterSector c' i'

/-! ## Validation -/

/-- **An underflow is caught**: a quotient of a difference below zero is large. -/
theorem le_of_usub_div_lt {a b k n : Nat} (ha : a < 2 ^ 32) (hk : 0 < k)
    (hroom : b + n * k ≤ 2 ^ 32) (h : usub a b / k < n) : b ≤ a := by
  by_contra hlt
  rw [Nat.div_lt_iff_lt_mul hk] at h
  unfold usub at h
  rw [Nat.mod_eq_of_lt (by omega)] at h
  omega

/-- A boot sector that is accepted. -/
structure BootSector.Accepted (bs : BootSector) : Prop where
  bytesPerSector_ge : 512 ≤ bs.bytesPerSector
  sectorsPerCluster_pos : 0 < bs.sectorsPerCluster
  sectorsPerCluster_le : bs.sectorsPerCluster ≤ 128
  fatCount_le : bs.fatCount ≤ 2
  clusters_lt : bs.totalClusters < 4085
  clusters_ge : 2 ≤ bs.totalClusters

theorem accepted_of_validate {bs : BootSector} (h : validateFat12BootSector bs = true) :
    bs.Accepted := by
  unfold validateFat12BootSector at h
  -- the tests one after the other, each with its answer "no"
  split at h
  · cases h
  split at h
  · cases h
  next hbps =>
  split at h
  · cases h
  next hspc =>
  split at h
  · cases h
  next hfats =>
  split at h
  · cases h
  change (if 4085 ≤ bs.totalClusters then false
    else if bs.totalClusters < 2 then false else true) = true at h
  split at h
  · cases h
  next hmax =>
  split at h
  · cases h
  next hmin =>
    exact ⟨by omega, by omega, by omega, by omega, Nat.lt_of_not_le hmax, Nat.le_of_not_lt hmin⟩

section accepted

variable {b : Bytes}

theorem total_lt (b : Bytes) : (BootSector.ofBytes b).total < 2 ^ 32 := by
  unfold BootSector.total
  split
  · exact Nat.lt_of_lt_of_le (load16_lt b 19) (by decide)
  · exact load32_lt b 32

/-- The sectors in front of the data are few. -/
theorem systemSectors_le (h : (BootSector.ofBytes b).Accepted) :
    (BootSector.ofBytes b).systemSectors ≤ 2 ^ 18 := by
  have hreserved : (BootSector.ofBytes b).reservedSectors < 2 ^ 16 := load16_lt b 14
  have hspf : (BootSector.ofBytes b).sectorsPerFat < 2 ^ 16 := load16_lt b 22
  have hentries : (BootSector.ofBytes b).rootEntryCount < 2 ^ 16 := load16_lt b 17
  have hfats : (BootSector.ofBytes b).fatCount * (BootSector.ofBytes b).sectorsPerFat
      ≤ 2 * 2 ^ 16 := Nat.mul_le_mul h.fatCount_le (Nat.le_of_lt hspf)
  have hroot : (BootSector.ofBytes b).rootDirSectors ≤ 2 ^ 13 := by
    unfold BootSector.rootDirSectors
    have hbps := h.bytesPerSector_ge
    refine Nat.div_le_of_le_mul ?_
    have hmul := Nat.mul_le_mul_right (2 ^ 13) hbps
    omega
  unfold BootSector.systemSectors
  omega

/-- **No underflow hides behind an accepted number of clusters.** -/
theorem regions_le (h : (BootSector.ofBytes b).Accepted) :
    (BootSector.ofBytes b).systemSectors
      + (BootSector.ofBytes b).totalClusters * (BootSector.ofBytes b).sectorsPerCluster
      ≤ (BootSector.ofBytes b).total := by
  have hsystem := systemSectors_le h
  have hclusters : 4085 * (BootSector.ofBytes b).sectorsPerCluster ≤ 4085 * 128 :=
    Nat.mul_le_mul_left _ h.sectorsPerCluster_le
  have hle : (BootSector.ofBytes b).systemSectors ≤ (BootSector.ofBytes b).total :=
    le_of_usub_div_lt (total_lt b) h.sectorsPerCluster_pos (by omega) h.clusters_lt
  have hdata : (BootSector.ofBytes b).totalClusters * (BootSector.ofBytes b).sectorsPerCluster
      ≤ (BootSector.ofBytes b).total - (BootSector.ofBytes b).systemSectors := by
    unfold BootSector.totalClusters
    rw [usub_of_le hle (total_lt b)]
    exact Nat.div_mul_le_self _ _
  omega

end accepted

/-! ## The layout -/

/-- The layout that `read_fat12` computes from the boot sector. -/
structure Fat12T.LaidOut (v : Fat12T) : Prop where
  fatStart : v.fatStart = v.bootSector.reservedSectors
  rootDirStart : v.rootDirStart
    = v.bootSector.reservedSectors + v.bootSector.fatCount * v.bootSector.sectorsPerFat
  dataStart : v.dataStart = v.bootSector.systemSectors

/-- The structure in memory, if there is one with an accepted boot sector, is laid out. -/
def LaidOut (s : State) : Prop :=
  ∀ v, s.fat12 = some v → validateFat12BootSector v.bootSector = true → v.LaidOut

section layout

open Prog (Keeps)

/-- Being laid out is kept. -/
abbrev KeepsLayout (s s' : State) : Prop := LaidOut s → LaidOut s'

instance : Std.Refl KeepsLayout := ⟨fun _ h => h⟩

instance : IsTrans State KeepsLayout := ⟨fun _ _ _ h h' hs => h' (h hs)⟩

theorem fdcRead_layout (l : Label) (drive head track sector : Nat) (b : Bytes) (a : Nat) :
    Keeps KeepsLayout (fdcReadWithFallback l drive head track sector b a) := by
  unfold fdcReadWithFallback
  apply Keeps.bind (Keeps.ask _)
  intro fails
  apply Keeps.ite (Keeps.pure _)
  apply Keeps.bind Keeps.get
  intro s
  exact Keeps.pure _

theorem loadFat_layout (drive fatStart bps n i : Nat) (fat : Bytes) :
    Keeps KeepsLayout (loadFat drive fatStart bps n i fat) := by
  induction n generalizing i fat with
  | zero => exact Keeps.pure _
  | succ n ih =>
      rw [loadFat]
      apply Keeps.bind
      · apply Keeps.bind Keeps.get
        intro s
        exact fdcRead_layout _ _ _ _ _ _ _
      · intro r
        apply Keeps.ite (Keeps.pure _)
        exact ih _ _

/-- A structure is stored that is laid out. -/
theorem store_layout {v : Fat12T} (hv : validateFat12BootSector v.bootSector = true → v.LaidOut) :
    Keeps KeepsLayout (Prog.modify fun s => { s with fat12 := some v } : Io Unit) := by
  refine Keeps.modify fun s _ v' hv' hvalid => ?_
  obtain rfl := Option.some.inj hv'
  exact hv hvalid

/-- **The layout of `read_fat12`.** -/
theorem readFat12_layout (drive : Nat) : Keeps KeepsLayout (readFat12 drive) := by
  unfold readFat12
  apply Keeps.bind (Keeps.ask _)
  intro oom
  apply Keeps.ite (Keeps.pure _)
  apply Keeps.bind (Keeps.ask _)
  intro junk
  apply Keeps.bind (fdcRead_layout _ _ _ _ _ _ _)
  intro r
  apply Keeps.ite (Keeps.pure _)
  dsimp only
  split
  next hinvalid =>
    -- a boot sector that is not accepted
    refine Keeps.bind (store_layout fun hvalid => ?_) fun _ => Keeps.pure _
    rw [hvalid] at hinvalid
    cases hinvalid
  next =>
    refine Keeps.bind (store_layout fun _ => ⟨rfl, rfl, rfl⟩) fun _ => ?_
    apply Keeps.bind (Keeps.ask _)
    intro oom
    apply Keeps.ite (Keeps.pure _)
    apply Keeps.bind (Keeps.ask _)
    intro junk
    apply Keeps.bind (loadFat_layout _ _ _ _ _ _)
    intro fat
    cases fat with
    | none => exact Keeps.pure _
    | some fat => exact Keeps.bind (store_layout fun _ => ⟨rfl, rfl, rfl⟩) fun _ => Keeps.pure _

end layout

/-! ## The clusters -/

section clusters

variable {v : Fat12T} {b : Bytes} {c c' i i' : Nat}

theorem clusterSector_eq (hv : v.LaidOut) (hb : v.bootSector = .ofBytes b)
    (h : v.bootSector.Accepted) (hc : c < v.bootSector.totalClusters + 2)
    (hi : i < v.bootSector.sectorsPerCluster) :
    v.clusterSector c i = v.dataStart + (c - 2) * v.bootSector.sectorsPerCluster + i := by
  have hclusters : (c - 2) * v.bootSector.sectorsPerCluster ≤ 4085 * 128 :=
    Nat.mul_le_mul (by have := h.clusters_lt; omega) h.sectorsPerCluster_le
  have hsystem : v.dataStart ≤ 2 ^ 18 := by
    rw [hv.dataStart]
    rw [hb] at h ⊢
    exact systemSectors_le h
  have hspc := h.sectorsPerCluster_le
  exact u32_eq_self (by omega)

theorem regions_of_laidOut (hv : v.LaidOut) (hb : v.bootSector = .ofBytes b)
    (h : v.bootSector.Accepted) : v.Regions where
  reserved := hv.fatStart
  fats := by rw [hv.rootDirStart, hv.fatStart]
  root := by rw [hv.dataStart, hv.rootDirStart, BootSector.systemSectors]
  room := by
    rw [hv.dataStart]
    rw [hb] at h ⊢
    exact regions_le h
  inside := by
    intro c i h2 hc hi
    have hmul : (c - 2 + 1) * v.bootSector.sectorsPerCluster
        ≤ v.bootSector.totalClusters * v.bootSector.sectorsPerCluster :=
      Nat.mul_le_mul_right _ (by omega)
    rw [Nat.add_mul, Nat.one_mul] at hmul
    rw [clusterSector_eq hv hb h hc hi]
    omega
  apart := by
    intro c c' i i' h2 hc h2' hc' hi hi' hne heq
    rw [clusterSector_eq hv hb h hc hi, clusterSector_eq hv hb h hc' hi', Nat.add_assoc,
      Nat.add_assoc, Nat.add_left_cancel_iff, Nat.mul_comm, Nat.mul_comm (c' - 2)] at heq
    -- the quotients by the size of a cluster are the two numbers
    have hdiv := congrArg (· / v.bootSector.sectorsPerCluster) heq
    simp only [Nat.mul_add_div h.sectorsPerCluster_pos, Nat.div_eq_of_lt hi,
      Nat.div_eq_of_lt hi'] at hdiv
    omega

end clusters

/-- **Validation is sound.** For a boot sector that is accepted the regions have room in the number
of sectors, in whole numbers; there are 2 to 4084 clusters; and a `read_fat12` that finds this boot
sector computes the regions one behind the other, with sectors of its own in the data region for
each cluster. -/
theorem validated_regions (b : Bytes) (h : validateFat12BootSector (.ofBytes b) = true) :
    ((BootSector.ofBytes b).reservedSectors
        + (BootSector.ofBytes b).fatCount * (BootSector.ofBytes b).sectorsPerFat
        + (BootSector.ofBytes b).rootDirSectors
        + (BootSector.ofBytes b).totalClusters * (BootSector.ofBytes b).sectorsPerCluster
      ≤ (BootSector.ofBytes b).total) ∧
    2 ≤ (BootSector.ofBytes b).totalClusters ∧ (BootSector.ofBytes b).totalClusters ≤ 4084 ∧
    ∀ drive e s r s' v, s.fat12 = none → (readFat12 drive).run e s = some (r, s') →
      s'.fat12 = some v → v.bootSector = .ofBytes b → v.Regions := by
  have hacc := accepted_of_validate h
  refine ⟨regions_le hacc, hacc.clusters_ge, Nat.le_of_lt_succ hacc.clusters_lt, ?_⟩
  intro drive e s r s' v hnone hrun hv hb
  have hlaid : LaidOut s := fun v hv => by rw [hnone] at hv; cases hv
  have hafter := (readFat12_layout drive).related e s r s' hrun hlaid v hv (by rw [hb]; exact h)
  exact regions_of_laidOut hafter hb (by rw [hb]; exact hacc)

/-- The boot sector of a floppy of 100 sectors, with one FAT of one sector. -/
def hundredSectors : Sector := fun i =>
  match i.val with
  | 12 => 2
  | 13 => 1
  | 14 => 1
  | 16 => 1
  | 17 => 16
  | 19 => 100
  | 22 => 1
  | 24 => 18
  | 26 => 2
  | 510 => 0x55
  | 511 => 0xAA
  | _ => 0

/-- Every sector of the floppies is that one. -/
def hundredSectorsState : State :=
  ⟨fun _ _ _ _ => hundredSectors, none, 0, fun _ => none, none, none⟩

/-- The floppy is mounted, with 97 clusters. -/
theorem validated_regions_hundred :
    (BootSector.ofBytes (Sector.bytes hundredSectors)).totalClusters ≤ 4084 ∧
      ∃ s' v, (readFat12 0).run Fat32.quietEnv hundredSectorsState = some (true, s') ∧
        s'.fat12 = some v ∧ v.bootSector.totalClusters = 97 ∧ v.Regions := by
  obtain ⟨-, -, hle, hregions⟩ := validated_regions (Sector.bytes hundredSectors) (by decide)
  have hrun : ((readFat12 0).run Fat32.quietEnv hundredSectorsState).map
      (fun r => (r.1, r.2.fat12.map (·.bootSector)))
        = some (true, some (.ofBytes (Sector.bytes hundredSectors))) := rfl
  obtain ⟨⟨ok, s'⟩, h, heq⟩ := Option.map_eq_some_iff.mp hrun
  obtain ⟨rfl, heq⟩ := Prod.mk.inj heq
  obtain ⟨v, hv, hb⟩ := Option.map_eq_some_iff.mp heq
  exact ⟨hle, s', v, h, hv, by rw [hb]; decide, hregions 0 _ _ _ _ v rfl h hv hb⟩

end MicroKernel.Fat12
