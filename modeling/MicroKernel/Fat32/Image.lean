import MicroKernel.Fat32.Calls

set_option autoImplicit false

/-! # Disk images

`Volume.image` is the disk with a given FAT and given directories: whatever they are, there is a
disk that holds them. The small volume at the end of the file is the one that concrete runs of
the driver use.
-/

namespace MicroKernel.Fat32

open MicroKernel.Lib Bytes

namespace Volume

variable (V : Volume) (fat : Nat → Nat) (dir : Nat → Nat → DirEntry) (info : Sector)

/-- The disk with FSInfo `info`, with the entries of `fat` in every copy of the FAT, and with slot
`j` of cluster `c` equal to `dir c j`. -/
def image : Disk := fun n =>
  if n < V.offset + V.bs.reservedSectorCount then info
  else if n < V.dataStart then fun x =>
    UInt8.ofNat (fat (128 * ((n - (V.offset + V.bs.reservedSectorCount)) % V.bs.fatSize32) + x / 4)
      / 256 ^ (x.val % 4))
  else fun x => dir ((n - V.dataStart) / V.bs.sectorsPerCluster + 2)
    ((n - V.dataStart) % V.bs.sectorsPerCluster * 16 + x / 32) ⟨x % 32, by omega⟩

theorem image_fatSector {k j : Nat} (hk : k < V.bs.numberOfFats) (hj : j < V.bs.fatSize32) :
    V.image fat dir info (V.offset + V.bs.reservedSectorCount + k * V.bs.fatSize32 + j)
      = fun x : Fin 512 => UInt8.ofNat (fat (128 * j + x / 4) / 256 ^ (x.val % 4)) := by
  have hmul : (k + 1) * V.bs.fatSize32 ≤ V.bs.numberOfFats * V.bs.fatSize32 :=
    Nat.mul_le_mul_right _ hk
  rw [Nat.add_mul, Nat.one_mul] at hmul
  unfold image dataStart
  rw [if_neg (by omega), if_pos (by omega),
    show V.offset + V.bs.reservedSectorCount + k * V.bs.fatSize32 + j
      - (V.offset + V.bs.reservedSectorCount) = j + k * V.bs.fatSize32 by omega,
    Nat.add_mul_mod_self_right, Nat.mod_eq_of_lt hj]

theorem rawFat_image {k c : Nat} (hk : k < V.bs.numberOfFats) (hc : c < V.total) :
    V.rawFat (V.image fat dir info) k c = fat c % 2 ^ 32 := by
  have hroom := V.fat_room
  change 4 * V.total ≤ _ at hroom
  have hbyte : ∀ i, i < 4 →
      Sector.bytes (V.image fat dir info (V.fatPos k c)) (c % 128 * 4 + i)
        = UInt8.ofNat (fat c / 256 ^ i) := by
    intro i hi
    unfold Sector.bytes fatPos
    rw [dif_pos (by omega), V.image_fatSector fat dir info hk (by omega)]
    dsimp only
    rw [show 128 * (c / 128) + (c % 128 * 4 + i) / 4 = c by omega,
      show (c % 128 * 4 + i) % 4 = i by omega]
  rw [← load32_store32_same (fun _ => 0) 0 (fat c)]
  refine load32_congr fun i hi => ?_
  rw [hbyte i hi, store32_byte _ _ _ hi]

theorem slot_image {c j : Nat} (hc : 2 ≤ c) (hj : j < V.slots) :
    V.slot (V.image fat dir info) c j = dir c j := by
  unfold slots at hj
  have hpos := V.sectorsPerCluster_pos
  have hstart : V.offset + V.bs.reservedSectorCount ≤ V.dataStart := by
    unfold dataStart
    omega
  have hn := V.dataStart_le_dataPos c
  funext i
  have hi := i.isLt
  have hsub : V.dataPos c + j / 16 - V.dataStart = j / 16 + (c - 2) * V.bs.sectorsPerCluster := by
    unfold dataPos
    omega
  have hq : (j / 16 + (c - 2) * V.bs.sectorsPerCluster) / V.bs.sectorsPerCluster = c - 2 := by
    rw [Nat.add_mul_div_right _ _ hpos, Nat.div_eq_of_lt (by omega), Nat.zero_add]
  have hm : (j / 16 + (c - 2) * V.bs.sectorsPerCluster) % V.bs.sectorsPerCluster = j / 16 := by
    rw [Nat.add_mul_mod_self_right, Nat.mod_eq_of_lt (by omega)]
  unfold slot entryAt clusterBytes Sector.bytes image
  rw [dif_pos (Nat.mod_lt _ (by decide)), show (32 * j + i.val) / 512 = j / 16 by omega,
    if_neg (by omega), if_neg (by omega), hsub, hq, hm]
  dsimp only
  congr 1
  · omega
  · omega
  · ext
    dsimp only
    omega

theorem mirrored_image : V.Mirrored (V.image fat dir info) := by
  intro k hk j hj
  have h0 := V.image_fatSector fat dir info V.numberOfFats_pos hj
  rw [Nat.zero_mul, Nat.add_zero] at h0
  rw [V.image_fatSector fat dir info hk hj, h0]

end Volume

/-! ## A small volume -/

/-- Two copies of a FAT of one sector, and clusters of one sector with the numbers 2 to 7. -/
def smallVolume : Volume where
  bs :=
    { bytesPerSector := 512
      sectorsPerCluster := 1
      reservedSectorCount := 2
      numberOfFats := 2
      rootEntryCount := 0
      totalSectors32 := 12
      fatSize32 := 1
      rootCluster := 2
      fsInfo := 1 }
  offset := 0
  bytesPerSector_eq := rfl
  sectorsPerCluster_pos := by decide
  numberOfFats_pos := by decide
  rootEntryCount_eq := rfl
  data_le := by decide
  stop_le := by decide
  fat_room := by decide

/-- The driver on the small volume, with the root as its current directory. -/
def smallFs (fat : Nat → Nat) (dir : Nat → Nat → DirEntry) (info : Sector) : Fs where
  disks := fun _ => smallVolume.image fat dir info
  currentDrive := ⟨0x1F0, true⟩
  ataBaseAddress := 0x1F0
  bootSector := smallVolume.bs
  fsinfo := info
  fsinfoValid := true
  currentDirectoryCluster := 2
  partitionLbaOffset := 0

@[simp] theorem smallFs_disk (fat : Nat → Nat) (dir : Nat → Nat → DirEntry) (info : Sector) :
    (smallFs fat dir info).disk = smallVolume.image fat dir info := rfl

theorem smallFs_ready (fat : Nat → Nat) (dir : Nat → Nat → DirEntry) (info : Sector) :
    (smallFs fat dir info).Ready smallVolume where
  on := ⟨rfl, rfl, rfl⟩
  info := fun _ => by decide
  cwd := show smallVolume.Has 2 by decide

/-- Nothing fails, and memory that was not written to holds zeros. -/
def quietEnv : Env where
  path := []
  fault := fun _ => false
  late := fun _ => false
  outOfMemory := fun _ => false
  junk := fun _ _ => 0
  clock := fun _ => ⟨2025, 1, 1, 0, 0, 0⟩

theorem quietEnv_reliable : quietEnv.Reliable := fun _ => rfl

theorem quietEnv_hasMemory : quietEnv.HasMemory := fun _ => rfl

theorem quietEnv_searches {V : Volume} : (quietEnv.enter .find).Searches V :=
  (quietEnv_reliable.enter .find).searches fun _ => rfl

/-! ## Clusters of two sectors -/

/-- The same with two sectors in a cluster. -/
def wideVolume : Volume where
  bs := { smallVolume.bs with sectorsPerCluster := 2, totalSectors32 := 20 }
  offset := 0
  bytesPerSector_eq := rfl
  sectorsPerCluster_pos := by decide
  numberOfFats_pos := by decide
  rootEntryCount_eq := rfl
  data_le := by decide
  stop_le := by decide
  fat_room := by decide

/-- The FSInfo of a volume with four free clusters. -/
def fourFree : Sector := Sector.setField (fun _ => 0) 488 4

/-- Its FAT: clusters 2 and 3 are chains of their own. -/
def wideFat (c : Nat) : Nat := if c = 2 ∨ c = 3 then eocMax else 0

/-- Its directories: the root holds D, which has nothing but its dot entries in cluster 3. -/
def wideDir (c j : Nat) : DirEntry :=
  if c = 2 ∧ j = 0 then quietEnv.newEntry [0x44] 3 0x10
  else if c = 3 ∧ j = 0 then quietEnv.newEntry [0x2E] 3 0x10
  else if c = 3 ∧ j = 1 then quietEnv.newEntry [0x2E, 0x2E] 2 0x10
  else zeroEntry

/-- The driver on that volume. -/
def wideFs : Fs where
  disks := fun _ => wideVolume.image wideFat wideDir fourFree
  currentDrive := ⟨0x1F0, true⟩
  ataBaseAddress := 0x1F0
  bootSector := wideVolume.bs
  fsinfo := fourFree
  fsinfoValid := true
  currentDirectoryCluster := 2
  partitionLbaOffset := 0

theorem wideFs_ready : wideFs.Ready wideVolume where
  on := ⟨rfl, rfl, rfl⟩
  info := fun _ => by decide
  cwd := show wideVolume.Has 2 by decide

theorem wideFs_mirrored : wideVolume.Mirrored wideFs.disk :=
  wideVolume.mirrored_image wideFat wideDir fourFree

theorem wideFs_foundAt : wideVolume.FoundAt wideFs.disk 2 [0x44] 0 where
  lt := by decide
  passed := fun i hi => absurd hi (Nat.not_lt_zero i)
  taken := ⟨by decide, by decide, by decide⟩

/-- Removing D, which is empty, writes over the stack. -/
theorem wideFs_overruns : DirOp.deleteDir.Overruns [0x44] quietEnv wideFs := by
  rw [DirOp.overruns_iff wideFs_ready]
  intro hfits
  have hone := hfits rfl quietEnv_searches 0 wideFs_foundAt
  rw [(quietEnv_reliable.enter _).storesOne_iff wideVolume] at hone
  exact absurd hone (by decide)

end MicroKernel.Fat32
