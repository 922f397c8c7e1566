import MicroKernel.Fat32.Adapter
import MicroKernel.Fat32.Image

set_option autoImplicit false

/-! # Boot sectors and the clusters they promise

In the build for real hardware `fat32_init_fs` checks the boot sector. The fields that say where
the clusters are must have sensible values (`BootSector.Validated`), but nothing relates them to each
other, and `is_valid_cluster` works on any of them: this file says what it promises about the
sectors of a cluster (`clusterGeometry`).

The check of the signature compares `boot_signature`, a field of one byte, with `0xAA55`, so no boot
sector passes at all (`fat32InitFsStrict_fails`). The field of that value is `boot_sector_signature`,
the last two bytes of the sector. With it the function accepts the boot sectors that are
`BootSector.Accepted` (`fat32InitFsWith_accepts_iff`), and these are the ones that the results are about.
-/

namespace MicroKernel.Fat32

open MicroKernel.Lib Bytes

/-! ## Validation -/

/-- `boot_signature`, the byte behind the drive number. -/
def bootSignature (b : Bytes) : Nat := (b 66).toNat

/-- The checks of the fields. A number of sectors has one bit set when it has none in common with
the number before it. -/
structure BootSector.Validated (bs : BootSector) : Prop where
  bytesPerSector : bs.bytesPerSector = 512 ∨ bs.bytesPerSector = 1024 ∨ bs.bytesPerSector = 2048 ∨
    bs.bytesPerSector = 4096
  sectorsPerCluster : bs.sectorsPerCluster ≠ 0 ∧
    bs.sectorsPerCluster &&& (bs.sectorsPerCluster - 1) = 0
  rootCluster : 2 ≤ bs.rootCluster

/-- `boot_sector_signature`, the last two bytes. -/
def bootSectorSignature (b : Bytes) : Nat := load16 b 510

/-- A boot sector that ends with 55 AA and has fields that pass the checks. -/
structure BootSector.Accepted (b : Bytes) : Prop where
  signature : bootSectorSignature b = 0xAA55
  fields : (BootSector.ofBytes b).Validated

/-- `fat32_init_fs` with `FAT32_STRICT_VALIDATION`, where `signature` is the field that is compared. The
boot sector is read into the global variable before it is checked. -/
def fat32InitFsWith (signature : Bytes → Nat) (drive : Drive) : Io Bool := do
  let (ok, buffer) ← ataReadSector (.load 0) drive 0 (fun _ => 0) 0
  if !ok then return false
  let bs := BootSector.ofBytes buffer
  Prog.modify fun s => { s with bootSector := bs }
  if signature buffer ≠ 0xAA55 then return false
  if bs.bytesPerSector ≠ 512 ∧ bs.bytesPerSector ≠ 1024 ∧ bs.bytesPerSector ≠ 2048 ∧
      bs.bytesPerSector ≠ 4096 then return false
  if bs.sectorsPerCluster = 0 ∨ bs.sectorsPerCluster &&& (bs.sectorsPerCluster - 1) ≠ 0 then
    return false
  if bs.rootCluster < 2 then return false
  Prog.modify fun s =>
    { s with ataBaseAddress := drive.base, currentDirectoryCluster := bs.rootCluster }
  if bs.fsInfo ≠ 0 ∧ bs.fsInfo ≠ 0xFFFF then
    let _ ← within .sync readFsinfo
  return true

/-- The function of the source. -/
def fat32InitFsStrict (drive : Drive) : Io Bool := fat32InitFsWith bootSignature drive

section strict

variable (e : Env) (s : Fs) (drive : Drive)

/-- The sector that is read, at the head of a buffer. -/
def Fs.bootBuffer (s : Fs) (drive : Drive) : Bytes :=
  copy (fun _ => 0) 0 (Sector.bytes (s.disks drive 0)) 0 512

theorem bootBuffer_byte {x : Nat} (hx : x < 512) :
    s.bootBuffer drive x = Sector.bytes (s.disks drive 0) x := by
  unfold Fs.bootBuffer
  rw [copy_inside _ _ _ (Nat.zero_le x) (by omega), Nat.zero_add, Nat.sub_zero]

theorem bootBuffer_accepted_iff : BootSector.Accepted (s.bootBuffer drive)
    ↔ BootSector.Accepted (Sector.bytes (s.disks drive 0)) := by
  have hsignature : bootSectorSignature (s.bootBuffer drive)
      = bootSectorSignature (Sector.bytes (s.disks drive 0)) := by
    unfold bootSectorSignature load16
    simp (disch := decide) only [bootBuffer_byte]
  have hfields : BootSector.ofBytes (s.bootBuffer drive)
      = BootSector.ofBytes (Sector.bytes (s.disks drive 0)) := by
    unfold BootSector.ofBytes load16 load32
    simp (disch := decide) only [bootBuffer_byte]
  constructor
  · intro h
    exact ⟨hsignature ▸ h.signature, hfields ▸ h.fields⟩
  · intro h
    exact ⟨hsignature ▸ h.signature, hfields ▸ h.fields⟩

theorem readFsinfo_returns : ∃ b s', readFsinfo.run e s = some (b, s') := by
  unfold readFsinfo
  rw [Prog.run_bind, Prog.run_get, Option.bind_some, Prog.run_bind, run_readSector, Option.bind_some]
  cases e.fails (.load 0) with
  | true => exact ⟨false, s, rfl⟩
  | false =>
      simp only [Bool.false_eq_true, if_false, Bool.not_true, Prog.run_bind, Prog.run_modify,
        Option.bind_some, Prog.run_ite]
      split
      · exact ⟨_, _, rfl⟩
      · exact ⟨_, _, rfl⟩

theorem run_fat32InitFsWith_true_iff (signature : Bytes → Nat) :
    (∃ s', (fat32InitFsWith signature drive).run e s = some (true, s')) ↔
      e.fails (.load 0) = false ∧ signature (s.bootBuffer drive) = 0xAA55 ∧
        (BootSector.ofBytes (s.bootBuffer drive)).Validated := by
  have hbuffer : copy (fun _ => 0) 0 (Sector.bytes (s.disks drive (0 % 2 ^ 28))) 0 512
      = s.bootBuffer drive := rfl
  unfold fat32InitFsWith ataReadSector
  rw [Prog.run_bind, Prog.run_bind, Prog.run_ask, Option.bind_some]
  cases e.fails (.load 0) with
  | true => simp
  | false =>
      simp only [Bool.false_eq_true, if_false, Prog.run_bind, Prog.run_get, Option.bind_some,
        Prog.run_pure, Bool.not_true, Prog.run_modify, Prog.run_ite, true_and, hbuffer]
      generalize s.bootBuffer drive = b
      -- every check that fails ends the function
      by_cases hsigned : signature b = 0xAA55
      · rw [if_neg (not_not.mpr hsigned)]
        by_cases hv : (BootSector.ofBytes b).Validated
        · have hbps := hv.bytesPerSector
          have hspc := hv.sectorsPerCluster
          have hroot := hv.rootCluster
          rw [if_neg (by omega), if_neg (by rw [not_or, not_not]; exact hspc), if_neg (by omega)]
          refine iff_of_true ?_ ⟨hsigned, hv⟩
          split
          · obtain ⟨r, s', hr⟩ := readFsinfo_returns (e.enter .sync) _
            rw [run_within, hr]
            exact ⟨_, rfl⟩
          · exact ⟨_, rfl⟩
        · refine iff_of_false ?_ fun h => hv h.2
          split
          · exact nofun
          next hbps =>
            split
            · exact nofun
            next hspc =>
              rw [if_pos ?_]
              · exact nofun
              · by_contra hroot
                rw [not_or, not_not] at hspc
                exact hv ⟨by omega, hspc, by omega⟩
      · rw [if_pos hsigned]
        exact iff_of_false nofun fun h => hsigned h.1

/-- **The boot sectors that are accepted**, where the last two bytes are compared. -/
theorem fat32InitFsWith_accepts_iff :
    (∃ s', (fat32InitFsWith bootSectorSignature drive).run e s = some (true, s')) ↔
      e.fails (.load 0) = false ∧ BootSector.Accepted (Sector.bytes (s.disks drive 0)) := by
  rw [run_fat32InitFsWith_true_iff, ← bootBuffer_accepted_iff]
  exact and_congr_right fun _ => ⟨fun h => ⟨h.1, h.2⟩, fun h => ⟨h.signature, h.fields⟩⟩

/-- A byte is never `0xAA55`. -/
theorem bootSignature_ne (b : Bytes) : bootSignature b ≠ 0xAA55 := by
  have hlt := (b 66).toNat_lt
  unfold bootSignature
  omega

/-- **No boot sector passes.** -/
theorem fat32InitFsStrict_fails (e : Env) (s : Fs) (drive : Drive) :
    ∃ s', (fat32InitFsStrict drive).run e s = some (false, s') := by
  unfold fat32InitFsStrict fat32InitFsWith ataReadSector
  rw [Prog.run_bind, Prog.run_bind, Prog.run_ask, Option.bind_some]
  cases e.fails (.load 0) with
  | true => exact ⟨s, rfl⟩
  | false =>
      simp only [Bool.false_eq_true, if_false, Prog.run_bind, Prog.run_get, Option.bind_some,
        Prog.run_pure, Bool.not_true, Prog.run_modify, Prog.run_ite]
      rw [if_pos (bootSignature_ne _)]
      exact ⟨_, rfl⟩

end strict

/-! ## Where clusters are -/

namespace BootSector

variable (bs : BootSector)

/-- The sectors in front of the data, without wrap-around. -/
def metadata : Nat := bs.reservedSectorCount + bs.numberOfFats * bs.fatSize32

/-- The first sector of a cluster, counted from the start of the volume and without wrap-around. -/
def firstSector (c : Nat) : Int := ((c : Int) - 2) * bs.sectorsPerCluster + bs.metadata

/-- The sectors of a cluster are in the data region. -/
def InData (c : Nat) : Prop :=
  bs.metadata ≤ bs.firstSector c ∧ bs.firstSector c + bs.sectorsPerCluster ≤ bs.totalSectors32

/-- What a bound on cluster numbers has to do. -/
structure Bounds : Prop where
  inData : ∀ c, c < 2 ^ 32 → (bs.isValidCluster c = true ↔ bs.InData c)
  disjoint : ∀ c c', bs.isValidCluster c = true → bs.isValidCluster c' = true → c ≠ c' →
    ∀ i i' : Nat, i < bs.sectorsPerCluster → i' < bs.sectorsPerCluster →
      bs.firstSector c + i ≠ bs.firstSector c' + i'

variable {bs}

/-- The first sectors of clusters are a cluster apart. -/
theorem firstSector_disjoint (bs : BootSector) {c c' : Nat} (hne : c ≠ c') {i i' : Nat}
    (hi : i < bs.sectorsPerCluster) (hi' : i' < bs.sectorsPerCluster) :
    bs.firstSector c + i ≠ bs.firstSector c' + i' := by
  unfold firstSector
  intro h
  have hmul : ((c : Int) - c') * bs.sectorsPerCluster = i' - i := by linarith
  rcases lt_or_gt_of_ne hne with hlt | hlt
  · have hstep : ((c : Int) - c') * bs.sectorsPerCluster ≤ (-1) * bs.sectorsPerCluster :=
      mul_le_mul_of_nonneg_right (by omega) (by omega)
    omega
  · have hstep : 1 * (bs.sectorsPerCluster : Int) ≤ ((c : Int) - c') * bs.sectorsPerCluster :=
      mul_le_mul_of_nonneg_right (by omega) (by omega)
    omega

/-- The clusters of a volume that holds its metadata. -/
theorem getTotalClusters_eq (hspc : bs.sectorsPerCluster ≠ 0) (h : bs.metadata ≤ bs.totalSectors32)
    (ht : bs.totalSectors32 < 2 ^ 32) :
    bs.getTotalClusters = (bs.totalSectors32 - bs.metadata) / bs.sectorsPerCluster := by
  unfold metadata at h ⊢
  unfold getTotalClusters
  rw [if_neg hspc, u32_eq_self (by omega), usub_of_le (by omega) ht,
    usub_of_le (by omega) (by omega), Nat.sub_sub]

/-- In the data region, in terms of the number of clusters. -/
theorem inData_iff (hspc : bs.sectorsPerCluster ≠ 0) (h : bs.metadata ≤ bs.totalSectors32)
    {c : Nat} : bs.InData c
      ↔ 2 ≤ c ∧ c < 2 + (bs.totalSectors32 - bs.metadata) / bs.sectorsPerCluster := by
  have hpos : 0 < bs.sectorsPerCluster := Nat.pos_of_ne_zero hspc
  unfold InData firstSector
  constructor
  · rintro ⟨hlow, hhigh⟩
    have h2 : 2 ≤ c := by
      by_contra hc
      have hneg : ((c : Int) - 2) * bs.sectorsPerCluster < 0 :=
        mul_neg_of_neg_of_pos (by omega) (by omega)
      omega
    obtain ⟨k, rfl⟩ : ∃ k, c = 2 + k := ⟨c - 2, by omega⟩
    refine ⟨h2, Nat.add_lt_add_left ((Nat.le_div_iff_mul_le hpos).mpr ?_) 2⟩
    rw [Nat.succ_mul]
    push_cast at hhigh
    rw [show ((2 : Int) + k - 2) = k by omega] at hhigh
    have hcast : ((k * bs.sectorsPerCluster : Nat) : Int) = (k : Int) * bs.sectorsPerCluster :=
      Nat.cast_mul _ _
    omega
  · rintro ⟨h2, hlt⟩
    obtain ⟨k, rfl⟩ : ∃ k, c = 2 + k := ⟨c - 2, by omega⟩
    have hmul := (Nat.le_div_iff_mul_le hpos).mp (Nat.lt_of_add_lt_add_left hlt)
    rw [Nat.succ_mul] at hmul
    have hcast : ((k * bs.sectorsPerCluster : Nat) : Int) = (k : Int) * bs.sectorsPerCluster :=
      Nat.cast_mul _ _
    push_cast
    rw [show ((2 : Int) + k - 2) = k by omega]
    have hnonneg : (0 : Int) ≤ (k : Int) * bs.sectorsPerCluster := by omega
    omega

theorem isValidCluster_eq_true {c : Nat} (hc : c < eocMin) :
    bs.isValidCluster c = true ↔ 2 ≤ c ∧ c < bs.getTotalClusters := by
  unfold isValidCluster
  by_cases h2 : c < 2
  · rw [if_pos h2]
    exact ⟨fun h => absurd h Bool.false_ne_true, fun h => absurd h.1 (by omega)⟩
  · rw [if_neg h2, if_neg (Nat.not_le.mpr hc), decide_eq_true_eq]
    exact ⟨fun h => ⟨by omega, h⟩, fun h => h.2⟩

/-- The clusters take less than 32 bits of sectors, whatever the header says. -/
theorem getTotalClusters_mul_lt (bs : BootSector) (hspc : bs.sectorsPerCluster ≠ 0) :
    bs.getTotalClusters * bs.sectorsPerCluster < 2 ^ 32 := by
  unfold getTotalClusters
  rw [if_neg hspc]
  refine Nat.lt_of_le_of_lt (Nat.div_mul_le_self _ _) ?_
  unfold usub
  omega

end BootSector

/-- `cluster_to_sector` gives the first sector of a cluster, up to wrap-around. -/
theorem clusterToSector_firstSector {s : Fs} {c : Nat}
    (hv : s.bootSector.isValidCluster c = true) :
    (s.clusterToSector c : Int)
      = (s.partitionLbaOffset + s.bootSector.firstSector c) % 2 ^ 32 := by
  have h2 : 2 ≤ c := by
    by_contra hc
    unfold BootSector.isValidCluster at hv
    rw [if_pos (by omega)] at hv
    cases hv
  obtain ⟨k, rfl⟩ : ∃ k, c = 2 + k := ⟨c - 2, by omega⟩
  unfold Fs.clusterToSector u32 BootSector.firstSector BootSector.metadata
  dsimp only
  rw [if_pos hv, Nat.add_sub_cancel_left]
  push_cast
  rw [show ((2 : Int) + k - 2) = k by omega]
  congr 1
  omega

theorem isValidCluster_of_eocMin_le (bs : BootSector) {c : Nat} (hc : eocMin ≤ c) :
    bs.isValidCluster c = true := by
  have h2 : ¬ c < 2 := by
    unfold eocMin at hc
    omega
  unfold BootSector.isValidCluster
  rw [if_neg h2, if_pos hc]

/-- The sectors of a valid cluster that is no end mark, in the run of all of them. -/
theorem sector_of_isValidCluster {bs : BootSector} (hspc : bs.sectorsPerCluster ≠ 0) {c i : Nat}
    (hv : bs.isValidCluster c = true) (hc : c < eocMin) (hi : i < bs.sectorsPerCluster) :
    (c - 2) * bs.sectorsPerCluster + i < 2 ^ 32 ∧
      bs.firstSector c + i = bs.metadata + ((c - 2) * bs.sectorsPerCluster + i : Nat) ∧
      ∀ s : Fs, s.bootSector = bs → u32 (s.clusterToSector c + i)
        = u32 (s.partitionLbaOffset + bs.metadata + ((c - 2) * bs.sectorsPerCluster + i)) := by
  have hrun := bs.getTotalClusters_mul_lt hspc
  obtain ⟨h2, hlt⟩ := (BootSector.isValidCluster_eq_true hc).mp hv
  have hle : (c - 2 + 1) * bs.sectorsPerCluster ≤ bs.getTotalClusters * bs.sectorsPerCluster :=
    Nat.mul_le_mul_right _ (by omega)
  rw [Nat.succ_mul] at hle
  refine ⟨by omega, ?_, fun s hs => ?_⟩
  · unfold BootSector.firstSector
    push_cast [Nat.cast_sub h2]
    ring
  · unfold Fs.clusterToSector BootSector.metadata u32
    rw [hs, if_pos hv]
    omega

/-- Sectors of a run that is shorter than the numbers there are do not meet, though it wraps. -/
theorem u32_add_ne {base a b : Nat} (ha : a < 2 ^ 32) (hb : b < 2 ^ 32) (hne : a ≠ b) :
    u32 (base + a) ≠ u32 (base + b) := by
  unfold u32
  omega

/-- **Cluster geometry.** For a boot sector with fields that pass the checks: the end marks of chains
are valid; where the metadata fits the volume, every other valid cluster is in the data region, and
every cluster there that is not one of the last two is valid; different valid clusters have
different sectors, also as 32-bit numbers when they are no end marks. -/
theorem clusterGeometry {b : Bytes} (h : (BootSector.ofBytes b).Validated) :
    (∀ c, eocMin ≤ c → (BootSector.ofBytes b).isValidCluster c = true) ∧
    ((BootSector.ofBytes b).metadata ≤ (BootSector.ofBytes b).totalSectors32 → ∀ c, c < eocMin →
      ((BootSector.ofBytes b).isValidCluster c = true → (BootSector.ofBytes b).InData c) ∧
      ((BootSector.ofBytes b).InData c → (BootSector.ofBytes b).InData (c + 2) →
        (BootSector.ofBytes b).isValidCluster c = true)) ∧
    ∀ c c', (BootSector.ofBytes b).isValidCluster c = true →
      (BootSector.ofBytes b).isValidCluster c' = true → c ≠ c' →
      ∀ i i' : Nat, i < (BootSector.ofBytes b).sectorsPerCluster →
        i' < (BootSector.ofBytes b).sectorsPerCluster →
        (BootSector.ofBytes b).firstSector c + i ≠ (BootSector.ofBytes b).firstSector c' + i' ∧
        (c < eocMin → c' < eocMin → ∀ s : Fs, s.bootSector = BootSector.ofBytes b →
          u32 (s.clusterToSector c + i) ≠ u32 (s.clusterToSector c' + i')) := by
  have hspc := h.sectorsPerCluster.1
  have ht : (BootSector.ofBytes b).totalSectors32 < 2 ^ 32 := load32_lt b 32
  generalize BootSector.ofBytes b = bs at *
  refine ⟨fun c hc => isValidCluster_of_eocMin_le bs hc, fun hfits c hc => ?_,
    fun c c' hv hv' hne i i' hi hi' => ⟨bs.firstSector_disjoint hne hi hi', ?_⟩⟩
  · rw [BootSector.isValidCluster_eq_true hc, BootSector.inData_iff hspc hfits,
      BootSector.inData_iff hspc hfits, BootSector.getTotalClusters_eq hspc hfits ht]
    constructor
    · rintro ⟨h2, hlt⟩
      exact ⟨h2, by omega⟩
    · rintro ⟨h2, -⟩ ⟨-, hlt⟩
      exact ⟨h2, by omega⟩
  · intro hc hc' s hs
    obtain ⟨hlt, hfirst, hsector⟩ := sector_of_isValidCluster hspc hv hc hi
    obtain ⟨hlt', hfirst', hsector'⟩ := sector_of_isValidCluster hspc hv' hc' hi'
    have hdisjoint := bs.firstSector_disjoint hne hi hi'
    rw [hfirst, hfirst'] at hdisjoint
    rw [hsector s hs, hsector' s hs]
    exact u32_add_ne hlt hlt' fun heq => hdisjoint (by rw [heq])

/-- A signed boot sector with two FATs of one sector behind two reserved sectors, and clusters of one
sector. -/
def header (rootEntryCount totalSectors : Nat) : Bytes :=
  let b := store16 (store16 (fun _ => 0) 510 0xAA55) 11 512
  let b := store16 (store8 b 13 1) 14 2
  let b := store16 (store8 b 16 2) 17 rootEntryCount
  store32 (store32 (store32 b 32 totalSectors) 36 1) 44 2

theorem header_accepted (rootEntryCount totalSectors : Nat) :
    BootSector.Accepted (header rootEntryCount totalSectors) := by
  constructor
  · simp [bootSectorSignature, header, load16, store16, store32, store8]
  · constructor
    · simp [BootSector.ofBytes, header, load16, store16, store32, store8]
    · simp [BootSector.ofBytes, header, store16, store32, store8]
    · simp [BootSector.ofBytes, header, load32, store16, store32, store8]

/-- `clusterGeometry` for a volume of 12 sectors: cluster 7 is valid and in the data region. -/
theorem clusterGeometry_seven :
    (BootSector.ofBytes (header 0 12)).isValidCluster 7 = true ∧
      (BootSector.ofBytes (header 0 12)).InData 7 := by
  have hvalid : (BootSector.ofBytes (header 0 12)).isValidCluster 7 = true := by decide
  have hgeometry := clusterGeometry (header_accepted 0 12).fields
  exact ⟨hvalid, (hgeometry.2.1 (by decide) 7 (by decide)).1 hvalid⟩

instance (bs : BootSector) (c : Nat) : Decidable (bs.InData c) := inferInstanceAs (Decidable (_ ∧ _))

/-- The bound is no description of the data region, on boot sectors that are accepted. On a volume of
12 sectors the end mark is valid and cluster 9, the last one with sectors, is not; on a volume of one
sector, less than its metadata, cluster 5 is valid. -/
theorem not_bounds :
    (BootSector.Accepted (header 0 12) ∧ BootSector.Accepted (header 0 1)) ∧
    (¬ (BootSector.ofBytes (header 0 12)).Bounds ∧
      (BootSector.ofBytes (header 0 12)).isValidCluster eocMin = true ∧
      ¬ (BootSector.ofBytes (header 0 12)).InData eocMin ∧
      (BootSector.ofBytes (header 0 12)).isValidCluster 9 = false ∧
      (BootSector.ofBytes (header 0 12)).InData 9) ∧
    ¬ (BootSector.ofBytes (header 0 1)).Bounds ∧
      (BootSector.ofBytes (header 0 1)).isValidCluster 5 = true ∧
      ¬ (BootSector.ofBytes (header 0 1)).InData 5 := by
  have hmark : ¬ (BootSector.ofBytes (header 0 12)).InData eocMin := by decide
  have hsmall : ¬ (BootSector.ofBytes (header 0 1)).InData 5 := by decide
  refine ⟨⟨header_accepted 0 12, header_accepted 0 1⟩,
    ⟨fun h => ?_, by decide, hmark, by decide, by decide⟩, fun h => ?_, by decide, hsmall⟩
  · exact hmark ((h.inData eocMin (by decide)).mp (by decide))
  · exact hsmall ((h.inData 5 (by decide)).mp (by decide))

end MicroKernel.Fat32
