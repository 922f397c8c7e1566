import MicroKernel.Fat32.Dir

set_option autoImplicit false

/-! # Volumes

A `Volume` is the geometry that the proofs about the driver are for: 512-byte sectors, the
reserved sectors, the FAT copies and the data clusters one behind the other, all of them where a
28-bit sector number can reach, and a FAT with an entry for every cluster. The arithmetic of the
driver does not wrap on it, and the FAT copies, the clusters and the reserved sectors are
different sectors.

On top of that this file says what a disk holds: FAT entries (`Volume.rawFat`, `Volume.fat`) and
directory slots (`Volume.slot`), and the two changes that the driver makes (`Volume.setFat`,
`Volume.putCluster`) in these terms.
-/

namespace MicroKernel.Fat32

open MicroKernel.Lib Bytes

/-- The contents of a disk. -/
abbrev Disk := Nat → Sector

/-- A well-formed volume. -/
structure Volume where
  bs : BootSector
  offset : Nat
  bytesPerSector_eq : bs.bytesPerSector = 512
  sectorsPerCluster_pos : 0 < bs.sectorsPerCluster
  numberOfFats_pos : 0 < bs.numberOfFats
  rootEntryCount_eq : bs.rootEntryCount = 0
  data_le : bs.reservedSectorCount + bs.numberOfFats * bs.fatSize32 ≤ bs.totalSectors32
  stop_le : offset + bs.totalSectors32 ≤ 2 ^ 28
  fat_room : 4 * bs.getTotalClusters ≤ 512 * bs.fatSize32

namespace Volume

variable (V : Volume)

/-- The number of clusters: cluster numbers are below it. -/
def total : Nat := V.bs.getTotalClusters

/-- A cluster that exists. -/
def Has (c : Nat) : Prop := 2 ≤ c ∧ c < V.total

instance (c : Nat) : Decidable (V.Has c) := inferInstanceAs (Decidable (_ ∧ _))

/-- The sector with the entry of `c` in FAT copy `k`. -/
def fatPos (k c : Nat) : Nat := V.offset + V.bs.reservedSectorCount + k * V.bs.fatSize32 + c / 128

/-- The first data sector. -/
def dataStart : Nat :=
  V.offset + V.bs.reservedSectorCount + V.bs.numberOfFats * V.bs.fatSize32

/-- The first sector of cluster `c`. -/
def dataPos (c : Nat) : Nat := V.dataStart + (c - 2) * V.bs.sectorsPerCluster

/-- The sector of FSInfo. -/
def fsinfoPos : Nat := V.offset + V.bs.fsInfo

/-- The entries of a cluster. -/
def slots : Nat := 16 * V.bs.sectorsPerCluster

/-! ## Arithmetic -/

theorem total_eq : V.total
    = (V.bs.totalSectors32 - V.bs.reservedSectorCount - V.bs.numberOfFats * V.bs.fatSize32)
      / V.bs.sectorsPerCluster := by
  have h1 := V.data_le
  have h2 := V.stop_le
  have h3 := V.sectorsPerCluster_pos
  unfold total BootSector.getTotalClusters
  rw [if_neg (by omega), u32_eq_self (by omega),
    usub_of_le (a := V.bs.totalSectors32) (by omega) (by omega),
    usub_of_le (by omega) (by omega)]

/-- The clusters end inside the volume. -/
theorem dataStart_add_le :
    V.dataStart + V.total * V.bs.sectorsPerCluster ≤ V.offset + V.bs.totalSectors32 := by
  have h1 := V.data_le
  have h2 : V.total * V.bs.sectorsPerCluster
      ≤ V.bs.totalSectors32 - V.bs.reservedSectorCount - V.bs.numberOfFats * V.bs.fatSize32 := by
    rw [V.total_eq]
    exact Nat.div_mul_le_self _ _
  unfold dataStart
  omega

theorem total_lt : V.total < eocMin := by
  have h1 := V.dataStart_add_le
  have h2 := V.stop_le
  have h3 := V.fat_room
  have h4 : V.total * 1 ≤ V.total * V.bs.sectorsPerCluster :=
    Nat.mul_le_mul_left _ V.sectorsPerCluster_pos
  have h5 : 1 * V.bs.fatSize32 ≤ V.bs.numberOfFats * V.bs.fatSize32 :=
    Nat.mul_le_mul_right _ V.numberOfFats_pos
  unfold dataStart at h1
  change 4 * V.total ≤ _ at h3
  unfold eocMin
  omega

theorem fatPos_lt {k c : Nat} (hk : k < V.bs.numberOfFats) (hc : c < V.total) :
    V.fatPos k c < V.dataStart := by
  have h1 : (k + 1) * V.bs.fatSize32 ≤ V.bs.numberOfFats * V.bs.fatSize32 :=
    Nat.mul_le_mul_right _ hk
  have h2 := V.fat_room
  change 4 * V.total ≤ _ at h2
  rw [Nat.add_mul, Nat.one_mul] at h1
  unfold fatPos dataStart
  omega

theorem dataStart_lt : V.dataStart ≤ 2 ^ 28 := by
  have h1 := V.data_le
  have h2 := V.stop_le
  unfold dataStart
  omega

/-- The copies of the FAT and the sectors of a copy are different sectors. -/
theorem fatPos_inj {k k' c c' : Nat} (hc : c < V.total) (hc' : c' < V.total)
    (h : V.fatPos k c = V.fatPos k' c') : k = k' ∧ c / 128 = c' / 128 := by
  have h2 := V.fat_room
  change 4 * V.total ≤ _ at h2
  unfold fatPos at h
  rcases Nat.lt_trichotomy k k' with hlt | rfl | hlt
  · have : (k + 1) * V.bs.fatSize32 ≤ k' * V.bs.fatSize32 := Nat.mul_le_mul_right _ hlt
    rw [Nat.add_mul, Nat.one_mul] at this
    omega
  · exact ⟨rfl, by omega⟩
  · have : (k' + 1) * V.bs.fatSize32 ≤ k * V.bs.fatSize32 := Nat.mul_le_mul_right _ hlt
    rw [Nat.add_mul, Nat.one_mul] at this
    omega

theorem dataPos_add_lt {c i : Nat} (hc : V.Has c) (hi : i < V.bs.sectorsPerCluster) :
    V.dataPos c + i < 2 ^ 28 := by
  have h1 := V.dataStart_add_le
  have h2 := V.stop_le
  have h3 : (c - 2 + 1) * V.bs.sectorsPerCluster ≤ V.total * V.bs.sectorsPerCluster := by
    refine Nat.mul_le_mul_right _ ?_
    have := hc.2
    omega
  rw [Nat.add_mul, Nat.one_mul] at h3
  unfold dataPos
  omega

theorem dataStart_le_dataPos (c : Nat) : V.dataStart ≤ V.dataPos c := Nat.le_add_right _ _

/-- Different clusters have different sectors. -/
theorem dataPos_inj {c c' i i' : Nat} (hc : 2 ≤ c) (hc' : 2 ≤ c')
    (hi : i < V.bs.sectorsPerCluster) (hi' : i' < V.bs.sectorsPerCluster)
    (h : V.dataPos c + i = V.dataPos c' + i') : c = c' ∧ i = i' := by
  unfold dataPos at h
  rcases Nat.lt_trichotomy c c' with hlt | rfl | hlt
  · have : (c - 2 + 1) * V.bs.sectorsPerCluster ≤ (c' - 2) * V.bs.sectorsPerCluster :=
      Nat.mul_le_mul_right _ (by omega)
    rw [Nat.add_mul, Nat.one_mul] at this
    omega
  · exact ⟨rfl, by omega⟩
  · have : (c' - 2 + 1) * V.bs.sectorsPerCluster ≤ (c - 2) * V.bs.sectorsPerCluster :=
      Nat.mul_le_mul_right _ (by omega)
    rw [Nat.add_mul, Nat.one_mul] at this
    omega

/-! ## What a disk holds -/

variable (d : Disk)

/-- The 32-bit entry of cluster `c` in FAT copy `k`. -/
def rawFat (k c : Nat) : Nat := (d (V.fatPos k c)).field (c % 128 * 4)

/-- The entry of cluster `c`: the low 28 bits in the first copy. -/
def fat (c : Nat) : Nat := V.rawFat d 0 c % 2 ^ 28

/-- The bytes of cluster `c`. -/
def clusterBytes (c : Nat) : Bytes := fun x => Sector.bytes (d (V.dataPos c + x / 512)) (x % 512)

/-- Slot `j` of cluster `c`, taken as a directory. -/
def slot (c j : Nat) : DirEntry := entryAt (V.clusterBytes d c) j

/-- All copies of the FAT are the same, byte for byte. -/
def Mirrored : Prop :=
  ∀ k, k < V.bs.numberOfFats → ∀ j, j < V.bs.fatSize32 →
    d (V.offset + V.bs.reservedSectorCount + k * V.bs.fatSize32 + j)
      = d (V.offset + V.bs.reservedSectorCount + j)

/-! ## Changing a FAT entry -/

/-- The FAT sector of `c` with the new entry. -/
def patched (c v : Nat) : Sector :=
  (d (V.fatPos 0 c)).setField (c % 128 * 4) (withLow28 (V.rawFat d 0 c) v)

/-- The disk after the first `m` copies of the sector of `c` have been written with `sec`. -/
def putCopies (c : Nat) (sec : Sector) (m : Nat) : Disk := fun n =>
  if ∃ k, k < m ∧ n = V.fatPos k c then sec else d n

/-- The disk after the entry of `c` has been set to `v` in the first `m` copies. -/
def setFat (c v m : Nat) : Disk := V.putCopies d c (V.patched d c v) m

/-- The disk after the first `m` sectors of cluster `c` have been written from `b`. -/
def putCluster (c : Nat) (b : Bytes) (m : Nat) : Disk := fun n =>
  if V.dataPos c ≤ n ∧ n < V.dataPos c + m then Sector.ofBytes b (512 * (n - V.dataPos c))
  else d n

end Volume

/-! ## Fields of a sector -/

theorem Sector.field_setField_same (sec : Sector) {a : Nat} (ha : a + 4 ≤ 512) (v : Nat) :
    (sec.setField a v).field a = v % 2 ^ 32 := by
  rw [← load32_store32_same (Sector.bytes sec) a v]
  refine load32_congr fun i hi => ?_
  rw [Sector.setField, Sector.bytes_ofBytes _ _ (by omega), Nat.zero_add]

theorem Sector.field_setField_ne (sec : Sector) {a b : Nat} (hb : b + 4 ≤ 512)
    (h : a + 4 ≤ b ∨ b + 4 ≤ a) (v : Nat) : (sec.setField a v).field b = sec.field b := by
  rw [Sector.field, Sector.field, ← load32_store32_ne (Sector.bytes sec) v h]
  refine load32_congr fun i hi => ?_
  rw [Sector.setField, Sector.bytes_ofBytes _ _ (by omega), Nat.zero_add]

theorem withLow28_mod (x v : Nat) : withLow28 x v % 2 ^ 28 = v % 2 ^ 28 := by
  unfold withLow28
  omega

theorem withLow28_lt {x : Nat} (hx : x < 2 ^ 32) (v : Nat) : withLow28 x v < 2 ^ 32 := by
  unfold withLow28
  omega

namespace Volume

variable (V : Volume) (d : Disk)

theorem rawFat_lt (k c : Nat) : V.rawFat d k c < 2 ^ 32 := load32_lt _ _

/-- The entries of the patched sector. -/
theorem field_patched {c c' v : Nat} (h : c' / 128 = c / 128) :
    (V.patched d c v).field (c' % 128 * 4)
      = if c' = c then withLow28 (V.rawFat d 0 c) v else V.rawFat d 0 c' := by
  unfold patched
  by_cases hcc : c' = c
  · rw [if_pos hcc, hcc, Sector.field_setField_same _ (by omega),
      Nat.mod_eq_of_lt (withLow28_lt (V.rawFat_lt d 0 c) v)]
  · rw [if_neg hcc, Sector.field_setField_ne _ (by omega) (by omega)]
    unfold rawFat fatPos
    rw [h]

/-- The entries of the sectors that a change of the entry of `c` writes. -/
theorem rawFat_setFat_sector {c c' v m k : Nat} (hk : k < m) (h : c' / 128 = c / 128) :
    V.rawFat (V.setFat d c v m) k c'
      = if c' = c then withLow28 (V.rawFat d 0 c) v else V.rawFat d 0 c' := by
  have hpos : V.fatPos k c' = V.fatPos k c := by
    unfold fatPos
    rw [h]
  have hw : V.setFat d c v m (V.fatPos k c') = V.patched d c v := by
    rw [setFat, putCopies, if_pos ⟨k, hk, hpos⟩]
  rw [← V.field_patched d h, rawFat, hw]

/-- Every entry after a change of the entry of `c` in `m` copies. The sector of the first copy is
written to all of them, so in the copies written the neighbours of `c` are those of the first. -/
theorem rawFat_setFat {c c' v m k : Nat} (hc : c < V.total) (hc' : c' < V.total) :
    V.rawFat (V.setFat d c v m) k c'
      = if k < m ∧ c' / 128 = c / 128 then
          if c' = c then withLow28 (V.rawFat d 0 c) v else V.rawFat d 0 c'
        else V.rawFat d k c' := by
  by_cases h : k < m ∧ c' / 128 = c / 128
  · rw [if_pos h, V.rawFat_setFat_sector d h.1 h.2]
  · have hw : V.setFat d c v m (V.fatPos k c') = d (V.fatPos k c') := by
      rw [setFat, putCopies, if_neg]
      rintro ⟨j, hj, hpos⟩
      obtain ⟨rfl, h2⟩ := V.fatPos_inj hc' hc hpos
      exact h ⟨hj, h2⟩
    rw [if_neg h, rawFat, hw, rawFat]

/-- The FAT after a change that reached the first copy. -/
theorem fat_setFat {c c' v m : Nat} (hc : c < V.total) (hc' : c' < V.total) (hm : 0 < m) :
    V.fat (V.setFat d c v m) c' = if c' = c then v % 2 ^ 28 else V.fat d c' := by
  unfold fat
  rw [V.rawFat_setFat d hc hc']
  by_cases h : c' / 128 = c / 128
  · rw [if_pos ⟨hm, h⟩]
    by_cases hcc : c' = c
    · rw [if_pos hcc, if_pos hcc, withLow28_mod]
    · rw [if_neg hcc, if_neg hcc]
  · have hcc : c' ≠ c := fun e => h (by rw [e])
    rw [if_neg (fun hk => h hk.2), if_neg hcc]

@[simp] theorem setFat_zero (c v : Nat) : V.setFat d c v 0 = d := by
  funext n
  rw [setFat, putCopies, if_neg]
  rintro ⟨k, hk, -⟩
  exact absurd hk (Nat.not_lt_zero k)

/-- A change of the FAT leaves the sectors of the clusters alone. -/
theorem setFat_data {c v m n : Nat} (hc : c < V.total) (hm : m ≤ V.bs.numberOfFats)
    (hn : V.dataStart ≤ n) : V.setFat d c v m n = d n := by
  rw [setFat, putCopies, if_neg]
  rintro ⟨k, hk, rfl⟩
  have := V.fatPos_lt (k := k) (by omega) hc
  omega

/-- A change of the FAT leaves the reserved sectors alone. -/
theorem setFat_reserved {c v m n : Nat} (hn : n < V.offset + V.bs.reservedSectorCount) :
    V.setFat d c v m n = d n := by
  rw [setFat, putCopies, if_neg]
  rintro ⟨k, hk, rfl⟩
  unfold fatPos at hn
  omega

/-- On a mirrored disk it does not matter which copy is read. -/
theorem Mirrored.rawFat {V : Volume} {d : Disk} (h : V.Mirrored d) {k c : Nat}
    (hk : k < V.bs.numberOfFats) (hc : c < V.total) : V.rawFat d k c = V.rawFat d 0 c := by
  have hroom := V.fat_room
  change 4 * V.total ≤ _ at hroom
  unfold Volume.rawFat fatPos
  rw [Nat.zero_mul, Nat.add_zero, h k hk (c / 128) (by omega)]

theorem Mirrored.setFat {V : Volume} {d : Disk} (h : V.Mirrored d) {c v : Nat} (hc : c < V.total) :
    V.Mirrored (V.setFat d c v V.bs.numberOfFats) := by
  have hroom := V.fat_room
  change 4 * V.total ≤ _ at hroom
  have hpos := V.numberOfFats_pos
  intro k hk j hj
  unfold Volume.setFat putCopies
  by_cases hjc : j = c / 128
  · subst hjc
    rw [if_pos ⟨k, hk, rfl⟩, if_pos ⟨0, hpos, by unfold fatPos; omega⟩]
  · have hne : ∀ k' i, i < V.bs.numberOfFats →
        V.offset + V.bs.reservedSectorCount + k' * V.bs.fatSize32 + j ≠ V.fatPos i c := by
      intro k' i hi he
      unfold fatPos at he
      rcases Nat.lt_trichotomy k' i with hlt | rfl | hlt
      · have h3 : (k' + 1) * V.bs.fatSize32 ≤ i * V.bs.fatSize32 := Nat.mul_le_mul_right _ hlt
        rw [Nat.add_mul, Nat.one_mul] at h3
        omega
      · omega
      · have h3 : (i + 1) * V.bs.fatSize32 ≤ k' * V.bs.fatSize32 := Nat.mul_le_mul_right _ hlt
        rw [Nat.add_mul, Nat.one_mul] at h3
        omega
    have h0 := hne 0
    rw [Nat.zero_mul, Nat.add_zero] at h0
    rw [if_neg, if_neg]
    · exact h k hk j hj
    · rintro ⟨i, hi, he⟩
      exact h0 i hi he
    · rintro ⟨i, hi, he⟩
      exact hne k i hi he

/-! ## Writing a cluster -/

theorem putCluster_outside {c m n : Nat} (b : Bytes) (hn : n < V.dataPos c ∨ V.dataPos c + m ≤ n) :
    V.putCluster d c b m n = d n := by
  rw [putCluster, if_neg (by omega)]

theorem putCluster_inside {c m i : Nat} (b : Bytes) (hi : i < m) :
    V.putCluster d c b m (V.dataPos c + i) = Sector.ofBytes b (512 * i) := by
  rw [putCluster, if_pos (by omega), Nat.add_sub_cancel_left]

/-- Writing a cluster leaves everything before the data alone. -/
theorem putCluster_before {c m n : Nat} (b : Bytes) (hn : n < V.dataStart) :
    V.putCluster d c b m n = d n := by
  have := V.dataStart_le_dataPos c
  exact V.putCluster_outside d b (by omega)

theorem rawFat_putCluster {c m k c' : Nat} (b : Bytes) (hk : k < V.bs.numberOfFats)
    (hc' : c' < V.total) : V.rawFat (V.putCluster d c b m) k c' = V.rawFat d k c' := by
  unfold rawFat
  rw [V.putCluster_before d b (V.fatPos_lt hk hc')]

theorem fat_putCluster {c m c' : Nat} (b : Bytes) (hc' : c' < V.total) :
    V.fat (V.putCluster d c b m) c' = V.fat d c' := by
  unfold fat
  rw [V.rawFat_putCluster d b V.numberOfFats_pos hc']

theorem Mirrored.putCluster {V : Volume} {d : Disk} (h : V.Mirrored d) {c m : Nat} (b : Bytes) :
    V.Mirrored (V.putCluster d c b m) := by
  intro k hk j hj
  have h1 : (k + 1) * V.bs.fatSize32 ≤ V.bs.numberOfFats * V.bs.fatSize32 :=
    Nat.mul_le_mul_right _ hk
  rw [Nat.add_mul, Nat.one_mul] at h1
  rw [V.putCluster_before d b (by unfold dataStart; omega),
    V.putCluster_before d b (by unfold dataStart; omega)]
  exact h k hk j hj

/-- The slots of a cluster that has been written up to sector `m`. -/
theorem slot_putCluster_same {c m j : Nat} (b : Bytes) :
    V.slot (V.putCluster d c b m) c j
      = if j / 16 < m then entryAt b j else V.slot d c j := by
  funext i
  have hi := i.isLt
  have hx : (32 * j + i.val) / 512 = j / 16 := by omega
  have hy : (32 * j + i.val) % 512 < 512 := Nat.mod_lt _ (by decide)
  split
  next hm =>
      rw [slot, entryAt, clusterBytes, hx, V.putCluster_inside d b hm,
        Sector.bytes_ofBytes _ _ hy, entryAt]
      congr 1
      omega
  next hm =>
      rw [slot, entryAt, clusterBytes, hx, V.putCluster_outside d b (by omega), slot, entryAt,
        clusterBytes, hx]

/-- The slots of the other clusters. -/
theorem slot_putCluster_ne {c c' m j : Nat} (b : Bytes) (hc : 2 ≤ c) (hc' : 2 ≤ c')
    (hcc : c' ≠ c) (hm : m ≤ V.bs.sectorsPerCluster) (hj : j < V.slots) :
    V.slot (V.putCluster d c b m) c' j = V.slot d c' j := by
  unfold slots at hj
  funext i
  have hi := i.isLt
  have hx : (32 * j + i.val) / 512 = j / 16 := by omega
  rw [slot, entryAt, clusterBytes, hx, V.putCluster_outside d b, slot, entryAt, clusterBytes, hx]
  by_contra hn
  obtain ⟨i', hi', he⟩ : ∃ i', i' < m ∧ V.dataPos c' + j / 16 = V.dataPos c + i' :=
    ⟨V.dataPos c' + j / 16 - V.dataPos c, by omega, by omega⟩
  exact hcc (V.dataPos_inj hc' hc (by omega) (by omega) he).1

/-- A change of the FAT changes no cluster. -/
theorem clusterBytes_setFat {c v m : Nat} (hc : c < V.total) (hm : m ≤ V.bs.numberOfFats)
    (c' : Nat) : V.clusterBytes (V.setFat d c v m) c' = V.clusterBytes d c' := by
  funext x
  unfold clusterBytes
  have := V.dataStart_le_dataPos c'
  rw [V.setFat_data d hc hm (by omega)]

theorem slot_setFat {c v m c' j : Nat} (hc : c < V.total) (hm : m ≤ V.bs.numberOfFats) :
    V.slot (V.setFat d c v m) c' j = V.slot d c' j := by
  unfold slot
  rw [V.clusterBytes_setFat d hc hm]

/-! ## Writing one slot -/

end Volume

theorem entryAt_setEntry (b : Bytes) (j j' : Nat) (x : DirEntry) :
    entryAt (setEntry b j x) j' = if j' = j then x else entryAt b j' := by
  funext i
  have hi := i.isLt
  unfold entryAt setEntry
  by_cases hj : j' = j
  · subst hj
    rw [dif_pos (by omega), if_pos rfl]
    congr 1
    ext
    simp
  · rw [dif_neg (by omega), if_neg hj]

namespace Volume

variable (V : Volume) (d : Disk)

/-- The disk after slot `j` of cluster `c` has been replaced. -/
def putSlot (c j : Nat) (x : DirEntry) : Disk :=
  Function.update d (V.dataPos c + j / 16)
    (Sector.ofBytes (setEntry (V.clusterBytes d c) j x) (512 * (j / 16)))

/-- Writing back a cluster in which one slot has been replaced changes that slot, if the write
gets as far as its sector, and nothing else. -/
theorem putCluster_setEntry {c j m : Nat} (x : DirEntry) {b : Bytes}
    (hb : ∀ y, y / 512 < m → b y = V.clusterBytes d c y) :
    V.putCluster d c (setEntry b j x) m = if j / 16 < m then V.putSlot d c j x else d := by
  -- the sectors without the slot are written as they were
  have hsame : ∀ i, i < m → i ≠ j / 16 →
      Sector.ofBytes (setEntry b j x) (512 * i) = d (V.dataPos c + i) := by
    intro i hi hne
    funext y
    have hy := y.isLt
    unfold Sector.ofBytes setEntry
    rw [dif_neg (by omega), hb _ (by omega), clusterBytes]
    rw [show (512 * i + y.val) / 512 = i by omega, show (512 * i + y.val) % 512 = y.val by omega]
    simp [Sector.bytes]
  funext n
  by_cases hn : V.dataPos c ≤ n ∧ n < V.dataPos c + m
  · obtain ⟨i, rfl⟩ := Nat.exists_eq_add_of_le hn.1
    have hi : i < m := by omega
    rw [V.putCluster_inside d _ hi]
    by_cases hj : i = j / 16
    · subst hj
      rw [if_pos hi, putSlot, Function.update_self]
      refine Sector.ofBytes_congr fun y hy => ?_
      unfold setEntry
      split
      · rfl
      · exact hb _ (by omega)
    · rw [hsame i hi hj]
      split
      · rw [putSlot, Function.update_of_ne (by omega)]
      · rfl
  · rw [V.putCluster_outside d _ (by omega)]
    split
    · rw [putSlot, Function.update_of_ne (by omega)]
    · rfl

theorem putSlot_eq_putCluster {c j : Nat} (x : DirEntry) (hj : j < V.slots) :
    V.putSlot d c j x
      = V.putCluster d c (setEntry (V.clusterBytes d c) j x) V.bs.sectorsPerCluster := by
  unfold slots at hj
  rw [V.putCluster_setEntry d x (fun y _ => rfl), if_pos (by omega)]

theorem slot_putSlot_same {c j j' : Nat} (x : DirEntry) (hj : j < V.slots) :
    V.slot (V.putSlot d c j x) c j' = if j' = j then x else V.slot d c j' := by
  rw [V.putSlot_eq_putCluster d x hj, slot_putCluster_same, entryAt_setEntry]
  unfold slots at hj
  by_cases hj' : j' = j
  · rw [if_pos (by omega)]
    rfl
  · rw [if_neg hj', if_neg hj']
    exact ite_self _

theorem slot_putSlot_ne {c c' j j' : Nat} (x : DirEntry) (hj : j < V.slots) (hc : 2 ≤ c)
    (hc' : 2 ≤ c') (hcc : c' ≠ c) (hj' : j' < V.slots) :
    V.slot (V.putSlot d c j x) c' j' = V.slot d c' j' := by
  rw [V.putSlot_eq_putCluster d x hj]
  exact V.slot_putCluster_ne d _ hc hc' hcc (Nat.le_refl _) hj'

/-- The slots of a disk on which one slot has been written. -/
theorem slot_putSlot {c c' j j' : Nat} (x : DirEntry) (hj : j < V.slots) (hc : 2 ≤ c)
    (hc' : 2 ≤ c') (hj' : j' < V.slots) :
    V.slot (V.putSlot d c j x) c' j' = if c' = c ∧ j' = j then x else V.slot d c' j' := by
  by_cases hcc : c' = c
  · subst hcc
    rw [V.slot_putSlot_same d x hj]
    simp only [true_and]
  · rw [V.slot_putSlot_ne d x hj hc hc' hcc hj', if_neg fun hn => hcc hn.1]

theorem fat_putSlot {c j c' : Nat} (x : DirEntry) (hj : j < V.slots) (hc' : c' < V.total) :
    V.fat (V.putSlot d c j x) c' = V.fat d c' := by
  rw [V.putSlot_eq_putCluster d x hj]
  exact V.fat_putCluster d _ hc'

end Volume

end MicroKernel.Fat32
