import MicroKernel.Fat12.Checked
import MicroKernel.Fat12.Chs
import MicroKernel.Fat12.Entries
import MicroKernel.Lib.Chain
import MicroKernel.Lib.Frame
import MicroKernel.Vfs.ReadContract

set_option autoImplicit false

/-! # Reading a file of a floppy

`fat12_read_file` starts at the first cluster of the file whatever the position is, takes the
position modulo the size of a cluster for an offset into the first sector it reads, and goes on to
the next cluster with an entry of the FAT that it may take from the wrong half. `run_fat12ReadFile`
is for the calls in which none of this shows: the position is in the first sector of the file, and
the clusters that are passed over have numbers that leave a remainder of at most one by four.
-/

namespace MicroKernel.Fat12

open MicroKernel.Lib Bytes
open MicroKernel.Fat32 (Sector Env Label)

/-! ## Volumes -/

/-- A well-formed volume: the structure in memory, with sectors that a head, a track and a sector
number of one byte each can reach, and a FAT with an entry for every cluster. -/
structure Volume where
  fat12 : Fat12T
  fat : Bytes
  clusters : Nat
  fat_eq : fat12.fat = some fat
  bytesPerSector_eq : fat12.bootSector.bytesPerSector = 512
  dataStart_eq : fat12.dataStart = fat12.bootSector.reservedSectors
    + fat12.bootSector.fatCount * fat12.bootSector.sectorsPerFat
    + (fat12.bootSector.rootEntryCount * 32 + 511) / 512
  sectorsPerCluster_pos : 0 < fat12.bootSector.sectorsPerCluster
  sectorsPerCluster_le : fat12.bootSector.sectorsPerCluster ≤ 128
  spt_lt : (geometry (some fat12)).spt < 256
  heads_le : (geometry (some fat12)).heads ≤ 256
  clusters_lt : clusters < 4085
  stop_le : fat12.dataStart + clusters * fat12.bootSector.sectorsPerCluster
    ≤ 256 * ((geometry (some fat12)).spt * (geometry (some fat12)).heads)
  fat_room : (clusters + 2) * 3 ≤ fat12.bootSector.sectorsPerFat * 1024

namespace Volume

variable (V : Volume)

/-- The geometry that the driver goes by. -/
def geo : Geometry := geometry (some V.fat12)

/-- The sectors of a cluster. -/
def spc : Nat := V.fat12.bootSector.sectorsPerCluster

/-- The bytes of a cluster. -/
def clusterSize : Nat := 512 * V.spc

/-- A cluster that exists. -/
def Has (c : Nat) : Prop := 2 ≤ c ∧ c < V.clusters + 2

instance (c : Nat) : Decidable (V.Has c) := inferInstanceAs (Decidable (_ ∧ _))

/-- The first sector of cluster `c`. -/
def dataPos (c : Nat) : Nat := V.fat12.dataStart + (c - 2) * V.spc

/-- Logical sector `n` of the floppy in the drive. -/
def sector (s : State) (n : Nat) : Sector :=
  let spt := V.geo.spt
  let heads := V.geo.heads
  s.floppies (s.currentFddDrive % 256) (n / spt % heads) (n / (spt * heads)) (n % spt + 1)

/-- The bytes of cluster `c`. -/
def clusterBytes (s : State) (c : Nat) : Bytes :=
  joined 512 fun i => Sector.bytes (V.sector s (V.dataPos c + i))

/-- The bytes of the clusters `l`, one cluster behind the other. -/
def fileBytes (s : State) (l : List Nat) : Bytes :=
  joined V.clusterSize fun k => V.clusterBytes s (l.getD k 0)

/-- The entry of cluster `c`: twelve bits, of which an even cluster has the low ones. -/
def entry (c : Nat) : Nat :=
  if c % 2 = 0 then load16 V.fat (c * 3 / 2) % 4096 else load16 V.fat (c * 3 / 2) / 16

/-- Where the chain goes after cluster `c`. -/
def link (c : Nat) : Link Nat :=
  if V.Has c then if 0xFF8 ≤ V.entry c then .stop else .next (V.entry c) else .broken

/-- The volume is the one that the driver has in memory. -/
def On (s : State) : Prop := s.fat12 = some V.fat12

variable {V}

/-! ## Sectors -/

theorem fileBytes_sector {s : State} {l₁ l₂ : List Nat} {c i k : Nat} (hi : i < V.spc)
    (hk : k < 512) :
    V.fileBytes s (l₁ ++ c :: l₂) (l₁.length * V.clusterSize + 512 * i + k)
      = Sector.bytes (V.sector s (V.dataPos c + i)) k := by
  have hin : 512 * i + k < V.clusterSize := by
    unfold clusterSize
    omega
  have hget : (l₁ ++ c :: l₂).getD l₁.length 0 = c := by simp
  unfold fileBytes
  rw [Nat.add_assoc, joined_apply _ hin, hget, Nat.mul_comm]
  exact joined_apply _ hk

/-- The sectors of a cluster are sectors that can be addressed. -/
theorem dataPos_add_lt {c i : Nat} (hc : V.Has c) (hi : i < V.spc) : V.dataPos c + i
    < 256 * (V.geo.spt * V.geo.heads) := by
  have h1 : _ ≤ 256 * (V.geo.spt * V.geo.heads) := V.stop_le
  have h2 : (c - 2 + 1) * V.spc ≤ V.clusters * V.spc := by
    refine Nat.mul_le_mul_right _ ?_
    have := hc.1
    have := hc.2
    omega
  rw [Nat.add_mul, Nat.one_mul] at h2
  change V.fat12.dataStart + V.clusters * V.spc ≤ _ at h1
  unfold dataPos
  omega

theorem geometry_lt : 256 * (V.geo.spt * V.geo.heads) < 2 ^ 31 := by
  have h : V.geo.spt * V.geo.heads ≤ 255 * 256 :=
    Nat.mul_le_mul (Nat.le_of_lt_succ V.spt_lt) V.heads_le
  omega

/-- **The read of a logical sector.** -/
theorem run_readLogical {e : Env} {s : State} (h : V.On s) {l : Label} (hl : e.fails l = false)
    {n : Nat} (hn : n < 256 * (V.geo.spt * V.geo.heads))
    (buffer : Bytes) :
    (readLogical l s.currentFddDrive n buffer 0).run e s
      = some ((true, copy buffer 0 (Sector.bytes (V.sector s n)) 0 512), s) := by
  have hchs : logicalToChs s.fat12 n
      = (n / (V.geo.spt * V.geo.heads), n / V.geo.spt % V.geo.heads, n % V.geo.spt + 1) := by
    have hlt := V.geometry_lt
    have hgeometry : geometry s.fat12 = V.geo := congrArg geometry h
    rw [logicalToChs_eq (by rw [hgeometry]; omega) (by omega), hgeometry]
    rfl
  -- each of the three numbers is a byte
  have htrack : n / (V.geo.spt * V.geo.heads) < 256 :=
    Nat.div_lt_of_lt_mul (by rwa [Nat.mul_comm] at hn)
  have hhead : n / V.geo.spt % V.geo.heads < 256 :=
    Nat.lt_of_lt_of_le (Nat.mod_lt _ V.geo.heads_pos) V.heads_le
  have hsector : n % V.geo.spt + 1 < 256 :=
    Nat.lt_of_le_of_lt (Nat.mod_lt _ V.geo.spt_pos) V.spt_lt
  unfold readLogical
  rw [Prog.run_bind, Prog.run_get, Option.bind_some]
  dsimp only
  rw [hchs]
  dsimp only
  unfold fdcReadWithFallback
  rw [Prog.run_bind, Prog.run_ask, Option.bind_some, hl, Prog.run_ite, if_neg (by simp),
    Prog.run_bind, Prog.run_get, Option.bind_some, Nat.mod_eq_of_lt htrack, Nat.mod_eq_of_lt hhead,
    Nat.mod_eq_of_lt hsector]
  rfl

/-! ## The FAT -/

theorem has_of_link {c : Nat} (h : V.link c ≠ .broken) : V.Has c := by
  by_contra hno
  apply h
  unfold link
  rw [if_neg hno]

/-- A file is smaller than `2 ^ 28`. -/
theorem clusters_size_lt {l : List Nat} (hlen : l.length ≤ V.clusters + 2) :
    l.length * V.clusterSize < 2 ^ 28 := by
  have hlt := V.clusters_lt
  calc l.length * V.clusterSize
      ≤ 4087 * (512 * 128) := Nat.mul_le_mul (by omega) (Nat.mul_le_mul_left _ V.sectorsPerCluster_le)
    _ < 2 ^ 28 := by decide

theorem Has.isValid {c : Nat} (hc : V.Has c) : isValidClusterFat12 c = true := by
  simp only [isValidClusterFat12, Bool.and_eq_true, decide_eq_true_eq]
  have := V.clusters_lt
  have := hc.1
  have := hc.2
  omega

/-- Which half of the three bytes is looked at is right for clusters that leave a remainder of at
most one by four. -/
theorem getNextCluster_eq {c : Nat} (hc : V.Has c) (h4 : c % 4 < 2) :
    getNextCluster (some V.fat12) c = nextOf (V.entry c) := by
  have hroom := V.fat_room
  have hin : c * 3 / 2 + 1 < V.fat12.bootSector.sectorsPerFat * 512 := by
    have := hc.2
    omega
  exact (getNextCluster_iff V.fat_eq hc.isValid hin).mpr (Or.inl h4)

theorem getNextCluster_next {c c' : Nat} (hn : V.link c = .next c') (hc' : V.Has c')
    (h4 : c % 4 < 2) : getNextCluster (some V.fat12) c = some c' := by
  unfold link at hn
  split at hn
  next hc =>
    split at hn
    next => cases hn
    next hend =>
      obtain rfl : V.entry c = c' := by
        cases hn
        rfl
      have hlt := V.clusters_lt
      have h1 := hc'.1
      have h2 := hc'.2
      rw [getNextCluster_eq hc h4, nextOf, if_neg, if_neg (by omega), if_neg (by omega)]
      simp only [isEndOfChainFat12, Bool.and_eq_true, decide_eq_true_eq]
      omega
  next => cases hn

end Volume

/-- `get_next_cluster` leads from each cluster of the list to the next one, as far as that matters
for the bytes before `stop`. -/
structure Volume.Finds (V : Volume) (l : List Nat) (stop : Nat) : Prop where
  has : ∀ c, c ∈ l → V.Has c
  next : ∀ j, (j + 1) * V.clusterSize < stop →
    getNextCluster (some V.fat12) (l.getD j 0) = some (l.getD (j + 1) 0)

/-- The clusters of a chain are found if those that are passed over have their entries where they
are looked for. -/
theorem Volume.finds_of_chain {V : Volume} {c : Nat} {l : List Nat} (hl : Chain V.link c l)
    {stop : Nat} (hroom : stop ≤ l.length * V.clusterSize)
    (hgood : ∀ j, (j + 1) * V.clusterSize < stop → l.getD j 0 % 4 < 2) : V.Finds l stop where
  has := fun x hx => Volume.has_of_link (hl.link_ne_broken hx)
  next := by
    intro j hj
    have hlt : j + 1 < l.length := Nat.lt_of_mul_lt_mul_right (Nat.lt_of_lt_of_le hj hroom)
    have hmem : l.getD (j + 1) 0 ∈ l := by
      rw [List.getD_eq_getElem _ _ hlt]
      exact List.getElem_mem hlt
    exact Volume.getNextCluster_next (hl.link_getD 0 hlt)
      (Volume.has_of_link (hl.link_ne_broken hmem)) (hgood j hj)

/-! ## The loops -/

section loops

variable {V : Volume} {e : Env} {s : State} {p n : Nat} (file : Nat)

theorem State.advanced_advanced (s : State) (a b : Nat) :
    (s.advanced file a).advanced file b = s.advanced file (a + b) := by
  refine State.ext rfl rfl rfl (funext fun x => ?_) rfl rfl
  unfold State.advanced
  dsimp only
  by_cases hx : x = file
  · rw [if_pos hx, if_pos hx, if_pos hx, Option.map_map]
    cases s.files x with
    | none => rfl
    | some f =>
        simp only [Option.map_some, Function.comp_apply, u32, Option.some.injEq, File.mk.injEq,
          true_and]
        omega
  · simp only [if_neg hx]

variable {file} in
theorem State.advanced_zero {f : File} (hf : s.files file = some f) (hp : f.position < 2 ^ 32) :
    s.advanced file 0 = s := by
  refine State.ext rfl rfl rfl (funext fun x => ?_) rfl rfl
  unfold State.advanced
  dsimp only
  by_cases hx : x = file
  · simp only [hx, if_true, hf, Option.map_some, Nat.add_zero, u32_eq_self hp]
  · rw [if_neg hx]

/-- One turn of the loop over the sectors of a cluster: the part of sector `i` from `offset` on is
copied behind the bytes that are there. -/
theorem run_readFileSectors_step (he : e.Reliable) (h : V.On s) {c : Nat} (hc : V.Has c)
    {m i bytesRead offset now : Nat} (hi : i < V.spc) (hmore : bytesRead < n)
    (hoff : offset = if bytesRead = 0 then p else 0) (h512 : offset < 512)
    (hnow : now = min (n - bytesRead) (512 - offset)) (buffer sectorBuffer : Bytes) :
    (readFileSectorsChecked file p (V.dataPos c) n (m + 1) i bytesRead buffer sectorBuffer).run e s
      = (readFileSectorsChecked file p (V.dataPos c) n m (i + 1) (bytesRead + now)
          (copy buffer bytesRead (copy sectorBuffer 0
            (Sector.bytes (V.sector s (V.dataPos c + i))) 0 512) offset now)
          (copy sectorBuffer 0 (Sector.bytes (V.sector s (V.dataPos c + i))) 0 512)).run e
            (s.advanced file now) := by
  have hpos := Volume.dataPos_add_lt hc hi
  have hlt := Volume.geometry_lt (V := V)
  have hcut : (if n - bytesRead < usub 512 offset then n - bytesRead else usub 512 offset) = now := by
    rw [usub_of_le (by omega) (by omega)]
    split <;> omega
  rw [readFileSectorsChecked, Prog.run_ite, if_neg (by omega), Prog.run_bind, Prog.run_get,
    Option.bind_some]
  dsimp only
  rw [u32_eq_self (show V.dataPos c + i < 2 ^ 32 by omega), Prog.run_bind,
    Volume.run_readLogical h (he _) hpos, Option.bind_some]
  dsimp only
  rw [Prog.run_ite, if_neg (by simp), ← hoff, hcut,
    Prog.run_bind_of_some _ _ (Prog.run_check_of (by omega) e s)]
  rfl

/-- The loop over the sectors of the cluster behind the clusters `l₁`. -/
theorem run_readFileSectors (he : e.Reliable) (h : V.On s) {c : Nat} (hc : V.Has c)
    {l₁ l₂ : List Nat} (hp : p < 512) {m i bytesRead : Nat} (hm : i + m = V.spc)
    (hr : bytesRead = min n (l₁.length * V.clusterSize + 512 * i - p)) {buffer : Bytes}
    (sectorBuffer : Bytes) (hb : Filled buffer (V.fileBytes s (l₁ ++ c :: l₂)) p bytesRead) :
    ∃ total buffer' sectorBuffer', total = min n ((l₁.length + 1) * V.clusterSize - p) ∧
      Filled buffer' (V.fileBytes s (l₁ ++ c :: l₂)) p total ∧
      (readFileSectorsChecked file p (V.dataPos c) n m i bytesRead buffer sectorBuffer).run e
          (s.advanced file bytesRead)
        = some ((true, total, buffer', sectorBuffer'), s.advanced file total) := by
  have hend : (l₁.length + 1) * V.clusterSize = l₁.length * V.clusterSize + 512 * V.spc := by
    rw [Nat.add_mul, Nat.one_mul]
    rfl
  induction m generalizing i bytesRead buffer sectorBuffer with
  | zero =>
      refine ⟨bytesRead, buffer, sectorBuffer, ?_, hb, rfl⟩
      rw [hr, hend, ← hm, Nat.add_zero]
  | succ m ih =>
      have hi : i < V.spc := by omega
      rcases Nat.lt_or_ge bytesRead n with hmore | hdone
      · -- the sector starts where the bytes that are there end, but for the position in the first
        obtain ⟨offset, hoff⟩ : ∃ offset, offset = if bytesRead = 0 then p else 0 := ⟨_, rfl⟩
        obtain ⟨now, hnow⟩ : ∃ now, now = min (n - bytesRead) (512 - offset) := ⟨_, rfl⟩
        have hplace : l₁.length * V.clusterSize + 512 * i + offset = p + bytesRead := by
          by_cases h0 : l₁.length * V.clusterSize + 512 * i = 0
          · rw [if_pos (by omega)] at hoff
            omega
          · have h512 : 512 ≤ l₁.length * V.clusterSize + 512 * i := by
              rcases Nat.eq_zero_or_pos i with rfl | hipos
              · have h1 : 1 ≤ l₁.length := by
                  by_contra h1
                  rw [show l₁.length = 0 by omega] at h0
                  simp at h0
                calc 512 ≤ V.clusterSize := by unfold Volume.clusterSize; omega
                  _ = 1 * V.clusterSize := (Nat.one_mul _).symm
                  _ ≤ l₁.length * V.clusterSize + 512 * 0 := Nat.mul_le_mul_right _ h1
              · omega
            rw [if_neg (by omega)] at hoff
            omega
        have h512 : offset < 512 := by
          rw [hoff]
          split <;> omega
        have hnext : bytesRead + now
            = min n (l₁.length * V.clusterSize + 512 * (i + 1) - p) := by omega
        have hfill := hb.copy (n := now) (copy sectorBuffer 0
          (Sector.bytes (V.sector s (V.dataPos c + i))) 0 512) offset fun k hk => by
            rw [copy_inside _ _ _ (by omega) (by omega), ← hplace, Nat.add_assoc _ offset k,
              Volume.fileBytes_sector hi (by omega)]
            simp
        rw [run_readFileSectors_step file he (s := s.advanced file bytesRead) h hc hi hmore hoff h512
            hnow,
          State.advanced_advanced]
        exact ih (by omega) hnext _ hfill
      · refine ⟨bytesRead, buffer, sectorBuffer, by omega, hb, ?_⟩
        rw [readFileSectorsChecked, Prog.run_ite, if_pos hdone]
        rfl

/-- The loop along the chain ends when everything is there. -/
theorem run_readFileLoop_done {startOffset k j c bytesRead : Nat} (hdone : n ≤ bytesRead)
    (buffer sectorBuffer : Bytes) :
    (readFileLoopChecked file startOffset n (k + 1) j c bytesRead buffer sectorBuffer).run e s
      = some ((true, bytesRead, buffer), s) := by
  rw [readFileLoopChecked, Prog.run_ite, if_pos (by omega)]
  rfl

/-- One turn of it: the cluster behind the clusters `l₁`. -/
theorem run_readFileLoop_step (he : e.Reliable) (h : V.On s) {c : Nat} (hc : V.Has c)
    {l₁ l₂ : List Nat} (hp : p < 512) {k j bytesRead : Nat} (hmore : bytesRead < n)
    (hr : bytesRead = min n (l₁.length * V.clusterSize - p)) {buffer : Bytes} (sectorBuffer : Bytes)
    (hb : Filled buffer (V.fileBytes s (l₁ ++ c :: l₂)) p bytesRead) :
    ∃ total buffer' sectorBuffer', total = min n ((l₁.length + 1) * V.clusterSize - p) ∧
      Filled buffer' (V.fileBytes s (l₁ ++ c :: l₂)) p total ∧
      (readFileLoopChecked file p n (k + 1) j c bytesRead buffer sectorBuffer).run e
          (s.advanced file bytesRead)
        = match getNextCluster (some V.fat12) c with
          | none => some ((true, total, buffer'), s.advanced file total)
          | some next => (readFileLoopChecked file p n k (j + 1) next total buffer'
              sectorBuffer').run e (s.advanced file total) := by
  have hstart : bytesRead = min n (l₁.length * V.clusterSize + 512 * 0 - p) := by simpa using hr
  obtain ⟨total, buffer', sectorBuffer', htotal, hfill, hrun⟩ := run_readFileSectors file (e := e.enter
    (.cluster j)) he h hc hp (Nat.zero_add V.spc) hstart sectorBuffer hb
  refine ⟨total, buffer', sectorBuffer', htotal, hfill, ?_⟩
  have hpos := Volume.dataPos_add_lt hc (show 0 < V.spc from V.sectorsPerCluster_pos)
  have hlt := Volume.geometry_lt (V := V)
  -- the loop goes on: `c` is no end marker
  have hvalid : bytesRead < n ∧ 2 ≤ c ∧ c < 0xFF7 := by
    have := V.clusters_lt
    have := hc.1
    have := hc.2
    omega
  rw [readFileLoopChecked, Prog.run_ite, if_neg (not_not.mpr hvalid), Prog.run_bind, Prog.run_get,
    Option.bind_some]
  dsimp only
  rw [show (s.advanced file bytesRead).fat12 = some V.fat12 from h]
  dsimp only
  rw [Prog.run_bind]
  change Option.bind ((readFileSectorsChecked file p (u32 (V.dataPos c)) n V.spc 0 bytesRead buffer
    sectorBuffer).run (e.enter (.cluster j)) (s.advanced file bytesRead)) _ = _
  rw [u32_eq_self (by omega), hrun, Option.bind_some]
  dsimp only
  rw [Prog.run_ite, if_neg (by simp)]
  cases getNextCluster (some V.fat12) c with
  | none => rfl
  | some next => rfl

/-- The last cluster that is needed: what its entry says does not matter. -/
theorem run_readFileLoop_last (he : e.Reliable) (h : V.On s) {c : Nat} (hc : V.Has c)
    {l₁ l₂ : List Nat} (hp : p < 512) {k j bytesRead : Nat} (hmore : bytesRead < n)
    (hend : p + n ≤ (l₁.length + 1) * V.clusterSize)
    (hr : bytesRead = min n (l₁.length * V.clusterSize - p)) {buffer : Bytes} (sectorBuffer : Bytes)
    (hb : Filled buffer (V.fileBytes s (l₁ ++ c :: l₂)) p bytesRead) :
    ∃ buffer', Filled buffer' (V.fileBytes s (l₁ ++ c :: l₂)) p n ∧
      (readFileLoopChecked file p n (k + 1 + 1) j c bytesRead buffer sectorBuffer).run e
          (s.advanced file bytesRead) = some ((true, n, buffer'), s.advanced file n) := by
  obtain ⟨total, buffer', sectorBuffer', htotal, hfill, hrun⟩ :=
    run_readFileLoop_step file (k := k + 1) (j := j) he h hc hp hmore hr sectorBuffer hb
  have hall : total = n := by omega
  rw [hall] at hfill hrun
  refine ⟨buffer', hfill, ?_⟩
  rw [hrun]
  cases getNextCluster (some V.fat12) c with
  | none => rfl
  | some next => exact run_readFileLoop_done file (Nat.le_refl n) _ _

/-- The loop along the chain, from the cluster behind the clusters `l₁` on. -/
theorem run_readFileLoop (he : e.Reliable) (h : V.On s) {c : Nat} (l₁ : List Nat) {l : List Nat}
    (hl : V.Finds (l₁ ++ c :: l) (p + n)) (hp : p < 512)
    (hroom : p + n ≤ (l₁ ++ c :: l).length * V.clusterSize) {k j bytesRead : Nat}
    (hk : l.length + 2 ≤ k) (hmore : bytesRead < n)
    (hr : bytesRead = min n (l₁.length * V.clusterSize - p)) {buffer : Bytes} (sectorBuffer : Bytes)
    (hb : Filled buffer (V.fileBytes s (l₁ ++ c :: l)) p bytesRead) :
    ∃ buffer', Filled buffer' (V.fileBytes s (l₁ ++ c :: l)) p n ∧
      (readFileLoopChecked file p n k j c bytesRead buffer sectorBuffer).run e
          (s.advanced file bytesRead)
        = some ((true, n, buffer'), s.advanced file n) := by
  obtain ⟨k, rfl⟩ : ∃ k', k = k' + 1 + 1 := ⟨k - 2, by omega⟩
  have hc := hl.has c (by simp)
  induction l generalizing c k j bytesRead buffer sectorBuffer l₁ with
  | nil =>
      rw [List.length_append, List.length_singleton] at hroom
      exact run_readFileLoop_last file he h hc hp hmore hroom hr sectorBuffer hb
  | cons c' l ih =>
      rcases Nat.lt_or_ge ((l₁.length + 1) * V.clusterSize) (p + n) with hlt | hend
      · -- the read goes on behind this cluster, with the cluster that comes next in the list
        obtain ⟨total, buffer', sectorBuffer', htotal, hfill, hrun⟩ :=
          run_readFileLoop_step file (k := k + 1) (j := j) he h hc hp hmore hr sectorBuffer hb
        have hnext : getNextCluster (some V.fat12) c = some c' := by
          simpa using hl.next l₁.length hlt
        have hshift : l₁ ++ c :: c' :: l = (l₁ ++ [c]) ++ c' :: l := by simp
        rw [hshift] at hfill hroom hl ⊢
        rw [hrun, hnext]
        rw [List.length_cons] at hk
        obtain ⟨k, rfl⟩ : ∃ k', k = k' + 1 := ⟨k - 1, by omega⟩
        exact ih (l₁ ++ [c]) hl hroom (by omega) (by simpa using htotal) sectorBuffer' hfill k
          (by omega) (hl.has c' (by simp))
      · exact run_readFileLoop_last file he h hc hp hmore hend hr sectorBuffer hb

end loops

/-! ## `fat12_read_file` -/

/-- The open file `f` has the clusters `l`, which have room for it. A file without bytes need not
have a cluster. -/
structure Volume.HasFile (V : Volume) (f : File) (l : List Nat) : Prop where
  chain : 0 < f.size → Chain V.link f.startCluster l
  room : f.size ≤ l.length * V.clusterSize

section readFile

variable {V : Volume} {e : Env} {s : State} {file : Nat} {f : File} {l : List Nat}

/-- The clusters of an open file: the list starts with the cluster of the handle, visits no more
clusters than there are and has room for the file. -/
structure Volume.Lists (V : Volume) (f : File) (l : List Nat) : Prop where
  head : ∃ l', l = f.startCluster :: l'
  length_le : l.length ≤ V.clusters + 2
  room : f.size ≤ l.length * V.clusterSize

theorem Volume.Lists.size_lt (hl : V.Lists f l) : f.size < 2 ^ 28 :=
  Nat.lt_of_le_of_lt hl.room (clusters_size_lt hl.length_le)

theorem Volume.HasFile.lists (hf : V.HasFile f l) (hpos : 0 < f.size) : V.Lists f l where
  head := (hf.chain hpos).eq_cons
  length_le := (hf.chain hpos).length_le fun _ hx =>
    (Volume.has_of_link ((hf.chain hpos).link_ne_broken hx)).2
  room := hf.room

theorem Volume.HasFile.size_lt (hf : V.HasFile f l) : f.size < 2 ^ 28 := by
  rcases Nat.eq_zero_or_pos f.size with h0 | hpos
  · rw [h0]
    decide
  · exact (hf.lists hpos).size_lt

/-- At the end of the file nothing is read. -/
theorem run_fat12ReadFileChecked_end (h : V.On s) (hs : s.files file = some f)
    (hsize : f.size < 2 ^ 28) {bufferSize bytesToRead : Nat}
    (hend : bufferSize = 0 ∨ bytesToRead = 0 ∨
      (f.position = f.size ∧ f.position + bytesToRead < 2 ^ 32)) (buffer : Bytes) :
    (fat12ReadFileChecked file buffer bufferSize bytesToRead).run e s = some ((0, buffer), s) := by
  unfold fat12ReadFileChecked
  rw [Prog.run_bind, Prog.run_get, Option.bind_some]
  dsimp only
  rw [hs, show s.fat12 = _ from h]
  dsimp only
  rw [V.fat_eq, Prog.run_ite, if_neg (by simp), Prog.run_ite]
  by_cases hnone : bufferSize = 0 ∨ bytesToRead = 0
  · rw [if_pos hnone]
    rfl
  · obtain ⟨hpos, hlen⟩ : f.position = f.size ∧ f.position + bytesToRead < 2 ^ 32 := by omega
    have hcut : (if f.size < u32 (f.position + bytesToRead) then usub f.size f.position
        else bytesToRead) = 0 := by
      rw [u32_eq_self (by omega), if_pos (by omega), usub_of_le (by omega) (by omega)]
      omega
    rw [if_neg hnone, Prog.run_ite]
    split
    · rfl
    · have hnothing : (if bufferSize < 0 then bufferSize else 0) = 0 := by simp
      rw [hcut, hnothing, Prog.run_ite, if_pos rfl]
      rfl

/-- **`fat12_read_file`** from a position in the first sector of the file. -/
theorem run_fat12ReadFileChecked (he : e.Reliable)
    (hmem : e.outOfMemory (.store 0 :: e.path) = false) (h : V.On s) (hs : s.files file = some f)
    (hl : V.Lists f l) {bufferSize bytesToRead n : Nat} (hlen : f.position + bytesToRead < 2 ^ 32)
    (hn : n = min (min bytesToRead bufferSize) (f.size - f.position)) (hpos : 0 < n)
    (hp : f.position < 512) (hfind : V.Finds l (f.position + n)) (buffer : Bytes) :
    ∃ buffer', Filled buffer' (V.fileBytes s l) f.position n ∧
      (fat12ReadFileChecked file buffer bufferSize bytesToRead).run e s
        = some ((n, buffer'), s.advanced file n) := by
  have hsize := hl.size_lt
  have hroom := hl.room
  obtain ⟨l', rfl⟩ := hl.head
  have hvalid : isValidClusterFat12 f.startCluster = true := (hfind.has _ (by simp)).isValid
  have hcut : (if bufferSize < (if f.size < u32 (f.position + bytesToRead) then
      usub f.size f.position else bytesToRead) then bufferSize
      else (if f.size < u32 (f.position + bytesToRead) then usub f.size f.position
        else bytesToRead)) = n := by
    rw [u32_eq_self (by omega), usub_of_le (by omega) (by omega)]
    split <;> split <;> omega
  have hstart : f.position % (512 * V.spc) = f.position := by
    apply Nat.mod_eq_of_lt
    have := V.sectorsPerCluster_pos
    unfold Volume.spc
    omega
  have hsteps : l'.length + 2 ≤ steps := by
    have hle := hl.length_le
    have := V.clusters_lt
    rw [List.length_cons] at hle
    unfold steps
    omega
  have hnone : ¬ (bufferSize = 0 ∨ bytesToRead = 0) := by omega
  obtain ⟨buffer', hfill, hrun⟩ := run_readFileLoop file (j := 0) he h [] hfind hp
    (by rw [List.nil_append]; omega) hsteps hpos (by simp) (e.junk (.store 0 :: e.path))
    (filled_zero buffer _ _)
  rw [State.advanced_zero hs (by omega)] at hrun
  refine ⟨if n < bufferSize then store8 buffer' n 0 else buffer', ?_, ?_⟩
  · -- the terminating zero is behind what has been read
    split
    · exact hfill.store8 (Nat.le_refl n) 0
    · exact hfill
  · unfold fat12ReadFileChecked
    rw [Prog.run_bind, Prog.run_get, Option.bind_some]
    dsimp only
    rw [hs, show s.fat12 = _ from h]
    dsimp only
    rw [V.fat_eq, Prog.run_ite, if_neg (by simp), Prog.run_ite, if_neg hnone, hvalid, Prog.run_ite,
      if_neg (by simp), hcut, Prog.run_ite, if_neg (by omega), Prog.run_bind, Prog.run_ask,
      Option.bind_some, hmem, Prog.run_ite, if_neg (by simp), Prog.run_bind, Prog.run_ask,
      Option.bind_some]
    change Prog.run (Bind.bind (readFileLoopChecked file (f.position % (512 * V.spc)) n steps 0
      f.startCluster 0 buffer (e.junk (.store 0 :: e.path))) _) e s = _
    rw [hstart, Prog.run_bind, hrun]
    rfl

end readFile

/-! ## What a read changes -/

/-- What may have changed are the positions of open files. -/
structure State.OnlyPositions (s s' : State) : Prop where
  floppies : s'.floppies = s.floppies
  fat12 : s'.fat12 = s.fat12
  drive : s'.currentFddDrive = s.currentFddDrive
  entries : s'.entries = s.entries
  currentDir : s'.currentDir = s.currentDir
  files : ∀ a f, s.files a = some f → ∃ p, s'.files a = some { f with position := p }

instance : Std.Refl State.OnlyPositions :=
  ⟨fun _ => ⟨rfl, rfl, rfl, rfl, rfl, fun _ f hf => ⟨f.position, hf⟩⟩⟩

instance : IsTrans State State.OnlyPositions where
  trans := by
    intro s₁ s₂ s₃ h h'
    refine ⟨h'.floppies.trans h.floppies, h'.fat12.trans h.fat12, h'.drive.trans h.drive,
      h'.entries.trans h.entries, h'.currentDir.trans h.currentDir, ?_⟩
    intro a f hf
    obtain ⟨p, hp⟩ := h.files a f hf
    obtain ⟨p', hp'⟩ := h'.files a _ hp
    exact ⟨p', hp'⟩

theorem State.onlyPositions_advanced (s : State) (file n : Nat) :
    s.OnlyPositions (s.advanced file n) := by
  refine ⟨rfl, rfl, rfl, rfl, rfl, fun a f hf => ?_⟩
  unfold State.advanced
  dsimp only
  by_cases ha : a = file
  · rw [if_pos ha, hf]
    exact ⟨_, rfl⟩
  · rw [if_neg ha]
    exact ⟨f.position, hf⟩

section frame

open Prog (Keeps)

theorem readLogical_onlyPositions (l : Label) (drive n : Nat) (b : Bytes) (a : Nat) :
    Keeps State.OnlyPositions (readLogical l drive n b a) := by
  unfold readLogical
  apply Keeps.bind Keeps.get
  intro s
  unfold fdcReadWithFallback
  apply Keeps.bind (Keeps.ask _)
  intro fails
  apply Keeps.ite (Keeps.pure _)
  apply Keeps.bind Keeps.get
  intro s
  exact Keeps.pure _

theorem readFileSectors_onlyPositions (file startOffset firstSector n m i bytesRead : Nat)
    (b sb : Bytes) :
    Keeps State.OnlyPositions (readFileSectors file startOffset firstSector n m i bytesRead b sb) := by
  induction m generalizing i bytesRead b sb with
  | zero => exact Keeps.pure _
  | succ m ih =>
      rw [readFileSectors]
      apply Keeps.ite (Keeps.pure _)
      apply Keeps.bind Keeps.get
      intro s
      apply Keeps.bind (readLogical_onlyPositions _ _ _ _ _)
      intro r
      apply Keeps.ite (Keeps.pure _)
      apply Keeps.bind (Keeps.modify fun s => s.onlyPositions_advanced _ _)
      intro _
      exact ih _ _ _ _

theorem readFileLoop_onlyPositions (file startOffset n k i c bytesRead : Nat) (b sb : Bytes) :
    Keeps State.OnlyPositions (readFileLoop file startOffset n k i c bytesRead b sb) := by
  induction k generalizing i c bytesRead b sb with
  | zero => exact Keeps.diverge
  | succ k ih =>
      rw [readFileLoop]
      apply Keeps.ite (Keeps.pure _)
      apply Keeps.bind Keeps.get
      intro s
      split
      · exact Keeps.diverge
      · apply Keeps.bind (Keeps.under (readFileSectors_onlyPositions _ _ _ _ _ _ _ _ _) _)
        intro r
        apply Keeps.ite (Keeps.pure _)
        split
        · exact Keeps.pure _
        · exact ih _ _ _ _ _

theorem fat12VfsRead_onlyPositions (node : Vfs.Node sig) (offset size : Nat) (b : Bytes) :
    Keeps State.OnlyPositions (fat12VfsRead node offset size b) := by
  unfold fat12VfsRead
  apply Keeps.ite (Keeps.pure _)
  split
  · exact Keeps.pure _
  · apply Keeps.bind
    · unfold fat12ReadFile
      apply Keeps.bind Keeps.get
      intro s
      split
      · apply Keeps.ite (Keeps.pure _)
        apply Keeps.ite (Keeps.pure _)
        apply Keeps.ite (Keeps.pure _)
        apply Keeps.ite (Keeps.pure _)
        apply Keeps.bind (Keeps.ask _)
        intro noMemory
        apply Keeps.ite (Keeps.pure _)
        apply Keeps.bind (Keeps.ask _)
        intro sb
        apply Keeps.bind (readFileLoop_onlyPositions _ _ _ _ _ _ _ _ _)
        intro r
        exact Keeps.ite (Keeps.pure _) (Keeps.pure _)
      · exact Keeps.pure _
    · intro r
      exact Keeps.ite (Keeps.pure _) (Keeps.pure _)

end frame

/-! ## `fat12_vfs_read` -/

/-- The node belongs to the open file `f`. -/
structure NodeOf (s : State) (node : Vfs.Node sig) (file : Nat) (f : File) : Prop where
  type : node.type = .file
  data : node.fsSpecific = some file
  size : node.size = f.size
  openFile : s.files file = some f

/-- The calls that `fat12_vfs_read` answers rightly: those that have nothing to read, those at or
behind the end of the file when the position is there, and those at the position, if that is in the
first sector of the file, the call gets its buffer, and the clusters of the file that are passed
over have the entries where the driver looks for them. -/
def ReadsRight (V : Volume) (e : Env) (f : File) (l : List Nat) (offset size : Nat) : Prop :=
  size = 0 ∨ f.size = 0 ∨ (f.position = f.size ∧ f.size ≤ offset) ∨
    (offset = f.position ∧ f.position < f.size ∧ f.position < 512 ∧
      e.outOfMemory (.store 0 :: e.path) = false ∧
      ∀ j, (j + 1) * V.clusterSize < min (offset + size) f.size → l.getD j 0 % 4 < 2)

section vfs

variable {V : Volume} {e : Env} {s : State} {node : Vfs.Node sig} {file : Nat} {f : File}
  {l : List Nat}

theorem fat12VfsRead_answers (he : e.Reliable) (h : V.On s) (hnode : NodeOf s node file f)
    (hf : V.HasFile f l) {offset size : Nat} (hlen : offset + size < 2 ^ 31)
    (hright : ReadsRight V e f l offset size) (buffer : Bytes) :
    ∃ r s', (fat12VfsRead node offset size buffer).run e s = some (r, s') ∧
      Vfs.File.Answers ⟨V.fileBytes s l, f.size⟩ offset size r := by
  have hmin : (if size < node.size then size else node.size) = min size f.size := by
    rw [hnode.size]
    split <;> omega
  have hrun : ∀ n b s', (fat12ReadFile file buffer size (min size f.size)).run e s
      = some ((n, b), s') → n < 2 ^ 31 →
      (fat12VfsRead node offset size buffer).run e s = some ((.ok n, b), s') := by
    intro n b s' hr hn
    unfold fat12VfsRead
    rw [Prog.run_ite, if_neg (by simp [hnode.type]), hnode.data]
    dsimp only
    rw [hmin, Prog.run_bind, hr, Option.bind_some]
    dsimp only
    rw [Prog.run_ite, if_neg (by omega)]
    rfl
  -- nothing to read, or the bytes at the position
  by_cases hnone : size = 0 ∨ f.size = 0 ∨ (f.position = f.size ∧ f.size ≤ offset)
  · have hsize := hf.size_lt
    have hend : size = 0 ∨ min size f.size = 0 ∨
        (f.position = f.size ∧ f.position + min size f.size < 2 ^ 32) := by omega
    have hread := run_fat12ReadFileChecked_end (e := e) h hnode.openFile hsize hend buffer
    refine ⟨_, _, hrun 0 buffer s ((fat12ReadFileChecked_below _ _ _ _).run_eq _ _ _ hread)
      (by omega), ?_⟩
    exact Vfs.File.answers_zero (show size = 0 ∨ f.size ≤ offset by omega) buffer
  · obtain ⟨rfl, hlt, hp, hmem, hgood⟩ : offset = f.position ∧ f.position < f.size ∧
        f.position < 512 ∧ e.outOfMemory (.store 0 :: e.path) = false ∧
        ∀ j, (j + 1) * V.clusterSize < min (offset + size) f.size → l.getD j 0 % 4 < 2 := by
      rcases hright with h0 | h0 | h0 | h0
      · exact absurd (Or.inl h0) hnone
      · exact absurd (Or.inr (Or.inl h0)) hnone
      · exact absurd (Or.inr (Or.inr h0)) hnone
      · exact h0
    have hn : min size (f.size - f.position)
        = min (min (min size f.size) size) (f.size - f.position) := by omega
    have hsize := hf.size_lt
    have hroom := hf.room
    have hstop : f.position + min size (f.size - f.position) ≤ l.length * V.clusterSize := by omega
    have hfind := Volume.finds_of_chain (hf.chain (by omega)) hstop (fun j hj => hgood j (by omega))
    obtain ⟨buffer', hfill, hread⟩ := run_fat12ReadFileChecked he hmem h hnode.openFile
      (hf.lists (by omega)) (by omega) hn (by omega) hp hfind buffer
    exact ⟨_, _, hrun _ buffer' _ ((fat12ReadFileChecked_below _ _ _ _).run_eq _ _ _ hread)
      (by omega), rfl, hfill⟩

end vfs

/-! ### Two clusters -/

/-- A small volume: cluster 5 follows cluster 4. -/
def twoClusterVolume : Volume where
  fat12 := oneSectorFat [0xFF0, 0xFFF, 0, 0, 5, 0xFFF]
  fat := pack12 [0xFF0, 0xFFF, 0, 0, 5, 0xFFF]
  clusters := 300
  fat_eq := rfl
  bytesPerSector_eq := rfl
  dataStart_eq := rfl
  sectorsPerCluster_pos := by decide
  sectorsPerCluster_le := by decide
  spt_lt := by decide
  heads_le := by decide
  clusters_lt := oneSectorFat_clusters_lt
  stop_le := by decide
  fat_room := by decide

end MicroKernel.Fat12
