import MicroKernel.Fat32.ChainRead

set_option autoImplicit false

/-! # The reader of the program loader

`read_file_data_to_address` is a second copy of `read_file_data`. It reads whole sectors to the place
where the program is loaded, and it does not take the invalid marker for the end of a chain. The two
copies agree for the files whose size is a multiple of a sector, whose chain has room for them and
whose size is no negative `int` (`loadsSame_iff`).
-/

namespace MicroKernel.Fat32

open MicroKernel.Lib Bytes

/-- The variables of `read_file_data_to_address`: `bytes_read`, how far `buffer_ptr` is behind the
load address, and the memory from the load address on; and the sectors that the ATA driver has been
asked for. -/
structure Loading where
  bytesRead : Nat
  bufferPtr : Nat
  memory : Bytes
  sectors : List Nat

/-- The loop over the sectors of one cluster: whether to go on. -/
def loadSectors (sectorNumber fileSize : Nat) : Nat → Nat → Loading → Io (Bool × Loading)
  | 0, _, t => return (true, t)
  | n + 1, i, t => do
      let sector := u32 (sectorNumber + i)
      let (ok, memory) ← readSector (.load i) sector t.memory t.bufferPtr
      if !ok then return (false, { t with memory, sectors := sector :: t.sectors })
      let t : Loading := ⟨u32 (t.bytesRead + 512), t.bufferPtr + 512, memory, sector :: t.sectors⟩
      if fileSize ≤ t.bytesRead then return (true, t)
      loadSectors sectorNumber fileSize n (i + 1) t

/-- The loop of `read_file_data_to_address`. The end-of-chain marks pass `is_valid_cluster`, and
`get_next_cluster_in_chain` returns none of them. -/
def loadLoop (fileSize : Nat) : Nat → Nat → Nat → Loading → Io Loading
  | 0, _, _, _ => Prog.diverge
  | k + 1, i, current, t => do
      if fileSize ≤ t.bytesRead then return t
      let s ← Prog.get
      if !s.bootSector.isValidCluster current then return t
      let (ok, t) ← within (.cluster i) (loadSectors (s.clusterToSector current) fileSize
        s.bootSector.sectorsPerCluster 0 t)
      if !ok then return t
      let current ← within (.cluster i) (within .next (getNextClusterInChain current))
      if isEndOfClusterChain current then return t
      loadLoop fileSize k (i + 1) current t

/-- `read_file_data_to_address`. Two turns with the same cluster and the same count do the same, so
after `steps * steps` of them the walk goes on for ever. -/
def readFileDataToAddress (startCluster : Nat) (memory : Bytes) (fileSize : Nat) :
    Io (Int × Loading) := do
  if fileSize = 0 then return (0, ⟨0, 0, memory, []⟩)
  let s ← Prog.get
  if s.bootSector.sectorsPerCluster = 0 then return (0, ⟨0, 0, memory, []⟩)
  let t ← loadLoop fileSize (steps * steps) 0 startCluster ⟨0, 0, memory, []⟩
  return (asInt t.bytesRead, t)

/-! ## What every turn keeps -/

/-- What holds of the variables of the reader from one moment to a later one. -/
structure LoadsOn (t t' : Loading) : Prop where
  sectors : t.sectors ⊆ t'.sectors
  whole : t.bytesRead % 512 = 0 → t'.bytesRead % 512 = 0

section keep

variable {s s' : Fs} {e : Env} {t t' t₁ : Loading} {fileSize sectorNumber : Nat}

theorem LoadsOn.refl (t : Loading) : LoadsOn t t := ⟨fun _ h => h, id⟩

theorem LoadsOn.trans (h : LoadsOn t t₁) (h' : LoadsOn t₁ t') : LoadsOn t t' :=
  ⟨fun _ hx => h'.sectors (h.sectors hx), fun hx => h'.whole (h.whole hx)⟩

/-- A turn of the loop over the sectors asks for its sector and goes on. -/
theorem loadSectors_keeps {n i : Nat} {b : Bool}
    (hr : (loadSectors sectorNumber fileSize n i t).run e s = some ((b, t'), s')) :
    s' = s ∧ LoadsOn t t' ∧ (0 < n → u32 (sectorNumber + i) ∈ t'.sectors) := by
  induction n generalizing i t with
  | zero =>
      cases hr
      exact ⟨rfl, .refl _, fun h => absurd h (Nat.lt_irrefl 0)⟩
  | succ n ih =>
      rw [loadSectors] at hr
      dsimp only at hr
      rw [Prog.run_bind, run_readSector, Option.bind_some] at hr
      cases hfail : e.fails (.load i) with
      | true =>
          rw [hfail] at hr
          cases hr
          exact ⟨rfl, ⟨List.subset_cons_self _ _, id⟩, fun _ => List.mem_cons_self⟩
      | false =>
          simp only [hfail, Bool.false_eq_true, if_false, Bool.not_true] at hr
          have hturn : ∀ memory, LoadsOn t
              ⟨u32 (t.bytesRead + 512), t.bufferPtr + 512, memory, u32 (sectorNumber + i) :: t.sectors⟩ := by
            refine fun memory => ⟨List.subset_cons_self _ _, fun h => ?_⟩
            simp only [u32]
            omega
          rw [Prog.run_ite] at hr
          split at hr
          · cases hr
            exact ⟨rfl, hturn _, fun _ => List.mem_cons_self⟩
          · obtain ⟨hs, hkeeps, -⟩ := ih hr
            exact ⟨hs, (hturn _).trans hkeeps, fun _ => hkeeps.sectors List.mem_cons_self⟩

theorem loadLoop_keeps {k i current : Nat}
    (hr : (loadLoop fileSize k i current t).run e s = some (t', s')) : LoadsOn t t' := by
  induction k generalizing i current t s with
  | zero => cases hr
  | succ k ih =>
      rw [loadLoop, Prog.run_ite] at hr
      split at hr
      · cases hr
        exact .refl _
      rw [Prog.run_bind, Prog.run_get, Option.bind_some, Prog.run_ite] at hr
      split at hr
      · cases hr
        exact .refl _
      obtain ⟨⟨ok, t₁⟩, s₁, hsectors, hrest⟩ := (Prog.run_bind_eq_some _ _).mp hr
      obtain ⟨-, hkeeps, -⟩ := loadSectors_keeps hsectors
      dsimp only at hrest
      rw [Prog.run_ite] at hrest
      split at hrest
      · cases hrest
        exact hkeeps
      obtain ⟨next, s₂, -, hgo⟩ := (Prog.run_bind_eq_some _ _).mp hrest
      rw [Prog.run_ite] at hgo
      split at hgo
      · cases hgo
        exact hkeeps
      · exact hkeeps.trans (ih hgo)

end keep

/-! ## Along a chain -/

/-- The first `p` bytes of the clusters `l` have been read, and only sectors of these clusters. -/
structure LoadedTo (V : Volume) (d : Disk) (l : List Nat) (memory : Bytes) (p : Nat) (t : Loading) :
    Prop where
  bytesRead : t.bytesRead = p
  bufferPtr : t.bufferPtr = p
  memory : t.memory = copy memory 0 (V.fileBytes d l) 0 p
  sectors : ∀ n, n ∈ t.sectors → ∃ c i, c ∈ l ∧ i < V.bs.sectorsPerCluster ∧ n = V.dataPos c + i

theorem LoadedTo.start (V : Volume) (d : Disk) (l : List Nat) (memory : Bytes) :
    LoadedTo V d l memory 0 ⟨0, 0, memory, []⟩ where
  bytesRead := rfl
  bufferPtr := rfl
  memory := by
    funext x
    rw [copy_outside _ _ _ (by omega)]
  sectors := fun n hn => by cases hn

section chain

variable {V : Volume} {s : Fs} {e : Env} {memory : Bytes} {fileSize R : Nat}

/-- One more sector has been read. -/
theorem LoadedTo.sector {c : Nat} {l₁ l₂ : List Nat} {i p : Nat} {t : Loading}
    (ht : LoadedTo V s.disk (l₁ ++ c :: l₂) memory p t) (hi : i < V.bs.sectorsPerCluster)
    (hp : p = l₁.length * V.clusterSize + 512 * i) (hlt : p + 512 < 2 ^ 32) :
    LoadedTo V s.disk (l₁ ++ c :: l₂) memory (p + 512)
      ⟨u32 (t.bytesRead + 512), t.bufferPtr + 512,
        copy t.memory t.bufferPtr (Sector.bytes (s.disk (V.dataPos c + i))) 0 512,
        (V.dataPos c + i) :: t.sectors⟩ where
  bytesRead := by rw [ht.bytesRead, u32_eq_self hlt]
  bufferPtr := by rw [ht.bufferPtr]
  memory := by
    rw [ht.memory, ht.bufferPtr]
    refine copy_copy _ _ fun k hk => ?_
    rw [Nat.zero_add, Nat.zero_add, hp, Volume.fileBytes_sector hi hk]
  sectors := by
    intro n hn
    rcases List.mem_cons.mp hn with rfl | hn
    · exact ⟨c, i, by simp, hi, rfl⟩
    · exact ht.sectors n hn

/-- The loop over the sectors of the cluster behind the clusters `l₁`. The file or the chain ends
after `R` bytes, which are whole sectors. -/
theorem run_loadSectors (he : e.Reliable) {c : Nat} (hc : V.Has c) (l₁ l₂ : List Nat)
    (hR : R = min fileSize ((l₁ ++ c :: l₂).length * V.clusterSize)) (hwhole : R % 512 = 0)
    (hsize : fileSize < 2 ^ 32) {n i p : Nat} {t : Loading} (hn : i + n = V.bs.sectorsPerCluster)
    (hp : p = l₁.length * V.clusterSize + 512 * i) (hle : p ≤ R) (hmore : 0 < n → p < fileSize)
    (ht : LoadedTo V s.disk (l₁ ++ c :: l₂) memory p t) :
    ∃ t', LoadedTo V s.disk (l₁ ++ c :: l₂) memory (min R ((l₁.length + 1) * V.clusterSize)) t' ∧
      (loadSectors (V.dataPos c) fileSize n i t).run e s = some ((true, t'), s) := by
  have hend : (l₁.length + 1) * V.clusterSize
      = l₁.length * V.clusterSize + 512 * V.bs.sectorsPerCluster := by
    rw [Nat.add_mul, Nat.one_mul]
    rfl
  have hroom : (l₁.length + 1) * V.clusterSize ≤ (l₁ ++ c :: l₂).length * V.clusterSize :=
    Nat.mul_le_mul_right _ (by simp)
  have hsectors : l₁.length * V.clusterSize = 512 * (l₁.length * V.bs.sectorsPerCluster) :=
    Nat.mul_left_comm _ _ _
  induction n generalizing i p t with
  | zero =>
      have hall : p = min R ((l₁.length + 1) * V.clusterSize) := by omega
      exact ⟨t, hall ▸ ht, rfl⟩
  | succ n ih =>
      have hi : i < V.bs.sectorsPerCluster := by omega
      have hlt := V.dataPos_add_lt hc hi
      -- both are whole sectors
      have hnext : p + 512 ≤ R := by omega
      have hread := ht.sector hi hp (by omega)
      have hcount : u32 (t.bytesRead + 512) = p + 512 := hread.bytesRead
      rw [loadSectors]
      dsimp only
      rw [Prog.run_bind, run_readSector, he.fails, Option.bind_some,
        u32_eq_self (show V.dataPos c + i < 2 ^ 32 by omega), Nat.mod_eq_of_lt hlt]
      simp only [Bool.false_eq_true, if_false, Bool.not_true]
      rw [Prog.run_ite]
      split
      next hdone =>
        rw [hcount] at hdone
        have hall : p + 512 = min R ((l₁.length + 1) * V.clusterSize) := by omega
        exact ⟨_, hall ▸ hread, rfl⟩
      next hdone =>
        rw [hcount] at hdone
        exact ih (by omega) (by omega) (by omega) (by omega) hread

/-- A turn of the loop: the cluster behind the clusters `l₁`. -/
theorem run_loadLoop_step (he : e.Reliable) (h : s.On V) {c : Nat} (hc : V.Has c)
    (l₁ l₂ : List Nat) (hR : R = min fileSize ((l₁ ++ c :: l₂).length * V.clusterSize))
    (hwhole : R % 512 = 0) (hsize : fileSize < 2 ^ 32) {k j p : Nat} {t : Loading}
    (hp : p = min R (l₁.length * V.clusterSize)) (hmore : p < fileSize)
    (ht : LoadedTo V s.disk (l₁ ++ c :: l₂) memory p t) :
    ∃ t', LoadedTo V s.disk (l₁ ++ c :: l₂) memory (min R ((l₁.length + 1) * V.clusterSize)) t' ∧
      (loadLoop fileSize (k + 1) j c t).run e s
        = (loadLoop fileSize k (j + 1) (nextOf (V.fat s.disk c)) t').run e s := by
  have hroom : l₁.length * V.clusterSize ≤ (l₁ ++ c :: l₂).length * V.clusterSize :=
    Nat.mul_le_mul_right _ (by simp)
  obtain ⟨t', ht', hrun⟩ := run_loadSectors (s := s) (i := 0) (he.enter (.cluster j)) hc l₁ l₂ hR hwhole
    hsize (Nat.zero_add _) (show p = _ by omega) (by omega) (fun _ => hmore) ht
  have hvalid : V.bs.isValidCluster c = true := (isValidCluster_iff hc.lt_eocMin).mpr hc
  have hnotEnd : isEndOfClusterChain (nextOf (V.fat s.disk c)) = false :=
    getNextClusterInChain_not_end e (run_getNext_reliable he h hc)
  refine ⟨t', ht', ?_⟩
  rw [loadLoop, Prog.run_ite, if_neg (by rw [ht.bytesRead]; omega), Prog.run_bind, Prog.run_get,
    Option.bind_some, Prog.run_ite, h.boot, if_neg (by simp [hvalid]), Prog.run_bind, run_within,
    clusterToSector_eq h hc, hrun, Option.bind_some]
  dsimp only
  rw [Prog.run_ite, if_neg (by simp), Prog.run_bind, run_within, run_within,
    run_getNext_reliable ((he.enter _).enter _) h hc, Option.bind_some, Prog.run_ite,
    if_neg (by simp [hnotEnd])]

/-- The loop along a chain: it ends with the file, or it goes on at the invalid marker. -/
theorem run_loadLoop (he : e.Reliable) (h : s.On V) {c : Nat} (l₁ : List Nat) {l : List Nat}
    (hl : V.Chain s.disk c l) (hR : R = min fileSize ((l₁ ++ l).length * V.clusterSize))
    (hwhole : R % 512 = 0) (hsize : fileSize < 2 ^ 32) {k j p : Nat} {t : Loading}
    (hp : p = min R (l₁.length * V.clusterSize))
    (ht : LoadedTo V s.disk (l₁ ++ l) memory p t) :
    ∃ t' j', LoadedTo V s.disk (l₁ ++ l) memory R t' ∧
      (loadLoop fileSize (k + 1 + l.length) j c t).run e s
        = if fileSize ≤ R then some (t', s)
          else (loadLoop fileSize (k + 1) j' invalidCluster t').run e s := by
  -- the whole file is there
  have hdone : ∀ {n c' i p' : Nat} {t' : Loading}, LoadedTo V s.disk (l₁ ++ l) memory p' t' →
      fileSize ≤ p' → (loadLoop fileSize (n + 1) i c' t').run e s = some (t', s) := by
    intro n c' i p' t' ht' hle
    rw [loadLoop, Prog.run_ite, if_pos (by rw [ht'.bytesRead]; exact hle)]
    rfl
  induction hl generalizing l₁ j p t with
  | @last c hs =>
      obtain ⟨hc, heoc⟩ := Volume.link_eq_stop hs
      rcases Nat.lt_or_ge p fileSize with hmore | hle
      · obtain ⟨t', ht', hrun⟩ := run_loadLoop_step (k := k + 1) (j := j) he h hc l₁ [] hR hwhole hsize
          hp hmore ht
        have hall : min R ((l₁.length + 1) * V.clusterSize) = R := by
          rw [hR, List.length_append, List.length_singleton]
          omega
        rw [hall] at ht'
        refine ⟨t', j + 1, ht', ?_⟩
        rw [List.length_singleton, hrun, nextOf, if_pos heoc]
        split
        next hle => exact hdone ht' hle
        next => rfl
      · have hall : p = R := by omega
        refine ⟨t, 0, hall ▸ ht, ?_⟩
        rw [if_pos (by omega)]
        exact hdone ht hle
  | @cons c c' l hs hl ih =>
      obtain ⟨hc, hfat, hlt, -⟩ := Volume.link_eq_next hs
      rcases Nat.lt_or_ge p fileSize with hmore | hle
      · obtain ⟨t', ht', hrun⟩ := run_loadLoop_step (k := k + 1 + l.length) (j := j) he h hc l₁ l hR
          hwhole hsize hp hmore ht
        have hnext : nextOf (V.fat s.disk c) = c' := by
          rw [nextOf, hfat, if_neg (by omega)]
        have hshift : l₁ ++ c :: l = (l₁ ++ [c]) ++ l := by simp
        rw [List.length_cons, ← Nat.add_assoc, hrun, hnext]
        rw [hshift] at hR ht' hdone ⊢
        refine ih (l₁ ++ [c]) hR ?_ ht' hdone
        rw [List.length_append, List.length_singleton]
      · have hall : p = R := by omega
        refine ⟨t, 0, hall ▸ ht, ?_⟩
        rw [if_pos (by omega)]
        exact hdone ht hle

/-- The sector that is taken for the first one of the invalid marker's cluster. -/
theorem clusterToSector_invalid_ne (h : s.On V) {c i : Nat} (hc : V.Has c)
    (hi : i < V.bs.sectorsPerCluster) :
    u32 (s.clusterToSector invalidCluster + 0) ≠ V.dataPos c + i := by
  have hpos := V.dataPos_add_lt hc hi
  have hstart := V.dataStart_le_dataPos c
  have hle := V.dataStart_add_le
  have hstop := V.stop_le
  -- three clusters are in the volume
  have hthree : 3 * V.bs.sectorsPerCluster ≤ V.total * V.bs.sectorsPerCluster := by
    refine Nat.mul_le_mul_right _ ?_
    have h2 := hc.1
    have h3 := hc.2
    omega
  have hsector : s.clusterToSector invalidCluster
      = u32 (V.dataStart + (2 ^ 32 - 3) * V.bs.sectorsPerCluster) := by
    unfold Fs.clusterToSector
    rw [h.boot, h.offset, if_pos (by rfl)]
    unfold Volume.dataStart invalidCluster
    congr 1
    omega
  have hspc := V.sectorsPerCluster_pos
  have hmod : V.dataStart + (2 ^ 32 - 3) * V.bs.sectorsPerCluster
      = 2 ^ 32 + V.dataStart - 3 * V.bs.sectorsPerCluster
        + 2 ^ 32 * (V.bs.sectorsPerCluster - 1) := by
    omega
  rw [hsector, hmod, u32, u32, Nat.add_mul_mod_self_left, Nat.add_zero, Nat.mod_mod]
  -- the number is in front of the data, or behind the 28 bits of a sector number
  rcases Nat.lt_or_ge V.dataStart (3 * V.bs.sectorsPerCluster) with hlt | hge
  · rw [Nat.mod_eq_of_lt (by omega)]
    omega
  · rw [Nat.add_sub_assoc hge, Nat.add_mod_left, Nat.mod_eq_of_lt (by omega)]
    omega

end chain

/-! ## The two readers -/

/-- `read_file_data_to_address` and `read_file_data` agree on the file of `fileSize` bytes in the
clusters `l`, the first of which is `c`: they return the same count, and the same bytes are in the
memory and in the buffer. No byte behind the file is written, and only sectors of its clusters are
read. -/
def LoadsSame (V : Volume) (e : Env) (s : Fs) (c : Nat) (l : List Nat) (fileSize : Nat)
    (memory buffer : Bytes) : Prop :=
  ∃ r t n b, (readFileDataToAddress c memory fileSize).run e s = some ((r, t), s) ∧
    (readFileData c buffer fileSize fileSize).run e s = some ((n, b), s) ∧ r = n ∧
    (∀ x, x < n → t.memory x = b x) ∧ (∀ x, fileSize ≤ x → t.memory x = memory x) ∧
    ∀ m, m ∈ t.sectors → ∃ c' i, c' ∈ l ∧ i < V.bs.sectorsPerCluster ∧ m = V.dataPos c' + i

section same

variable {V : Volume} {s : Fs} {e : Env} {c : Nat} {l : List Nat} {fileSize : Nat}
  {memory buffer : Bytes}

/-- The reader of the loader counts whole sectors. -/
theorem readFileDataToAddress_whole {r : Int} {t : Loading}
    (hr : (readFileDataToAddress c memory fileSize).run e s = some ((r, t), s)) : 512 ∣ r := by
  unfold readFileDataToAddress at hr
  rw [Prog.run_ite] at hr
  split at hr
  · cases hr
    exact Int.dvd_zero _
  rw [Prog.run_bind, Prog.run_get, Option.bind_some, Prog.run_ite] at hr
  split at hr
  · cases hr
    exact Int.dvd_zero _
  obtain ⟨t', s', hloop, hrest⟩ := (Prog.run_bind_eq_some _ _).mp hr
  cases hrest
  have hwhole := (loadLoop_keeps hloop).whole rfl
  unfold asInt
  split <;> omega

/-- The reader of the loader along a chain: it ends with the file, or it goes on at the invalid
marker. -/
theorem run_readFileDataToAddress (memory : Bytes) (he : e.Reliable) (h : s.On V)
    (hl : V.Chain s.disk c l) (hpos : 0 < fileSize) (hsize : fileSize < 2 ^ 32) {R : Nat}
    (hR : R = min fileSize (l.length * V.clusterSize)) (hwhole : R % 512 = 0) :
    ∃ t j k, LoadedTo V s.disk l memory R t ∧
      (readFileDataToAddress c memory fileSize).run e s
        = (if fileSize ≤ R then some (t, s)
          else (loadLoop fileSize (k + 1) j invalidCluster t).run e s).map
            fun r => ((asInt r.1.bytesRead, r.1), r.2) := by
  have hlen := Volume.Chain.length_lt hl
  have hsteps : steps ≤ steps * steps := Nat.le_mul_of_pos_left _ (by decide)
  obtain ⟨k, hk⟩ : ∃ k, steps * steps = k + 1 + l.length :=
    ⟨steps * steps - 1 - l.length, by omega⟩
  obtain ⟨t, j, hread, hrun⟩ := run_loadLoop (k := k) (j := 0) (p := 0) he h [] hl
    (by rw [List.nil_append]; exact hR) hwhole hsize (by simp) (.start V s.disk l memory)
  rw [List.nil_append] at hread
  refine ⟨t, j, k, hread, ?_⟩
  unfold readFileDataToAddress
  rw [Prog.run_ite, if_neg (by omega), Prog.run_bind, Prog.run_get, Option.bind_some, Prog.run_ite,
    h.boot, if_neg (Nat.pos_iff_ne_zero.mp V.sectorsPerCluster_pos), Prog.run_bind, hk, hrun]
  generalize (if fileSize ≤ R then some (t, s)
    else (loadLoop fileSize (k + 1) j invalidCluster t).run e s) = r
  cases r <;> rfl

/-- Past the end of the chain the reader of the loader reads a sector that belongs to no cluster. -/
theorem loadLoop_invalid (h : s.On V) {k j : Nat} {t t' : Loading} {s' : Fs}
    (hmore : t.bytesRead < fileSize)
    (hr : (loadLoop fileSize (k + 1) j invalidCluster t).run e s = some (t', s')) :
    u32 (s.clusterToSector invalidCluster + 0) ∈ t'.sectors := by
  rw [loadLoop, Prog.run_ite, if_neg (by omega), Prog.run_bind, Prog.run_get, Option.bind_some,
    Prog.run_ite, if_neg (by simp [BootSector.isValidCluster, invalidCluster, eocMin])] at hr
  obtain ⟨⟨ok, t₁⟩, s₁, hsectors, hrest⟩ := (Prog.run_bind_eq_some _ _).mp hr
  obtain ⟨-, -, hmem⟩ := loadSectors_keeps hsectors
  have hfirst := hmem (by rw [h.boot]; exact V.sectorsPerCluster_pos)
  dsimp only at hrest
  rw [Prog.run_ite] at hrest
  split at hrest
  · cases hrest
    exact hfirst
  obtain ⟨next, s₂, -, hgo⟩ := (Prog.run_bind_eq_some _ _).mp hrest
  rw [Prog.run_ite] at hgo
  split at hgo
  · cases hgo
    exact hfirst
  · exact (loadLoop_keeps hgo).sectors hfirst

/-- If the readers agree, the chain has room for the file. -/
theorem LoadsSame.room (he : e.Reliable) (h : s.On V) (hl : V.Chain s.disk c l)
    (hsize : fileSize < 2 ^ 32) (hsame : LoadsSame V e s c l fileSize memory buffer) :
    fileSize ≤ l.length * V.clusterSize := by
  by_contra hno
  obtain ⟨r, t, n, b, hrun, -, -, -, -, hsectors⟩ := hsame
  have hwhole : l.length * V.clusterSize % 512 = 0 := by
    unfold Volume.clusterSize
    rw [Nat.mul_left_comm, Nat.mul_mod_right]
  obtain ⟨t₁, j, k, hread, hrun'⟩ := run_readFileDataToAddress memory he h hl (by omega)
    hsize (R := l.length * V.clusterSize) (by omega) hwhole
  rw [hrun', if_neg (by omega), Option.map_eq_some_iff] at hrun
  obtain ⟨⟨t', s'⟩, hloop, heq⟩ := hrun
  cases heq
  have hmem := loadLoop_invalid h (by rw [hread.bytesRead]; omega) hloop
  obtain ⟨c', i, hc', hi, hsector⟩ := hsectors _ hmem
  exact clusterToSector_invalid_ne h (Volume.Chain.has hl hc') hi hsector

/-- The reader of the loader on a file that ends with a sector and for which the chain has room. -/
theorem run_readFileDataToAddress_fits (memory : Bytes) (he : e.Reliable) (h : s.On V)
    (hl : V.Chain s.disk c l) (hsize : fileSize < 2 ^ 32) (hwhole : 512 ∣ fileSize)
    (hroom : fileSize ≤ l.length * V.clusterSize) :
    ∃ t, LoadedTo V s.disk l memory fileSize t ∧
      (readFileDataToAddress c memory fileSize).run e s = some ((asInt fileSize, t), s) := by
  rcases Nat.eq_zero_or_pos fileSize with rfl | hpos
  · exact ⟨_, .start V s.disk l memory, rfl⟩
  · obtain ⟨t, j, k, hread, hrun⟩ := run_readFileDataToAddress memory he h hl hpos hsize
      (R := fileSize) (by omega) (Nat.mod_eq_zero_of_dvd hwhole)
    refine ⟨t, hread, ?_⟩
    rw [hrun, if_pos (Nat.le_refl _), Option.map_some, hread.bytesRead]

theorem run_readFileData_fits (he : e.Reliable) (h : s.On V) (hl : V.Chain s.disk c l)
    (hroom : fileSize ≤ l.length * V.clusterSize) :
    (readFileData c buffer fileSize fileSize).run e s
      = some ((fileSize, copy buffer 0 (V.fileBytes s.disk l) 0 fileSize), s) :=
  run_readFileData he h (Volume.Chain.fileLink hl) (Volume.Chain.counted hl _ _) buffer (by omega)

/-- If the readers agree, the file ends with a sector. -/
theorem LoadsSame.whole (he : e.Reliable) (h : s.On V) (hl : V.Chain s.disk c l)
    (hroom : fileSize ≤ l.length * V.clusterSize)
    (hsame : LoadsSame V e s c l fileSize memory buffer) : 512 ∣ fileSize := by
  obtain ⟨r, t, n, b, hrun, hplain, hcount, -⟩ := hsame
  have hwhole := readFileDataToAddress_whole hrun
  rw [run_readFileData_fits he h hl hroom] at hplain
  cases hplain
  rw [hcount] at hwhole
  exact Int.natCast_dvd_natCast.mp hwhole

/-- **The two readers agree** just on the files whose size is a multiple of a sector, for which
the chain has room, and whose size is no negative `int`. -/
theorem loadsSame_iff (he : e.Reliable) (h : s.On V) (hl : V.Chain s.disk c l)
    (hsize : fileSize < 2 ^ 32) :
    LoadsSame V e s c l fileSize memory buffer ↔
      512 ∣ fileSize ∧ fileSize ≤ l.length * V.clusterSize ∧ fileSize < 2 ^ 31 := by
  constructor
  · intro hsame
    have hroom := hsame.room he h hl hsize
    have hwhole := hsame.whole he h hl hroom
    refine ⟨hwhole, hroom, ?_⟩
    obtain ⟨r, t, n, b, hrun, hplain, hcount, -⟩ := hsame
    obtain ⟨t', -, hload⟩ := run_readFileDataToAddress_fits memory he h hl hsize hwhole
      hroom
    rw [hload] at hrun
    rw [run_readFileData_fits he h hl hroom] at hplain
    cases hrun
    cases hplain
    unfold asInt at hcount
    split at hcount <;> omega
  · rintro ⟨hwhole, hroom, hint⟩
    obtain ⟨t, hread, hload⟩ := run_readFileDataToAddress_fits memory he h hl hsize hwhole
      hroom
    have hcount : asInt fileSize = fileSize := if_pos hint
    refine ⟨_, t, _, _, hload, run_readFileData_fits he h hl hroom, hcount, ?_, ?_, hread.sectors⟩
    · intro x hx
      rw [hread.memory, copy_inside _ _ _ (Nat.zero_le x) (by omega),
        copy_inside _ _ _ (Nat.zero_le x) (by omega)]
    · intro x hx
      rw [hread.memory, copy_outside _ _ _ (Or.inr (by omega))]

end same

/-! ### Programs in the file of three clusters -/

/-- A program of two sectors is loaded. -/
theorem loadsSame_iff_twoSectors :
    LoadsSame smallVolume quietEnv threeClusterFs 2 [2, 4, 3] 1024 (fun _ => 0) (fun _ => 0) :=
  (loadsSame_iff quietEnv_reliable threeClusterFs_on threeClusterFs_chain (by decide)).mpr
    ⟨by decide, by decide, by decide⟩

/-- For a program of 100 bytes a whole sector is written and counted. -/
theorem not_loadsSame :
    ¬ LoadsSame smallVolume quietEnv threeClusterFs 2 [2, 4, 3] 100 (fun _ => 0) (fun _ => 0) := by
  intro hsame
  have hwhole := hsame.whole quietEnv_reliable threeClusterFs_on threeClusterFs_chain (by decide)
  exact absurd hwhole (by decide)

end MicroKernel.Fat32
