import MicroKernel.Fat12.Layout
import MicroKernel.Fat12.Read
import MicroKernel.Fat32.Entry
import MicroKernel.Lib.Gather

set_option autoImplicit false

/-! # Reading a directory of a floppy (`fat12.c`)

`fat12_read_dir_entries` reads the root directory, or follows the FAT from the first cluster of a
subdirectory, until an end marker, the end of the chain or 224 entries. What a turn of the loop adds
depends on the cluster only, so that the loop gathers along the walk of `get_next_cluster`
(`Lib.Gather`): it goes on for ever when the walk comes back to a cluster and the entries it passes
never fill the array, and it lists what is on the chain as long as `get_next_cluster` stays on it.
-/

namespace MicroKernel.Fat12

open MicroKernel.Lib Bytes
open MicroKernel.Fat32 (Sector Env Label DirEntry entryAt)

/-! ## `fat12_read_dir_entries` -/

/-- `FAT12_MAX_ROOT_ENTRIES`. -/
def fat12MaxRootEntries : Nat := 224

/-- `first_cluster_low`. -/
def firstClusterLow (e : DirEntry) : Nat := (e 26).toNat + 256 * (e 27).toNat

/-- The loop that parses the entries of a buffer, `n` of them from the `i`-th on: whether an end marker
was met, and the array `entries` up to `entries_found`. -/
def parseEntries (buffer : Bytes) : Nat → Nat → List DirEntry → Bool × List DirEntry
  | 0, _, entries => (false, entries)
  | n + 1, i, entries =>
      if fat12MaxRootEntries ≤ entries.length then (false, entries)
      else
        let e := entryAt buffer i
        if e.isEnd then (true, entries)
        else if e.isDeleted then parseEntries buffer n (i + 1) entries
        else if e.isLfn then parseEntries buffer n (i + 1) entries
        else parseEntries buffer n (i + 1) (entries ++ [e])

/-- The loops over the sectors: `n` of them from the `i`-th on, `bps` bytes apart in the buffer. -/
def readSectors (drive firstSector bps : Nat) : Nat → Nat → Bytes → Io (Option Bytes)
  | 0, _, buffer => return some buffer
  | n + 1, i, buffer => do
      let (ok, buffer) ← readLogical (.load i) drive (u32 (firstSector + i)) buffer (i * bps)
      if !ok then return none
      readSectors drive firstSector bps n (i + 1) buffer

/-- The branch for the root directory. -/
def readRootEntries : Io (Option (List DirEntry)) := do
  let s ← Prog.get
  match s.fat12 with
  -- the structure is there as long as the call runs
  | none => Prog.diverge
  | some v =>
      if (← Prog.ask fun e => e.outOfMemory (.store 1 :: e.path)) then return none
      let buffer ← Prog.ask fun e => e.junk (.store 1 :: e.path)
      let bps := v.bootSector.bytesPerSector
      let rootDirSectors := v.bootSector.rootDirSectors
      match ← readSectors s.currentFddDrive v.rootDirStart bps rootDirSectors 0 buffer with
      | none => return none
      | some buffer => return some (parseEntries buffer (rootDirSectors * bps / 32) 0 []).2

/-- The loop along the chain of a subdirectory; the first argument bounds its turns. -/
def readDirLoop : Nat → Nat → Nat → Bytes → List DirEntry → Io (Option (List DirEntry))
  | 0, _, _, _, _ => Prog.diverge
  | k + 1, i, cluster, buffer, entries => do
      if ¬ (isValidClusterFat12 cluster = true ∧ entries.length < fat12MaxRootEntries) then
        return some entries
      let s ← Prog.get
      match s.fat12 with
      | none => Prog.diverge
      | some v =>
          let bps := v.bootSector.bytesPerSector
          let spc := v.bootSector.sectorsPerCluster
          match ← within (.cluster i)
            (readSectors s.currentFddDrive (v.dataStart + (cluster - 2) * spc) bps spc 0 buffer) with
          | none => return none
          | some buffer =>
              let (ended, entries) := parseEntries buffer (spc * bps / 32) 0 entries
              if ended then return some entries
              match getNextCluster s.fat12 cluster with
              | none => return some entries
              | some next => readDirLoop k (i + 1) next buffer entries

/-- `fat12_read_dir_entries`: the entries found, or nothing for -1. `dir` is what the pointer leads
to. -/
def fat12ReadDirEntries (k : Nat) (dir : Option DirEntry) : Io (Option (List DirEntry)) := do
  if (← Prog.ask fun e => e.outOfMemory (.store 0 :: e.path)) then return none
  match dir with
  | none => readRootEntries
  | some dir =>
      let cluster := firstClusterLow dir
      if cluster = 0 then
        -- the call for the root directory, with an array of its own
        within .find do
          if (← Prog.ask fun e => e.outOfMemory (.store 0 :: e.path)) then return none
          readRootEntries
      else if !isValidClusterFat12 cluster then return none
      else
        if (← Prog.ask fun e => e.outOfMemory (.store 1 :: e.path)) then return none
        let buffer ← Prog.ask fun e => e.junk (.store 1 :: e.path)
        readDirLoop k 0 cluster buffer []

/-! ## The entries in a buffer -/

/-- The slots of a buffer, `n` of them from the `i`-th on. -/
def slots (buffer : Bytes) (i n : Nat) : List DirEntry := (List.range' i n).map (entryAt buffer)

/-- The entries in front of the first end marker that are neither deleted nor a part of a long
name. -/
def liveEntries (es : List DirEntry) : List DirEntry :=
  (es.takeWhile fun e => !e.isEnd).filter fun e => !e.isDeleted && !e.isLfn

/-- There is an end marker. -/
def hasEnd (es : List DirEntry) : Bool := es.any DirEntry.isEnd

theorem slots_succ (buffer : Bytes) (i n : Nat) :
    slots buffer i (n + 1) = entryAt buffer i :: slots buffer (i + 1) n := rfl

theorem slots_congr {b b' : Bytes} {n : Nat} (h : ∀ x, x < 32 * n → b x = b' x) :
    slots b 0 n = slots b' 0 n := by
  refine List.map_congr_left fun j hj => ?_
  rw [List.mem_range'_1] at hj
  funext i
  exact h _ (by omega)

theorem liveEntries_cons (e : DirEntry) (es : List DirEntry) :
    liveEntries (e :: es) = if e.isEnd then [] else
      if e.isDeleted || e.isLfn then liveEntries es else e :: liveEntries es := by
  unfold liveEntries
  cases hend : e.isEnd with
  | true => simp [hend]
  | false => cases hdel : e.isDeleted <;> cases hlfn : e.isLfn <;> simp [hend, hdel, hlfn]

@[simp] theorem hasEnd_cons (e : DirEntry) (es : List DirEntry) :
    hasEnd (e :: es) = (e.isEnd || hasEnd es) := rfl

theorem liveEntries_append (es es' : List DirEntry) :
    liveEntries (es ++ es')
      = liveEntries es ++ if hasEnd es then [] else liveEntries es' := by
  induction es with
  | nil => simp [liveEntries, hasEnd]
  | cons e es ih =>
      rw [List.cons_append, liveEntries_cons, liveEntries_cons, hasEnd_cons, ih]
      cases e.isEnd with
      | true => simp
      | false => cases e.isDeleted || e.isLfn <;> simp

/-- **The entries that are parsed**, up to the room that the array has. -/
theorem parseEntries_spec (buffer : Bytes) (n i : Nat) (entries : List DirEntry)
    (hroom : entries.length ≤ fat12MaxRootEntries) :
    (parseEntries buffer n i entries).2 = entries ++
        (liveEntries (slots buffer i n)).take (fat12MaxRootEntries - entries.length) ∧
      ((parseEntries buffer n i entries).1 = true ↔ hasEnd (slots buffer i n) = true ∧
        entries.length + (liveEntries (slots buffer i n)).length < fat12MaxRootEntries) := by
  induction n generalizing i entries with
  | zero => simp [parseEntries, slots, liveEntries, hasEnd]
  | succ n ih =>
      rw [parseEntries, slots_succ, liveEntries_cons, hasEnd_cons]
      by_cases hfull : fat12MaxRootEntries ≤ entries.length
      · -- the loop ends before it looks at the slot
        rw [if_pos hfull, Nat.sub_eq_zero_of_le hfull]
        refine ⟨by simp, by simp; omega⟩
      · rw [if_neg hfull]
        dsimp only
        cases entryAt buffer i |>.isEnd with
        | true =>
            simp
            omega
        | false =>
            obtain ⟨hsame, hsame'⟩ := ih (i + 1) entries hroom
            cases (entryAt buffer i).isDeleted with
            | true => simpa using ⟨hsame, hsame'⟩
            | false =>
                cases (entryAt buffer i).isLfn with
                | true => simpa using ⟨hsame, hsame'⟩
                | false =>
                    obtain ⟨hnext, hnext'⟩ := ih (i + 1) (entries ++ [entryAt buffer i])
                      (by rw [List.length_append, List.length_singleton]; omega)
                    rw [List.length_append, List.length_singleton] at hnext hnext'
                    have hroom' : fat12MaxRootEntries - entries.length
                        = fat12MaxRootEntries - (entries.length + 1) + 1 := by omega
                    simp only [Bool.or_self, Bool.false_or, if_neg Bool.false_ne_true]
                    rw [hnext, hnext', hroom', List.take_succ_cons, List.length_cons]
                    exact ⟨by simp, by rw [Nat.add_right_comm, Nat.add_assoc]⟩

/-! ## The sectors of a directory -/

/-- What `readLogical` reads for the logical sector `n`. -/
def State.sectorAt (s : State) (n : Nat) : Sector :=
  let (track, head, sector) := logicalToChs s.fat12 n
  s.floppies (s.currentFddDrive % 256) (head % 256) (track % 256) (sector % 256)

/-- The buffer after the sectors `sec` from the `i`-th on, `n` of them, are read into it. -/
def sectorsBuffer (sec : Nat → Sector) (bps i n : Nat) (buffer : Bytes) : Bytes := fun x =>
  if x % bps < 512 ∧ i ≤ x / bps ∧ x / bps < i + n then Sector.bytes (sec (x / bps)) (x % bps)
  else buffer x

section sectors

variable {e : Env} {s : State} {bps : Nat}

theorem sectorsBuffer_zero (sec : Nat → Sector) (bps i : Nat) (buffer : Bytes) :
    sectorsBuffer sec bps i 0 buffer = buffer := by
  funext x
  rw [sectorsBuffer, if_neg (by omega)]

/-- The first sector, then the others. -/
theorem sectorsBuffer_succ (sec : Nat → Sector) (hbps : 512 ≤ bps) (i n : Nat)
    (buffer : Bytes) :
    sectorsBuffer sec bps (i + 1) n (copy buffer (i * bps) (Sector.bytes (sec i)) 0 512)
      = sectorsBuffer sec bps i (n + 1) buffer := by
  have hpos : 0 < bps := by omega
  funext x
  have hx := Nat.div_add_mod x bps
  have hlt := Nat.mod_lt x hpos
  unfold sectorsBuffer
  rcases Nat.lt_trichotomy (x / bps) i with hbelow | heq | habove
  · -- in front of what is read
    have hle : (x / bps + 1) * bps ≤ i * bps := Nat.mul_le_mul_right _ hbelow
    rw [Nat.add_mul, Nat.one_mul, Nat.mul_comm] at hle
    rw [if_neg (by omega), if_neg (by omega), copy_outside _ _ _ (Or.inl (by omega))]
  · rw [if_neg (by omega), heq]
    rw [heq, Nat.mul_comm] at hx
    by_cases hin : x % bps < 512
    · rw [if_pos (by omega), copy_inside _ _ _ (by omega) (by omega)]
      congr 1
      omega
    · rw [if_neg (by omega), copy_outside _ _ _ (Or.inr (by omega))]
  · have hle : (i + 1) * bps ≤ x / bps * bps := Nat.mul_le_mul_right _ habove
    rw [Nat.add_mul, Nat.one_mul, Nat.mul_comm (x / bps)] at hle
    rw [copy_outside _ _ _ (Or.inr (by omega))]
    exact if_congr (by omega) rfl rfl

/-- What was read before is overwritten. -/
theorem sectorsBuffer_again (sec sec' : Nat → Sector) (bps n : Nat) (buffer : Bytes) :
    sectorsBuffer sec' bps 0 n (sectorsBuffer sec bps 0 n buffer)
      = sectorsBuffer sec' bps 0 n buffer := by
  funext x
  unfold sectorsBuffer
  by_cases h : x % bps < 512 ∧ 0 ≤ x / bps ∧ x / bps < 0 + n
  · rw [if_pos h, if_pos h]
  · rw [if_neg h, if_neg h, if_neg h]

/-- The read of a logical sector, which may fail. -/
theorem run_readLogical_cases (e : Env) (s : State) (l : Label) (n : Nat) (buffer : Bytes) (a : Nat) :
    (readLogical l s.currentFddDrive n buffer a).run e s
      = some (if e.fails l then (false, buffer)
          else (true, copy buffer a (Sector.bytes (s.sectorAt n)) 0 512), s) := by
  unfold readLogical fdcReadWithFallback State.sectorAt
  cases hl : e.fails l <;> simp [hl]

/-- **The loop over the sectors**: all of them are read, or one could not be read. -/
theorem run_readSectors (hbps : 512 ≤ bps) (first n i : Nat) (buffer : Bytes) :
    ∃ r, (readSectors s.currentFddDrive first bps n i buffer).run e s = some (r, s) ∧
      (r = none ∨ r = some (sectorsBuffer (fun j => s.sectorAt (u32 (first + j))) bps i n buffer)) ∧
      (e.Reliable → r ≠ none) := by
  induction n generalizing i buffer with
  | zero => exact ⟨_, rfl, Or.inr (by rw [sectorsBuffer_zero]), fun _ => by simp⟩
  | succ n ih =>
      cases hl : e.fails (.load i) with
      | true =>
          refine ⟨none, ?_, Or.inl rfl, fun he => ?_⟩
          · simp [readSectors, run_readLogical_cases, hl]
          · rw [he.fails] at hl
            cases hl
      | false =>
          obtain ⟨r, hrun, hr, hne⟩ := ih (i + 1)
            (copy buffer (i * bps) (Sector.bytes (s.sectorAt (u32 (first + i)))) 0 512)
          refine ⟨r, ?_, ?_, hne⟩
          · rw [readSectors, Prog.run_bind, run_readLogical_cases, hl]
            simpa using hrun
          · rwa [sectorsBuffer_succ (fun j => s.sectorAt (u32 (first + j))) hbps] at hr

end sectors

/-! ## The loop along the chain -/

/-- The slots of cluster `c`, as they are in a buffer that held `junk` before: with sectors of more
than 512 bytes, the driver reads into the first 512 bytes of each of them. -/
def State.clusterSlots (s : State) (v : Fat12T) (junk : Bytes) (c : Nat) : List DirEntry :=
  let bps := v.bootSector.bytesPerSector
  let spc := v.bootSector.sectorsPerCluster
  slots (sectorsBuffer (fun i => s.sectorAt (v.clusterSector c i)) bps 0 spc junk) 0 (spc * bps / 32)

/-- Where the loop goes on, unless the array is full. -/
abbrev State.nextOpen (s : State) (v : Fat12T) (junk : Bytes) : Nat → Option Nat :=
  onward (getNextCluster (some v)) fun c => hasEnd (s.clusterSlots v junk c)

/-- The entries that a turn adds, as far as there is room. -/
abbrev State.live (s : State) (v : Fat12T) (junk : Bytes) (c : Nat) : List DirEntry :=
  liveEntries (s.clusterSlots v junk c)

/-- What the loop gathers from cluster `c` on when the array has room for `room` more entries. -/
abbrev State.GathersFrom (s : State) (v : Fat12T) (junk : Bytes) :
    Nat → Nat → List DirEntry → Prop :=
  Gathers (s.nextOpen v junk) (s.live v junk)

/-- The buffer differs from `junk` only where each cluster is read to. -/
def Reused (v : Fat12T) (junk buffer : Bytes) : Prop :=
  ∀ sec, sectorsBuffer sec v.bootSector.bytesPerSector 0 v.bootSector.sectorsPerCluster buffer
    = sectorsBuffer sec v.bootSector.bytesPerSector 0 v.bootSector.sectorsPerCluster junk

theorem nextOf_valid {x c : Nat} (hx : x < 4096) (h : nextOf x = some c) :
    isValidClusterFat12 c = true := by
  unfold nextOf at h
  split at h
  · cases h
  next hend =>
    split at h
    · cases h
    · split at h
      · cases h
      next hmarks =>
        obtain rfl := Option.some.inj h
        simp only [isValidClusterFat12, isEndOfChainFat12, Bool.and_eq_true,
          decide_eq_true_eq] at hend ⊢
        omega

/-- The answer of `get_next_cluster` is a cluster to go on with. -/
theorem getNextCluster_valid {v : Fat12T} {c c' : Nat}
    (h : getNextCluster (some v) c = some c') : isValidClusterFat12 c' = true := by
  cases hfat : v.fat with
  | none => simp [getNextCluster, hfat] at h
  | some fat =>
      by_cases hc : isValidClusterFat12 c = true
      · by_cases hin : v.bootSector.sectorsPerFat * 512 ≤ c * 3 / 2 + 1
        · simp [getNextCluster, hfat, hc, hin] at h
        · have hword := load16_lt fat (c * 3 / 2)
          rw [getNextCluster_window hfat hc (Nat.lt_of_not_le hin)] at h
          split at h
          · exact nextOf_valid (Nat.mod_lt _ (by decide)) h
          · exact nextOf_valid (by unfold highWindow; omega) h
      · simp [getNextCluster, hfat, hc] at h

section loop

variable {e : Env} {s : State} {v : Fat12T} {junk buffer : Bytes} {c room : Nat}
  {entries found : List DirEntry}

/-- A cluster outside the clusters, or an array that is full. -/
theorem run_readDirLoop_full (k i : Nat) (hfull : fat12MaxRootEntries ≤ entries.length) :
    (readDirLoop (k + 1) i c buffer entries).run e s = some (some entries, s) := by
  rw [readDirLoop, Prog.run_ite, if_pos fun h => absurd h.2 (Nat.not_lt.mpr hfull)]
  rfl

/-- **A turn of the loop**: a sector cannot be read, or the entries of the cluster are added. -/
theorem run_readDirLoop_turn (hs : s.fat12 = some v) (hbps : 512 ≤ v.bootSector.bytesPerSector)
    (hc : isValidClusterFat12 c = true) (hroom : entries.length < fat12MaxRootEntries)
    (hbuffer : Reused v junk buffer) (i : Nat)
    (hfound : found = entries ++ (s.live v junk c).take
      (fat12MaxRootEntries - entries.length)) :
    (¬ e.Reliable ∧ ∀ k, (readDirLoop (k + 1) i c buffer entries).run e s = some (none, s)) ∨
      ∃ buffer' ended, Reused v junk buffer' ∧
        (ended = true ↔ hasEnd (s.clusterSlots v junk c) = true ∧
          entries.length + (s.live v junk c).length < fat12MaxRootEntries) ∧
        ∀ k, (readDirLoop (k + 1) i c buffer entries).run e s
          = if ended then some (some found, s)
            else match getNextCluster (some v) c with
              | none => some (some found, s)
              | some next => (readDirLoop k (i + 1) next buffer' found).run e s := by
  obtain ⟨r, hread, hr, hne⟩ := run_readSectors (e := e.enter (.cluster i)) (s := s) hbps
    (v.dataStart + (c - 2) * v.bootSector.sectorsPerCluster) v.bootSector.sectorsPerCluster 0 buffer
  let filled := sectorsBuffer (fun j => s.sectorAt (v.clusterSector c j))
    v.bootSector.bytesPerSector 0 v.bootSector.sectorsPerCluster buffer
  have hr' : r = none ∨ r = some filled := hr
  have hwithin : (within (.cluster i) (readSectors s.currentFddDrive
      (v.dataStart + (c - 2) * v.bootSector.sectorsPerCluster) v.bootSector.bytesPerSector
      v.bootSector.sectorsPerCluster 0 buffer)).run e s = some (r, s) := hread
  -- the loop up to the read
  have hstart : ∀ k, (readDirLoop (k + 1) i c buffer entries).run e s
      = (match r with
        | none => some (none, s)
        | some buffer' =>
            let p := parseEntries buffer'
              (v.bootSector.sectorsPerCluster * v.bootSector.bytesPerSector / 32) 0 entries
            if p.1 then some (some p.2, s)
            else match getNextCluster (some v) c with
              | none => some (some p.2, s)
              | some next => (readDirLoop k (i + 1) next buffer' p.2).run e s) := by
    intro k
    rw [readDirLoop, Prog.run_ite, if_neg (not_not.mpr ⟨hc, hroom⟩), Prog.run_bind, Prog.run_get,
      Option.bind_some]
    dsimp only
    rw [hs]
    dsimp only
    rw [Prog.run_bind_of_some e s hwithin]
    cases r with
    | none => rfl
    | some buffer' =>
        dsimp only
        rw [Prog.run_ite]
        cases getNextCluster (some v) c <;> rfl
  rcases hr' with rfl | rfl
  · exact Or.inl ⟨fun he => hne (he.enter (.cluster i)) rfl, hstart⟩
  · obtain ⟨hentries, hended⟩ := parseEntries_spec filled
      (v.bootSector.sectorsPerCluster * v.bootSector.bytesPerSector / 32) 0 entries
      (Nat.le_of_lt hroom)
    have hslots : slots filled 0 (v.bootSector.sectorsPerCluster * v.bootSector.bytesPerSector / 32)
        = s.clusterSlots v junk c :=
      congrArg (slots · 0 _) (hbuffer fun j => s.sectorAt (v.clusterSector c j))
    rw [hslots] at hentries hended
    refine Or.inr ⟨filled, _, fun sec => (sectorsBuffer_again _ sec _ _ buffer).trans (hbuffer sec),
      hended, fun k => ?_⟩
    rw [hstart k, hfound, ← hentries]

/-- The array after the entries of a cluster. -/
theorem length_added (es : List DirEntry) (hroom : entries.length ≤ fat12MaxRootEntries)
    (hfound : found = entries ++ es.take (fat12MaxRootEntries - entries.length)) :
    found.length ≤ fat12MaxRootEntries ∧
      fat12MaxRootEntries - found.length = fat12MaxRootEntries - entries.length - es.length := by
  rw [hfound, List.length_append, List.length_take]
  omega

/-- **What a run of the loop returns** is what is gathered. -/
theorem gathersFrom_of_run (hs : s.fat12 = some v) (hbps : 512 ≤ v.bootSector.bytesPerSector)
    {r : Option (List DirEntry)} {s' : State} (k i : Nat) (hc : isValidClusterFat12 c = true)
    (hroom : entries.length ≤ fat12MaxRootEntries) (hbuffer : Reused v junk buffer)
    (hrun : (readDirLoop k i c buffer entries).run e s = some (r, s')) :
    s' = s ∧ (r = none ∧ ¬ e.Reliable ∨
      ∃ es, s.GathersFrom v junk c (fat12MaxRootEntries - entries.length) es ∧
        r = some (entries ++ es)) := by
  -- on the turns, with the entries that the turns before have found
  induction k generalizing i c buffer entries with
  | zero => cases hrun
  | succ k ih =>
      by_cases hfull : fat12MaxRootEntries ≤ entries.length
      · rw [run_readDirLoop_full k i hfull] at hrun
        cases hrun
        rw [Nat.sub_eq_zero_of_le hfull]
        exact ⟨rfl, Or.inr ⟨[], .full, by rw [List.append_nil]⟩⟩
      have hlt := Nat.lt_of_not_le hfull
      have hpos : 0 < fat12MaxRootEntries - entries.length := by omega
      -- the loop stops behind the entries of this cluster
      have hstop : ∀ found, found = entries ++ (s.live v junk c).take
          (fat12MaxRootEntries - entries.length) →
          s.nextOpen v junk c = none →
          s = s ∧ (some found = none ∧ ¬ e.Reliable ∨
            ∃ es, s.GathersFrom v junk c (fat12MaxRootEntries - entries.length) es ∧
              some found = some (entries ++ es)) :=
        fun found hfound hnone => ⟨rfl, Or.inr ⟨_, .stop hpos hnone, by rw [hfound]⟩⟩
      rcases run_readDirLoop_turn (e := e) hs hbps hc hlt hbuffer i rfl with
        ⟨he, hfail⟩ | ⟨buffer', ended, hbuffer', hended, hturn⟩
      · rw [hfail k] at hrun
        cases hrun
        exact ⟨rfl, Or.inl ⟨rfl, he⟩⟩
      rw [hturn k] at hrun
      obtain ⟨hlen, hrest⟩ := length_added (s.live v junk c) hroom rfl
      cases hend : ended with
      | true =>
          rw [hend, if_pos rfl] at hrun
          cases hrun
          exact hstop _ rfl (onward_eq_none.mpr (Or.inl (hended.mp hend).1))
      | false =>
          rw [hend, if_neg Bool.false_ne_true] at hrun
          cases hnext : getNextCluster (some v) c with
          | none =>
              rw [hnext] at hrun
              cases hrun
              exact hstop _ rfl (onward_eq_none.mpr (Or.inr hnext))
          | some c' =>
              rw [hnext] at hrun
              obtain ⟨hs', hr⟩ := ih (i + 1) (getNextCluster_valid hnext) hlen hbuffer' hrun
              rw [hrest] at hr
              refine ⟨hs', hr.imp_right ?_⟩
              rintro ⟨es, hes, rfl⟩
              cases hmark : hasEnd (s.clusterSlots v junk c) with
              | true =>
                  -- the array is full, so nothing is added behind the end marker
                  have hnot : ¬ (entries.length + (s.live v junk c).length
                      < fat12MaxRootEntries) := fun hless => by
                    rw [hended.mpr ⟨hmark, hless⟩] at hend
                    cases hend
                  rw [show fat12MaxRootEntries - entries.length
                    - (s.live v junk c).length = 0 by omega] at hes
                  exact ⟨_, .stop hpos (onward_eq_none.mpr (Or.inl hmark)),
                    by rw [hes.eq_nil, List.append_nil]⟩
              | false =>
                  exact ⟨_, .go hpos (onward_eq_some.mpr ⟨hmark, hnext⟩) hes,
                    by rw [List.append_assoc]⟩

/-- A run of the loop returns when the gathering comes to an end. -/
theorem exists_run_of_gathersFrom (hs : s.fat12 = some v)
    (hbps : 512 ≤ v.bootSector.bytesPerSector) {es : List DirEntry}
    (h : s.GathersFrom v junk c room es) (i : Nat) (hc : isValidClusterFat12 c = true)
    (hentries : entries.length ≤ fat12MaxRootEntries)
    (hroom : room = fat12MaxRootEntries - entries.length) (hbuffer : Reused v junk buffer) :
    ∃ k r, (readDirLoop k i c buffer entries).run e s = some r := by
  induction h generalizing i buffer entries with
  | full => exact ⟨1, _, run_readDirLoop_full 0 i (by omega)⟩
  | @stop c room hpos hnone =>
      have hlt : entries.length < fat12MaxRootEntries := by omega
      rcases run_readDirLoop_turn (e := e) hs hbps hc hlt hbuffer i rfl with
        ⟨-, hfail⟩ | ⟨buffer', ended, -, hended, hturn⟩
      · exact ⟨1, _, hfail 0⟩
      refine ⟨2, ?_⟩
      rw [hturn 1]
      cases hend : ended with
      | true => exact ⟨_, if_pos rfl⟩
      | false =>
          rw [if_neg Bool.false_ne_true]
          cases hnext : getNextCluster (some v) c with
          | none => exact ⟨_, rfl⟩
          | some c' =>
              -- there is an end marker, but the array has been full in front of it
              have hmark : hasEnd (s.clusterSlots v junk c) = true :=
                (onward_eq_none.mp hnone).resolve_right (by rw [hnext]; exact Option.some_ne_none c')
              have hnot : ¬ (entries.length + (s.live v junk c).length
                  < fat12MaxRootEntries) := fun hless => by
                rw [hended.mpr ⟨hmark, hless⟩] at hend
                cases hend
              obtain ⟨-, hrest⟩ := length_added (s.live v junk c) hentries rfl
              exact ⟨_, run_readDirLoop_full 0 (i + 1) (by omega)⟩
  | @go c c' room es hpos honward _ ih =>
      obtain ⟨hmark, hnext⟩ := onward_eq_some.mp honward
      obtain ⟨hlen, hrest⟩ := length_added (s.live v junk c) hentries rfl
      have hlt : entries.length < fat12MaxRootEntries := by omega
      rcases run_readDirLoop_turn (e := e) hs hbps hc hlt hbuffer i rfl with
        ⟨-, hfail⟩ | ⟨buffer', ended, hbuffer', hended, hturn⟩
      · exact ⟨1, _, hfail 0⟩
      have hgo : ended = false := by
        rw [← Bool.not_eq_true, hended, hmark]
        exact fun h => Bool.false_ne_true h.1
      obtain ⟨k, r, hrun⟩ := ih (i + 1) (getNextCluster_valid hnext) hlen (by omega) hbuffer'
      refine ⟨k + 1, r, ?_⟩
      rw [hturn k, hgo, if_neg Bool.false_ne_true, hnext]
      exact hrun

end loop

/-! ## What a directory holds -/

/-- The first 224 entries in front of the first end marker that are neither deleted nor a part of a
long name. -/
def listing (es : List DirEntry) : List DirEntry := (liveEntries es).take fat12MaxRootEntries

namespace Volume

variable (V : Volume)

/-- The first sector of the root directory. -/
def rootStart : Nat :=
  V.fat12.bootSector.reservedSectors + V.fat12.bootSector.fatCount * V.fat12.bootSector.sectorsPerFat

/-- The slots of the root directory: those of its sectors. -/
def rootSlots (s : State) : List DirEntry :=
  slots (joined 512 fun i => Sector.bytes (V.sector s (V.rootStart + i))) 0
    (V.fat12.bootSector.rootDirSectors * 16)

/-- The slots of a cluster. -/
def clusterSlots (s : State) (c : Nat) : List DirEntry := slots (V.clusterBytes s c) 0 (V.spc * 16)

/-- The slots of the directory that `dir` names: the root directory, or a subdirectory with a
well-formed chain. -/
def HasSlots (s : State) (dir : Option DirEntry) (es : List DirEntry) : Prop :=
  match dir with
  | none => es = V.rootSlots s
  | some d =>
      if firstClusterLow d = 0 then es = V.rootSlots s
      else ∃ l, Chain V.link (firstClusterLow d) l ∧ es = l.flatMap (V.clusterSlots s)

variable {V} {s : State}

/-- A sector that can be addressed is the one that is read. -/
theorem sectorAt_eq (h : V.On s) {n : Nat}
    (hn : n < 256 * (V.geo.spt * V.geo.heads)) :
    s.sectorAt n = V.sector s n := by
  have hread := run_readLogical (e := Fat32.quietEnv) h (l := .fat) rfl hn fun _ => 0
  rw [run_readLogical_cases] at hread
  obtain ⟨hbuffer, -⟩ := Prod.mk.inj (Option.some.inj hread)
  have hcopy := (Prod.mk.inj hbuffer).2
  funext x
  have hx := congrFun hcopy x.val
  rw [copy_inside _ _ _ (Nat.zero_le _) (by omega), copy_inside _ _ _ (Nat.zero_le _) (by omega)] at hx
  simpa [Sector.bytes] using hx

/-- The slots of `n` sectors in the buffer of the driver. -/
theorem slots_sectorsBuffer {sec sec' : Nat → Sector} {n : Nat} (hsec : ∀ i, i < n → sec i = sec' i)
    (junk : Bytes) : slots (sectorsBuffer sec 512 0 n junk) 0 (n * 512 / 32)
      = slots (joined 512 fun i => Sector.bytes (sec' i)) 0 (n * 16) := by
  rw [show n * 512 / 32 = n * 16 by omega]
  refine slots_congr fun x hx => ?_
  have hdiv : x / 512 < n := by omega
  rw [sectorsBuffer, if_pos (by omega), hsec _ hdiv]
  rfl

theorem clusterSlots_eq (h : V.On s) (junk : Bytes) {c : Nat} (hc : V.Has c) :
    s.clusterSlots V.fat12 junk c = V.clusterSlots s c := by
  unfold State.clusterSlots
  rw [V.bytesPerSector_eq]
  refine slots_sectorsBuffer (fun i hi => ?_) junk
  have hlt := dataPos_add_lt hc hi
  have hmax := geometry_lt (V := V)
  have hword : V.fat12.clusterSector c i = V.dataPos c + i := u32_eq_self (by
    change V.dataPos c + i < 2 ^ 32
    omega)
  rw [hword, sectorAt_eq h hlt]

theorem rootSlots_eq (h : V.On s) (hplaced : V.fat12.rootDirStart = V.rootStart) (junk : Bytes) :
    slots (sectorsBuffer (fun i => s.sectorAt (u32 (V.fat12.rootDirStart + i))) 512 0
        V.fat12.bootSector.rootDirSectors junk) 0 (V.fat12.bootSector.rootDirSectors * 512 / 32)
      = V.rootSlots s := by
  refine slots_sectorsBuffer (fun i hi => ?_) junk
  have hmax := geometry_lt (V := V)
  have hstop : _ ≤ 256 * (V.geo.spt * V.geo.heads) := V.stop_le
  have hdata := V.dataStart_eq
  have hsectors : V.fat12.bootSector.rootDirSectors
      = (V.fat12.bootSector.rootEntryCount * 32 + 511) / 512 := by
    rw [BootSector.rootDirSectors, V.bytesPerSector_eq]
  -- the root directory ends where the data begin
  have hend : V.rootStart + V.fat12.bootSector.rootDirSectors = V.fat12.dataStart := by
    rw [hdata, hsectors, rootStart]
  rw [hplaced, u32_eq_self (by omega), sectorAt_eq h (by omega)]

theorem HasSlots.eq_root {dir : Option DirEntry} {es : List DirEntry} (h : V.HasSlots s dir es)
    (hroot : ∀ d, dir = some d → firstClusterLow d = 0) : es = V.rootSlots s := by
  cases dir with
  | none => exact h
  | some d =>
      unfold HasSlots at h
      dsimp only at h
      rwa [if_pos (hroot d rfl)] at h

/-- With sectors of 512 bytes nothing of the buffer is left. -/
theorem clusterSlots_junk (junk junk' : Bytes) (c : Nat) :
    s.clusterSlots V.fat12 junk c = s.clusterSlots V.fat12 junk' c := by
  unfold State.clusterSlots
  rw [V.bytesPerSector_eq]
  exact (slots_sectorsBuffer (fun _ _ => rfl) junk).trans
    (slots_sectorsBuffer (fun _ _ => rfl) junk').symm

end Volume

/-- The list of a chain: its slots, one cluster behind the other. -/
theorem listed_eq (cluster : Nat → List DirEntry) (l : List Nat) (room : Nat) :
    listed (fun c => liveEntries (cluster c)) (fun c => hasEnd (cluster c)) l room
      = (liveEntries (l.flatMap cluster)).take room := by
  induction l generalizing room with
  | nil => simp [listed, liveEntries]
  | cons c l ih =>
      rw [listed, List.flatMap_cons, liveEntries_append, List.take_append, ih]
      cases hasEnd (cluster c) with
      | true => simp
      | false => simp

/-! ## Runs -/

section runs

variable {e : Env} {s : State} {v : Fat12T}

/-- **The root directory**: the call returns, and with the entries when nothing fails. -/
theorem run_readRootEntries (hs : s.fat12 = some v) (hbps : 512 ≤ v.bootSector.bytesPerSector) :
    ∃ r, readRootEntries.run e s = some (r, s) ∧ (e.Reliable → e.HasMemory → ∃ junk,
      r = some (listing (slots (sectorsBuffer (fun i => s.sectorAt (u32 (v.rootDirStart + i)))
        v.bootSector.bytesPerSector 0 v.bootSector.rootDirSectors junk) 0
          (v.bootSector.rootDirSectors * v.bootSector.bytesPerSector / 32)))) := by
  unfold readRootEntries
  rw [Prog.run_bind, Prog.run_get, Option.bind_some]
  dsimp only
  rw [hs]
  dsimp only
  rw [Prog.run_bind, Prog.run_ask, Option.bind_some]
  dsimp only
  cases hmem : e.outOfMemory (.store 1 :: e.path) with
  | true => exact ⟨none, rfl, fun _ hm => absurd ((hm _).symm.trans hmem) Bool.false_ne_true⟩
  | false =>
      obtain ⟨r, hread, hr, hne⟩ := run_readSectors (e := e) (s := s) hbps v.rootDirStart
        v.bootSector.rootDirSectors 0 (e.junk (.store 1 :: e.path))
      rw [if_neg Bool.false_ne_true, Prog.run_bind, Prog.run_ask, Option.bind_some,
        Prog.run_bind_of_some e s hread]
      rcases hr with rfl | rfl
      · exact ⟨none, rfl, fun he => absurd rfl (hne he)⟩
      · refine ⟨_, rfl, fun _ _ => ⟨e.junk (.store 1 :: e.path), ?_⟩⟩
        rw [(parseEntries_spec _ _ _ _ (Nat.zero_le _)).1]
        rfl

/-- The call goes on with the root directory. -/
def TakesRoot (dir : Option DirEntry) : Prop := ∀ d, dir = some d → firstClusterLow d = 0

/-- The root directory, or a subdirectory with a cluster of its own. -/
theorem root_or_sub (dir : Option DirEntry) :
    TakesRoot dir ∨ ∃ d, dir = some d ∧ firstClusterLow d ≠ 0 := by
  by_cases hroot : TakesRoot dir
  · exact Or.inl hroot
  · refine Or.inr (by_contra fun hnot => hroot fun d hd => ?_)
    exact by_contra fun hne => hnot ⟨d, hd, hne⟩

theorem run_fat12ReadDirEntries_root (hs : s.fat12 = some v)
    (hbps : 512 ≤ v.bootSector.bytesPerSector) {dir : Option DirEntry} (hroot : TakesRoot dir)
    (k : Nat) :
    ∃ r, (fat12ReadDirEntries k dir).run e s = some (r, s) ∧
      (e.Reliable → e.HasMemory → ∃ junk,
        r = some (listing (slots (sectorsBuffer (fun i => s.sectorAt (u32 (v.rootDirStart + i)))
          v.bootSector.bytesPerSector 0 v.bootSector.rootDirSectors junk) 0
            (v.bootSector.rootDirSectors * v.bootSector.bytesPerSector / 32)))) := by
  unfold fat12ReadDirEntries
  rw [Prog.run_bind, Prog.run_ask, Option.bind_some]
  dsimp only
  cases hmem : e.outOfMemory (.store 0 :: e.path) with
  | true => exact ⟨none, rfl, fun _ hm => absurd ((hm _).symm.trans hmem) Bool.false_ne_true⟩
  | false =>
      rw [if_neg Bool.false_ne_true]
      cases dir with
      | none => exact run_readRootEntries hs hbps
      | some d =>
          dsimp only
          rw [if_pos (hroot d rfl)]
          change ∃ r, Prog.run _ (e.enter .find) s = _ ∧ _
          rw [Prog.run_bind, Prog.run_ask, Option.bind_some]
          dsimp only
          cases hmem' : (e.enter .find).outOfMemory (.store 0 :: (e.enter .find).path) with
          | true =>
              refine ⟨none, rfl, fun _ hm => absurd hmem' ?_⟩
              rw [show (e.enter .find).outOfMemory _ = false from hm _]
              exact Bool.false_ne_true
          | false =>
              rw [if_neg Bool.false_ne_true]
              obtain ⟨r, hrun, hr⟩ := run_readRootEntries (e := e.enter .find) hs hbps
              exact ⟨r, hrun, fun he hm => hr (he.enter .find) hm⟩

/-- A subdirectory with a first cluster that is valid: nothing, without memory, or the loop. -/
theorem run_fat12ReadDirEntries_sub {d : DirEntry}
    (hc : isValidClusterFat12 (firstClusterLow d) = true) (e : Env) (s : State) :
    (¬ e.HasMemory ∧ ∀ k, (fat12ReadDirEntries k (some d)).run e s = some (none, s)) ∨
      ∀ k, (fat12ReadDirEntries k (some d)).run e s
        = (readDirLoop k 0 (firstClusterLow d) (e.junk (.store 1 :: e.path)) []).run e s := by
  have hne : firstClusterLow d ≠ 0 := by
    intro h0
    rw [h0] at hc
    cases hc
  cases hmem : e.outOfMemory (.store 0 :: e.path) with
  | true =>
      refine Or.inl ⟨fun hm => absurd ((hm _).symm.trans hmem) Bool.false_ne_true, fun k => ?_⟩
      simp [fat12ReadDirEntries, hmem]
  | false =>
      cases hmem' : e.outOfMemory (.store 1 :: e.path) with
      | true =>
          refine Or.inl ⟨fun hm => absurd ((hm _).symm.trans hmem') Bool.false_ne_true, fun k => ?_⟩
          simp [fat12ReadDirEntries, hmem, hmem', hne, hc]
      | false =>
          refine Or.inr fun k => ?_
          simp [fat12ReadDirEntries, hmem, hmem', hne, hc]

/-- A first cluster that is not valid. -/
theorem run_fat12ReadDirEntries_invalid {d : DirEntry} (hne : firstClusterLow d ≠ 0)
    (hc : ¬ isValidClusterFat12 (firstClusterLow d) = true) (e : Env) (s : State) (k : Nat) :
    (fat12ReadDirEntries k (some d)).run e s = some (none, s) := by
  cases hmem : e.outOfMemory (.store 0 :: e.path) <;> simp [fat12ReadDirEntries, hmem, hne, hc]

end runs

/-! ## When a directory is listed -/

/-- `fat12_read_dir_entries` always returns, and for a well-formed directory of 512-byte sectors it
returns the listing when nothing fails. -/
structure ListsDirectory (s : State) (v : Fat12T) (dir : Option DirEntry) : Prop where
  terminates : ∀ e, ∃ k r, (fat12ReadDirEntries k dir).run e s = some r
  lists : ∀ V : Volume, V.fat12 = v → v.rootDirStart = V.rootStart → ∀ es, V.HasSlots s dir es →
    ∀ e k r, e.Reliable → e.HasMemory → (fat12ReadDirEntries k dir).run e s = some r →
      r = (some (listing es), s)

/-- The walk of `get_next_cluster` from cluster `c` on, up to an end marker, comes back to a cluster,
and the entries of all its steps do not fill the array. -/
def State.Endless (s : State) (v : Fat12T) (junk : Bytes) (c : Nat) : Prop :=
  Repeats (s.nextOpen v junk) c ∧
    ∀ n, (collected (s.nextOpen v junk) (s.live v junk) n c).length < fat12MaxRootEntries

/-- The walk of `get_next_cluster` along the chain `l` lists what is on the chain: it stays on the
chain until the listing is complete, or what it finds where it leaves the chain comes to the same. -/
def State.StaysOn (s : State) (v : Fat12T) (l : List Nat) : Prop :=
  Agrees (getNextCluster (some v)) (s.live v fun _ => 0)
    (fun c => hasEnd (s.clusterSlots v (fun _ => 0) c)) l fat12MaxRootEntries

/-- The condition on a subdirectory. -/
structure Listable (s : State) (v : Fat12T) (dir : Option DirEntry) : Prop where
  ends : ∀ d, dir = some d → isValidClusterFat12 (firstClusterLow d) = true →
    ∀ junk, ¬ s.Endless v junk (firstClusterLow d)
  stays : ∀ V : Volume, V.fat12 = v → v.rootDirStart = V.rootStart → ∀ d l, dir = some d →
    Chain V.link (firstClusterLow d) l → s.StaysOn v l

section lists

variable {s : State} {v : Fat12T} {junk : Bytes} {c : Nat} {dir : Option DirEntry}

/-- The loop returns unless the walk is endless. -/
theorem exists_gathersFrom_iff :
    (∃ es, s.GathersFrom v junk c fat12MaxRootEntries es) ↔ ¬ s.Endless v junk c := by
  refine exists_gathers_iff (Finset.range 4096) fun b c' h => ?_
  have hvalid := getNextCluster_valid (onward_eq_some.mp h).2
  simp only [isValidClusterFat12, Bool.and_eq_true, decide_eq_true_eq] at hvalid
  rw [Finset.mem_range]
  omega

/-- With nothing failing, a call for a subdirectory that returns has gathered its entries. -/
theorem gathersFrom_of_call (hs : s.fat12 = some v) (hbps : 512 ≤ v.bootSector.bytesPerSector)
    {d : DirEntry} (hc : isValidClusterFat12 (firstClusterLow d) = true) {e : Env} {k : Nat}
    {r : Option (List DirEntry) × State} (he : e.Reliable) (hm : e.HasMemory)
    (hrun : (fat12ReadDirEntries k (some d)).run e s = some r) :
    ∃ es, s.GathersFrom v (e.junk (.store 1 :: e.path)) (firstClusterLow d) fat12MaxRootEntries es ∧
      r = (some es, s) := by
  rcases run_fat12ReadDirEntries_sub hc e s with ⟨hno, -⟩ | hloop
  · exact absurd hm hno
  · rw [hloop k] at hrun
    obtain ⟨hs', ⟨-, hno⟩ | ⟨es, hes, hr⟩⟩ := gathersFrom_of_run hs hbps k 0 hc (Nat.zero_le _)
      (fun _ => rfl) hrun
    · exact absurd he hno
    · exact ⟨es, hes, Prod.ext hr hs'⟩

theorem Volume.entry_lt (V : Volume) (c : Nat) : V.entry c < 4096 := by
  have hword := load16_lt V.fat (c * 3 / 2)
  unfold Volume.entry
  split <;> omega

theorem Volume.Has.nextOf {V : Volume} (hc : V.Has c) : nextOf c = some c := by
  have hlt := V.clusters_lt
  have h1 := hc.1
  have h2 := hc.2
  rw [Fat12.nextOf, if_neg, if_neg (by omega), if_neg (by omega)]
  simp only [isEndOfChainFat12, Bool.and_eq_true, decide_eq_true_eq]
  omega

/-- A chain whose entries of the FAT are all found. -/
theorem staysOn_of_findsEntry {V : Volume} {l : List Nat} (hl : Chain V.link c l)
    (hfind : ∀ x ∈ l, FindsEntry V.fat x) : s.StaysOn V.fat12 l := by
  unfold State.StaysOn
  generalize fat12MaxRootEntries = room
  have hnext : ∀ x, V.Has x → FindsEntry V.fat x →
      getNextCluster (some V.fat12) x = nextOf (V.entry x) := by
    intro x hx hfound
    have hroom := V.fat_room
    have hlt := hx.2
    exact (getNextCluster_iff V.fat_eq hx.isValid (by omega)).mpr hfound
  induction hl generalizing room with
  | @last c hlast =>
      have hc : V.Has c := Volume.has_of_link (by rw [hlast]; simp)
      refine Or.inr (Or.inl ⟨?_, trivial⟩)
      rw [hnext c hc (hfind c List.mem_cons_self)]
      unfold Volume.link at hlast
      rw [if_pos hc] at hlast
      split at hlast
      next hend =>
          have hword := V.entry_lt c
          rw [nextOf, if_pos (by simp [isEndOfChainFat12]; omega)]
          rfl
      next => cases hlast
  | @cons c b l hc hl ih =>
      refine Or.inr (Or.inl ⟨?_, ih (fun x hx => hfind x (List.mem_cons_of_mem c hx)) _⟩)
      have hhas : V.Has b := Volume.has_of_link (hl.link_ne_broken hl.head_mem)
      obtain ⟨l', rfl⟩ := hl.eq_cons
      have hc' : V.Has c := Volume.has_of_link (by rw [hc]; simp)
      rw [hnext c hc' (hfind c List.mem_cons_self)]
      unfold Volume.link at hc
      rw [if_pos hc'] at hc
      split at hc
      next => cases hc
      next =>
          obtain rfl : V.entry c = b := by
            cases hc
            rfl
          exact hhas.nextOf

/-- With sectors of 512 bytes, what is gathered does not depend on the junk in the buffer. -/
theorem Volume.gathersFrom_junk {V : Volume} {room : Nat} {es : List DirEntry}
    (h : s.GathersFrom V.fat12 junk c room es) (junk' : Bytes) :
    s.GathersFrom V.fat12 junk' c room es := by
  have hslots : s.clusterSlots V.fat12 junk' = s.clusterSlots V.fat12 junk :=
    funext fun c => Volume.clusterSlots_junk _ junk c
  unfold State.GathersFrom State.nextOpen State.live
  rw [hslots]
  exact h

/-- What is gathered along a chain. -/
theorem gathersFrom_chain {V : Volume} (h : V.On s) {l : List Nat} (hl : Chain V.link c l)
    {es : List DirEntry} (hes : s.GathersFrom V.fat12 junk c fat12MaxRootEntries es) :
    es = listing (l.flatMap (V.clusterSlots s)) ↔ s.StaysOn V.fat12 l := by
  have hjunk := Volume.gathersFrom_junk hes fun _ => 0
  obtain ⟨l', rfl⟩ := hl.eq_cons
  have hflat : (c :: l').flatMap (V.clusterSlots s)
      = (c :: l').flatMap (s.clusterSlots V.fat12 fun _ => 0) :=
    List.flatMap_congr fun x hx =>
      (Volume.clusterSlots_eq h _ (Volume.has_of_link (hl.link_ne_broken hx))).symm
  rw [hflat, listing, ← listed_eq]
  exact hjunk.eq_iff

theorem ListsDirectory.listable (h : ListsDirectory s v dir) (hs : s.fat12 = some v)
    (hbps : 512 ≤ v.bootSector.bytesPerSector) : Listable s v dir := by
  constructor
  · rintro d rfl hc junk
    -- a call without failures, in a memory with just this junk
    obtain ⟨k, r, hrun⟩ := h.terminates { Fat32.quietEnv with junk := fun _ => junk }
    obtain ⟨es, hes, -⟩ := gathersFrom_of_call hs hbps hc (fun _ => rfl) (fun _ => rfl) hrun
    exact exists_gathersFrom_iff.mp ⟨es, hes⟩
  · rintro V rfl hroot d l rfl hl
    have hhas := Volume.has_of_link (hl.link_ne_broken hl.head_mem)
    have hc := hhas.isValid
    have hne : firstClusterLow d ≠ 0 := by
      have h2 := hhas.1
      omega
    obtain ⟨k, r, hrun⟩ := h.terminates Fat32.quietEnv
    obtain ⟨es, hes, hr⟩ := gathersFrom_of_call hs hbps hc Fat32.quietEnv_reliable
      Fat32.quietEnv_hasMemory hrun
    have hslots : V.HasSlots s (some d) (l.flatMap (V.clusterSlots s)) := by
      unfold Volume.HasSlots
      dsimp only
      rw [if_neg hne]
      exact ⟨l, hl, rfl⟩
    have hlist := h.lists V rfl hroot _ hslots _ k r Fat32.quietEnv_reliable
      Fat32.quietEnv_hasMemory hrun
    rw [hr] at hlist
    exact (gathersFrom_chain hs hl hes).mp (Option.some.inj (Prod.mk.inj hlist).1)

theorem Listable.listsDirectory (h : Listable s v dir) (hs : s.fat12 = some v)
    (hbps : 512 ≤ v.bootSector.bytesPerSector) : ListsDirectory s v dir := by
  rcases root_or_sub dir with hroot | ⟨d, rfl, hne⟩
  · constructor
    · intro e
      obtain ⟨r, hrun, -⟩ := run_fat12ReadDirEntries_root (e := e) hs hbps hroot 0
      exact ⟨0, _, hrun⟩
    · rintro V rfl hplaced es hslots e k r he hm hrun
      obtain rfl : es = V.rootSlots s := hslots.eq_root hroot
      obtain ⟨r', hrun', hlist⟩ := run_fat12ReadDirEntries_root (e := e) hs hbps hroot k
      obtain ⟨junk, rfl⟩ := hlist he hm
      rw [hrun'] at hrun
      rw [← Option.some.inj hrun, V.bytesPerSector_eq, Volume.rootSlots_eq hs hplaced]
  · constructor
    · intro e
      by_cases hc : isValidClusterFat12 (firstClusterLow d) = true
      · rcases run_fat12ReadDirEntries_sub hc e s with ⟨-, hnone⟩ | hloop
        · exact ⟨0, _, hnone 0⟩
        · obtain ⟨es, hes⟩ := exists_gathersFrom_iff.mpr
            (h.ends d rfl hc (e.junk (.store 1 :: e.path)))
          have hempty : ([] : List DirEntry).length ≤ fat12MaxRootEntries := Nat.zero_le _
          obtain ⟨k, r, hrun⟩ := exists_run_of_gathersFrom (e := e) hs hbps hes 0 hc hempty rfl
            fun _ => rfl
          exact ⟨k, r, (hloop k).trans hrun⟩
      · exact ⟨0, _, run_fat12ReadDirEntries_invalid hne hc e s 0⟩
    · rintro V rfl hplaced es hslots e k r he hm hrun
      unfold Volume.HasSlots at hslots
      dsimp only at hslots
      rw [if_neg hne] at hslots
      obtain ⟨l, hl, rfl⟩ := hslots
      have hhas := Volume.has_of_link (hl.link_ne_broken hl.head_mem)
      obtain ⟨es, hes, rfl⟩ := gathersFrom_of_call hs hbps hhas.isValid he hm hrun
      rw [(gathersFrom_chain hs hl hes).mpr (h.stays V rfl hplaced d l rfl hl)]

end lists

/-- **Directory listings.** For every directory entry, every disk and every FAT: the call returns
whatever fails, and returns the listing of a well-formed directory when nothing fails, exactly when
the walk of `get_next_cluster` is not endless and stays on the chain. -/
theorem listsDirectory_iff {s : State} {v : Fat12T} (hs : s.fat12 = some v)
    (hv : v.bootSector.Accepted) (dir : Option DirEntry) :
    ListsDirectory s v dir ↔ Listable s v dir :=
  ⟨fun h => h.listable hs hv.bytesPerSector_ge, fun h => h.listsDirectory hs hv.bytesPerSector_ge⟩

/-! ### Directories of equal bytes -/

/-- A volume in which cluster 4 is followed by itself. -/
def selfLinked : Fat12T := oneSectorFat [0xFF0, 0xFFF, 0, 0, 4, 0xFFF]

/-- Its floppy, with nothing but the byte `b`. -/
def evenState (b : UInt8) : State where
  floppies := fun _ _ _ _ _ => b
  fat12 := some selfLinked
  currentFddDrive := 0
  files := fun _ => none
  entries := none
  currentDir := none

/-- A subdirectory in cluster 4. -/
def clusterFour : DirEntry := fun i => if i = 26 then 4 else 0

theorem mem_clusterSlots_even {b : UInt8} {junk : Bytes} {c : Nat} {e : DirEntry}
    (he : e ∈ (evenState b).clusterSlots selfLinked junk c) : e = fun _ => b := by
  obtain ⟨j, hj, rfl⟩ := List.mem_map.mp he
  rw [List.mem_range'_1] at hj
  have hlt : j < 16 := hj.2
  funext i
  have hi := i.isLt
  have hbyte : ∀ k, k < 512 → Sector.bytes ((evenState b).sectorAt
      (selfLinked.clusterSector c ((32 * j + i) / 512))) k = b := by
    intro k hk
    rw [Sector.bytes, dif_pos hk]
    rfl
  change sectorsBuffer _ 512 0 1 junk (32 * j + i) = b
  rw [sectorsBuffer, if_pos (by omega), hbyte _ (by omega)]

/-- A floppy on which cluster 4 holds the entry `A`, a part of a long name and deleted entries, and
cluster 5 a deleted entry, the entry `B` and an end marker. -/
def twoClusterDir : State where
  floppies := fun _ _ _ sector x =>
    if sector = 7 then
      if x.val = 0 then 0x41 else if x.val = 32 then 0x42 else if x.val = 43 then 0x0F
      else if x.val % 32 = 0 then 0xE5 else 0
    else if x.val = 0 then 0xE5 else if x.val = 32 then 0x42 else 0
  fat12 := some twoClusterVolume.fat12
  currentFddDrive := 0
  files := fun _ => none
  entries := none
  currentDir := none

/-- The chain of the subdirectory. -/
theorem eq_of_chain_twoCluster {V : Volume} {l : List Nat} (hV : V.fat12 = twoClusterVolume.fat12)
    (hl : Chain V.link 4 l) : ∀ c ∈ l, c = 4 ∨ c = 5 := by
  have hfat : V.fat = twoClusterVolume.fat := by
    have heq := V.fat_eq
    rw [hV] at heq
    exact (Option.some.inj heq).symm
  have hentry : V.entry 4 = 5 ∧ V.entry 5 = 0xFFF := by
    unfold Volume.entry
    rw [hfat]
    decide
  have hlink : ∀ {c b : Nat}, V.link c = .next b → ¬ 0xFF8 ≤ V.entry c ∧ V.entry c = b := by
    intro c b hc
    unfold Volume.link at hc
    split at hc
    · split at hc
      · cases hc
      next hstop =>
        cases hc
        exact ⟨hstop, rfl⟩
    · cases hc
  cases hl with
  | last => exact fun c hc => Or.inl (List.mem_singleton.mp hc)
  | cons hfour hl =>
      obtain rfl : _ = 5 := (hlink hfour).2.symm.trans hentry.1
      cases hl with
      | last =>
          intro c hc
          rcases List.mem_cons.mp hc with rfl | hc
          · exact Or.inl rfl
          · exact Or.inr (List.mem_singleton.mp hc)
      | cons hfive => exact absurd (by rw [hentry.2]; decide) (hlink hfive).1

/-- `A` and `B` are listed. -/
theorem listsDirectory_iff_twoClusters :
    ListsDirectory twoClusterDir twoClusterVolume.fat12 (some clusterFour) ∧
      ∃ es, twoClusterVolume.HasSlots twoClusterDir (some clusterFour) es ∧
        (listing es).map (fun e => e 0) = [0x41, 0x42] := by
  constructor
  · refine (listsDirectory_iff rfl (accepted_of_validate (by decide)) _).mpr ⟨?_, ?_⟩
    · rintro d hd - junk ⟨hrep, -⟩
      obtain rfl := Option.some.inj hd
      refine hrep.walk_ne_none 2 ?_
      cases hnext : twoClusterDir.nextOpen twoClusterVolume.fat12 junk 4 with
      | none => exact Option.bind_eq_none_iff.mpr fun c hc => nomatch hnext.symm.trans hc
      | some c =>
          -- cluster 5 is the last one
          obtain rfl : c = 5 := by
            have hfour : getNextCluster (some twoClusterVolume.fat12) 4 = some 5 := by decide
            exact Option.some.inj ((onward_eq_some.mp hnext).2.symm.trans hfour)
          have hlast : twoClusterDir.nextOpen twoClusterVolume.fat12 junk 5 = none :=
            onward_eq_none.mpr (Or.inr (by decide))
          change walk _ 2 4 = none
          rw [walk, hnext, Option.bind_some, walk, hlast, Option.bind_none]
    · rintro V hV - d l hd hl
      obtain rfl := Option.some.inj hd
      rw [← hV]
      refine staysOn_of_findsEntry hl fun c hc => Or.inl ?_
      rcases eq_of_chain_twoCluster hV hl c hc with rfl | rfl <;> decide
  · refine ⟨_, ⟨[4, 5], .cons (by decide) (.last (by decide)), rfl⟩, ?_⟩
    decide +kernel

/-- A subdirectory that goes round with deleted entries only. -/
theorem not_listsDirectory : ¬ ListsDirectory (evenState 0xE5) selfLinked (some clusterFour) := by
  intro h
  obtain ⟨k, r, hrun⟩ := h.terminates Fat32.quietEnv
  obtain ⟨es, hes, -⟩ := gathersFrom_of_call rfl (by decide) (by decide)
    Fat32.quietEnv_reliable Fat32.quietEnv_hasMemory hrun
  generalize Fat32.quietEnv.junk (.store 1 :: Fat32.quietEnv.path) = junk at hes
  have hend : ∀ c, hasEnd ((evenState 0xE5).clusterSlots selfLinked junk c) = false := by
    intro c
    refine List.any_eq_false.mpr fun e he => ?_
    rw [mem_clusterSlots_even he]
    decide
  have hlive : ∀ c, (evenState 0xE5).live selfLinked junk c = [] := by
    intro c
    refine List.filter_eq_nil_iff.mpr fun e he => ?_
    rw [mem_clusterSlots_even ((List.takeWhile_sublist _).subset he)]
    decide
  have hnext : (evenState 0xE5).nextOpen selfLinked junk 4 = some 4 :=
    onward_eq_some.mpr ⟨hend 4, by decide⟩
  refine exists_gathersFrom_iff.mp ⟨es, hes⟩ ⟨⟨0, 1, 4, Nat.zero_lt_one, rfl, ?_⟩, fun n => ?_⟩
  · change walk ((evenState 0xE5).nextOpen selfLinked junk) 1 4 = some 4
    rw [walk, hnext, Option.bind_some, walk]
  · rw [collected_eq_nil hlive]
    decide

end MicroKernel.Fat12
