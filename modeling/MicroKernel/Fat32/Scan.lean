import MicroKernel.Fat32.Spec

set_option autoImplicit false

/-! # Scans of a directory cluster

What the loops over the entries of a cluster find, in terms of the sequence of the entries and
not of the buffer they were read into, and what `find_file_in_directory` and
`is_directory_empty` do with it.
-/

namespace MicroKernel.Fat32

open MicroKernel.Lib Bytes

/-! ## The loop -/

/-- A scan goes on after the entry. -/
def Passed (skip accept : DirEntry → Bool) (x : DirEntry) : Prop :=
  x.isEnd = false ∧ (skip x = false → accept x = false)

/-- A scan stops at the entry and returns it. -/
def Taken (skip accept : DirEntry → Bool) (x : DirEntry) : Prop :=
  x.isEnd = false ∧ skip x = false ∧ accept x = true

theorem Passed.not_taken {skip accept : DirEntry → Bool} {x : DirEntry}
    (h : Passed skip accept x) : ¬ Taken skip accept x := by
  intro ht
  have := h.2 ht.2.1
  rw [ht.2.2] at this
  cases this

/-- Among the first `n` entries of a directory, `j` is the one that the scan returns. -/
structure FirstTaken (skip accept : DirEntry → Bool) (es : Nat → DirEntry) (n j : Nat) : Prop where
  lt : j < n
  passed : ∀ i, i < j → Passed skip accept (es i)
  taken : Taken skip accept (es j)

/-- The three ways a scan ends. -/
theorem scanEntries_spec (skip accept : DirEntry → Bool) (b : Bytes) (es : Nat → DirEntry)
    (n j : Nat) (hb : ∀ i, j ≤ i → i < j + n → entryAt b i = es i) :
    match scanEntries skip accept b n j with
    | .found x => ∃ i, j ≤ i ∧ i < j + n ∧ (∀ i', j ≤ i' → i' < i → Passed skip accept (es i')) ∧
        Taken skip accept (es i) ∧ x = es i
    | .ended => ∃ i, j ≤ i ∧ i < j + n ∧ (∀ i', j ≤ i' → i' < i → Passed skip accept (es i')) ∧
        (es i).isEnd = true
    | .more => ∀ i', j ≤ i' → i' < j + n → Passed skip accept (es i') := by
  -- on the entries that are left
  induction n generalizing j with
  | zero =>
      intro i' h1 h2
      omega
  | succ n ih =>
      have hj := hb j (Nat.le_refl j) (by omega)
      have ih := ih (j + 1) fun i h1 h2 => hb i (by omega) (by omega)
      unfold scanEntries
      rw [hj]
      by_cases hend : (es j).isEnd
      · rw [if_pos hend]
        exact ⟨j, Nat.le_refl j, by omega, fun i' h1 h2 => by omega, hend⟩
      · rw [if_neg hend]
        -- what the rest of the scan does, with entry `j` passed
        have hrest : Passed skip accept (es j) →
            match scanEntries skip accept b n (j + 1) with
            | .found x => ∃ i, j ≤ i ∧ i < j + (n + 1) ∧
                (∀ i', j ≤ i' → i' < i → Passed skip accept (es i')) ∧
                Taken skip accept (es i) ∧ x = es i
            | .ended => ∃ i, j ≤ i ∧ i < j + (n + 1) ∧
                (∀ i', j ≤ i' → i' < i → Passed skip accept (es i')) ∧ (es i).isEnd = true
            | .more => ∀ i', j ≤ i' → i' < j + (n + 1) → Passed skip accept (es i') := by
          intro hp
          have hcons : ∀ i, (∀ i', j + 1 ≤ i' → i' < i → Passed skip accept (es i')) →
              ∀ i', j ≤ i' → i' < i → Passed skip accept (es i') := by
            intro i h i' h1 h2
            rcases Nat.eq_or_lt_of_le h1 with rfl | h1
            · exact hp
            · exact h i' h1 h2
          revert ih
          cases scanEntries skip accept b n (j + 1) with
          | found x =>
              rintro ⟨i, h1, h2, h3, h4⟩
              exact ⟨i, by omega, by omega, hcons i h3, h4⟩
          | ended =>
              rintro ⟨i, h1, h2, h3, h4⟩
              exact ⟨i, by omega, by omega, hcons i h3, h4⟩
          | more =>
              intro h
              exact hcons _ fun i' h1 h2 => h i' h1 (by omega)
        rw [Bool.not_eq_true] at hend
        by_cases hskip : skip (es j)
        · rw [if_pos hskip]
          exact hrest ⟨hend, fun h => by rw [hskip] at h; cases h⟩
        · rw [if_neg hskip]
          rw [Bool.not_eq_true] at hskip
          by_cases hacc : accept (es j)
          · rw [if_pos hacc]
            exact ⟨j, Nat.le_refl j, by omega, fun i' h1 h2 => by omega, ⟨hend, hskip, hacc⟩, rfl⟩
          · rw [if_neg hacc]
            rw [Bool.not_eq_true] at hacc
            exact hrest ⟨hend, fun _ => hacc⟩

section scan

variable {skip accept : DirEntry → Bool} {b : Bytes} {es : Nat → DirEntry} {n : Nat}

theorem firstTaken_of_found (hb : ∀ i, i < n → entryAt b i = es i) {x : DirEntry}
    (h : scanEntries skip accept b n 0 = .found x) :
    ∃ j, FirstTaken skip accept es n j ∧ x = es j := by
  have hs := scanEntries_spec skip accept b es n 0 fun i _ hi => hb i (by omega)
  rw [h] at hs
  obtain ⟨j, -, h2, h3, h4, h5⟩ := hs
  exact ⟨j, ⟨by omega, fun i hi => h3 i (Nat.zero_le i) hi, h4⟩, h5⟩

theorem FirstTaken.scan (hb : ∀ i, i < n → entryAt b i = es i) {j : Nat}
    (h : FirstTaken skip accept es n j) : scanEntries skip accept b n 0 = .found (es j) := by
  have hs := scanEntries_spec skip accept b es n 0 fun i _ hi => hb i (by omega)
  revert hs
  cases scanEntries skip accept b n 0 with
  | found x =>
      rintro ⟨i, -, h2, h3, h4, rfl⟩
      rcases Nat.lt_trichotomy i j with hij | rfl | hij
      · exact absurd h4 (h.passed i hij).not_taken
      · rfl
      · exact absurd h.taken (h3 j (Nat.zero_le j) hij).not_taken
  | ended =>
      rintro ⟨i, -, h2, h3, h4⟩
      rcases Nat.lt_trichotomy i j with hij | rfl | hij
      · rw [(h.passed i hij).1] at h4
        cases h4
      · rw [h.taken.1] at h4
        cases h4
      · exact absurd h.taken (h3 j (Nat.zero_le j) hij).not_taken
  | more =>
      intro h3
      exact absurd h.taken (h3 j (Nat.zero_le j) (by have := h.lt; omega)).not_taken

theorem slotOf_eq_some {x : DirEntry} {j : Nat} (hj : j < n) (hx : entryAt b j = x)
    (hbefore : ∀ i, i < j → entryAt b i ≠ x) : slotOf x b n = some j := by
  unfold Fat32.slotOf
  rw [List.find?_range_eq_some]
  refine ⟨by simp [hx], by simp [hj], fun i hi => ?_⟩
  simp [hbefore i hi]

theorem FirstTaken.ne {i j : Nat} (h : FirstTaken skip accept es n j) (hi : i < j) :
    es i ≠ es j := by
  intro he
  have hp := h.passed i hi
  rw [he] at hp
  exact hp.not_taken h.taken

theorem FirstTaken.noEnd {i j : Nat} (h : FirstTaken skip accept es n j) (hi : i ≤ j) :
    (es i).isEnd = false := by
  rcases Nat.lt_or_eq_of_le hi with hi | rfl
  · exact (h.passed i hi).1
  · exact h.taken.1

theorem FirstTaken.unique {j j' : Nat} (h : FirstTaken skip accept es n j)
    (h' : FirstTaken skip accept es n j') : j = j' := by
  rcases Nat.lt_trichotomy j j' with hlt | heq | hlt
  · exact absurd h.taken (h'.passed j hlt).not_taken
  · exact heq
  · exact absurd h'.taken (h.passed j' hlt).not_taken

theorem FirstTaken.congr {es' : Nat → DirEntry} {j : Nat} (h : FirstTaken skip accept es n j)
    (heq : ∀ i, i ≤ j → es' i = es i) : FirstTaken skip accept es' n j := by
  refine ⟨h.lt, fun i hi => ?_, ?_⟩
  · rw [heq i (Nat.le_of_lt hi)]
    exact h.passed i hi
  · rw [heq j (Nat.le_refl j)]
    exact h.taken

/-- A scan that arrives at an entry it would return finds that entry or one before it. -/
theorem exists_firstTaken {j : Nat} (hj : j < n) (hend : ∀ i, i ≤ j → (es i).isEnd = false)
    (h : Taken skip accept (es j)) : ∃ i, i ≤ j ∧ FirstTaken skip accept es n i := by
  classical
  have hex : ∃ i, Taken skip accept (es i) := ⟨j, h⟩
  have hle : Nat.find hex ≤ j := Nat.find_min' hex h
  refine ⟨Nat.find hex, hle, by omega, fun i hi => ⟨hend i (by omega), fun hskip => ?_⟩,
    Nat.find_spec hex⟩
  have hmin := Nat.find_min hex hi
  rw [← Bool.not_eq_true]
  exact fun hacc => hmin ⟨hend i (by omega), hskip, hacc⟩

/-- Nothing before the entry returned is equal to it: removing by contents hits the entry that
was found by name. -/
theorem FirstTaken.slotOf {j : Nat} (h : FirstTaken skip accept es n j)
    (hb : ∀ i, i ≤ j → entryAt b i = es i) : slotOf (es j) b n = some j := by
  refine slotOf_eq_some h.lt (hb j (Nat.le_refl j)) fun i hi => ?_
  rw [hb i (Nat.le_of_lt hi)]
  exact h.ne hi

end scan

/-! ## Free slots -/

/-- A slot that a new entry may take. -/
def DirEntry.isFree (x : DirEntry) : Bool := isEnd x || isDeleted x

theorem freeSlot_eq_some_iff {b : Bytes} {n j : Nat} : freeSlot b n = some j ↔
    j < n ∧ (entryAt b j).isFree = true ∧ ∀ i, i < j → (entryAt b i).isFree = false := by
  unfold freeSlot
  rw [List.find?_range_eq_some, List.mem_range]
  constructor
  · rintro ⟨h1, h2, h3⟩
    exact ⟨h2, h1, fun i hi => by simpa [DirEntry.isFree] using h3 i hi⟩
  · rintro ⟨h1, h2, h3⟩
    exact ⟨h2, h1, fun i hi => by simpa [DirEntry.isFree] using h3 i hi⟩

theorem freeSlot_eq_none {b : Bytes} {n : Nat} :
    freeSlot b n = none ↔ ∀ i, i < n → (entryAt b i).isFree = false := by
  unfold freeSlot
  rw [List.find?_range_eq_none]
  simp [DirEntry.isFree]

/-! ## Finding an entry by its name -/

/-- The driver works on the volume and its current directory is a cluster of it. -/
structure Fs.Ready (s : Fs) (V : Volume) : Prop where
  on : s.On V
  info : s.InfoReserved V
  cwd : V.Has s.currentDirectoryCluster

/-- `find_file_in_directory` finds slot `j` of cluster `c`. -/
abbrev Volume.FoundAt (V : Volume) (d : Disk) (c : Nat) (filename : List UInt8) (j : Nat) : Prop :=
  FirstTaken skipDeletedLfn (fun x => compareNames x.name filename) (V.slot d c) V.slots j

/-- Nothing keeps `find_file_in_directory` from looking at the directory and returning what it
finds. -/
structure Env.Searches (e : Env) (V : Volume) : Prop where
  buffer : e.outOfMemory (.load 0 :: e.path) = false
  read : allLoaded e V.bs.sectorsPerCluster 0 = true
  result : e.outOfMemory (.store 0 :: e.path) = false

theorem Env.Reliable.searches {e : Env} {V : Volume} (he : e.Reliable) (hm : e.HasMemory) :
    e.Searches V :=
  ⟨hm _, he.allLoaded _ _, hm _⟩

section find

variable {V : Volume} {s : Fs} {e : Env} {filename : List UInt8}

/-- **`find_file_in_directory`** when there is something to find. -/
theorem run_findFileInDirectory (he : e.Searches V) (h : s.Ready V) {j : Nat}
    (hj : V.FoundAt s.disk s.currentDirectoryCluster filename j) :
    (findFileInDirectory filename).run e s
      = some (some (V.slot s.disk s.currentDirectoryCluster j), s) := by
  have hscan := hj.scan fun i hi => entryAt_loaded s.disk s.currentDirectoryCluster
    (e.junk (.load 0 :: e.path)) hi he.read
  unfold Volume.slots at hscan
  unfold findFileInDirectory
  rw [Prog.run_bind, Prog.run_get, Option.bind_some]
  dsimp only
  rw [clusterToSector_eq h.on h.cwd, h.on.boot, Prog.run_bind, Prog.run_ask, Option.bind_some,
    Prog.run_ite, if_neg (by simp [he.buffer]), Prog.run_bind, run_uninitialised, Option.bind_some,
    Prog.run_bind, run_readSectorsChecked e h.cwd _ (by omega), Option.bind_some]
  simp only [if_pos he.read]
  rw [Nat.mul_comm, hscan]
  simp [he.result]

/-- `find_file_in_directory` when there is nothing to find, or something is in the way. -/
theorem run_findFileInDirectory_none (h : s.Ready V)
    (hno : e.Searches V → ∀ j, ¬ V.FoundAt s.disk s.currentDirectoryCluster filename j) :
    (findFileInDirectory filename).run e s = some (none, s) := by
  unfold findFileInDirectory
  rw [Prog.run_bind, Prog.run_get, Option.bind_some]
  dsimp only
  rw [clusterToSector_eq h.on h.cwd, h.on.boot, Prog.run_bind, Prog.run_ask, Option.bind_some,
    Prog.run_ite]
  split
  · rfl
  next hbuffer =>
    rw [Prog.run_bind, run_uninitialised, Option.bind_some, Prog.run_bind,
      run_readSectorsChecked e h.cwd _ (by omega), Option.bind_some]
    by_cases hl : allLoaded e V.bs.sectorsPerCluster 0 = true
    · simp only [if_pos hl]
      split
      next x hx =>
        rw [Nat.mul_comm] at hx
        obtain ⟨j, hj, -⟩ := firstTaken_of_found
          (fun i hi => entryAt_loaded s.disk s.currentDirectoryCluster _ hi hl) hx
        rw [Prog.run_bind, Prog.run_ask, Option.bind_some, Prog.run_ite]
        split
        · rfl
        next hresult =>
          exact absurd hj (hno ⟨by simpa using hbuffer, hl, by simpa using hresult⟩ j)
      next => rfl
    · simp only [if_neg hl]
      rfl

/-- What `find_file_in_directory` returns is the entry that its scan finds on the disk. -/
theorem findFileInDirectory_cases (h : s.Ready V) {r : Option DirEntry} {s' : Fs}
    (hr : (findFileInDirectory filename).run e s = some (r, s')) :
    s' = s ∧ (r = none ∨ ∃ j, V.FoundAt s.disk s.currentDirectoryCluster filename j ∧
      r = some (V.slot s.disk s.currentDirectoryCluster j)) := by
  by_cases hex : e.Searches V ∧ ∃ j, V.FoundAt s.disk s.currentDirectoryCluster filename j
  · obtain ⟨he, j, hj⟩ := hex
    rw [run_findFileInDirectory he h hj, Option.some.injEq, Prod.mk.injEq] at hr
    exact ⟨hr.2.symm, Or.inr ⟨j, hj, hr.1.symm⟩⟩
  · rw [run_findFileInDirectory_none h fun he j hj => hex ⟨he, j, hj⟩, Option.some.injEq,
      Prod.mk.injEq] at hr
    exact ⟨hr.2.symm, Or.inl hr.1.symm⟩

end find

/-! ## Empty directories -/

/-- The reads of `read_cluster` and its like return and leave the state alone, wherever they
read. -/
theorem readSectors_returns (e : Env) (s : Fs) (startSector n i : Nat) (b : Bytes) :
    ∃ b', (readSectors startSector n i b).run e s = some (b', s) := by
  induction n generalizing i b with
  | zero => exact ⟨b, rfl⟩
  | succ n ih =>
      rw [readSectors, Prog.run_bind, run_readSector, Option.bind_some]
      exact ih _ _

/-- What `is_directory_empty` makes of the buffer: it looks at the first 16 entries. -/
def emptyScan (entries : Bytes) : Bool :=
  match scanEntries skipDots (fun _ => true) entries 16 0 with
  | .found _ => false
  | _ => true

/-- What `is_directory_empty` looks at, when nothing fails: the first 16 entries of the first
cluster. -/
def Volume.looksEmpty (V : Volume) (d : Disk) (c : Nat) : Bool := emptyScan (V.clusterBytes d c)

/-- Where every read has room or fails, the checks go through. -/
theorem run_readSectorsInto {e : Env} (s : Fs) {size : Nat} (startSector : Nat) {n i : Nat}
    (b : Bytes) (h : ∀ t, i ≤ t → t < i + n → e.fails (.load t) = false → 512 * t + 512 ≤ size) :
    (readSectorsInto size startSector n i b).run e s = (readSectors startSector n i b).run e s := by
  induction n generalizing i b with
  | zero => rfl
  | succ n ih =>
      have hroom := h i (Nat.le_refl i) (by omega)
      rw [readSectorsInto, readSectors, Prog.run_bind, Prog.run_bind, run_readSector,
        Option.bind_some, Option.bind_some, Prog.run_check_bind, if_pos]
      · exact ih _ fun t h1 h2 => h t (by omega) (by omega)
      · intro hok
        cases hf : e.fails (.load i) with
        | true =>
            rw [hf] at hok
            cases hok
        | false => exact hroom hf

/-- Where one has no room and does not fail, it runs over the end. -/
theorem run_readSectorsInto_none {e : Env} (s : Fs) {size t : Nat} (startSector : Nat) {n i : Nat}
    (b : Bytes) (hi : i ≤ t) (ht : t < i + n) (hf : e.fails (.load t) = false)
    (hsize : size < 512 * t + 512) : (readSectorsInto size startSector n i b).run e s = none := by
  induction n generalizing i b with
  | zero => omega
  | succ n ih =>
      rw [readSectorsInto, Prog.run_bind, run_readSector, Option.bind_some, Prog.run_check_bind]
      rcases Nat.eq_or_lt_of_le hi with rfl | hlt
      · rw [if_neg]
        rw [hf]
        exact fun hroom => absurd (hroom rfl) (by omega)
      · exact ite_eq_right_iff.mpr fun _ => ih _ hlt (by omega)

/-- Of the `n` reads of a cluster none but the first stores anything. -/
def Env.StoresOne (e : Env) (n : Nat) : Prop := ∀ i, 1 ≤ i → i < n → e.fails (.load i) = true

/-- When nothing fails there is one sector to read. -/
theorem Env.Reliable.storesOne_iff {e : Env} (he : e.Reliable) (V : Volume) :
    e.StoresOne V.bs.sectorsPerCluster ↔ V.bs.sectorsPerCluster = 1 := by
  have hpos := V.sectorsPerCluster_pos
  constructor
  · intro h
    by_contra hn
    have hfails := h 1 (Nat.le_refl 1) (by omega)
    rw [Env.fails, he] at hfails
    cases hfails
  · intro hone i h1 h2
    omega

/-- When a second sector is stored the array overflows. -/
theorem run_isDirectoryEmpty_none {e : Env} {s : Fs} (x : DirEntry)
    (h : ¬ e.StoresOne s.bootSector.sectorsPerCluster) : (isDirectoryEmpty x).run e s = none := by
  unfold Env.StoresOne at h
  push Not at h
  obtain ⟨t, ht, hlt, hf⟩ := h
  unfold isDirectoryEmpty
  rw [Prog.run_bind, Prog.run_get, Option.bind_some]
  dsimp only
  rw [Prog.run_bind, run_uninitialised, Option.bind_some, Prog.run_bind,
    run_readSectorsInto_none s _ _ (Nat.zero_le t) (by omega) (Bool.eq_false_iff.mpr hf) (by omega)]
  rfl

theorem run_isDirectoryEmpty_of_buffer {e : Env} {s : Fs} {x : DirEntry} {b : Bytes}
    (h : e.StoresOne s.bootSector.sectorsPerCluster)
    (hb : (readSectors (s.clusterToSector (readStartCluster x)) s.bootSector.sectorsPerCluster 0
      (e.junk (.load 0 :: e.path))).run e s = some (b, s)) :
    (isDirectoryEmpty x).run e s = some (emptyScan b, s) := by
  have hroom : ∀ t, 0 ≤ t → t < 0 + s.bootSector.sectorsPerCluster →
      e.fails (.load t) = false → 512 * t + 512 ≤ 512 := by
    intro t _ ht hf
    by_contra hbig
    have hfails := h t (by omega) (by omega)
    rw [hf] at hfails
    cases hfails
  unfold isDirectoryEmpty emptyScan
  rw [Prog.run_bind, Prog.run_get, Option.bind_some]
  dsimp only
  rw [Prog.run_bind, run_uninitialised, Option.bind_some, Prog.run_bind,
    run_readSectorsInto s _ _ hroom, hb, Option.bind_some]
  dsimp only
  cases scanEntries skipDots (fun _ => true) b 16 0 <;> rfl

theorem isDirectoryEmpty_returns {e : Env} (s : Fs) (x : DirEntry)
    (h : e.StoresOne s.bootSector.sectorsPerCluster) :
    ∃ b, (isDirectoryEmpty x).run e s = some (b, s) := by
  obtain ⟨b, hb⟩ := readSectors_returns e s (s.clusterToSector (readStartCluster x))
    s.bootSector.sectorsPerCluster 0 (e.junk (.load 0 :: e.path))
  exact ⟨emptyScan b, run_isDirectoryEmpty_of_buffer h hb⟩

/-- When it returns, it has left the stack alone. -/
theorem isDirectoryEmpty_state (e : Env) {s s' : Fs} {x : DirEntry} {b : Bool}
    (hr : (isDirectoryEmpty x).run e s = some (b, s')) :
    s' = s ∧ e.StoresOne s.bootSector.sectorsPerCluster := by
  by_cases hone : e.StoresOne s.bootSector.sectorsPerCluster
  · obtain ⟨b', hb'⟩ := isDirectoryEmpty_returns s x hone
    rw [hb', Option.some.injEq, Prod.mk.injEq] at hr
    exact ⟨hr.2.symm, hone⟩
  · rw [run_isDirectoryEmpty_none x hone] at hr
    cases hr

theorem scanEntries_congr (skip accept : DirEntry → Bool) {b b' : Bytes} (n : Nat) {j : Nat}
    (h : ∀ i, j ≤ i → i < j + n → entryAt b i = entryAt b' i) :
    scanEntries skip accept b n j = scanEntries skip accept b' n j := by
  induction n generalizing j with
  | zero => rfl
  | succ n ih =>
      unfold scanEntries
      rw [h j (Nat.le_refl j) (by omega), ih fun i h1 h2 => h i (by omega) (by omega)]

/-- The first sector decides, and when its read fails, what the array held before. -/
theorem run_isDirectoryEmpty {V : Volume} {s : Fs} {e : Env} (h : s.On V)
    (hone : e.StoresOne V.bs.sectorsPerCluster) {x : DirEntry} (hx : V.Has (readStartCluster x)) :
    (isDirectoryEmpty x).run e s
      = some (if e.fails (.load 0) then emptyScan (e.junk (.load 0 :: e.path))
          else V.looksEmpty s.disk (readStartCluster x), s) := by
  have hpos := V.sectorsPerCluster_pos
  have hread := run_readSectors (s := s) e hx V.bs.sectorsPerCluster (i := 0) (by omega)
    (e.junk (.load 0 :: e.path))
  rw [← clusterToSector_eq h hx] at hread
  rw [run_isDirectoryEmpty_of_buffer (by rwa [h.boot]) (by rw [h.boot]; exact hread)]
  have hbytes : ∀ y, y / 512 = 0 → loaded e (V.clusterBytes s.disk (readStartCluster x))
      V.bs.sectorsPerCluster 0 (e.junk (.load 0 :: e.path)) y
        = if e.fails (.load 0) then e.junk (.load 0 :: e.path) y
          else V.clusterBytes s.disk (readStartCluster x) y := by
    intro y hy
    rw [loaded_eq, hy]
    cases e.fails (.load 0) with
    | true => simp
    | false => simp [hpos]
  have hscan : ∀ b, (∀ y, y / 512 = 0 → loaded e (V.clusterBytes s.disk (readStartCluster x))
      V.bs.sectorsPerCluster 0 (e.junk (.load 0 :: e.path)) y = b y) →
      emptyScan (loaded e (V.clusterBytes s.disk (readStartCluster x))
        V.bs.sectorsPerCluster 0 (e.junk (.load 0 :: e.path))) = emptyScan b := by
    intro b hb
    unfold emptyScan
    rw [scanEntries_congr skipDots (fun _ => true) 16 fun i _ hi => ?_]
    funext k
    have := k.isLt
    exact hb _ (by omega)
  cases hf : e.fails (.load 0) with
  | true =>
      rw [if_pos rfl, hscan]
      intro y hy
      rw [hbytes y hy, hf, if_pos rfl]
  | false =>
      rw [if_neg (by decide), hscan (V.clusterBytes s.disk (readStartCluster x))]
      · rfl
      · intro y hy
        rw [hbytes y hy, hf, if_neg (by decide)]

end MicroKernel.Fat32
