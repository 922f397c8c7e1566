import MicroKernel.Fat32.FileData
import MicroKernel.Fat32.Image
import MicroKernel.Fat32.Scan
import MicroKernel.Lib.Chunks

set_option autoImplicit false

/-! # Reading a file of a FAT32 volume in chunks

`fat32_open_file` makes a handle with a position, and `fat32_read_file` takes the request as far as
the position leaves room for it. But the read itself starts at the first cluster of the file and the
position stays where it is: every call reads the beginning of the file (`run_fat32ReadFile`). A call
is served rightly when nothing has been returned before (`handleReads`).
-/

namespace MicroKernel.Fat32

open MicroKernel.Lib Bytes

/-! ## Handles -/

/-- `FILE`, as far as reading uses it. -/
structure File where
  startCluster : Nat
  mode : List UInt8
  size : Nat
  position : Nat

/-- `fat32_open_file`. -/
def fat32OpenFile (filename mode : List UInt8) : Io (Option File) := do
  match ← within .find (findFileInDirectory filename) with
  | none => return none
  | some entry =>
      if (← Prog.ask fun e => e.outOfMemory (.store 0 :: e.path)) then return none
      return some ⟨readStartCluster entry, mode, fileSize entry, 0⟩

/-- `fat32_read_file`: the number of bytes and the buffer. It writes nothing to the handle. -/
def fat32ReadFile (file : File) (buffer : Bytes) (bufferSize bytesToRead : Nat) :
    Io (Int × Bytes) := do
  if file.mode = [0x77] then return (0, buffer)
  let bytesToRead := if file.size < u32 (file.position + bytesToRead) then
      usub file.size file.position else bytesToRead
  let (bytesRead, buffer) ← readFileData file.startCluster buffer bufferSize bytesToRead
  return (asInt bytesRead, buffer)

/-- The file of the handle has the clusters `l`, which have room for it. -/
structure Volume.Covers (V : Volume) (d : Disk) (f : File) (l : List Nat) : Prop where
  chain : 0 < f.size → Lib.Chain (V.fileLink d) f.startCluster l
  room : f.size ≤ l.length * V.clusterSize

/-- The contents of the file. -/
def Volume.contents (V : Volume) (d : Disk) (f : File) (l : List Nat) : List UInt8 :=
  first (V.fileBytes d l) f.size

theorem fileSize_lt (x : DirEntry) : fileSize x < 2 ^ 32 := by
  have h0 := (x 28).toNat_lt
  have h1 := (x 29).toNat_lt
  have h2 := (x 30).toNat_lt
  have h3 := (x 31).toNat_lt
  unfold fileSize
  omega

section handle

variable {V : Volume} {s s' : Fs} {e : Env} {f : File} {l : List Nat}

/-- A handle that has just been opened. -/
theorem fat32OpenFile_some (h : s.Ready V) {filename mode : List UInt8}
    (hopen : (fat32OpenFile filename mode).run e s = some (some f, s')) :
    s' = s ∧ f.position = 0 ∧ f.mode = mode ∧ f.size < 2 ^ 32 := by
  unfold fat32OpenFile at hopen
  obtain ⟨r, s₁, hfind, hrest⟩ := (Prog.run_bind_eq_some _ _).mp hopen
  obtain ⟨rfl, -⟩ := findFileInDirectory_cases h hfind
  cases r with
  | none => cases hrest
  | some entry =>
      dsimp only at hrest
      rw [Prog.run_bind, Prog.run_ask, Option.bind_some, Prog.run_ite] at hrest
      split at hrest
      · cases hrest
      · cases hrest
        exact ⟨rfl, rfl, rfl, fileSize_lt entry⟩

/-- **`fat32_read_file`** on a handle with position 0, if the clusters that it comes to are counted:
it reads the beginning of the file. -/
theorem run_fat32ReadFile (he : e.Reliable) (h : s.On V) (hf : V.Covers s.disk f l)
    (hmode : f.mode ≠ [0x77]) (h0 : f.position = 0) (hsize : f.size < 2 ^ 32)
    {bufferSize bytesToRead n : Nat} (hlt : bytesToRead < 2 ^ 32)
    (hgood : V.Counted l bufferSize (min bytesToRead f.size))
    (hn : n = min (min bytesToRead bufferSize) f.size) (buffer : Bytes) :
    (fat32ReadFile f buffer bufferSize bytesToRead).run e s
      = some ((asInt n, copy buffer 0 (V.fileBytes s.disk l) 0 n), s) := by
  have hclamp : (if f.size < u32 (f.position + bytesToRead) then usub f.size f.position
      else bytesToRead) = min bytesToRead f.size := by
    rw [h0, Nat.zero_add, u32_eq_self hlt, usub_of_le (Nat.zero_le _) hsize]
    split <;> omega
  have hread : (readFileData f.startCluster buffer bufferSize (min bytesToRead f.size)).run e s
      = some ((n, copy buffer 0 (V.fileBytes s.disk l) 0 n), s) := by
    rcases Nat.eq_zero_or_pos f.size with hempty | hpos
    · have hzero : n = 0 := by omega
      have hsame : copy buffer 0 (V.fileBytes s.disk l) 0 n = buffer := by
        funext x
        rw [copy_outside _ _ _ (by omega)]
      unfold readFileData
      rw [Prog.run_ite, if_pos (Or.inr (by omega)), hsame, hzero]
      rfl
    · have hroom := hf.room
      exact run_readFileData he h (hf.chain hpos) hgood buffer (by omega)
  unfold fat32ReadFile
  rw [Prog.run_ite, if_neg hmode]
  dsimp only
  rw [hclamp, Prog.run_bind, hread]
  rfl

end handle

/-! ## Calls -/

/-- A call of `fat32_read_file` with something to read and room for it, in which the controller
does not fail. -/
structure ReadCall where
  env : Env
  buffer : Bytes
  size : Nat
  reliable : env.Reliable
  size_pos : 0 < size
  size_lt : size < 2 ^ 32

/-- The outcome of the call. -/
def ReadCall.run (c : ReadCall) (f : File) (s : Fs) : Option ((Int × Bytes) × Fs) :=
  (fat32ReadFile f c.buffer c.size c.size).run c.env s

/-- The driver, and how many bytes the calls on a handle have returned. -/
structure Reading where
  fs : Fs
  total : Nat

/-- One call among those that `P` admits, and the chunk that it returns. -/
def ReadStep (P : ReadCall → Nat → Prop) (f : File) (r : Reading) (chunk : List UInt8)
    (r' : Reading) : Prop :=
  ∃ (c : ReadCall) (n : Int) (b : Bytes), P c r.total ∧ c.run f r.fs = some ((n, b), r'.fs) ∧
    chunk = first b (asWord n) ∧ r'.total = r.total + asWord n

/-- The calls that are served rightly. There is nothing to read, because the file is empty or not
open for reading; or nothing has been returned before, and the clusters with the bytes that are
asked for are counted. -/
inductive ReadCall.Served (V : Volume) (l : List Nat) (f : File) (c : ReadCall) : Nat → Prop where
  | writing {total : Nat} (h : f.mode = [0x77]) : ReadCall.Served V l f c total
  | empty {total : Nat} (h : f.size = 0) : ReadCall.Served V l f c total
  | beginning (h : ∀ j, j < l.length → j * V.clusterSize < min c.size f.size →
      l.getD j 0 < V.total) : ReadCall.Served V l f c 0

section reads

variable {V : Volume} {s s' : Fs} {e : Env} {f : File} {l : List Nat} {out : List UInt8}
  {total : Nat}

/-- What a call returns that is served. -/
theorem ReadCall.Served.run {c : ReadCall} (hc : c.Served V l f total) (h : s.On V)
    (hf : V.Covers s.disk f l) (h0 : f.position = 0) (hsize : f.size < 2 ^ 32) :
    ∃ n b, c.run f s = some ((asInt n, b), s) ∧ n < 2 ^ 32 ∧ total + n ≤ max total f.size ∧
      Filled b (V.fileBytes s.disk l) total n := by
  have hnothing : ∀ {b : Bytes}, total + 0 ≤ max total f.size ∧
      Filled b (V.fileBytes s.disk l) total 0 := fun {b} => ⟨by omega, filled_zero b _ _⟩
  by_cases hmode : f.mode = [0x77]
  · refine ⟨0, c.buffer, ?_, by omega, hnothing⟩
    unfold ReadCall.run fat32ReadFile
    rw [Prog.run_ite, if_pos hmode]
    rfl
  · have hread : ∀ {n}, n = min c.size f.size →
        V.Counted l c.size (min c.size f.size) →
        c.run f s = some ((asInt n, copy c.buffer 0 (V.fileBytes s.disk l) 0 n), s) :=
      fun hn hgood => run_fat32ReadFile c.reliable h hf hmode h0 hsize c.size_lt hgood (by omega) _
    cases hc with
    | writing hw => exact absurd hw hmode
    | empty hempty =>
        refine ⟨0, _, hread (by omega) fun j hj hlt => ?_, by omega, hnothing⟩
        have := c.size_pos
        omega
    | beginning hcounted =>
        have hlt := c.size_lt
        refine ⟨min c.size f.size, _, hread rfl fun j hj hlt => hcounted j hj (by omega), by omega,
          by omega, filled_copy _ _ _ _⟩

/-- After calls that have returned `out`. -/
structure ReadSoFar (V : Volume) (s : Fs) (f : File) (l : List Nat) (out : List UInt8)
    (r : Reading) : Prop where
  fs : r.fs = s
  total : r.total = out.length
  length_le : out.length ≤ f.size
  bytes : out = first (V.fileBytes s.disk l) out.length

theorem readSoFar_of_run (h : s.On V) (hf : V.Covers s.disk f l) (h0 : f.position = 0)
    (hsize : f.size < 2 ^ 32) {r : Reading}
    (hrun : Yields (ReadStep (ReadCall.Served V l f) f) ⟨s, 0⟩ out r) : ReadSoFar V s f l out r := by
  refine hrun.invariant (ReadSoFar V s f l) ⟨rfl, rfl, Nat.zero_le _, rfl⟩ ?_
  rintro out r₁ chunk r₂ hinv ⟨c, n, b, hc, hr, rfl, htotal⟩
  rw [hinv.fs] at hr
  rw [hinv.total] at hc htotal
  obtain ⟨n', b', hr', hlt, hle, hfilled⟩ := hc.run h hf h0 hsize
  rw [hr', Option.some.injEq, Prod.mk.injEq, Prod.mk.injEq] at hr
  obtain ⟨⟨rfl, rfl⟩, hs⟩ := hr
  rw [asWord_asInt hlt] at htotal ⊢
  have happend : out ++ first b' n' = first (V.fileBytes s.disk l) (out.length + n') := by
    rw [← first_append hfilled, ← hinv.bytes]
  have hlength : (out ++ first b' n').length = out.length + n' := by simp
  have hlen := hinv.length_le
  exact ⟨hs.symm, by omega, by omega, by rw [hlength, happend]⟩

/-- **Sequential reads.** In a run of calls that are all served, on a handle that
`fat32_open_file` has returned, the chunks are the beginning of the file, and the next call that is
served returns 0 if the whole file has been read. -/
theorem handleReads {filename mode : List UInt8} (h : s.Ready V)
    (hopen : (fat32OpenFile filename mode).run e s = some (some f, s')) (hf : V.Covers s'.disk f l)
    {r : Reading} (hrun : Yields (ReadStep (ReadCall.Served V l f) f) ⟨s', 0⟩ out r) :
    out <+: V.contents s'.disk f l ∧
      ∀ c : ReadCall, c.Served V l f r.total → ∃ n b, c.run f r.fs = some ((n, b), r.fs) ∧
        (out.length = f.size → n = 0) := by
  obtain ⟨rfl, h0, -, hsize⟩ := fat32OpenFile_some h hopen
  have hinv := readSoFar_of_run h.on hf h0 hsize hrun
  refine ⟨?_, fun c hc => ?_⟩
  · rw [hinv.bytes]
    exact first_isPrefix _ hinv.length_le
  · obtain ⟨n, b, hr, -, hle, -⟩ := hc.run h.on hf h0 hsize
    rw [hinv.fs]
    refine ⟨_, b, hr, fun hall => ?_⟩
    have hzero : n = 0 := by
      rw [hinv.total] at hle
      omega
    rw [hzero]
    rfl

end reads

/-! ### A file of two clusters -/

/-- The entry of the file A, with 700 bytes from cluster 4 on. -/
def sizedEntry : DirEntry := fun i =>
  if i = 28 then 0xBC else if i = 29 then 2 else quietEnv.newEntry [0x41] 4 0 i

/-- The small volume with the file A in the root. Each byte of the file is its offset in its slot. -/
def sizedFs : Fs :=
  smallFs (fun c => if c = 2 then eocMax else if c = 4 then 3 else if c = 3 then eocMax else 0)
    (fun c j => if c = 2 then if j = 0 then sizedEntry else zeroEntry else fun i => UInt8.ofNat i)
    (fun _ => 0)

theorem sizedFs_ready : sizedFs.Ready smallVolume := smallFs_ready _ _ _

/-- The handle of the file. -/
def sizedFile : File := ⟨4, [0x72], 700, 0⟩

theorem sizedFile_opened :
    (fat32OpenFile [0x41] [0x72]).run quietEnv sizedFs = some (some sizedFile, sizedFs) := by
  have hfile : ((fat32OpenFile [0x41] [0x72]).run quietEnv sizedFs).map (fun r =>
      r.1.map fun f => (f.startCluster, f.mode, f.size, f.position))
        = some (some (4, [0x72], 700, 0)) := by
    decide
  obtain ⟨⟨r, s'⟩, hrun, heq⟩ := Option.map_eq_some_iff.mp hfile
  obtain ⟨⟨start, mode, size, position⟩, rfl, hf⟩ := Option.map_eq_some_iff.mp heq
  cases hf
  obtain ⟨rfl, -⟩ := fat32OpenFile_some sizedFs_ready hrun
  exact hrun

theorem sizedFile_covers : smallVolume.Covers sizedFs.disk sizedFile [4, 3] where
  chain := fun _ => .cons (by decide) (.last (by decide))
  room := by decide

theorem sizedFile_counted {j : Nat} (hj : j < 2) : [4, 3].getD j 0 < smallVolume.total := by
  revert j
  decide

/-- The call for `n` bytes with a buffer of that size. -/
def readCall (n : Nat) (h : 0 < n) (h' : n < 2 ^ 32) : ReadCall where
  env := quietEnv
  buffer := fun _ => 0
  size := n
  reliable := quietEnv_reliable
  size_pos := h
  size_lt := h'

/-- The first read of the file. -/
theorem handleReads_first : ∃ n b,
    (readCall 700 (by decide) (by decide)).run sizedFile sizedFs = some ((n, b), sizedFs) ∧
      (([] : List UInt8).length = 700 → n = 0) :=
  (handleReads sizedFs_ready sizedFile_opened sizedFile_covers (.start _)).2 (readCall 700 _ _)
    (.beginning fun _ hj _ => sizedFile_counted hj)

/-- Two reads of one byte each: the second one returns the first byte again. -/
theorem not_handleReads : ∃ out r,
    (fat32OpenFile [0x41] [0x72]).run quietEnv sizedFs = some (some sizedFile, sizedFs) ∧
      Yields (ReadStep (fun _ _ => True) sizedFile) ⟨sizedFs, 0⟩ out r ∧
      ¬ out <+: smallVolume.contents sizedFs.disk sizedFile [4, 3] := by
  have hcall : ∀ t, ReadStep (fun _ _ => True) sizedFile ⟨sizedFs, t⟩ [0] ⟨sizedFs, t + 1⟩ := by
    intro t
    have hone : 1 = min (min 1 1) sizedFile.size := rfl
    have hread := run_fat32ReadFile quietEnv_reliable sizedFs_ready.on sizedFile_covers (by decide)
      rfl (by decide) (by decide) (fun _ hj _ => sizedFile_counted hj) hone (fun _ => 0)
    refine ⟨readCall 1 (by decide) (by decide), _, _, trivial, hread, ?_, rfl⟩
    decide
  refine ⟨[0] ++ [0], ⟨sizedFs, 2⟩, sizedFile_opened, .step (.single (hcall 0)) (hcall 1), ?_⟩
  intro hprefix
  have hget := hprefix.getElem (i := 1) (by decide)
  simp only [Volume.contents, getElem_first] at hget
  revert hget
  decide

end MicroKernel.Fat32
