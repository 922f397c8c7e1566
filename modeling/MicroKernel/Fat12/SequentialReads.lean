import MicroKernel.Fat12.Read
import MicroKernel.Fat32.Image
import MicroKernel.Lib.Chunks

set_option autoImplicit false

/-! # Reading a file of a floppy in chunks

A handle is opened and `fat12_read_file` is called over and over. The position in the handle goes
up by what each call returns, but a call starts at the first cluster of the file and takes the
position modulo the size of a cluster for an offset into the first sector: it is served rightly as
long as the position is in the first sector, or nothing is left to read. In a run of such calls the
chunks are the beginning of the file, and a call that returns 0 comes when the whole file has been
read (`sequentialReads`).
-/

namespace MicroKernel.Fat12

open MicroKernel.Lib Bytes
open MicroKernel.Fat32 (Sector Env Label)

/-! ## Files and calls -/

/-- Where `get_next_cluster` goes after cluster `c`. -/
def Volume.followed (V : Volume) (c : Nat) : Link Nat :=
  if V.Has c then
    match getNextCluster (some V.fat12) c with
    | none => .stop
    | some next => .next next
  else .broken

/-- The file of the handle has the clusters `l`, which have room for it. -/
structure Volume.Covers (V : Volume) (f : File) (l : List Nat) : Prop where
  chain : Chain V.followed f.startCluster l
  room : f.size ≤ l.length * V.clusterSize

/-- The contents of the file. -/
def Volume.contents (V : Volume) (s : State) (f : File) (l : List Nat) : List UInt8 :=
  first (V.fileBytes s l) f.size

/-- A call of `fat12_read_file` with something to read and room for it, in which the controller
does not fail. -/
structure ReadCall where
  env : Env
  buffer : Bytes
  bufferSize : Nat
  bytesToRead : Nat
  reliable : env.Reliable
  bufferSize_pos : 0 < bufferSize
  bytesToRead_pos : 0 < bytesToRead

/-- The outcome of the call. -/
def ReadCall.run (c : ReadCall) (file : Nat) (s : State) : Option ((Nat × Bytes) × State) :=
  (fat12ReadFile file c.buffer c.bufferSize c.bytesToRead).run c.env s

/-- The outcome of the call if it copies bytes of the sector buffer only. -/
def ReadCall.runChecked (c : ReadCall) (file : Nat) (s : State) :
    Option ((Nat × Bytes) × State) :=
  (fat12ReadFileChecked file c.buffer c.bufferSize c.bytesToRead).run c.env s

/-- One call among those that `P` admits for the handle as it is, and the chunk that it returns. -/
def ReadStep (P : ReadCall → File → Prop) (file : Nat) (s : State) (chunk : List UInt8)
    (s' : State) : Prop :=
  ∃ (c : ReadCall) (f : File) (n : Nat) (b : Bytes), s.files file = some f ∧ P c f ∧
    c.run file s = some ((n, b), s') ∧ chunk = first b n

/-- The calls that are served rightly: the position is in the first sector of the file or nothing
is left to read, position and request do not add up to more than a word, and there is memory for
the sector buffer. -/
structure ReadCall.Served (c : ReadCall) (f : File) : Prop where
  position : f.position < 512 ∨ f.position = f.size
  sum : f.position + c.bytesToRead < 2 ^ 32
  memory : c.env.outOfMemory (.store 0 :: c.env.path) = false

/-! ## One call -/

section reads

variable {V : Volume} {s s' : State} {file : Nat} {f : File} {l : List Nat} {out : List UInt8}

theorem Volume.has_of_followed {c : Nat} (h : V.followed c ≠ .broken) : V.Has c := by
  by_contra hno
  apply h
  unfold followed
  rw [if_neg hno]

theorem Volume.getNextCluster_of_followed {c c' : Nat} (h : V.followed c = .next c') :
    getNextCluster (some V.fat12) c = some c' := by
  unfold followed at h
  rw [if_pos (has_of_followed (by rw [followed, h]; exact fun hn => nomatch hn))] at h
  cases hnext : getNextCluster (some V.fat12) c with
  | none =>
      rw [hnext] at h
      cases h
  | some next =>
      rw [hnext] at h
      cases h
      rfl

theorem Volume.Covers.has (hf : V.Covers f l) {c : Nat} (hc : c ∈ l) : V.Has c :=
  has_of_followed (hf.chain.link_ne_broken hc)

theorem Volume.Covers.lists (hf : V.Covers f l) : V.Lists f l where
  head := hf.chain.eq_cons
  length_le := hf.chain.length_le fun _ hc => (hf.has hc).2
  room := hf.room

theorem Volume.Covers.finds (hf : V.Covers f l) {stop : Nat}
    (hroom : stop ≤ l.length * V.clusterSize) : V.Finds l stop where
  has := fun _ hc => hf.has hc
  next := by
    intro j hj
    have hlt : j + 1 < l.length := Nat.lt_of_mul_lt_mul_right (Nat.lt_of_lt_of_le hj hroom)
    exact Volume.getNextCluster_of_followed (hf.chain.link_getD 0 hlt)

/-- After calls that have returned `out`: the chunks are the beginning of the file, the position of
the handle is behind them, and the floppy and the FAT are as they were. -/
structure ReadSoFar (V : Volume) (s : State) (file : Nat) (f : File) (l : List Nat)
    (out : List UInt8) (s' : State) : Prop where
  on : V.On s'
  same : V.fileBytes s' l = V.fileBytes s l
  handle : s'.files file = some { f with position := out.length }
  length_le : out.length ≤ f.size
  bytes : out = first (V.fileBytes s l) out.length

theorem ReadSoFar.isPrefix (h : ReadSoFar V s file f l out s') : out <+: V.contents s f l := by
  rw [h.bytes]
  exact first_isPrefix _ h.length_le

/-- What a call returns, and what has been read then. -/
structure Answers (V : Volume) (s : State) (file : Nat) (f : File) (l : List Nat)
    (out : List UInt8) (c : ReadCall) (n : Nat) (b : Bytes) (s'' : State) : Prop where
  count : n = min (min c.bytesToRead c.bufferSize) (f.size - out.length)
  soFar : ReadSoFar V s file f l (out ++ first b n) s''

/-- **A call that is served** returns the bytes of the file behind those that have been read. -/
theorem ReadSoFar.answer (h : ReadSoFar V s file f l out s') (hf : V.Covers f l) {c : ReadCall}
    (hc : c.Served { f with position := out.length }) :
    ∃ n b s'', c.runChecked file s' = some ((n, b), s'') ∧ Answers V s file f l out c n b s'' := by
  have hlists : V.Lists { f with position := out.length } l :=
    ⟨hf.lists.head, hf.lists.length_le, hf.lists.room⟩
  have hsize : f.size < 2 ^ 28 := hlists.size_lt
  have hlen := h.length_le
  have hcall := c.bufferSize_pos
  have hcall' := c.bytesToRead_pos
  rcases Nat.lt_or_ge out.length f.size with hlt | hge
  · -- there is something left
    have hp : out.length < 512 := by
      rcases hc.position with hp | hp
      · exact hp
      · exact absurd hp (by simp; omega)
    obtain ⟨n, hn⟩ : ∃ n, n = min (min c.bytesToRead c.bufferSize) (f.size - out.length) := ⟨_, rfl⟩
    have hroom := hf.room
    obtain ⟨b, hb, hrun⟩ := run_fat12ReadFileChecked c.reliable hc.memory h.on h.handle hlists hc.sum
      hn (by omega) hp (hf.finds (by simp only; omega)) c.buffer
    refine ⟨n, b, _, hrun, hn, ?_⟩
    simp only at hb
    rw [h.same] at hb
    have happend : out ++ first b n = first (V.fileBytes s l) (out.length + n) := by
      rw [← first_append hb, ← h.bytes]
    have hlength : (out ++ first b n).length = out.length + n := by simp
    refine ⟨h.on, h.same, ?_, by omega, by rw [happend, length_first]⟩
    rw [hlength]
    simp only [State.advanced, if_true, h.handle, Option.map_some,
      u32_eq_self (show out.length + n < 2 ^ 32 by omega)]
  · have hend : out.length = f.size := by omega
    have hrun : c.runChecked file s' = some ((0, c.buffer), s') :=
      run_fat12ReadFileChecked_end h.on h.handle hsize (Or.inr (Or.inr ⟨hend, hc.sum⟩)) c.buffer
    refine ⟨0, c.buffer, s', hrun, by omega, ?_⟩
    rwa [first_zero, List.append_nil]

theorem ReadCall.run_of_runChecked {c : ReadCall} {r : (Nat × Bytes) × State}
    (h : c.runChecked file s = some r) : c.run file s = some r :=
  (fat12ReadFileChecked_below file c.buffer c.bufferSize c.bytesToRead).run_eq c.env s r h

/-! ## A run of calls -/

theorem ReadSoFar.start (hV : V.On s) (hopen : s.files file = some f) (h0 : f.position = 0) :
    ReadSoFar V s file f l [] s where
  on := hV
  same := rfl
  handle := by
    rw [hopen, List.length_nil, ← h0]
  length_le := Nat.zero_le _
  bytes := rfl

theorem readSoFar_of_run (hV : V.On s) (hopen : s.files file = some f) (h0 : f.position = 0)
    (hf : V.Covers f l) (hrun : Yields (ReadStep ReadCall.Served file) s out s') :
    ReadSoFar V s file f l out s' := by
  refine hrun.invariant (ReadSoFar V s file f l) (.start hV hopen h0) ?_
  rintro out s₁ chunk s₂ hinv ⟨c, f', n, b, hf', hc, hr, rfl⟩
  rw [hinv.handle] at hf'
  cases hf'
  obtain ⟨n', b', s₂', hr', hans⟩ := hinv.answer hf hc
  rw [ReadCall.run_of_runChecked hr'] at hr
  cases hr
  exact hans.soFar

/-- **Sequential reads.** In a run of calls that are all served, on a handle that has just been
opened, the chunks are the beginning of the file and the position is their total length. The next
call that is served returns, has copied bytes of the sector buffer only, and returns 0 just when
the whole file has been read. -/
theorem sequentialReads (hV : V.On s) (hopen : s.files file = some f) (h0 : f.position = 0)
    (hf : V.Covers f l) (hrun : Yields (ReadStep ReadCall.Served file) s out s') :
    out <+: V.contents s f l ∧
      (∃ f', s'.files file = some f' ∧ f'.position = out.length) ∧
      ∀ (c : ReadCall) f', s'.files file = some f' → c.Served f' →
        ∃ n b s'', c.runChecked file s' = some ((n, b), s'') ∧ c.run file s' = some ((n, b), s'') ∧
          (n = 0 ↔ out = V.contents s f l) := by
  have hinv := readSoFar_of_run hV hopen h0 hf hrun
  refine ⟨hinv.isPrefix, ⟨_, hinv.handle, rfl⟩, fun c f' hf' hc => ?_⟩
  rw [hinv.handle] at hf'
  cases hf'
  obtain ⟨n, b, s'', hr, hans⟩ := hinv.answer hf hc
  refine ⟨n, b, s'', hr, ReadCall.run_of_runChecked hr, ?_⟩
  have hcount := hans.count
  have hle := hinv.length_le
  have hpos := c.bufferSize_pos
  have hpos' := c.bytesToRead_pos
  constructor
  · intro hn
    have hall : out.length = f.size := by omega
    rw [hinv.bytes, hall, Volume.contents]
  · intro hall
    have hlen : out.length = f.size := by rw [hall, Volume.contents, length_first]
    omega

end reads

/-! ### A file of two clusters -/

/-- The handle of its file. -/
def twoClusterFile : File := ⟨4, 1024, 0⟩

/-- The file has just been opened. Each sector is filled with its number. -/
def twoClusterState : State where
  floppies := fun _ _ _ sector _ => UInt8.ofNat sector
  fat12 := some twoClusterVolume.fat12
  currentFddDrive := 0
  files := fun a => if a = 0 then some twoClusterFile else none
  entries := none
  currentDir := none

theorem twoClusterFile_covers : twoClusterVolume.Covers twoClusterFile [4, 5] where
  chain := .cons (by decide) (.last (by decide))
  room := by decide

/-- The call for `n` bytes with a buffer of that size. -/
def readCall (n : Nat) (h : 0 < n) : ReadCall where
  env := Fat32.quietEnv
  buffer := fun _ => 0
  bufferSize := n
  bytesToRead := n
  reliable := Fat32.quietEnv_reliable
  bufferSize_pos := h
  bytesToRead_pos := h

/-- The first read of the file. -/
theorem sequentialReads_first : ∃ n b s'',
    (readCall 700 (by decide)).runChecked 0 twoClusterState = some ((n, b), s'') ∧
      (readCall 700 (by decide)).run 0 twoClusterState = some ((n, b), s'') ∧
      (n = 0 ↔ [] = twoClusterVolume.contents twoClusterState twoClusterFile [4, 5]) :=
  (sequentialReads (V := twoClusterVolume) (s := twoClusterState) (f := twoClusterFile) rfl rfl rfl
      twoClusterFile_covers
    (.start twoClusterState)).2.2 (readCall 700 (by decide)) twoClusterFile rfl
    ⟨Or.inl (by decide), by decide, rfl⟩

/-- The first read takes the first sector; the second one starts with it again. -/
theorem not_sequentialReads : ∃ out s',
    Yields (ReadStep (fun _ _ => True) 0) twoClusterState out s' ∧
      ¬ out <+: twoClusterVolume.contents twoClusterState twoClusterFile [4, 5] := by
  have hrun : ((readCall 512 (by decide)).run 0 twoClusterState).map (fun r => (r.1.1,
      (r.2.files 0).isSome, ((readCall 1 (by decide)).run 0 r.2).map fun q => (q.1.1, q.1.2 0)))
        = some (512, true, some (1, 7)) := by
    decide +kernel
  obtain ⟨⟨⟨n, b⟩, s₁⟩, h1, heq⟩ := Option.map_eq_some_iff.mp hrun
  obtain ⟨rfl, heq⟩ := Prod.mk.inj heq
  obtain ⟨hopen, heq⟩ := Prod.mk.inj heq
  obtain ⟨f, hf⟩ := Option.isSome_iff_exists.mp hopen
  obtain ⟨⟨⟨n', b'⟩, s₂⟩, h2, heq⟩ := Option.map_eq_some_iff.mp heq
  obtain ⟨rfl, hbyte⟩ := Prod.mk.inj heq
  refine ⟨first b 512 ++ first b' 1, s₂, .step (.single ⟨readCall 512 (by decide), twoClusterFile,
    _, b, rfl, trivial, h1, rfl⟩) ⟨readCall 1 (by decide), f, _, b', hf, trivial, h2, rfl⟩, ?_⟩
  intro hprefix
  have hget := hprefix.getElem (i := 512) (by simp)
  rw [List.getElem_append_right (by simp)] at hget
  simp only [length_first, Nat.sub_self, getElem_first, Volume.contents] at hget
  rw [show b' 0 = 7 from hbyte] at hget
  revert hget
  decide

end MicroKernel.Fat12
