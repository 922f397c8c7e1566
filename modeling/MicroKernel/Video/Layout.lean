import MicroKernel.Video.Console

set_option autoImplicit false

/-! # What the console shows (`drivers/video/video.c`)

A string is read as pieces: single characters, sequences `ESC [ params final`, and an `ESC` with
another character behind it, which is shown alone. At its end there may be the beginning of a
sequence. There is one such reading (`Reads.unique`).

The characters of the pieces are laid out on a paper (`LaidOut`), and the display holds its last 25
lines (`vgaWrite_laidOut`). Two things are left open: the high byte of the cells of characters from
0x80 on, and the colour behind a number that is not an `int`.
-/

namespace MicroKernel.Video

open MicroKernel.Lib CArray

/-! ## Pieces -/

/-- A piece of what is written. -/
inductive Piece
  | char (ch : UInt8)
  | escaped (ch : UInt8)
  | sequence (params : List UInt8) (final : UInt8)

/-- Digits and semicolons. -/
def IsParam (c : UInt8) : Prop := IsDigit c ∨ c = 0x3B

/-- The characters of a piece. -/
def Piece.bytes : Piece → List UInt8
  | char ch => [ch]
  | escaped ch => [0x1B, ch]
  | sequence params final => 0x1B :: 0x5B :: (params ++ [final])

/-- What may be a piece. -/
def Piece.WellFormed : Piece → Prop
  | char ch => ch ≠ 0x1B
  | escaped ch => ch ≠ 0x5B
  | sequence params final => (∀ c ∈ params, IsParam c) ∧ ¬ IsParam final

/-- The character that a piece shows. -/
def Piece.shown : Piece → Option UInt8
  | char ch => some ch
  | escaped ch => some ch
  | sequence _ _ => none

/-- The beginning of a sequence. -/
inductive Unfinished : List UInt8 → Prop
  | nil : Unfinished []
  | esc : Unfinished [0x1B]
  | bracket {params : List UInt8} : (∀ c ∈ params, IsParam c) → Unfinished (0x1B :: 0x5B :: params)

/-- A string in pieces, and what is left of it. -/
structure Reads (l : List UInt8) (ps : List Piece) (t : List UInt8) : Prop where
  bytes_eq : l = ps.flatMap Piece.bytes ++ t
  wellFormed : ∀ p ∈ ps, p.WellFormed
  unfinished : Unfinished t

/-- The digits of a sequence that are kept. -/
def kept (params : List UInt8) : List UInt8 := (params.filter fun c => decide (IsDigit c)).take 15

/-- The number of a sequence. -/
def number (params : List UInt8) : Nat := decimalValue (kept params)

section reads

variable {l t t' : List UInt8} {ps ps' : List Piece} {p p' : Piece}

/-- The end of a list of parameters is where the first other character is. -/
theorem params_unique {a a' : List UInt8} {x x' : UInt8} {r r' : List UInt8}
    (ha : ∀ c ∈ a, IsParam c) (ha' : ∀ c ∈ a', IsParam c) (hx : ¬ IsParam x) (hx' : ¬ IsParam x')
    (h : a ++ x :: r = a' ++ x' :: r') : a = a' ∧ x = x' ∧ r = r' := by
  induction a generalizing a' with
  | nil =>
      cases a' with
      | nil =>
          cases h
          exact ⟨rfl, rfl, rfl⟩
      | cons c a' =>
          cases h
          exact absurd (ha' x List.mem_cons_self) hx
  | cons c a ih =>
      cases a' with
      | nil =>
          cases h
          exact absurd (ha x' List.mem_cons_self) hx'
      | cons c' a' =>
          obtain ⟨rfl, hrest⟩ := List.cons.inj h
          obtain ⟨rfl, rfl, rfl⟩ := ih (fun y hy => ha y (List.mem_cons_of_mem _ hy))
            (fun y hy => ha' y (List.mem_cons_of_mem _ hy)) hrest
          exact ⟨rfl, rfl, rfl⟩

/-- The first piece of a string is the only one. -/
theorem piece_unique {r r' : List UInt8} (hp : p.WellFormed) (hp' : p'.WellFormed)
    (h : p.bytes ++ r = p'.bytes ++ r') : p = p' ∧ r = r' := by
  cases p with
  | char ch =>
      cases p' with
      | char ch' => cases h; exact ⟨rfl, rfl⟩
      | escaped ch' => cases h; exact absurd rfl hp
      | sequence params' final' => cases h; exact absurd rfl hp
  | escaped ch =>
      cases p' with
      | char ch' => cases h; exact absurd rfl hp'
      | escaped ch' => cases h; exact ⟨rfl, rfl⟩
      | sequence params' final' => cases h; exact absurd rfl hp
  | sequence params final =>
      cases p' with
      | char ch' => cases h; exact absurd rfl hp'
      | escaped ch' => cases h; exact absurd rfl hp'
      | sequence params' final' =>
          simp only [Piece.bytes, List.cons_append, List.append_assoc, List.cons.injEq, true_and] at h
          obtain ⟨rfl, rfl, rfl⟩ := params_unique hp.1 hp'.1 hp.2 hp'.2 h
          exact ⟨rfl, rfl⟩

/-- No piece is the beginning of a sequence. -/
theorem not_unfinished (hp : p.WellFormed) {r : List UInt8} : ¬ Unfinished (p.bytes ++ r) := by
  intro h
  cases p with
  | char ch =>
      cases h with
      | esc => exact hp rfl
      | bracket _ => exact hp rfl
  | escaped ch =>
      cases h with
      | bracket _ => exact hp rfl
  | sequence params final =>
      cases h with
      | bracket h => exact hp.2 (h final (by simp))

/-- **A string has one reading.** -/
theorem Reads.unique (h : Reads l ps t) (h' : Reads l ps' t') : ps = ps' ∧ t = t' := by
  induction ps generalizing l ps' with
  | nil =>
      cases ps' with
      | nil => exact ⟨rfl, h.bytes_eq.symm.trans h'.bytes_eq⟩
      | cons p' ps' =>
          have hl : l = t := h.bytes_eq
          have hl' := h'.bytes_eq
          rw [List.flatMap_cons, List.append_assoc] at hl'
          have hunfinished := h.unfinished
          rw [← hl, hl'] at hunfinished
          exact absurd hunfinished (not_unfinished (h'.wellFormed p' List.mem_cons_self))
  | cons p ps ih =>
      have hl := h.bytes_eq
      rw [List.flatMap_cons, List.append_assoc] at hl
      cases ps' with
      | nil =>
          have hunfinished := h'.unfinished
          rw [← show l = t' from h'.bytes_eq, hl] at hunfinished
          exact absurd hunfinished (not_unfinished (h.wellFormed p List.mem_cons_self))
      | cons p' ps' =>
          have hl' := h'.bytes_eq
          rw [List.flatMap_cons, List.append_assoc, hl] at hl'
          obtain ⟨rfl, hrest⟩ := piece_unique (h.wellFormed p List.mem_cons_self)
            (h'.wellFormed p' List.mem_cons_self) hl'
          obtain ⟨rfl, rfl⟩ := ih
            ⟨rfl, fun q hq => h.wellFormed q (List.mem_cons_of_mem _ hq), h.unfinished⟩
            ⟨hrest, fun q hq => h'.wellFormed q (List.mem_cons_of_mem _ hq), h'.unfinished⟩
          exact ⟨rfl, rfl⟩

end reads

/-! ## The layout -/

/-- What a character puts on the paper: a cell with the character in its low byte and, below 0x80, the
colour in its high byte. -/
inductive MarkFor (color ch : UInt8) : Mark UInt16 → Prop
  | newline : ch = 0x0A → MarkFor color ch .newline
  | carriageReturn : ch = 0x0D → MarkFor color ch .carriageReturn
  | cell {w : UInt16} : ch ≠ 0x0A → ch ≠ 0x0D → w.toUInt8 = ch →
      (ch < 0x80 → (w >>> 8).toUInt8 = color) → MarkFor color ch (.cell w)

/-- The colour behind a sequence: `m` changes it. -/
structure ColorAfter (color : UInt8) (params : List UInt8) (final color' : UInt8) : Prop where
  change : final = 0x6D → number params < 2 ^ 31 → color' = changeColor color (number params)
  keep : final ≠ 0x6D → color' = color

/-- The pieces on a paper, with the colour in front of them and behind them. -/
inductive LaidOut : List Piece → UInt8 → Paper UInt16 80 → UInt8 → Paper UInt16 80 → Prop
  | nil {color : UInt8} {p : Paper UInt16 80} : LaidOut [] color p color p
  | shown {piece : Piece} {ps : List Piece} {color color' ch : UInt8} {m : Mark UInt16}
      {p p' : Paper UInt16 80} : piece.shown = some ch → MarkFor color ch m →
      LaidOut ps color (p.print (blank color) m) color' p' → LaidOut (piece :: ps) color p color' p'
  | sequence {params : List UInt8} {final : UInt8} {ps : List Piece} {color color₁ color' : UInt8}
      {p p' : Paper UInt16 80} : ColorAfter color params final color₁ →
      LaidOut ps color₁ p color' p' → LaidOut (.sequence params final :: ps) color p color' p'

theorem markFor_markOf (color ch : UInt8) : MarkFor color ch (markOf color ch) := by
  unfold markOf
  split
  next h => exact .newline h
  next hnewline =>
      split
      next h => exact .carriageReturn h
      next hreturn => exact .cell hnewline hreturn (cell_low ch color) fun h => cell_high h color

/-! ## The number of a sequence -/

section number

variable {pre cs post : List UInt8} {overflow : Bool}

theorem intResult_eq {i : Int} (h : -2 ^ 31 ≤ i ∧ i < 2 ^ 31) (overflow : Bool) :
    intResult i overflow = (i, overflow) := by
  have hwrap : asInt (asWord i) = i := by
    unfold asInt asWord
    split <;> omega
  rw [intResult, hwrap, decide_eq_true h, Bool.not_true, Bool.or_false]

/-- **The digits are added up without an overflow** if their number is an `int`. -/
theorem codeLoop_eq (hcs : ∀ c ∈ cs, IsDigit c) {n : Nat} (h : decimalFrom n cs < 2 ^ 31) :
    codeLoop (pre ++ (cs ++ post)) cs.length pre.length ((n : Int), overflow)
      = some ((decimalFrom n cs : Int), overflow) := by
  induction cs generalizing pre n with
  | nil => rfl
  | cons c cs ih =>
      rw [List.forall_mem_cons] at hcs
      rw [decimalFrom_cons] at h
      have hdigit : (c.toNat : Int) - 0x30 = digit c := by
        have hle := UInt8.le_iff_toNat_le.mp hcs.1.1
        change 48 ≤ c.toNat at hle
        unfold digit
        omega
      have hlt : 10 * n + digit c < 2 ^ 31 := Nat.lt_of_le_of_lt (le_decimalFrom _ cs) h
      have hread : read (pre ++ (c :: cs ++ post)) (pre.length : Int) = some c := read_at rfl rfl
      have hsum : (n : Int) * 10 + digit c = ((10 * n + digit c : Nat) : Int) := by
        push_cast
        ring
      have hrest := @ih (pre ++ [c]) hcs.2 (10 * n + digit c) h
      rw [List.append_assoc, List.length_append, List.length_singleton] at hrest
      rw [List.length_cons, codeLoop, hread, Option.bind_eq_bind, Option.bind_some,
        intResult_eq ⟨by omega, by omega⟩]
      dsimp only
      rw [hdigit, intResult_eq ⟨by omega, by omega⟩, hsum, decimalFrom_cons]
      exact hrest

/-- It ends in any case. -/
theorem codeLoop_isSome (cs : List UInt8) (r : Int × Bool) :
    ∃ r', codeLoop (pre ++ (cs ++ post)) cs.length pre.length r = some r' := by
  induction cs generalizing pre r with
  | nil => exact ⟨r, rfl⟩
  | cons c cs ih =>
      obtain ⟨code, overflow⟩ := r
      have hread : read (pre ++ (c :: cs ++ post)) (pre.length : Int) = some c := read_at rfl rfl
      have hrest := @ih (pre ++ [c])
      rw [List.append_assoc, List.length_append, List.length_singleton] at hrest
      rw [List.length_cons, codeLoop, hread, Option.bind_eq_bind, Option.bind_some]
      exact hrest _

theorem kept_digits (params : List UInt8) : ∀ c ∈ kept params, IsDigit c := by
  intro c hc
  simpa using (List.mem_filter.mp (List.mem_of_mem_take hc)).2

theorem length_kept_le (params : List UInt8) : (kept params).length ≤ 15 := List.length_take_le ..

theorem kept_other {c : UInt8} (hc : ¬ IsDigit c) (params : List UInt8) :
    kept (params ++ [c]) = kept params := by
  rw [kept, List.filter_append, List.filter_cons_of_neg (by simpa using hc), List.filter_nil,
    List.append_nil, kept]

theorem kept_digit {c : UInt8} (hc : IsDigit c) (params : List UInt8) :
    kept (params ++ [c])
      = if (kept params).length < 15 then kept params ++ [c] else kept params := by
  unfold kept
  rw [List.filter_append, List.filter_cons_of_pos (by simpa using hc), List.filter_nil,
    List.length_take]
  split
  · rw [List.take_of_length_le (by rw [List.length_append, List.length_singleton]; omega),
      List.take_of_length_le (by omega)]
  · exact List.take_append_of_le_length (by omega)

end number

/-! ## One character -/

/-- The variables of the state machine, behind the beginning `t` of a sequence. -/
def Console.Behind (s : Console) (t : List UInt8) : Prop :=
  match s.ansiState with
  | .normal => t = []
  | .sawEsc => t = [0x1B]
  | .sawBracket => ∃ params, t = 0x1B :: 0x5B :: params ∧ (∀ c ∈ params, IsParam c) ∧
      s.ansiParamIdx = (kept params).length ∧
      s.ansiParams.take s.ansiParamIdx = kept params

/-- The console in the middle of `t`. -/
structure Console.Pending (s : Console) (t : List UInt8) : Prop where
  length_eq : s.ansiParams.length = 16
  behind : s.Behind t

theorem Console.Pending.unfinished {s : Console} {t : List UInt8} (h : s.Pending t) :
    Unfinished t := by
  have hbehind := h.behind
  unfold Console.Behind at hbehind
  split at hbehind
  · rw [hbehind]
    exact .nil
  · rw [hbehind]
    exact .esc
  · obtain ⟨params, rfl, hparams, -⟩ := hbehind
    exact .bracket hparams

/-- What a piece does to the console. -/
inductive Effect (s : Console) (sc : Screen UInt16 25 80) (s' : Console) (sc' : Screen UInt16 25 80) :
    Piece → Prop
  | shown {piece : Piece} {ch : UInt8} : piece.shown = some ch →
      sc' = sc.print (blank s.currentColor) (markOf s.currentColor ch) →
      s'.currentColor = s.currentColor → s'.overflow = s.overflow → Effect s sc s' sc' piece
  | sequence {params : List UInt8} {final : UInt8} : sc' = sc →
      ColorAfter s.currentColor params final s'.currentColor →
      ((final = 0x6D → number params < 2 ^ 31) → s'.overflow = s.overflow) →
      Effect s sc s' sc' (.sequence params final)

section step

variable {s : Console} {sc : Screen UInt16 25 80} {t : List UInt8}

/-- What one character does behind the beginning `t` of a sequence: the beginning gets longer and
nothing else happens, or a piece ends. -/
def StepSpec (s : Console) (sc : Screen UInt16 25 80) (t : List UInt8) (ch : UInt8) : Prop :=
  ∃ s' sc', vgaWriteChar s ch = some s' ∧ s'.Shows sc' ∧
    ((s'.Pending (t ++ [ch]) ∧ sc' = sc ∧ s'.currentColor = s.currentColor ∧
        s'.overflow = s.overflow) ∨
      ∃ p : Piece, p.WellFormed ∧ p.bytes = t ++ [ch] ∧ s'.Pending [] ∧ Effect s sc s' sc' p)

theorem step_normal (hs : s.Shows sc) (hlen : s.ansiParams.length = 16)
    (hstate : s.ansiState = .normal) (ch : UInt8) : StepSpec s sc [] ch := by
  unfold StepSpec vgaWriteChar
  by_cases hesc : ch = 0x1B
  · rw [if_pos ⟨hstate, hesc⟩, hesc]
    exact ⟨_, sc, rfl, ⟨hs.vgaBuffer_eq, hs.position_eq⟩, Or.inl ⟨⟨hlen, rfl⟩, rfl, rfl, rfl⟩⟩
  · obtain ⟨b, crtc, hshow, hshows⟩ := showChar_eq hs ch
    rw [if_neg fun h => hesc h.2, hstate]
    refine ⟨_, _, hshow, hshows, Or.inr ⟨.char ch, hesc, rfl, ⟨hlen, ?_⟩, .shown rfl rfl rfl rfl⟩⟩
    unfold Console.Behind
    rw [hstate]

theorem step_sawEsc (hs : s.Shows sc) (hlen : s.ansiParams.length = 16)
    (hstate : s.ansiState = .sawEsc) (ch : UInt8) : StepSpec s sc [0x1B] ch := by
  have hinside : s.ansiState ≠ .normal := by
    rw [hstate]
    decide
  unfold StepSpec vgaWriteChar
  rw [if_neg fun h => hinside h.1, hstate]
  dsimp only
  by_cases hbracket : ch = 0x5B
  · have hwrite : write s.ansiParams 0 0 = some (s.ansiParams.set 0 0) :=
      @write_natCast _ s.ansiParams 0 (by omega) 0
    rw [if_pos hbracket, hwrite, hbracket]
    refine ⟨_, sc, rfl, ⟨hs.vgaBuffer_eq, hs.position_eq⟩, Or.inl ⟨⟨?_, ?_⟩, rfl, rfl, rfl⟩⟩
    · exact (List.length_set ..).trans hlen
    · exact ⟨[], rfl, List.forall_mem_nil _, rfl, rfl⟩
  · have hnormal : Console.Shows { s with ansiState := .normal } sc :=
      ⟨hs.vgaBuffer_eq, hs.position_eq⟩
    obtain ⟨b, crtc, hshow, hshows⟩ := showChar_eq hnormal ch
    rw [if_neg hbracket]
    exact ⟨_, _, hshow, hshows,
      Or.inr ⟨.escaped ch, hbracket, rfl, ⟨hlen, rfl⟩, .shown rfl rfl rfl rfl⟩⟩

/-- A parameter makes the beginning of a sequence longer. -/
theorem step_param (hs : s.Shows sc) (ht : s.Pending t) (hstate : s.ansiState = .sawBracket)
    {ch : UInt8} (hch : IsParam ch) : StepSpec s sc t ch := by
  have hbehind := ht.behind
  rw [Console.Behind, hstate] at hbehind
  obtain ⟨params, rfl, hparams, hidx, htake⟩ := hbehind
  have hlen := ht.length_eq
  have hkept := length_kept_le params
  have hall : ∀ c ∈ params ++ [ch], IsParam c := by
    rw [List.forall_mem_append]
    exact ⟨hparams, by simpa using hch⟩
  -- where the digits that are kept do not change, nothing else does
  have hsame : kept (params ++ [ch]) = kept params → s.Pending (0x1B :: 0x5B :: params ++ [ch]) := by
    intro h
    refine ⟨hlen, ?_⟩
    rw [Console.Behind, hstate]
    exact ⟨params ++ [ch], rfl, hall, by rw [h]; exact hidx, by rw [h]; exact htake⟩
  have hinside : s.ansiState ≠ .normal := by
    rw [hstate]
    decide
  unfold StepSpec vgaWriteChar
  rw [if_neg fun h => hinside h.1, hstate]
  dsimp only
  by_cases hdigit : IsDigit ch
  · have hnext := kept_digit hdigit params
    rw [if_pos hdigit]
    by_cases hroom : s.ansiParamIdx < 15
    · rw [if_pos (by omega)] at hnext
      have hfirst : write s.ansiParams s.ansiParamIdx ch
          = some (s.ansiParams.set s.ansiParamIdx ch) := write_natCast (by omega) ch
      have hsecond : write (s.ansiParams.set s.ansiParamIdx ch) ((s.ansiParamIdx : Int) + 1) 0
          = some ((s.ansiParams.set s.ansiParamIdx ch).set (s.ansiParamIdx + 1) 0) := by
        rw [← Nat.cast_add_one]
        exact write_natCast (by rw [List.length_set]; omega) 0
      rw [if_pos hroom, hfirst, Option.bind_eq_bind, Option.bind_some, hsecond]
      refine ⟨_, sc, rfl, ⟨hs.vgaBuffer_eq, hs.position_eq⟩, Or.inl ⟨⟨?_, ?_⟩, rfl, rfl, rfl⟩⟩
      · dsimp only
        rw [List.length_set, List.length_set, hlen]
      · refine ⟨params ++ [ch], rfl, hall, ?_, ?_⟩
        · dsimp only
          rw [hnext, List.length_append, List.length_singleton, hidx]
        · dsimp only
          rw [hnext, List.take_set_of_le (Nat.le_refl _), List.take_add_one,
            List.take_set_of_le (Nat.le_refl _), htake, List.getElem?_set_self (by omega)]
          rfl
    · rw [if_neg (by omega)] at hnext
      rw [if_neg hroom]
      exact ⟨s, sc, rfl, hs, Or.inl ⟨hsame hnext, rfl, rfl, rfl⟩⟩
  · have hsemicolon : ch = 0x3B := hch.resolve_left hdigit
    rw [if_neg hdigit, if_pos hsemicolon]
    exact ⟨s, sc, rfl, hs, Or.inl ⟨hsame (kept_other hdigit params), rfl, rfl, rfl⟩⟩

/-- The character behind the parameters ends the sequence. -/
theorem step_final (hs : s.Shows sc) (ht : s.Pending t) (hstate : s.ansiState = .sawBracket)
    {ch : UInt8} (hch : ¬ IsParam ch) : StepSpec s sc t ch := by
  have hbehind := ht.behind
  rw [Console.Behind, hstate] at hbehind
  obtain ⟨params, rfl, hparams, hidx, htake⟩ := hbehind
  have hlen := ht.length_eq
  have hpiece : (Piece.sequence params ch).WellFormed := ⟨hparams, hch⟩
  have hinside : s.ansiState ≠ .normal := by
    rw [hstate]
    decide
  unfold StepSpec vgaWriteChar
  rw [if_neg fun h => hinside h.1, hstate]
  dsimp only
  rw [if_neg fun h => hch (Or.inl h), if_neg fun h => hch (Or.inr h)]
  by_cases hm : ch = 0x6D
  · have hcells : s.ansiParams = [] ++ (kept params ++ s.ansiParams.drop s.ansiParamIdx) := by
      rw [← htake, List.nil_append, List.take_append_drop]
    obtain ⟨⟨code, overflow⟩, hrun⟩ := @codeLoop_isSome [] (s.ansiParams.drop s.ansiParamIdx)
      (kept params) (0, s.overflow)
    rw [← hcells, ← hidx, List.length_nil] at hrun
    -- the loop has added up the number if that is an `int`
    have hnumber : number params < 2 ^ 31 →
        (code, overflow) = ((number params : Int), s.overflow) := by
      intro h
      have heq := @codeLoop_eq [] (kept params) (s.ansiParams.drop s.ansiParamIdx) s.overflow
        (kept_digits params) 0 h
      rw [← hcells, ← hidx, List.length_nil, Nat.cast_zero, hrun] at heq
      exact Option.some.inj heq
    rw [if_pos hm, hrun]
    refine ⟨_, sc, rfl, ⟨hs.vgaBuffer_eq, hs.position_eq⟩, Or.inr ⟨.sequence params ch, hpiece, rfl,
      ⟨hlen, rfl⟩, .sequence rfl ⟨fun _ h => ?_, fun h => absurd hm h⟩ fun h => ?_⟩⟩
    · exact congrArg (changeColor s.currentColor) (Prod.mk.inj (hnumber h)).1
    · exact (Prod.mk.inj (hnumber (h hm))).2
  · rw [if_neg hm]
    exact ⟨_, sc, rfl, ⟨hs.vgaBuffer_eq, hs.position_eq⟩, Or.inr ⟨.sequence params ch, hpiece, rfl,
      ⟨hlen, rfl⟩, .sequence rfl ⟨fun h => absurd h hm, fun _ => rfl⟩ fun _ => rfl⟩⟩

/-- **One character.** -/
theorem vgaWriteChar_step (hs : s.Shows sc) (ht : s.Pending t) (ch : UInt8) : StepSpec s sc t ch := by
  have hbehind := ht.behind
  unfold Console.Behind at hbehind
  cases hstate : s.ansiState with
  | normal =>
      rw [hstate] at hbehind
      subst hbehind
      exact step_normal hs ht.length_eq hstate ch
  | sawEsc =>
      rw [hstate] at hbehind
      subst hbehind
      exact step_sawEsc hs ht.length_eq hstate ch
  | sawBracket =>
      by_cases hch : IsParam ch
      · exact step_param hs ht hstate hch
      · exact step_final hs ht hstate hch

end step

/-! ## A string -/

/-- **The console**, from a cursor inside of the screen and any state of the state machine. A string
is written to the end, which it would not be with a cell outside of the display; the cursor is on the
screen again, and the display holds the last 25 lines of the paper on which the pieces are laid out.
No operation on `int` overflows where the numbers of the sequences that end in `m` are such. -/
theorem vgaWrite_laidOut {s : Console} {sc : Screen UInt16 25 80} {t : List UInt8} (hs : s.Shows sc)
    (ht : s.Pending t) (l : List UInt8) :
    ∃ s' sc' t' ps paper, vgaWrite s l = some s' ∧ s'.Shows sc' ∧ s'.Pending t' ∧
      Reads (t ++ l) ps t' ∧
      LaidOut ps s.currentColor sc.paper s'.currentColor paper ∧ sc'.EndOf paper ∧
      ((∀ params, .sequence params 0x6D ∈ ps → number params < 2 ^ 31) →
        s'.overflow = s.overflow) := by
  -- a screen on which the string goes on is the end of a paper already
  suffices hrun : ∀ p : Paper UInt16 80, sc.EndOf p → ∃ s' sc' t' ps p', vgaWrite s l = some s' ∧
      s'.Shows sc' ∧ s'.Pending t' ∧ Reads (t ++ l) ps t' ∧
      LaidOut ps s.currentColor p s'.currentColor p' ∧ sc'.EndOf p' ∧
      ((∀ params, .sequence params 0x6D ∈ ps → number params < 2 ^ 31) →
        s'.overflow = s.overflow) from
    hrun sc.paper sc.endOf_paper
  induction l generalizing s sc t with
  | nil =>
      intro p hp
      refine ⟨s, sc, t, [], p, rfl, hs, ht, ⟨?_, List.forall_mem_nil _, ht.unfinished⟩, .nil, hp,
        fun _ => rfl⟩
      rw [List.append_nil, List.flatMap_nil, List.nil_append]
  | cons ch l ih =>
      intro p hp
      obtain ⟨s₁, sc₁, hstep, hs₁, hcase⟩ := vgaWriteChar_step hs ht ch
      have hwrite : vgaWrite s (ch :: l) = vgaWrite s₁ l := by
        rw [vgaWrite, hstep]
        rfl
      rw [hwrite]
      rcases hcase with ⟨ht₁, rfl, hcolor, hoverflow⟩ | ⟨piece, hpiece, hbytes, ht₁, heffect⟩
      · -- still inside of a sequence
        rw [← hcolor, ← hoverflow, List.append_cons t ch l]
        exact ih hs₁ ht₁ p hp
      · -- a piece ends here, and the rest is read from the beginning
        have hreads : ∀ {ps t'}, Reads ([] ++ l) ps t' → Reads (t ++ ch :: l) (piece :: ps) t' := by
          intro ps t' h
          refine ⟨?_, List.forall_mem_cons.mpr ⟨hpiece, h.wellFormed⟩, h.unfinished⟩
          rw [List.append_cons, ← hbytes, List.flatMap_cons, List.append_assoc, ← h.bytes_eq,
            List.nil_append]
        cases heffect with
        | @shown piece ch' hshown hsc hcolor hoverflow =>
            subst hsc
            obtain ⟨s', sc', t', ps, p', hrun, hs', ht', hps, hlaid, hend, hno⟩ :=
              ih hs₁ ht₁ _ (hp.print (blank s.currentColor) (markOf s.currentColor ch'))
            rw [hcolor] at hlaid
            refine ⟨s', sc', t', piece :: ps, p', hrun, hs', ht', hreads hps,
              .shown hshown (markFor_markOf _ ch') hlaid, hend, fun h => ?_⟩
            rw [hno fun params hmem => h params (List.mem_cons_of_mem _ hmem), hoverflow]
        | @sequence params final hsc hcolor hoverflow =>
            subst hsc
            obtain ⟨s', sc', t', ps, p', hrun, hs', ht', hps, hlaid, hend, hno⟩ := ih hs₁ ht₁ p hp
            refine ⟨s', sc', t', .sequence params final :: ps, p', hrun, hs', ht', hreads hps,
              .sequence hcolor hlaid, hend, fun h => ?_⟩
            rw [hno fun params hmem => h params (List.mem_cons_of_mem _ hmem), hoverflow fun hm => ?_]
            subst hm
            exact h params List.mem_cons_self

/-- A display with blanks, and the cursor in its last cell. -/
def lastCell : Console where
  vgaBuffer := List.replicate 2000 0x0F20
  currentColor := 0x0F
  ansiState := .normal
  ansiParams := List.replicate 16 0
  ansiParamIdx := 0
  crtc := ⟨0, fun r => if r = 0x0E then 7 else if r = 0x0F then 0xCF else 0⟩
  overflow := false

/-- The screen on it. -/
def lastCellScreen : Screen UInt16 25 80 where
  cells := List.replicate 2000 0x0F20
  pos := 1999
  length_eq := List.length_replicate
  pos_lt := by decide

/-- Red, and an `A` in the last cell, where the screen scrolls. -/
theorem vgaWrite_laidOut_red :
    ∃ s' sc' t' ps paper, vgaWrite lastCell [0x1B, 0x5B, 0x33, 0x31, 0x6D, 0x41] = some s' ∧
      s'.Shows sc' ∧ s'.Pending t' ∧ Reads [0x1B, 0x5B, 0x33, 0x31, 0x6D, 0x41] ps t' ∧
      LaidOut ps 0x0F lastCellScreen.paper s'.currentColor paper ∧ sc'.EndOf paper ∧
      ((∀ params, .sequence params 0x6D ∈ ps → number params < 2 ^ 31) → s'.overflow = false) :=
  @vgaWrite_laidOut lastCell lastCellScreen [] ⟨rfl, rfl⟩ ⟨rfl, rfl⟩
    [0x1B, 0x5B, 0x33, 0x31, 0x6D, 0x41]

/-- The same display with the cursor in its first cell. -/
def firstCell : Console := { lastCell with crtc := ⟨0, fun _ => 0⟩ }

/-- `ESC A` puts one cell, for the `A`; the cell of 0x80 has the high byte 0xFF, where the colour is
0x0F; and the number of fifteen nines is no `int`. -/
theorem not_everyCell :
    (vgaWrite firstCell [0x1B, 0x41]).map (fun s => (s.vgaBuffer.take 2, s.crtc.position))
      = some ([0x0F41, 0x0F20], 1) ∧
    (vgaWrite firstCell [0x80]).map (fun s => s.vgaBuffer.take 1) = some [0xFF80] ∧
    (vgaWrite firstCell ([0x1B, 0x5B] ++ List.replicate 15 0x39 ++ [0x6D])).map Console.overflow
      = some true := by
  decide +kernel

end MicroKernel.Video
