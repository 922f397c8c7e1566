import MicroKernel.Lib.Runs
import MicroKernel.Libc.String

set_option autoImplicit false

/-! # Tokens of a string (`lib/libc/string.c`)

`strtok` keeps the place where it goes on in a static variable, which is null behind the last token,
and `strtok_r` in a variable of the caller, which then leads to the end of the string. Both write a
zero behind a token. They hand out the same tokens, the runs of characters that are no delimiters
(`tokenizers_agree`).

A pointer into the string is an index of its cells.
-/

namespace MicroKernel.Libc

open MicroKernel.Lib

/-! ## The functions -/

/-- `strchr`: how far the result is behind the pointer, if it is not null. -/
def strchr : List UInt8 → UInt8 → Option (Option Nat)
  | [], _ => none
  | a :: str, c =>
      if a ≠ 0 then
        if a = c then some (some 0) else (strchr str c).map (Option.map (· + 1))
      else some (if c = 0 then some 0 else none)

/-- The inner loop of `strspn` and `strcspn`: whether it comes to `c` before the zero. -/
def findChar (c : UInt8) : List UInt8 → Option Bool
  | [] => none
  | a :: str2 => if a = 0 then some false else if c = a then some true else findChar c str2

/-- A loop over a string: how many characters there are up to its zero, or up to the first one that
does not pass the test. -/
def spanLoop (test : UInt8 → Option Bool) : List UInt8 → Option Nat
  | [] => none
  | c :: str =>
      if c = 0 then some 0
      else do
        if ← test c then (spanLoop test str).map (· + 1) else some 0

/-- `strspn`. -/
def strspn (str1 str2 : List UInt8) : Option Nat := spanLoop (fun c => findChar c str2) str1

/-- `strcspn`. -/
def strcspn (str1 str2 : List UInt8) : Option Nat :=
  spanLoop (fun c => (findChar c str2).map (!·)) str1

/-- `strtok_r`: the token, `*saveptr`, and the cells afterwards. -/
def strtokR (delim : List UInt8) (str : Option Nat) (saveptr : Nat) (cells : List UInt8) :
    Option (Option Nat × Nat × List UInt8) := do
  let str := str.getD saveptr
  let str := str + (← strspn (cells.drop str) delim)
  if (← cells[str]?) = 0 then return (none, str, cells)
  let stop := str + (← strcspn (cells.drop str) delim)
  if (← cells[stop]?) = 0 then return (some str, stop, cells)
  return (some str, stop + 1, cells.set stop 0)

/-- The loop of `strtok` over delimiters. -/
def skipDelimiters (delimiters str : List UInt8) : Option Nat :=
  spanLoop (fun c => (strchr delimiters c).map Option.isSome) str

/-- The loop of `strtok` over a token. -/
def skipToken (delimiters str : List UInt8) : Option Nat :=
  spanLoop (fun c => (strchr delimiters c).map Option.isNone) str

/-- `strtok`: the token, `last`, and the cells afterwards. -/
def strtok (delimiters : List UInt8) (str : Option Nat) (last : Option Nat) (cells : List UInt8) :
    Option (Option Nat × Option Nat × List UInt8) :=
  match str <|> last with
  | none => some (none, none, cells)
  | some last => do
      let last := last + (← skipDelimiters delimiters (cells.drop last))
      if (← cells[last]?) = 0 then return (none, none, cells)
      let tokenStart := last
      let last := last + (← skipToken delimiters (cells.drop last))
      if (← cells[last]?) ≠ 0 then return (some tokenStart, some (last + 1), cells.set last 0)
      return (some tokenStart, none, cells)

/-- A call of a tokenizer, with the text of the token that it returns. -/
def tokenCall {σ : Type}
    (tokenizer : Option Nat → σ → List UInt8 → Option (Option Nat × σ × List UInt8))
    (str : Option Nat) (s : σ × List UInt8) : Option (Option (List UInt8) × σ × List UInt8) :=
  (tokenizer str s.1 s.2).map fun r => (r.1.map fun p => text (r.2.2.drop p), r.2)

/-! ## The loops -/

section loops

variable {d : List UInt8} {c : UInt8}

/-- The character is a delimiter. -/
def isDelimiter (d : List UInt8) (c : UInt8) : Bool := d.contains c

theorem strchr_eq (hd : 0 ∉ d) (drest : List UInt8) (hc : c ≠ 0) :
    (strchr (d ++ 0 :: drest) c).map Option.isSome = some (isDelimiter d c) := by
  induction d with
  | nil => simp [strchr, hc, isDelimiter]
  | cons a d ih =>
      rw [List.mem_cons, not_or] at hd
      have ha : a ≠ 0 := Ne.symm hd.1
      by_cases hac : a = c
      · simp [strchr, hac, hc, isDelimiter]
      · have hrest := ih hd.2
        rw [isDelimiter] at hrest ⊢
        rw [List.cons_append, strchr, if_pos ha, if_neg hac, List.contains_cons,
          beq_eq_false_iff_ne.mpr (Ne.symm hac), Bool.false_or, ← hrest, Option.map_map]
        congr 1
        funext r
        exact Option.isSome_map

theorem findChar_eq (hd : 0 ∉ d) (drest : List UInt8) (c : UInt8) :
    findChar c (d ++ 0 :: drest) = some (isDelimiter d c) := by
  induction d with
  | nil => simp [findChar, isDelimiter]
  | cons a d ih =>
      rw [List.mem_cons, not_or] at hd
      rw [List.cons_append, findChar, if_neg (Ne.symm hd.1)]
      by_cases hca : c = a
      · rw [if_pos hca]
        simp [isDelimiter, hca]
      · rw [if_neg hca, ih hd.2, isDelimiter, isDelimiter, List.contains_cons,
          beq_eq_false_iff_ne.mpr hca, Bool.false_or]

/-- What a loop stops at: a character that ends it, or the zero. -/
def StopsAt (d : List UInt8) (delimiter : Bool) (l : List UInt8) : Prop :=
  ∃ c l', l = c :: l' ∧ (c = 0 ∨ isDelimiter d c = delimiter)

variable {gap l : List UInt8}

/-- The test of a loop that stops at delimiters, or at other characters. -/
def Stops (d : List UInt8) (stop : Bool) (test : UInt8 → Option Bool) : Prop :=
  ∀ c, c ≠ 0 → test c = some (isDelimiter d c != stop)

/-- **A loop with such a test**, over characters that pass. -/
theorem spanLoop_eq {test : UInt8 → Option Bool} {stop : Bool} (htest : Stops d stop test)
    (h0 : 0 ∉ gap) (hgap : ∀ c ∈ gap, isDelimiter d c = !stop) (hl : StopsAt d stop l) :
    spanLoop test (gap ++ l) = some gap.length := by
  induction gap with
  | nil =>
      obtain ⟨c, l', rfl, hc⟩ := hl
      rw [List.nil_append, spanLoop]
      by_cases hzero : c = 0
      · rw [if_pos hzero]
        rfl
      · rw [if_neg hzero, htest c hzero, hc.resolve_left hzero]
        simp
  | cons c gap ih =>
      rw [List.mem_cons, not_or] at h0
      rw [List.forall_mem_cons] at hgap
      rw [List.cons_append, spanLoop, if_neg (Ne.symm h0.1), htest c (Ne.symm h0.1), hgap.1]
      simp [ih h0.2 hgap.2]

theorem stops_strspn (hd : 0 ∉ d) (drest : List UInt8) :
    Stops d false fun c => findChar c (d ++ 0 :: drest) := by
  intro c _
  dsimp only
  rw [findChar_eq hd, Bool.bne_false]

theorem stops_strcspn (hd : 0 ∉ d) (drest : List UInt8) :
    Stops d true fun c => (findChar c (d ++ 0 :: drest)).map (!·) := by
  intro c _
  dsimp only
  rw [findChar_eq hd, Bool.bne_true]
  rfl

theorem stops_skipDelimiters (hd : 0 ∉ d) (drest : List UInt8) :
    Stops d false fun c => (strchr (d ++ 0 :: drest) c).map Option.isSome := by
  intro c hc
  dsimp only
  rw [strchr_eq hd drest hc, Bool.bne_false]

theorem stops_skipToken (hd : 0 ∉ d) (drest : List UInt8) :
    Stops d true fun c => (strchr (d ++ 0 :: drest) c).map Option.isNone := by
  intro c hc
  obtain ⟨r, hr, hsome⟩ := Option.map_eq_some_iff.mp (strchr_eq hd drest hc)
  dsimp only
  rw [hr, Option.map_some, Bool.bne_true, ← hsome, Option.not_isSome]

end loops

/-! ## The calls -/

section calls

variable {d s cells : List UInt8}

/-- The string `s` is left in the cells from `p` on. -/
def LeftAt (s : List UInt8) (p : Nat) (cells : List UInt8) : Prop :=
  ∃ pre rest, cells = pre ++ (s ++ 0 :: rest) ∧ p = pre.length ∧ 0 ∉ s

theorem LeftAt.drop {p : Nat} (h : LeftAt s p cells) : ∃ rest, cells.drop p = s ++ 0 :: rest := by
  obtain ⟨pre, rest, rfl, rfl, -⟩ := h
  exact ⟨rest, List.drop_left⟩

theorem LeftAt.get {p : Nat} (h : LeftAt s p cells) : cells[p]? = some (s.headD 0) := by
  obtain ⟨rest, hdrop⟩ := h.drop
  rw [← List.head?_drop, hdrop]
  cases s <;> rfl

theorem LeftAt.text_eq {p : Nat} (h : LeftAt s p cells) : text (cells.drop p) = s := by
  obtain ⟨pre, rest, rfl, rfl, h0⟩ := h
  rw [List.drop_left, Libc.text_eq h0]

/-- A zero is written behind the token, over a delimiter. -/
theorem LeftAt.cut {run tail : List UInt8} {x : UInt8} {p : Nat}
    (h : LeftAt (run ++ x :: tail) p cells) :
    text ((cells.set (p + run.length) 0).drop p) = run ∧
      LeftAt tail (p + run.length + 1) (cells.set (p + run.length) 0) := by
  obtain ⟨pre, rest, rfl, rfl, h0⟩ := h
  simp only [List.mem_append, List.mem_cons, not_or] at h0
  have hset : (pre ++ (run ++ x :: tail ++ 0 :: rest)).set (pre.length + run.length) 0
      = pre ++ (run ++ 0 :: (tail ++ 0 :: rest)) := by
    rw [List.set_append_right _ _ (by omega), Nat.add_sub_cancel_left, List.append_assoc,
      List.set_append_right _ _ (Nat.le_refl _), Nat.sub_self]
    rfl
  rw [hset]
  refine ⟨by rw [List.drop_left, Libc.text_eq h0.1], pre ++ run ++ [0], rest, by simp, by simp; omega,
    h0.2.2⟩

theorem stopsAt_of_tail {tail : List UInt8} (htail : ∀ x ∈ tail.head?, isDelimiter d x = true)
    (rest : List UInt8) : StopsAt d true (tail ++ 0 :: rest) := by
  cases tail with
  | nil => exact ⟨0, rest, rfl, Or.inl rfl⟩
  | cons x tail => exact ⟨x, tail ++ 0 :: rest, rfl, Or.inr (htail x rfl)⟩

theorem stopsAt_of_run {run : List UInt8} (hne : run ≠ [])
    (hrun : ∀ x ∈ run, isDelimiter d x = false) (rest : List UInt8) :
    StopsAt d false (run ++ rest) := by
  cases run with
  | nil => exact absurd rfl hne
  | cons x run => exact ⟨x, run ++ rest, rfl, Or.inr (hrun x (by simp))⟩

/-- The next token of the string at `p`: what the loops of a tokenizer see on their way to it and
behind it. -/
structure TokenAt (d : List UInt8) (p : Nat) (cells s gap run tail : List UInt8) : Prop where
  firstRun : FirstRun (isDelimiter d) s gap run tail
  left : LeftAt (run ++ tail) (p + gap.length) cells
  leftBehind : LeftAt tail (p + gap.length + run.length) cells
  zero_not_mem : 0 ∉ gap ∧ 0 ∉ run ∧ 0 ∉ tail
  atStart : ∃ l, cells.drop p = gap ++ l ∧ StopsAt d false l
  atToken : ∃ l, cells.drop (p + gap.length) = run ++ l ∧ StopsAt d true l

/-- What a tokenizer comes to: the end of the string, behind delimiters only, or a token. -/
theorem leftAt_cases (d : List UInt8) {p : Nat} (h : LeftAt s p cells) :
    ((∀ c ∈ s, isDelimiter d c = true) ∧ 0 ∉ s ∧ LeftAt [] (p + s.length) cells ∧
        ∃ l, cells.drop p = s ++ l ∧ StopsAt d false l) ∨
      ∃ gap run tail, TokenAt d p cells s gap run tail := by
  obtain ⟨pre, rest, rfl, rfl, h0⟩ := h
  rcases exists_firstRun (isDelimiter d) s with hall | ⟨gap, run, tail, hrun⟩
  · refine Or.inl ⟨hall, h0, ⟨pre ++ s, rest, by simp, by simp, by simp⟩, 0 :: rest, ?_, 0, rest, rfl,
      Or.inl rfl⟩
    rw [List.drop_left]
  · have heq := hrun.eq
    subst heq
    simp only [List.mem_append, not_or] at h0
    have hleft : LeftAt (run ++ tail) (pre.length + gap.length)
        (pre ++ (gap ++ (run ++ tail) ++ 0 :: rest)) :=
      ⟨pre ++ gap, rest, by simp, by simp, by simp [h0]⟩
    refine Or.inr ⟨gap, run, tail, hrun, hleft, ⟨pre ++ gap ++ run, rest, by simp, by simp; omega,
      h0.2.2⟩, ⟨h0.1, h0.2.1, h0.2.2⟩, ⟨run ++ (tail ++ 0 :: rest), by simp, ?_⟩,
      ⟨tail ++ 0 :: rest, ?_, stopsAt_of_tail hrun.tail_sep rest⟩⟩
    · exact stopsAt_of_run hrun.run_ne_nil hrun.run_whole _
    · rw [← List.drop_drop, List.drop_left, List.append_assoc, List.drop_left, List.append_assoc]

theorem TokenAt.get {p : Nat} {gap run tail : List UInt8} (h : TokenAt d p cells s gap run tail) :
    ∃ c, c ≠ 0 ∧ cells[p + gap.length]? = some c := by
  obtain ⟨c, run', rfl⟩ := List.exists_cons_of_ne_nil h.firstRun.run_ne_nil
  refine ⟨c, ?_, h.left.get⟩
  rintro rfl
  exact h.zero_not_mem.2.1 (by simp)

/-- The loop over the delimiters in front of a token. -/
theorem TokenAt.span_gap {p : Nat} {gap run tail : List UInt8} (h : TokenAt d p cells s gap run tail)
    {test : UInt8 → Option Bool} (htest : Stops d false test) :
    spanLoop test (cells.drop p) = some gap.length := by
  obtain ⟨l, hdrop, hstop⟩ := h.atStart
  rw [hdrop]
  exact spanLoop_eq htest h.zero_not_mem.1 h.firstRun.gap_sep hstop

/-- The loop over the token. -/
theorem TokenAt.span_run {p : Nat} {gap run tail : List UInt8} (h : TokenAt d p cells s gap run tail)
    {test : UInt8 → Option Bool} (htest : Stops d true test) :
    spanLoop test (cells.drop (p + gap.length)) = some run.length := by
  obtain ⟨l, hdrop, hstop⟩ := h.atToken
  rw [hdrop]
  exact spanLoop_eq htest h.zero_not_mem.2.1 h.firstRun.run_whole hstop

/-- The character behind a token that is not the last characters. -/
theorem TokenAt.tail_ne_zero {p : Nat} {gap run tail : List UInt8} {x : UInt8}
    (h : TokenAt d p cells s gap run (x :: tail)) : x ≠ 0 := by
  rintro rfl
  exact h.zero_not_mem.2.2 (by simp)

/-- **One call of `strtok_r`** with a null pointer, when the string `s` is left at `*saveptr`. -/
theorem strtokR_call (hd : 0 ∉ d) (drest : List UInt8) {p : Nat} (h : LeftAt s p cells) :
    ∃ p' cells' s', tokenCall (strtokR (d ++ 0 :: drest)) none (p, cells)
        = some ((runs (isDelimiter d) s).head?, p', cells') ∧
      LeftAt s' p' cells' ∧ runs (isDelimiter d) s' = (runs (isDelimiter d) s).tail := by
  have hspn := stops_strspn hd drest
  have hcspn := stops_strcspn hd drest
  unfold tokenCall strtokR strspn strcspn
  dsimp only
  rw [Option.getD_none]
  rcases leftAt_cases d h with ⟨hall, h0, hend, l, hdrop, hstop⟩ | ⟨gap, run, tail, ht⟩
  · -- only delimiters are left
    rw [hdrop, spanLoop_eq hspn h0 hall hstop, runs_of_gap hall]
    exact ⟨p + s.length, cells, [], by simp [hend.get], hend, rfl⟩
  · obtain ⟨c, hc, hget⟩ := ht.get
    have hget' := ht.leftBehind.get
    rw [ht.firstRun.runs_eq]
    cases tail with
    | nil =>
        have htext := ht.left.text_eq
        rw [List.append_nil] at htext
        refine ⟨p + gap.length + run.length, cells, [], ?_, ht.leftBehind, rfl⟩
        simp [ht.span_gap hspn, hget, hc, ht.span_run hcspn, hget', htext]
    | cons x tail =>
        obtain ⟨htext, hleft⟩ := ht.left.cut
        refine ⟨_, _, tail, ?_, hleft, rfl⟩
        simp [ht.span_gap hspn, hget, hc, ht.span_run hcspn, hget', ht.tail_ne_zero, htext]

/-- **One call of `strtok`** with a null pointer, when the string `s` is left at `last`: `last` is
null afterwards, or leads to what is left. -/
theorem strtok_call (hd : 0 ∉ d) (drest : List UInt8) {p : Nat} (h : LeftAt s p cells) :
    ∃ last cells', tokenCall (strtok (d ++ 0 :: drest)) none (some p, cells)
        = some ((runs (isDelimiter d) s).head?, last, cells') ∧
      ((last = none ∧ (runs (isDelimiter d) s).tail = []) ∨ ∃ p' s', last = some p' ∧
        LeftAt s' p' cells' ∧ runs (isDelimiter d) s' = (runs (isDelimiter d) s).tail) := by
  have hskip := stops_skipDelimiters hd drest
  have htoken := stops_skipToken hd drest
  unfold tokenCall strtok skipDelimiters skipToken
  dsimp only
  rw [show (none <|> some p : Option Nat) = some p from rfl]
  dsimp only
  rcases leftAt_cases d h with ⟨hall, h0, hend, l, hdrop, hstop⟩ | ⟨gap, run, tail, ht⟩
  · -- only delimiters are left
    rw [hdrop, spanLoop_eq hskip h0 hall hstop, runs_of_gap hall]
    exact ⟨none, cells, by simp [hend.get], Or.inl ⟨rfl, rfl⟩⟩
  · obtain ⟨c, hc, hget⟩ := ht.get
    have hget' := ht.leftBehind.get
    rw [ht.firstRun.runs_eq]
    cases tail with
    | nil =>
        have htext := ht.left.text_eq
        rw [List.append_nil] at htext
        refine ⟨none, cells, ?_, Or.inl ⟨rfl, rfl⟩⟩
        simp [ht.span_gap hskip, hget, hc, ht.span_run htoken, hget', htext]
    | cons x tail =>
        obtain ⟨htext, hleft⟩ := ht.left.cut
        refine ⟨_, _, ?_, Or.inr ⟨_, tail, rfl, hleft, rfl⟩⟩
        simp [ht.span_gap hskip, hget, hc, ht.span_run htoken, hget', ht.tail_ne_zero, htext]

end calls

/-! ## The result -/

/-- **The two tokenizers agree**: for every string and all delimiters, and whatever the saved pointers
held before, the calls hand out the maximal runs of characters that are no delimiters, and null from
then on. -/
theorem tokenizers_agree {s d : List UInt8} (hs : 0 ∉ s) (hd : 0 ∉ d) (rest drest : List UInt8)
    (last : Option Nat) (saveptr n : Nat) :
    results (tokenCall (strtok (d ++ 0 :: drest))) (some 0 :: List.replicate n none)
        (last, s ++ 0 :: rest)
      = some ((List.range (n + 1)).map ((runs (isDelimiter d) s)[·]?)) ∧
    results (tokenCall (strtokR (d ++ 0 :: drest))) (some 0 :: List.replicate n none)
        (saveptr, s ++ 0 :: rest)
      = some ((List.range (n + 1)).map ((runs (isDelimiter d) s)[·]?)) := by
  have hstart : LeftAt s 0 (s ++ 0 :: rest) := ⟨[], rest, rfl, rfl, hs⟩
  constructor
  · -- the first call is one with a null pointer when `last` leads to the string
    have h : results (tokenCall (strtok (d ++ 0 :: drest))) (List.replicate (n + 1) none)
        (some 0, s ++ 0 :: rest)
        = some ((List.range (n + 1)).map ((runs (isDelimiter d) s)[·]?)) := by
      refine results_eq (fun st l => (st.1 = none ∧ l = []) ∨ ∃ p s', st.1 = some p ∧
        LeftAt s' p st.2 ∧ runs (isDelimiter d) s' = l) ?_ (n + 1) (Or.inr ⟨0, s, rfl, hstart, rfl⟩)
      rintro ⟨last, cells⟩ l (⟨hlast, rfl⟩ | ⟨p, s', hlast, hleft, rfl⟩)
      · dsimp only at hlast
        subst hlast
        exact ⟨(none, cells), rfl, Or.inl ⟨rfl, rfl⟩⟩
      · dsimp only at hlast
        subst hlast
        obtain ⟨last', cells', hcall, hnext⟩ := strtok_call hd drest hleft
        exact ⟨(last', cells'), hcall, hnext⟩
    exact h
  · have h : results (tokenCall (strtokR (d ++ 0 :: drest))) (List.replicate (n + 1) none)
        (0, s ++ 0 :: rest) = some ((List.range (n + 1)).map ((runs (isDelimiter d) s)[·]?)) := by
      refine results_eq (fun st l => ∃ s', LeftAt s' st.1 st.2 ∧ runs (isDelimiter d) s' = l) ?_
        (n + 1) ⟨s, hstart, rfl⟩
      rintro ⟨p, cells⟩ l ⟨s', hleft, rfl⟩
      obtain ⟨p', cells', s'', hcall, hleft', htail⟩ := strtokR_call hd drest hleft
      exact ⟨(p', cells'), hcall, s'', hleft', htail⟩
    exact h

/-- The string "/a//b" at slashes, and three calls. -/
theorem tokenizers_agree_path :
    results (tokenCall (strtok [0x2F, 0])) [some 0, none, none]
        (none, [0x2F, 0x61, 0x2F, 0x2F, 0x62, 0]) = some [some [0x61], some [0x62], none] ∧
    results (tokenCall (strtokR [0x2F, 0])) [some 0, none, none]
        (0, [0x2F, 0x61, 0x2F, 0x2F, 0x62, 0]) = some [some [0x61], some [0x62], none] := by
  have hs : (0 : UInt8) ∉ ([0x2F, 0x61, 0x2F, 0x2F, 0x62] : List UInt8) := by decide
  have hd : (0 : UInt8) ∉ ([0x2F] : List UInt8) := by decide
  have hruns : runs (isDelimiter [0x2F]) [0x2F, 0x61, 0x2F, 0x2F, 0x62] = [[0x61], [0x62]] := by
    decide
  have h := tokenizers_agree hs hd [] [] none 0 2
  rw [hruns] at h
  exact h

end MicroKernel.Libc
