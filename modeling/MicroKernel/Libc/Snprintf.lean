import MicroKernel.Lib.CArray
import MicroKernel.Libc.Conversions
import MicroKernel.Libc.Format
import MicroKernel.Libc.String

set_option autoImplicit false

/-! # `snprintf` (`lib/libc/stdio.c`)

Every character is written under a test of its own, so that at each moment the buffer holds the
characters so far as far as they fit, and `written` counts these (`Truncated`). What the characters
are does not matter for that: `rendering` is what would be written without a bound.

The buffer is the list of its cells, and a write outside of it has no result. The conversion of an
`int` negates it first, and of the least one it makes a sign and one character that is no digit.
-/

namespace MicroKernel.Libc

open MicroKernel.Lib CArray

/-! ## The function -/

/-- The loops that copy characters while there is room: those of a string argument, and those of a
number from the last one of its buffer on. -/
def copyBounded (size : Nat) : List UInt8 → Nat × List UInt8 → Option (Nat × List UInt8)
  | [], out => some out
  | c :: arg, (written, str) =>
      if written < size then do
        let str ← write str written c
        copyBounded size arg (written + 1, str)
      else some (written, str)

/-- The loop that fills `num_buffer`, with room for `n` more characters. -/
def numberLoop : Nat → Int → List UInt8
  | 0, _ => []
  | n + 1, temp =>
      UInt8.ofInt (temp.tmod 10 + 0x30) ::
        if 0 < temp.tdiv 10 then numberLoop n (temp.tdiv 10) else []

/-- The sign of a negative number, if there is room. -/
def putSign (size : Nat) : Nat × List UInt8 → Option (Nat × List UInt8)
  | (written, str) =>
      if written < size then do
        let str ← write str written 0x2D
        some (written + 1, str)
      else some (written, str)

/-- The branch of `%d`. -/
def printNumber (size : Nat) (num : Int) (out : Nat × List UInt8) : Option (Nat × List UInt8) :=
  if num < 0 then do
    let out ← putSign size out
    copyBounded size (numberLoop 12 (negate num)).reverse out
  else copyBounded size (numberLoop 12 num).reverse out

/-- The loop of `snprintf`, from argument `i` on. -/
def snprintfLoop (args : VaList) (size : Nat) :
    List UInt8 → Nat → Nat × List UInt8 → Option (Nat × List UInt8)
  | [], _, _ => none
  | c :: p, i, (written, str) =>
      if c ≠ 0 ∧ written < size then
        if c = 0x25 then
          match p with
          | [] => none
          | d :: p =>
              if d = 0x73 then do
                let out ← copyBounded size (args.string i) (written, str)
                snprintfLoop args size p (i + 1) out
              else if d = 0x64 then do
                let out ← printNumber size (args.int i) (written, str)
                snprintfLoop args size p (i + 1) out
              else snprintfLoop args size p i (written, str)
        else do
          let str ← write str written c
          snprintfLoop args size p i (written + 1, str)
      else some (written, str)

/-- The zero at the end. -/
def terminate (size written : Nat) (str : List UInt8) : Option (List UInt8) :=
  if 0 < size then
    if written < size then write str written 0 else write str (size - 1) 0
  else some str

/-- `snprintf`: its result and the buffer afterwards. -/
def snprintf (str : List UInt8) (size : Nat) (format : List UInt8) (args : VaList) :
    Option (Int × List UInt8) := do
  let (written, str) ← snprintfLoop args size format 0 (0, str)
  let str ← terminate size written str
  some (asInt written, str)

/-! ## What it writes -/

/-- The characters that `%d` makes of a number. -/
def numberText (num : Int) : List UInt8 :=
  if num < 0 then 0x2D :: (numberLoop 12 (negate num)).reverse else (numberLoop 12 num).reverse

/-- All characters that a format and its arguments make, from argument `i` on. -/
def rendering (args : VaList) : List UInt8 → Nat → List UInt8
  | [], _ => []
  | c :: l, i =>
      if c = 0x25 then
        match l with
        | [] => []
        | d :: l =>
            if d = 0x73 then args.string i ++ rendering args l (i + 1)
            else if d = 0x64 then numberText (args.int i) ++ rendering args l (i + 1)
            else rendering args l i
      else c :: rendering args l i

/-- The buffer holds the characters `t` as far as they fit. -/
structure Truncated (size : Nat) (t : List UInt8) (out : Nat × List UInt8) : Prop where
  length_eq : out.2.length = size
  written_eq : out.1 = min t.length size
  take_eq : out.2.take out.1 = t.take size

section truncated

variable {size : Nat} {t l : List UInt8} {out : Nat × List UInt8}

theorem truncated_nil {str : List UInt8} (h : str.length = size) : Truncated size [] (0, str) where
  length_eq := h
  written_eq := by simp
  take_eq := by simp

/-- What comes behind a full buffer is not written. -/
theorem Truncated.append_of_full (h : Truncated size t out) (hfull : ¬ out.1 < size)
    (l : List UInt8) : Truncated size (t ++ l) out := by
  have hw := h.written_eq
  refine ⟨h.length_eq, ?_, ?_⟩
  · rw [List.length_append]
    omega
  · rw [h.take_eq, List.take_append_of_le_length (by omega)]

theorem Truncated.put (h : Truncated size t out) (hroom : out.1 < size) (c : UInt8) :
    write out.2 out.1 c = some (out.2.set out.1 c) ∧
      Truncated size (t ++ [c]) (out.1 + 1, out.2.set out.1 c) := by
  have hw := h.written_eq
  have hlen := h.length_eq
  have hlt : t.length = out.1 := by omega
  have ht : out.2.take out.1 = t := by rw [h.take_eq, List.take_of_length_le (by omega)]
  constructor
  · exact write_natCast (by omega) c
  · refine ⟨by rw [List.length_set, hlen], ?_, ?_⟩
    · rw [List.length_append, List.length_singleton]
      dsimp only
      omega
    · have hall : (t ++ [c]).take size = t ++ [c] :=
        List.take_of_length_le (by rw [List.length_append, List.length_singleton]; omega)
      dsimp only
      rw [hall, List.take_add_one, List.take_set_of_le (Nat.le_refl _), ht,
        List.getElem?_set_self (by omega)]
      rfl

/-- **A bounded copy** appends to what is in the buffer. -/
theorem Truncated.copyBounded (h : Truncated size t out) (l : List UInt8) :
    ∃ out', copyBounded size l out = some out' ∧ Truncated size (t ++ l) out' := by
  induction l generalizing t out with
  | nil => exact ⟨out, by rw [Libc.copyBounded], by rwa [List.append_nil]⟩
  | cons c l ih =>
      obtain ⟨written, str⟩ := out
      rw [Libc.copyBounded]
      by_cases hroom : written < size
      · obtain ⟨hwrite, hput⟩ := h.put hroom c
        obtain ⟨out', hcopy, h'⟩ := ih hput
        rw [List.append_assoc] at h'
        exact ⟨out', by rw [if_pos hroom, hwrite]; exact hcopy, h'⟩
      · exact ⟨(written, str), by rw [if_neg hroom], h.append_of_full hroom (c :: l)⟩

theorem Truncated.putSign (h : Truncated size t out) :
    ∃ out', putSign size out = some out' ∧ Truncated size (t ++ [0x2D]) out' := by
  obtain ⟨written, str⟩ := out
  rw [Libc.putSign]
  by_cases hroom : written < size
  · obtain ⟨hwrite, hput⟩ := h.put hroom 0x2D
    exact ⟨_, by rw [if_pos hroom, hwrite]; rfl, hput⟩
  · exact ⟨_, by rw [if_neg hroom], h.append_of_full hroom [0x2D]⟩

theorem Truncated.printNumber (h : Truncated size t out) (num : Int) :
    ∃ out', printNumber size num out = some out' ∧ Truncated size (t ++ numberText num) out' := by
  unfold Libc.printNumber numberText
  by_cases hneg : num < 0
  · rw [if_pos hneg, if_pos hneg]
    obtain ⟨out₁, hsign, h₁⟩ := h.putSign
    obtain ⟨out₂, hcopy, h₂⟩ := h₁.copyBounded (numberLoop 12 (negate num)).reverse
    rw [List.append_assoc] at h₂
    exact ⟨out₂, by rw [hsign]; exact hcopy, h₂⟩
  · rw [if_neg hneg, if_neg hneg]
    exact h.copyBounded (numberLoop 12 num).reverse

/-- The zero at the end is put behind the characters that are kept. -/
theorem Truncated.terminate (h : Truncated size t out) :
    ∃ str, terminate size out.1 out.2 = some str ∧ str.length = size ∧
      (0 < size → ∃ rest, str = t.take (size - 1) ++ 0 :: rest) := by
  have hw := h.written_eq
  have hlen := h.length_eq
  have hcut : ∀ k, k < size → t.take (size - 1) = out.2.take k →
      ∃ rest, out.2.set k 0 = t.take (size - 1) ++ 0 :: rest := by
    intro k hk hkept
    refine ⟨out.2.drop (k + 1), ?_⟩
    rw [List.set_eq_take_append_cons_drop, if_pos (by omega), hkept]
  unfold Libc.terminate
  rcases Nat.eq_zero_or_pos size with hsize | hsize
  · exact ⟨out.2, by rw [if_neg (by omega)], hlen, fun h0 => by omega⟩
  rw [if_pos hsize]
  by_cases hroom : out.1 < size
  · refine ⟨out.2.set out.1 0, ?_, by rw [List.length_set, hlen], fun _ => hcut _ hroom ?_⟩
    · rw [if_pos hroom]
      exact write_natCast (by omega) 0
    · rw [h.take_eq, List.take_of_length_le (by omega), List.take_of_length_le (by omega)]
  · have hlast : ((size : Int) - 1).toNat = size - 1 := by omega
    refine ⟨out.2.set (size - 1) 0, ?_, by rw [List.length_set, hlen],
      fun _ => hcut _ (by omega) ?_⟩
    · rw [if_neg hroom, write, if_pos ⟨by omega, by omega⟩, hlast]
    · have hall : out.2 = t.take size := by
        rw [← h.take_eq, List.take_of_length_le (by omega)]
      rw [hall, List.take_take, Nat.min_eq_left (by omega)]

theorem snprintfLoop_string (args : VaList) (hroom : out.1 < size) (p : List UInt8) (i : Nat) :
    snprintfLoop args size (0x25 :: 0x73 :: p) i out
      = (copyBounded size (args.string i) out).bind
        fun out => snprintfLoop args size p (i + 1) out := by
  obtain ⟨written, str⟩ := out
  rw [snprintfLoop, if_pos ⟨by decide, hroom⟩]
  rfl

theorem snprintfLoop_number (args : VaList) (hroom : out.1 < size) (p : List UInt8) (i : Nat) :
    snprintfLoop args size (0x25 :: 0x64 :: p) i out
      = (printNumber size (args.int i) out).bind fun out => snprintfLoop args size p (i + 1) out := by
  obtain ⟨written, str⟩ := out
  rw [snprintfLoop, if_pos ⟨by decide, hroom⟩]
  rfl

theorem snprintfLoop_other (args : VaList) (hroom : out.1 < size) {d : UInt8} (hs : d ≠ 0x73)
    (hd : d ≠ 0x64) (p : List UInt8) (i : Nat) :
    snprintfLoop args size (0x25 :: d :: p) i out = snprintfLoop args size p i out := by
  obtain ⟨written, str⟩ := out
  rw [snprintfLoop, if_pos ⟨by decide, hroom⟩, if_pos rfl, if_neg hs, if_neg hd]

theorem snprintfLoop_literal (args : VaList) (h : Truncated size t out) (hroom : out.1 < size)
    {c : UInt8} (h0 : c ≠ 0) (hc : c ≠ 0x25) (p : List UInt8) (i : Nat) :
    snprintfLoop args size (c :: p) i out
      = snprintfLoop args size p i (out.1 + 1, out.2.set out.1 c) := by
  obtain ⟨hwrite, -⟩ := h.put hroom c
  obtain ⟨written, str⟩ := out
  rw [snprintfLoop.eq_def]
  dsimp only
  rw [if_pos ⟨h0, hroom⟩, if_neg hc, hwrite]
  rfl

theorem rendering_literal (args : VaList) {c : UInt8} (hc : c ≠ 0x25) (l : List UInt8) (i : Nat) :
    rendering args (c :: l) i = c :: rendering args l i := by
  rw [rendering.eq_def]
  exact if_neg hc

theorem rendering_string (args : VaList) (l : List UInt8) (i : Nat) :
    rendering args (0x25 :: 0x73 :: l) i = args.string i ++ rendering args l (i + 1) := rfl

theorem rendering_number (args : VaList) (l : List UInt8) (i : Nat) :
    rendering args (0x25 :: 0x64 :: l) i = numberText (args.int i) ++ rendering args l (i + 1) := rfl

theorem rendering_other (args : VaList) {d : UInt8} (hs : d ≠ 0x73) (hd : d ≠ 0x64)
    (l : List UInt8) (i : Nat) : rendering args (0x25 :: d :: l) i = rendering args l i := by
  rw [rendering, if_pos rfl, if_neg hs, if_neg hd]

/-- The loop over the characters `l` of a format, behind the characters `t`: the buffer holds what
they make; or the format ends inside a conversion when there is room still, and the loop goes on
behind the zero. -/
def LoopSpec (args : VaList) (size : Nat) (l rest : List UInt8) (i : Nat) (t : List UInt8)
    (out : Nat × List UInt8) : Prop :=
  (¬ (EndsInside id l ∧ (t ++ rendering args l i).length < size) →
    ∃ out', snprintfLoop args size (l ++ 0 :: rest) i out = some out' ∧
      Truncated size (t ++ rendering args l i) out') ∧
  (EndsInside id l ∧ (t ++ rendering args l i).length < size → rest = [] →
    snprintfLoop args size (l ++ 0 :: rest) i out = none)

/-- A full buffer ends the loop, whatever is left of the format. -/
theorem loopSpec_full (args : VaList) (h : Truncated size t out) (hfull : ¬ out.1 < size)
    (l rest : List UInt8) (i : Nat) : LoopSpec args size l rest i t out := by
  have hw := h.written_eq
  refine ⟨fun _ => ⟨out, ?_, h.append_of_full hfull _⟩, fun hends => ?_⟩
  · obtain ⟨c, p, hp⟩ := List.exists_cons_of_ne_nil (show l ++ 0 :: rest ≠ [] by simp)
    obtain ⟨written, str⟩ := out
    rw [hp, snprintfLoop.eq_def]
    exact if_neg fun h => hfull h.2
  · rw [List.length_append] at hends
    omega

/-- So there is room in every case that is left. -/
theorem loopSpec_of_room (args : VaList) (h : Truncated size t out) {l rest : List UInt8} {i : Nat}
    (hroom : out.1 < size → LoopSpec args size l rest i t out) :
    LoopSpec args size l rest i t out := by
  by_cases hfull : out.1 < size
  · exact hroom hfull
  · exact loopSpec_full args h hfull l rest i

/-- **The loop of `snprintf`.** -/
theorem snprintfLoop_spec (args : VaList) {l : List UInt8} (hl : 0 ∉ l) (rest : List UInt8) (i : Nat)
    (h : Truncated size t out) : LoopSpec args size l rest i t out := by
  induction l, i using rendering.induct generalizing t out with
  | case1 i =>
      obtain ⟨written, str⟩ := out
      refine ⟨fun _ => ⟨(written, str), ?_, by rwa [rendering, List.append_nil]⟩,
        fun h => absurd h.1 not_endsInside_nil⟩
      rw [List.nil_append, snprintfLoop.eq_def]
      exact if_neg fun h => h.1 rfl
  | case2 i =>
      refine loopSpec_of_room args h fun hroom => ?_
      -- the zero is taken for the conversion
      have hw := h.written_eq
      have hshort : (t ++ rendering args [0x25] i).length < size := by
        rw [show rendering args [0x25] i = [] from rfl, List.append_nil]
        omega
      refine ⟨fun hends => absurd ⟨.here rfl, hshort⟩ hends, fun _ hrest => ?_⟩
      subst hrest
      exact snprintfLoop_other args hroom (by decide) (by decide) [] i
  | case3 i p ih =>
      refine loopSpec_of_room args h fun hroom => ?_
      obtain ⟨out', hcopy, h'⟩ := h.copyBounded (args.string i)
      simp only [List.mem_cons, not_or] at hl
      unfold LoopSpec
      rw [rendering_string, ← List.append_assoc, endsInside_pair, List.cons_append,
        List.cons_append, snprintfLoop_string args hroom, hcopy]
      exact ih hl.2.2 h'
  | case4 i p _ ih =>
      refine loopSpec_of_room args h fun hroom => ?_
      obtain ⟨out', hcopy, h'⟩ := h.printNumber (args.int i)
      simp only [List.mem_cons, not_or] at hl
      unfold LoopSpec
      rw [rendering_number, ← List.append_assoc, endsInside_pair, List.cons_append,
        List.cons_append, snprintfLoop_number args hroom, hcopy]
      exact ih hl.2.2 h'
  | case5 i d p hs hd ih =>
      refine loopSpec_of_room args h fun hroom => ?_
      simp only [List.mem_cons, not_or] at hl
      unfold LoopSpec
      rw [rendering_other args hs hd, endsInside_pair, List.cons_append, List.cons_append,
        snprintfLoop_other args hroom hs hd]
      exact ih hl.2.2 h
  | case6 c p i hc ih =>
      refine loopSpec_of_room args h fun hroom => ?_
      obtain ⟨-, h'⟩ := h.put hroom c
      simp only [List.mem_cons, not_or] at hl
      unfold LoopSpec
      rw [rendering_literal args hc, List.append_cons, endsInside_literal hc, List.cons_append,
        snprintfLoop_literal args h hroom (Ne.symm hl.1) hc]
      exact ih hl.2 h'

end truncated

/-! ## The results -/

section results

variable {size : Nat} {l str : List UInt8}

/-- **`snprintf` on a format that it does not walk out of**: the buffer holds what the format and its
arguments make, cut to one character less than its size, and a zero behind it. -/
theorem snprintf_eq (args : VaList) (hl : 0 ∉ l) (rest : List UInt8) (hstr : str.length = size)
    (hends : ¬ (EndsInside id l ∧ (rendering args l 0).length < size)) :
    ∃ str', snprintf str size (l ++ 0 :: rest) args
        = some (asInt (min (rendering args l 0).length size), str') ∧
      str'.length = size ∧
      (0 < size → ∃ tail, str' = (rendering args l 0).take (size - 1) ++ 0 :: tail) := by
  obtain ⟨out, hloop, h⟩ := (snprintfLoop_spec args hl rest 0 (truncated_nil hstr)).1 hends
  rw [List.nil_append] at h
  obtain ⟨str', hterm, hlen, hcut⟩ := h.terminate
  refine ⟨str', ?_, hlen, hcut⟩
  rw [← h.written_eq, snprintf, hloop, Option.bind_eq_bind, Option.bind_some]
  dsimp only
  rw [hterm]
  rfl

/-- A walk past the zero. -/
theorem snprintf_past (args : VaList) (hl : 0 ∉ l) (hstr : str.length = size)
    (hends : EndsInside id l ∧ (rendering args l 0).length < size) :
    snprintf str size (l ++ [0]) args = none := by
  unfold snprintf
  rw [(snprintfLoop_spec args hl [] 0 (truncated_nil hstr)).2 hends rfl]
  rfl

theorem asInt_le (n : Nat) : asInt n ≤ n := by
  unfold asInt
  split <;> omega

/-- **`snprintf` stays in its buffer**, for every format without a `%` at its end, all arguments and
every size: in a buffer of just that size it comes to an end, which it would not with a write outside,
it leaves a zero, and it returns at most the size. -/
theorem snprintf_bounded (args : VaList) (hl : 0 ∉ l)
    (hpercent : ∀ a b, l = a ++ 0x25 :: b → b ≠ []) (rest : List UInt8) (hstr : str.length = size) :
    ∃ r str', snprintf str size (l ++ 0 :: rest) args = some (r, str') ∧ r ≤ size ∧
      str'.length = size ∧ (0 < size → ∃ k, k < size ∧ str'[k]? = some 0) := by
  have hends : ¬ EndsInside id l := by
    intro h
    obtain ⟨a, rfl⟩ := h.eq_append
    exact hpercent a [] rfl rfl
  obtain ⟨str', hrun, hlen, hcut⟩ := snprintf_eq args hl rest hstr fun h => hends h.1
  refine ⟨_, str', hrun, ?_, hlen, fun hsize => ?_⟩
  · have hle := asInt_le (min (rendering args l 0).length size)
    omega
  · obtain ⟨tail, rfl⟩ := hcut hsize
    have hk : ((rendering args l 0).take (size - 1)).length < size := by
      rw [List.length_take]
      omega
    exact ⟨_, hk, by simp⟩

end results

/-- Arguments that are all the same word, and lead to no characters. -/
def constantArgs (w : UInt32) : VaList := ⟨fun _ => w, fun _ => [], zero_not_mem_empty⟩

/-- A number of three digits in a buffer of three cells. -/
theorem snprintf_bounded_three :
    ∃ r str', snprintf [1, 1, 1] 3 [0x25, 0x64, 0] (constantArgs 123) = some (r, str') ∧ r ≤ 3 ∧
      str'.length = 3 ∧ (0 < 3 → ∃ k, k < 3 ∧ str'[k]? = some 0) := by
  refine @snprintf_bounded 3 [0x25, 0x64] [1, 1, 1] (constantArgs 123) (by decide) ?_ [] rfl
  rintro a b h rfl
  have hlast := congrArg List.getLast? h
  rw [List.getLast?_append] at hlast
  cases hlast

/-! ## Characters, strings and numbers -/

/-- A piece of a format, with its argument. -/
inductive Piece
  | literal (c : UInt8)
  | string (s : List UInt8)
  | number (v : Int)

namespace Piece

/-- A literal character is no `%` and no zero, a string has no zero in it, and a number is an
`int`. -/
def Ok : Piece → Prop
  | literal c => c ≠ 0 ∧ c ≠ 0x25
  | string s => 0 ∉ s
  | number v => -2 ^ 31 ≤ v ∧ v < 2 ^ 31

/-- How the piece stands in the format. -/
def format : Piece → List UInt8
  | literal c => [c]
  | string _ => [0x25, 0x73]
  | number _ => [0x25, 0x64]

/-- What the piece stands for. -/
def meaning : Piece → List UInt8
  | literal c => [c]
  | string s => s
  | number v => signedNumeral v

/-- What the code makes of it. -/
def made : Piece → List UInt8
  | literal c => [c]
  | string s => s
  | number v => numberText v

/-- The arguments from number `i` on are those of the pieces. -/
def Matches (args : VaList) : List Piece → Nat → Prop
  | [], _ => True
  | literal _ :: ps, i => Matches args ps i
  | string s :: ps, i => args.string i = s ∧ Matches args ps (i + 1)
  | number v :: ps, i => args.int i = v ∧ Matches args ps (i + 1)

end Piece

open Piece

/-- No piece is the least `int`, except where the buffer ends with its sign or before. -/
def FitsNumbers (ps : List Piece) (size : Nat) : Prop :=
  ∀ ps₁ ps₂, ps = ps₁ ++ number (-2 ^ 31) :: ps₂ → size - 1 ≤ (ps₁.flatMap meaning).length + 1

section pieces

variable {args : VaList} {ps : List Piece}

/-- The format of the pieces and their arguments make what the pieces make. -/
theorem rendering_format (hok : ∀ p ∈ ps, p.Ok) (i : Nat) (hargs : Matches args ps i) :
    rendering args (ps.flatMap format) i = ps.flatMap made := by
  induction ps generalizing i with
  | nil => rfl
  | cons p ps ih =>
      rw [List.forall_mem_cons] at hok
      rw [List.flatMap_cons, List.flatMap_cons]
      cases p with
      | literal c =>
          change rendering args (c :: ps.flatMap format) i = c :: ps.flatMap made
          rw [rendering_literal args hok.1.2, ih hok.2 i hargs]
      | string s =>
          change rendering args (0x25 :: 0x73 :: ps.flatMap format) i = s ++ ps.flatMap made
          rw [rendering_string, hargs.1, ih hok.2 (i + 1) hargs.2]
      | number v =>
          change rendering args (0x25 :: 0x64 :: ps.flatMap format) i
            = numberText v ++ ps.flatMap made
          rw [rendering_number, hargs.1, ih hok.2 (i + 1) hargs.2]

theorem zero_not_mem_format (hok : ∀ p ∈ ps, p.Ok) : 0 ∉ ps.flatMap format := by
  intro h
  obtain ⟨p, hp, h0⟩ := List.mem_flatMap.mp h
  have hp := hok p hp
  cases p with
  | literal c =>
      rw [format, List.mem_singleton] at h0
      exact hp.1 h0.symm
  | string s => simp [format] at h0
  | number v => simp [format] at h0

/-- The format of pieces does not end inside a conversion. -/
theorem not_endsInside_format (hok : ∀ p ∈ ps, p.Ok) : ¬ EndsInside id (ps.flatMap format) := by
  induction ps with
  | nil => exact not_endsInside_nil
  | cons p ps ih =>
      rw [List.forall_mem_cons] at hok
      rw [List.flatMap_cons]
      cases p with
      | literal c =>
          change ¬ EndsInside id (c :: ps.flatMap format)
          rw [endsInside_literal hok.1.2]
          exact ih hok.2
      | string s =>
          change ¬ EndsInside id (0x25 :: 0x73 :: ps.flatMap format)
          rw [endsInside_pair]
          exact ih hok.2
      | number v =>
          change ¬ EndsInside id (0x25 :: 0x64 :: ps.flatMap format)
          rw [endsInside_pair]
          exact ih hok.2

end pieces

/-! ## Numbers -/

theorem numberLoop_natCast {n : Nat} (k : Nat) (hk : n < 10 ^ k) (hpos : 0 < k) :
    numberLoop k n = (numeral 10 n).reverse := by
  induction k generalizing n with
  | zero => omega
  | succ k ih =>
      have hmod := Nat.mod_lt n (show 0 < 10 by decide)
      have htmod : (n : Int).tmod 10 + 0x30 = ((n % 10 + 0x30 : Nat) : Int) := rfl
      have htdiv : (n : Int).tdiv 10 = ((n / 10 : Nat) : Int) := rfl
      have hchar : UInt8.ofInt ((n : Int).tmod 10 + 0x30) = digitChar (n % 10) := by
        rw [htmod, ofInt_natCast, digitChar, if_pos hmod, Nat.add_comm]
      rw [numberLoop, hchar, htdiv]
      rcases Nat.lt_or_ge n 10 with hlt | hge
      · rw [numeral_of_lt hlt, Nat.mod_eq_of_lt hlt, if_neg (by omega)]
        rfl
      · -- the loop makes the last digit first
        have hk' : n / 10 < 10 ^ k := by
          rw [Nat.pow_succ] at hk
          omega
        have hpos' : 0 < k := by
          rcases Nat.eq_zero_or_pos k with rfl | h
          · omega
          · exact h
        rw [if_pos (by omega), ih hk' hpos', numeral_of_le (by decide) hge, List.reverse_append]
        rfl

theorem numberText_eq {v : Int} (h : -2 ^ 31 < v) (h' : v < 2 ^ 31) :
    numberText v = signedNumeral v := by
  have hlt : v.natAbs < 10 ^ 12 := by omega
  unfold numberText signedNumeral
  by_cases hneg : v < 0
  · rw [if_pos hneg, if_pos hneg, negate_eq h hneg, numberLoop_natCast 12 hlt (by decide),
      List.reverse_reverse]
  · have habs : v = (v.natAbs : Int) := by omega
    rw [if_neg hneg, if_neg hneg]
    conv_lhs => rw [habs]
    rw [numberLoop_natCast 12 hlt (by decide), List.reverse_reverse]

/-- Of the least `int` it makes "-(". -/
theorem numberText_least : numberText (-2 ^ 31) = [0x2D, 0x28] := by decide

theorem signedNumeral_least :
    signedNumeral (-2 ^ 31)
      = [0x2D, 0x32, 0x31, 0x34, 0x37, 0x34, 0x38, 0x33, 0x36, 0x34, 0x38] := by decide

/-! ## The text in the buffer -/

section text

variable {ps : List Piece}

theorem zero_not_mem_made (hok : ∀ p ∈ ps, p.Ok) : 0 ∉ ps.flatMap made := by
  have hnumeral : ∀ n : Nat, (0 : UInt8) ∉ numeral 10 n :=
    zero_not_mem_numeral (by decide) (by decide)
  intro h
  obtain ⟨p, hp, h0⟩ := List.mem_flatMap.mp h
  have hp := hok p hp
  cases p with
  | literal c =>
      rw [made, List.mem_singleton] at h0
      exact hp.1 h0.symm
  | string s => exact hp h0
  | number v =>
      change 0 ∈ numberText v at h0
      rcases Int.lt_or_eq_of_le hp.1 with hlt | rfl
      · rw [numberText_eq hlt hp.2, signedNumeral] at h0
        split at h0
        · rw [List.mem_cons] at h0
          rcases h0 with h0 | h0
          · cases h0
          · exact hnumeral _ h0
        · exact hnumeral _ h0
      · rw [numberText_least] at h0
        revert h0
        decide

/-- What the code makes of a piece is right, unless it is the least `int`. -/
theorem made_eq {p : Piece} (hp : p.Ok) (hne : p ≠ number (-2 ^ 31)) : made p = meaning p := by
  cases p with
  | literal c => rfl
  | string s => rfl
  | number v =>
      have hlt : -2 ^ 31 < v := by
        refine lt_of_le_of_ne hp.1 fun h => hne ?_
        rw [← h]
      exact numberText_eq hlt hp.2

/-- The texts agree up to a length when no least `int` is wrong in front of it. -/
theorem take_made_iff (hok : ∀ p ∈ ps, p.Ok) (k : Nat) :
    (ps.flatMap made).take k = (ps.flatMap meaning).take k ↔
      ∀ ps₁ ps₂, ps = ps₁ ++ number (-2 ^ 31) :: ps₂ → k ≤ (ps₁.flatMap meaning).length + 1 := by
  induction ps generalizing k with
  | nil => exact iff_of_true rfl fun ps₁ ps₂ h => by simp at h
  | cons p ps ih =>
      rw [List.forall_mem_cons] at hok
      rw [List.flatMap_cons, List.flatMap_cons]
      by_cases hleast : p = number (-2 ^ 31)
      · -- what stands behind it does not matter
        subst hleast
        have hmade : made (number (-2 ^ 31)) = [0x2D, 0x28] := numberText_least
        have hmeaning : meaning (number (-2 ^ 31)) = [0x2D, 0x32, 0x31, 0x34, 0x37, 0x34, 0x38, 0x33,
          0x36, 0x34, 0x38] := signedNumeral_least
        rw [hmade, hmeaning]
        constructor
        · intro heq ps₁ ps₂ _
          -- the second characters differ
          by_contra hk
          have hget := congrArg (·[1]?) heq
          simp [show 1 < k by omega] at hget
        · intro h
          have hk : k ≤ 1 := h [] ps rfl
          interval_cases k <;> rfl
      · -- behind a piece that is right there is less room
        rw [made_eq hok.1 hleast, List.take_append, List.take_append, List.append_right_inj,
          ih hok.2 (k - (meaning p).length)]
        constructor
        · intro h ps₁ ps₂ hps
          cases ps₁ with
          | nil => exact absurd (List.cons.inj hps).1 hleast
          | cons q ps₁ =>
              obtain ⟨rfl, hps'⟩ := List.cons.inj hps
              have hle := h ps₁ ps₂ hps'
              rw [List.flatMap_cons, List.length_append]
              omega
        · intro h ps₁ ps₂ hps
          have hle := h (p :: ps₁) ps₂ (by rw [hps, List.cons_append])
          rw [List.flatMap_cons, List.length_append] at hle
          omega

/-- **The text that `snprintf` leaves**, for every format of characters, strings and numbers with its
arguments and every size: it is what the format stands for, cut to one character less than the size,
exactly when no argument is the least `int` or only its sign has room. -/
theorem snprintf_text_iff (args : VaList) (hok : ∀ p ∈ ps, p.Ok) (hargs : Matches args ps 0)
    (rest : List UInt8) {size : Nat} (hsize : 0 < size) {str : List UInt8}
    (hstr : str.length = size) :
    (∃ r str', snprintf str size (ps.flatMap format ++ 0 :: rest) args = some (r, str') ∧
        Libc.text str' = (ps.flatMap meaning).take (size - 1)) ↔ FitsNumbers ps size := by
  obtain ⟨str', hrun, -, hcut⟩ := snprintf_eq args (zero_not_mem_format hok) rest hstr
    fun h => not_endsInside_format hok h.1
  rw [rendering_format hok 0 hargs] at hrun hcut
  obtain ⟨tail, rfl⟩ := hcut hsize
  have htext : Libc.text ((ps.flatMap made).take (size - 1) ++ 0 :: tail)
      = (ps.flatMap made).take (size - 1) :=
    text_eq fun h => zero_not_mem_made hok (List.mem_of_mem_take h)
  rw [FitsNumbers, ← take_made_iff hok, hrun]
  constructor
  · rintro ⟨r, str', heq, hstr'⟩
    cases heq
    rwa [htext] at hstr'
  · intro h
    exact ⟨_, _, rfl, by rwa [htext]⟩

end text

/-- "a-5" in a buffer of three cells. -/
theorem snprintf_text_iff_cut :
    ∃ r str', snprintf [1, 1, 1] 3 [0x61, 0x25, 0x64, 0] (constantArgs 0xFFFFFFFB) = some (r, str') ∧
      Libc.text str' = [0x61, 0x2D] := by
  refine (@snprintf_text_iff [literal 0x61, number (-5)] (constantArgs 0xFFFFFFFB) ?_ ⟨rfl, trivial⟩
    [] 3 (by decide) [1, 1, 1] rfl).mpr fun ps₁ ps₂ h => ?_
  · rw [List.forall_mem_cons, List.forall_mem_singleton]
    exact ⟨⟨by decide, by decide⟩, by decide, by decide⟩
  · have hmem : number (-2 ^ 31) ∈ [literal 0x61, number (-5)] := by rw [h]; simp
    simp at hmem

/-- Of the least `int` the text "-(" is left. -/
theorem not_snprintf_text :
    snprintf (List.replicate 16 1) 16 [0x25, 0x64, 0] (constantArgs 0x80000000)
      = some (2, [0x2D, 0x28, 0] ++ List.replicate 13 1) ∧
    (constantArgs 0x80000000).int 0 = -2 ^ 31 ∧
    (meaning (number (-2 ^ 31))).take 15
      = [0x2D, 0x32, 0x31, 0x34, 0x37, 0x34, 0x38, 0x33, 0x36, 0x34, 0x38] := by
  decide

end MicroKernel.Libc
