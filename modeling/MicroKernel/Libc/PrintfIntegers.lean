import MicroKernel.Libc.Printf

set_option autoImplicit false

/-! # The integers that `printf` prints

What the standard prescribes for `%d`, `%u` and `%X` with the flags `-` and `0` and a width
(`isoText`), and for which flags, widths and values `printf` prints that (`printsIso_iff`). A `-` is
seen as the first flag only. A negative number with zeros in front of its digits gets the padding
twice, once with blanks; the least `int` cannot be negated; and `%X` pads on the left always, in a
buffer of 32 cells.
-/

namespace MicroKernel.Libc

open MicroKernel.Lib

/-! ## Directives -/

/-- A flag. -/
inductive Flag
  | minus
  | zero
  deriving DecidableEq

/-- How a flag is written. -/
def Flag.char : Flag → UInt8
  | minus => 0x2D
  | zero => 0x30

/-- The specifiers of integers. -/
inductive Specifier
  | d
  | u
  | X
  deriving DecidableEq

/-- How a specifier is written. -/
def Specifier.char : Specifier → UInt8
  | d => 0x64
  | u => 0x75
  | X => 0x58

/-- The width in the format: a star, or a numeral that is left out for zero. -/
def widthField (star : Bool) (w : Nat) : List UInt8 :=
  if star then [0x2A] else if w = 0 then [] else numeral 10 w

/-- The directive in the format, behind its `%`. -/
def directive (flags : List Flag) (star : Bool) (w : Nat) (specifier : Specifier) : List UInt8 :=
  flags.map Flag.char ++ (widthField star w ++ [specifier.char])

/-- The value of a word as an `int`. -/
def intOf (v : UInt32) : Int := asInt v.toNat

/-- The sign of the number, if it has one. -/
def signText (specifier : Specifier) (v : UInt32) : List UInt8 :=
  if specifier = .d ∧ intOf v < 0 then [0x2D] else []

/-- The digits of the number. -/
def digitsText : Specifier → UInt32 → List UInt8
  | .d, v => numeral 10 (intOf v).natAbs
  | .u, v => numeral 10 v.toNat
  | .X, v => numeral 16 v.toNat

/-- How many characters the number has without padding. -/
def textLength (specifier : Specifier) (v : UInt32) : Nat :=
  (signText specifier v).length + (digitsText specifier v).length

/-- **What the standard prescribes**: blanks on the right with the flag `-`, else zeros between the
sign and the digits with the flag `0`, else blanks on the left. -/
def isoText (flags : List Flag) (w : Nat) (specifier : Specifier) (v : UInt32) : List UInt8 :=
  let pad := w - textLength specifier v
  if .minus ∈ flags then
    signText specifier v ++ (digitsText specifier v ++ List.replicate pad 0x20)
  else if .zero ∈ flags then
    signText specifier v ++ (List.replicate pad 0x30 ++ digitsText specifier v)
  else List.replicate pad 0x20 ++ (signText specifier v ++ digitsText specifier v)

theorem length_isoText (flags : List Flag) (w : Nat) (specifier : Specifier) (v : UInt32) :
    (isoText flags w specifier v).length = max w (textLength specifier v) := by
  unfold isoText textLength
  dsimp only
  split
  · simp only [List.length_append, List.length_replicate]
    omega
  · split
    · simp only [List.length_append, List.length_replicate]
      omega
    · simp only [List.length_append, List.length_replicate]
      omega

/-- The arguments of the directive from number `i` on: the width, if it is a star, and the value. -/
def ArgumentsAt (args : VaList) (i : Nat) (star : Bool) (w : Nat) (v : UInt32) : Prop :=
  if star then (args.word i).toNat = w ∧ args.word (i + 1) = v else args.word i = v

/-- What `printf` does at the directive, wherever it stands: it prints what it should, inside of its
buffers, and goes on behind it. -/
def PrintsIso (flags : List Flag) (star : Bool) (w : Nat) (specifier : Specifier) (v : UInt32) :
    Prop :=
  ∃ es, emitted es = isoText flags w specifier v ∧ InBuffers es ∧
    ∀ args i rest, ArgumentsAt args i star w v →
      printfFrom args i (0x25 :: (directive flags star w specifier ++ rest))
        = (printfFrom args (i + if star then 2 else 1) rest).map (es ++ ·)

/-- The flags that `printf` reads: a `-` is the first one, and in front of a star there is one at
most. -/
def Readable (flags : List Flag) (star : Bool) : Prop :=
  if star then flags.length ≤ 1 else .minus ∉ flags.tail

/-- The values and widths that each conversion gets right. -/
def Printable (flags : List Flag) (w : Nat) (v : UInt32) : Specifier → Prop
  | .d => v ≠ 0x80000000 ∧
      ¬ (intOf v < 0 ∧ .zero ∈ flags ∧ .minus ∉ flags ∧ textLength .d v < w)
  | .u => True
  | .X => w < 32 ∧ (.minus ∈ flags → w ≤ textLength .X v)

/-! ## Reading a directive -/

section reading

variable {args : VaList} {i : Nat} {c x : UInt8} {ds f : List UInt8}

theorem takeChar_ne (h : c ≠ x) (f : List UInt8) : takeChar x (c :: f) = some (false, c :: f) := by
  rw [takeChar, if_neg h]

theorem readNumber_digits (hds : ∀ y ∈ ds, IsDigit y) (hc : ¬ IsDigit c) (v : Nat) (seen : Bool)
    (f : List UInt8) : readNumber (v % 2 ^ 32) seen (ds ++ c :: f)
      = some (decimalFrom v ds % 2 ^ 32, seen || !ds.isEmpty, c :: f) := by
  induction ds generalizing v seen with
  | nil => rw [List.nil_append, readNumber, if_neg hc, decimalFrom_nil]; simp
  | cons y ds ih =>
      rw [List.forall_mem_cons] at hds
      have hnext : u32 (v % 2 ^ 32 * 10 + digit y) = (10 * v + digit y) % 2 ^ 32 := by
        unfold u32
        omega
      rw [List.cons_append, readNumber, if_pos hds.1, hnext, ih hds.2, decimalFrom_cons]
      simp

/-- One flag or none, and then a character that is not taken for one. -/
theorem readFlags_flag (flag : Option Flag) (hx : flag = none → x ≠ 0x2D ∧ x ≠ 0x30)
    (f : List UInt8) : readFlags (flag.toList.map Flag.char ++ x :: f)
      = some (flag == some .minus, flag == some .zero, x :: f) := by
  cases flag with
  | none =>
      obtain ⟨hminus, hzero⟩ := hx rfl
      change readFlags (x :: f) = _
      rw [readFlags, takeChar_ne hminus, Option.bind_eq_bind, Option.bind_some]
      dsimp only
      rw [if_neg Bool.false_ne_true, takeChar_ne hzero]
      rfl
  | some flag => cases flag <;> rfl

theorem readWidth_digits (hds : ∀ y ∈ ds, IsDigit y) (hc : ¬ IsDigit c)
    (hstar : ds = [] → c ≠ 0x2A) (f : List UInt8) :
    readWidth args i (ds ++ c :: f)
      = some (decimalValue ds % 2 ^ 32, !ds.isEmpty, i, c :: f) := by
  have htake : takeChar 0x2A (ds ++ c :: f) = some (false, ds ++ c :: f) := by
    cases ds with
    | nil => exact takeChar_ne (hstar rfl) f
    | cons y ds =>
        refine takeChar_ne ?_ (ds ++ c :: f)
        rintro rfl
        exact absurd (hds 0x2A (by simp)) (by decide)
  have hnumber := readNumber_digits hds hc 0 false f
  rw [Nat.zero_mod] at hnumber
  rw [readWidth, htake, Option.bind_eq_bind, Option.bind_some]
  dsimp only
  rw [if_neg Bool.false_ne_true, hnumber]
  rfl

theorem readPrecision_none (h : c ≠ 0x2E) (f : List UInt8) :
    readPrecision (c :: f) = some (-1, c :: f) := by
  rw [readPrecision, takeChar_ne h]
  rfl

theorem readLl_none (h : c ≠ 0x6C) (f : List UInt8) : readLl (c :: f) = some (false, c :: f) := by
  rw [readLl.eq_def]
  exact if_neg h

/-- A character that neither a width nor a precision nor a length modifier goes on with. -/
def IsPlain (c : UInt8) : Prop := ¬ IsDigit c ∧ c ≠ 0x2E ∧ c ≠ 0x6C

/-- **A directive with its width in digits.** -/
theorem readDirective_digits (args : VaList) (i : Nat) (flag : Option Flag)
    (hds : ∀ y ∈ ds, IsDigit y) (hflag : flag = none → (ds ++ [c]).head? ≠ some 0x2D ∧
      (ds ++ [c]).head? ≠ some 0x30) (hstar : ds = [] → c ≠ 0x2A) (hc : IsPlain c) (f : List UInt8) :
    readDirective args i (flag.toList.map Flag.char ++ (ds ++ c :: f))
      = some (⟨flag == some .minus, flag == some .zero, !ds.isEmpty,
          asInt (decimalValue ds % 2 ^ 32), -1, false⟩, i, c :: f) := by
  have hflags : readFlags (flag.toList.map Flag.char ++ (ds ++ c :: f))
      = some (flag == some .minus, flag == some .zero, ds ++ c :: f) := by
    cases ds with
    | nil => exact readFlags_flag flag (fun h => by simpa using hflag h) f
    | cons y ds => exact readFlags_flag flag (fun h => by simpa using hflag h) (ds ++ c :: f)
  rw [readDirective, hflags, Option.bind_eq_bind, Option.bind_some]
  dsimp only
  rw [readWidth_digits hds hc.1 hstar, Option.bind_eq_bind, Option.bind_some]
  dsimp only
  rw [readPrecision_none hc.2.1, Option.bind_eq_bind, Option.bind_some]
  dsimp only
  rw [readLl_none hc.2.2]
  rfl

/-- **A directive with a star.** -/
theorem readDirective_star (args : VaList) (i : Nat) (flag : Option Flag) (hc : IsPlain c)
    (f : List UInt8) :
    readDirective args i (flag.toList.map Flag.char ++ 0x2A :: c :: f)
      = some (⟨flag == some .minus, flag == some .zero, true, asInt (args.word i).toNat, -1, false⟩,
          i + 1, c :: f) := by
  rw [readDirective, readFlags_flag flag fun _ => by decide, Option.bind_eq_bind, Option.bind_some]
  dsimp only
  have hwidth : readWidth args i (0x2A :: c :: f)
      = some ((args.word i).toNat, true, i + 1, c :: f) := rfl
  rw [hwidth, Option.bind_eq_bind, Option.bind_some]
  dsimp only
  rw [readPrecision_none hc.2.1, Option.bind_eq_bind, Option.bind_some]
  dsimp only
  rw [readLl_none hc.2.2]
  rfl

end reading

/-! ## What is printed -/

section events

@[simp] theorem emitted_append (es es' : List Event) :
    emitted (es ++ es') = emitted es ++ emitted es' := List.filterMap_append

@[simp] theorem emitted_put (c : UInt8) (es : List Event) :
    emitted (.put c :: es) = c :: emitted es := rfl

@[simp] theorem emitted_fill (cells : List UInt8) (es : List Event) :
    emitted (.fill cells :: es) = emitted es := rfl

@[simp] theorem emitted_putAll (l : List UInt8) : emitted (putAll l) = l := by
  induction l with
  | nil => rfl
  | cons c l ih => rw [putAll, List.map_cons, emitted_put]; exact congrArg (c :: ·) ih

@[simp] theorem emitted_padOut (n : Nat) (zero : Bool) :
    emitted (padOut n zero) = List.replicate n (if zero then 0x30 else 0x20) := by
  rw [padOut, Int.toNat_natCast]
  induction n with
  | zero => rfl
  | succ n ih => rw [List.replicate_succ, List.replicate_succ, emitted_put, ih]

/-- The directive that has been read for these flags and this width. -/
structure ReadAs (d : Directive) (flags : List Flag) (w : Nat) : Prop where
  leftAlign_eq : d.leftAlign = decide (.minus ∈ flags)
  zeroPadding_eq : d.zeroPadding = decide (.zero ∈ flags ∧ .minus ∉ flags)
  width_eq : d.width = w
  specified : d.widthSpecified = true ∨ w = 0

variable {d : Directive} {flags : List Flag} {w : Nat}

theorem ReadAs.pad_eq (h : ReadAs d flags w) (n : Nat) : d.pad n = ((w - n : Nat) : Int) := by
  have hwidth := h.width_eq
  unfold Directive.pad
  rcases h.specified with hs | rfl
  · rw [hs]
    split
    next hlt =>
        have := hlt.2
        omega
    next hlt =>
        have : ¬ (n : Int) < d.width := fun hn => hlt ⟨rfl, hn⟩
        omega
  · rw [if_neg (by omega), Nat.zero_sub]
    rfl

/-- What `case 'd'`, `case 'u'` and `case 'X'` do. -/
def events (d : Directive) : Specifier → UInt32 → List Event
  | .d, v => d.printInt (intOf v)
  | .u, v => d.printUnsigned v.toNat
  | .X, v => d.printHex v.toNat

theorem convert_specifier (args : VaList) (d : Directive) (specifier : Specifier) (i : Nat) :
    convert args d specifier.char i = (events d specifier (args.word i), i + 1) := by
  cases specifier <;> rfl

theorem text_numeral {b : Nat} (hb : 1 < b) (hb' : b ≤ 16) (n : Nat) :
    text (numeral b n ++ [0]) = numeral b n := text_eq (zero_not_mem_numeral hb hb' n)

/-- `%u` prints what it should. -/
theorem emitted_printUnsigned (h : ReadAs d flags w) (v : UInt32) :
    emitted (events d .u v) = isoText flags w .u v := by
  have hsign : signText .u v = [] := rfl
  unfold events Directive.printUnsigned Directive.padded isoText textLength
  dsimp only
  rw [unsignedIntToStr_eq, text_numeral (by decide) (by decide), h.pad_eq, h.leftAlign_eq,
    h.zeroPadding_eq, hsign]
  by_cases hminus : Flag.minus ∈ flags
  · simp [hminus, digitsText]
  · by_cases hzero : Flag.zero ∈ flags
    · simp [hminus, hzero, digitsText]
    · simp [hminus, hzero, digitsText]

theorem signText_d (v : UInt32) : signText .d v = if intOf v < 0 then [0x2D] else [] := by
  unfold signText
  exact if_congr (and_iff_right rfl) rfl rfl

/-- The buffer of `%d` has the digits, unless the number cannot be negated. -/
theorem intToStr_intOf {v : UInt32} (hv : v ≠ 0x80000000) :
    (intToStr (if intOf v < 0 then negate (intOf v) else intOf v) 10).1
      = numeral 10 (intOf v).natAbs ++ [0] := by
  have hne : v.toNat ≠ 0x80000000 := fun h => hv (UInt32.toNat_inj.mp h)
  have hlt := v.toNat_lt
  have hleast : -2 ^ 31 < intOf v := by
    unfold intOf asInt
    split <;> omega
  have habs : (if intOf v < 0 then negate (intOf v) else intOf v) = ((intOf v).natAbs : Int) := by
    split
    next hneg => exact negate_eq hleast hneg
    next hneg => omega
  rw [habs, intToStr_natCast]

/-- A number that is not negative is printed as `%u` prints it. -/
theorem emitted_printInt_nonneg (h : ReadAs d flags w) {v : UInt32} (hneg : ¬ intOf v < 0)
    (hbuf : (intToStr (intOf v) 10).1 = numeral 10 (intOf v).natAbs ++ [0]) :
    emitted (events d .d v) = isoText flags w .d v := by
  have hsign := signText_d v
  rw [if_neg hneg] at hsign
  have hlen : textLength .d v = (numeral 10 (intOf v).natAbs).length := by
    rw [textLength, hsign, digitsText, List.length_nil, Nat.zero_add]
  have hpad := h.pad_eq (textLength .d v)
  rw [hlen] at hpad
  unfold events Directive.printInt isoText
  simp only [hneg, decide_false, Bool.false_eq_true, if_false, hbuf,
    text_numeral (show 1 < 10 by decide) (show 10 ≤ 16 by decide), Int.add_zero, hpad, hsign, hlen,
    h.leftAlign_eq, h.zeroPadding_eq, digitsText]
  by_cases hminus : Flag.minus ∈ flags
  · simp [hminus]
  · by_cases hzero : Flag.zero ∈ flags
    · simp [hminus, hzero]
    · simp [hminus, hzero]

/-- Zeros in front of the digits of a negative number: the padding comes twice. -/
theorem emitted_printInt_neg_iff (h : ReadAs d flags w) {v : UInt32} (hneg : intOf v < 0)
    (hbuf : (intToStr (negate (intOf v)) 10).1 = numeral 10 (intOf v).natAbs ++ [0]) :
    emitted (events d .d v) = isoText flags w .d v ↔
      ¬ (.zero ∈ flags ∧ .minus ∉ flags ∧ textLength .d v < w) := by
  have hsign := signText_d v
  rw [if_pos hneg] at hsign
  have hlen : textLength .d v = (numeral 10 (intOf v).natAbs).length + 1 := by
    rw [textLength, hsign, digitsText, List.length_singleton, Nat.add_comm]
  have hpad := h.pad_eq (textLength .d v)
  rw [hlen, Nat.cast_add, Nat.cast_one] at hpad
  unfold events Directive.printInt isoText
  simp only [hneg, decide_true, if_true, hbuf, text_numeral (show 1 < 10 by decide)
    (show 10 ≤ 16 by decide), hpad, hsign, hlen, h.leftAlign_eq, h.zeroPadding_eq, digitsText]
  by_cases hminus : Flag.minus ∈ flags
  · simp [hminus]
  · by_cases hzero : Flag.zero ∈ flags
    · generalize hk : w - ((numeral 10 (intOf v).natAbs).length + 1) = k
      simp only [hminus, hzero, not_false_eq_true, and_true, if_false, decide_true, decide_false,
        true_and, Bool.not_true, Bool.and_false, Bool.false_eq_true, if_true, Nat.cast_pos,
        List.append_assoc, List.cons_append, List.nil_append, List.append_nil, emitted_append,
        emitted_fill, emitted_put, emitted_padOut, emitted_putAll, not_lt]
      cases k with
      | zero =>
          -- there is nothing to pad
          refine iff_of_true ?_ (by omega)
          rw [if_neg (Nat.lt_irrefl 0)]
          rfl
      | succ k =>
          -- a blank stands where the sign should
          refine iff_of_false (fun heq => ?_) (by omega)
          rw [List.replicate_succ, List.cons_append] at heq
          exact absurd (List.cons.inj heq).1 (by decide)
    · simp [hminus, hzero]

/-- `%d` prints what it should, except for zeros in front of the digits of a negative number. -/
theorem emitted_printInt_iff (h : ReadAs d flags w) {v : UInt32} (hv : v ≠ 0x80000000) :
    emitted (events d .d v) = isoText flags w .d v ↔
      ¬ (intOf v < 0 ∧ .zero ∈ flags ∧ .minus ∉ flags ∧ textLength .d v < w) := by
  have hbuf := intToStr_intOf hv
  by_cases hneg : intOf v < 0
  · rw [if_pos hneg] at hbuf
    rw [emitted_printInt_neg_iff h hneg hbuf, and_iff_right hneg]
  · rw [if_neg hneg] at hbuf
    exact iff_of_true (emitted_printInt_nonneg h hneg hbuf) fun hpad => hneg hpad.1

/-- The characters of a padded number. -/
theorem mem_isoText {specifier : Specifier} {v : UInt32} {c : UInt8}
    (h : c ∈ isoText flags w specifier v) : c = 0x20 ∨ c = 0x2D ∨ (0x30 ≤ c ∧ c ≤ 0x46) := by
  have hsign : ∀ c ∈ signText specifier v, c = 0x2D := by
    intro c hc
    unfold signText at hc
    split at hc
    · exact List.mem_singleton.mp hc
    · cases hc
  have hdigits : ∀ c ∈ digitsText specifier v, 0x30 ≤ c ∧ c ≤ 0x46 := by
    intro c hc
    cases specifier <;> exact mem_numeral_range (by decide) (by decide) hc
  have hzeros : ∀ n, ∀ c ∈ List.replicate n (0x30 : UInt8), 0x30 ≤ c ∧ c ≤ 0x46 := by
    intro n c hc
    rw [List.eq_of_mem_replicate hc]
    decide
  unfold isoText at h
  dsimp only at h
  split at h
  · simp only [List.mem_append] at h
    rcases h with h | h | h
    · exact Or.inr (Or.inl (hsign c h))
    · exact Or.inr (Or.inr (hdigits c h))
    · exact Or.inl (List.eq_of_mem_replicate h)
  · split at h
    · simp only [List.mem_append] at h
      rcases h with h | h | h
      · exact Or.inr (Or.inl (hsign c h))
      · exact Or.inr (Or.inr (hzeros _ c h))
      · exact Or.inr (Or.inr (hdigits c h))
    · simp only [List.mem_append] at h
      rcases h with h | h | h
      · exact Or.inl (List.eq_of_mem_replicate h)
      · exact Or.inr (Or.inl (hsign c h))
      · exact Or.inr (Or.inr (hdigits c h))

/-- Of the least `int` the characters "-./,),(-*,(" are printed behind the sign. -/
theorem emitted_printInt_least (d : Directive) (flags : List Flag) (w : Nat) :
    emitted (events d .d 0x80000000) ≠ isoText flags w .d 0x80000000 := by
  intro heq
  have hbuf : (intToStr (negate (intOf 0x80000000)) 10).1
      = [0x2D, 0x2E, 0x2F, 0x2C, 0x29, 0x2C, 0x28, 0x2D, 0x2A, 0x2C, 0x28, 0] := by decide
  have hneg : intOf 0x80000000 < 0 := by decide
  have hmem : 0x2E ∈ emitted (events d .d 0x80000000) := by
    unfold events Directive.printInt
    simp only [hneg, decide_true, if_true, hbuf, emitted_append, List.mem_append, emitted_putAll]
    exact Or.inl (Or.inr (by decide))
  rw [heq] at hmem
  have hrange := mem_isoText hmem
  revert hrange
  decide

theorem ReadAs.hexWidth (h : ReadAs d flags w) :
    (if d.widthSpecified then d.width else 0) = (w : Int) := by
  have hwidth := h.width_eq
  rcases h.specified with hs | rfl
  · rw [if_pos hs, hwidth]
  · split
    · exact hwidth
    · rfl

/-- `%X` prints what it should, except where it would have to pad on the right. -/
theorem emitted_printHex_iff (h : ReadAs d flags w) (v : UInt32) :
    emitted (events d .X v) = isoText flags w .X v ↔ (.minus ∈ flags → w ≤ textLength .X v) := by
  have hsign : signText .X v = [] := rfl
  have hlen : textLength .X v = (numeral 16 v.toNat).length := by
    rw [textLength, hsign, digitsText, List.length_nil, Nat.zero_add]
  have hbuf : text (intToHexStr v.toNat w d.zeroPadding)
      = List.replicate (w - (numeral 16 v.toNat).length) (if d.zeroPadding then 0x30 else 0x20)
        ++ numeral 16 v.toNat := by
    -- no zero in the padding and none in the digits
    rw [intToHexStr_eq, ← List.append_assoc]
    refine text_eq fun h0 => ?_
    rw [List.mem_append] at h0
    rcases h0 with h0 | h0
    · have hpad := List.eq_of_mem_replicate h0
      revert hpad
      split <;> decide
    · exact zero_not_mem_numeral (by decide) (by decide) _ h0
  unfold events Directive.printHex isoText
  dsimp only
  rw [h.hexWidth, emitted_fill, emitted_putAll, hbuf, hsign, hlen, h.zeroPadding_eq]
  by_cases hminus : Flag.minus ∈ flags
  · simp only [hminus, digitsText, not_true_eq_false, and_false, decide_false, Bool.false_eq_true,
      if_false, if_true, List.nil_append, true_imp_iff]
    generalize hk : w - (numeral 16 v.toNat).length = k
    cases k with
    | zero => exact iff_of_true (by simp) (by omega)
    | succ k =>
        -- a blank against a digit
        refine iff_of_false (fun heq => ?_) (by omega)
        obtain ⟨c, l, hl⟩ := List.exists_cons_of_ne_nil (numeral_ne_nil 16 v.toNat)
        rw [List.replicate_succ, List.cons_append, hl, List.cons_append] at heq
        have hc := (mem_numeral_range (by decide) (by decide)
          (show c ∈ numeral 16 v.toNat by rw [hl]; simp)).1
        rw [← (List.cons.inj heq).1] at hc
        revert hc
        decide
  · by_cases hzero : Flag.zero ∈ flags
    · simp [hminus, hzero, digitsText]
    · simp [hminus, hzero, digitsText]

/-! ## The buffers -/

theorem inBuffers_iff_of_fill {cells : List UInt8} {es : List Event}
    (h : ∀ cells', Event.fill cells' ∈ es → cells' = cells) (hmem : Event.fill cells ∈ es) :
    InBuffers es ↔ cells.length ≤ 32 := by
  constructor
  · exact fun hin => hin cells hmem
  · intro hle cells' hcells'
    rwa [h cells' hcells']

theorem fill_not_mem_putAll (cells l : List UInt8) : Event.fill cells ∉ putAll l := by
  unfold putAll
  simp

theorem fill_not_mem_padOut (cells : List UInt8) (n : Int) (zero : Bool) :
    Event.fill cells ∉ padOut n zero := by
  unfold padOut
  intro h
  cases List.eq_of_mem_replicate h

/-- Neither a text nor its padding is in a buffer. -/
theorem fill_not_mem_padded (d : Directive) (cells l : List UInt8) :
    Event.fill cells ∉ d.padded l := by
  unfold Directive.padded
  cases d.leftAlign <;> simp [fill_not_mem_putAll, fill_not_mem_padOut]

theorem length_numeral_ten {n : Nat} (hn : n < 2 ^ 32) : (numeral 10 n ++ [0]).length ≤ 32 := by
  have hlen := length_numeral_le (b := 10) (n := n) (k := 10) (by decide) (by decide) (by omega)
  rw [List.length_append, List.length_singleton]
  omega

theorem inBuffers_printUnsigned (d : Directive) (v : UInt32) : InBuffers (events d .u v) := by
  intro cells hmem
  unfold events Directive.printUnsigned at hmem
  rw [List.mem_cons] at hmem
  rcases hmem with heq | hmem
  · cases heq
    rw [unsignedIntToStr_eq]
    exact length_numeral_ten v.toNat_lt
  · exact absurd hmem (fill_not_mem_padded d _ _)

/-- Only the digits are in a buffer. -/
theorem fill_mem_printInt {cells : List UInt8} {v : Int} (h : Event.fill cells ∈ d.printInt v) :
    cells = (intToStr (if v < 0 then negate v else v) 10).1 := by
  unfold Directive.printInt at h
  dsimp only at h
  generalize d.pad _ = pad at h
  simp only [List.mem_append, List.mem_singleton, Event.fill.injEq, decide_eq_true_eq] at h
  rcases h with ((((h | h) | h) | h) | h) | h
  · exact h
  · split at h
    · cases h
    · exact absurd h (fill_not_mem_padOut _ _ _)
  · split at h
    · cases List.mem_singleton.mp h
    · cases h
  · split at h
    · exact absurd h (fill_not_mem_padOut _ _ _)
    · cases h
  · exact absurd h (fill_not_mem_putAll _ _)
  · split at h
    · exact absurd h (fill_not_mem_padOut _ _ _)
    · cases h

theorem inBuffers_printInt (d : Directive) {v : UInt32} (hv : v ≠ 0x80000000) :
    InBuffers (events d .d v) := by
  intro cells hmem
  have hrange : (intOf v).natAbs < 2 ^ 32 := by
    have hlt := v.toNat_lt
    unfold intOf asInt
    split <;> omega
  rw [fill_mem_printInt hmem, intToStr_intOf hv]
  exact length_numeral_ten hrange

/-- The buffer of `%X` holds the padding too. -/
theorem inBuffers_printHex_iff (h : ReadAs d flags w) (v : UInt32) :
    InBuffers (events d .X v) ↔ w < 32 := by
  have hlen := length_numeral_le (b := 16) (n := v.toNat) (k := 8) (by decide) (by decide) v.toNat_lt
  have honly : ∀ cells, Event.fill cells ∈ events d .X v →
      cells = intToHexStr v.toNat w d.zeroPadding := by
    intro cells hmem
    unfold events Directive.printHex at hmem
    dsimp only at hmem
    rw [h.hexWidth, List.mem_cons] at hmem
    rcases hmem with heq | hmem
    · cases heq
      rfl
    · exact absurd hmem (fill_not_mem_putAll _ _)
  have hmem : Event.fill (intToHexStr v.toNat w d.zeroPadding) ∈ events d .X v := by
    unfold events Directive.printHex
    dsimp only
    rw [h.hexWidth]
    exact List.mem_cons_self
  rw [inBuffers_iff_of_fill honly hmem, intToHexStr_eq]
  simp only [List.length_append, List.length_replicate, List.length_singleton]
  omega

/-- **What each conversion gets right**, once its flags and its width have been read. -/
theorem events_printable_iff (h : ReadAs d flags w) (specifier : Specifier) (v : UInt32) :
    emitted (events d specifier v) = isoText flags w specifier v ∧ InBuffers (events d specifier v)
      ↔ Printable flags w v specifier := by
  cases specifier with
  | d =>
      by_cases hv : v = 0x80000000
      · subst hv
        exact iff_of_false (fun hp => emitted_printInt_least d flags w hp.1) fun hp => hp.1 rfl
      · rw [emitted_printInt_iff h hv, and_iff_left (inBuffers_printInt d hv), Printable,
          and_iff_right hv]
  | u => exact iff_of_true ⟨emitted_printUnsigned h v, inBuffers_printUnsigned d v⟩ trivial
  | X => rw [emitted_printHex_iff h, inBuffers_printHex_iff h, Printable, and_comm]

end events

/-! ## The flags -/

section flags

variable {flags : List Flag} {star : Bool} {w : Nat}

theorem isPlain_char (specifier : Specifier) : IsPlain specifier.char := by
  unfold IsPlain
  cases specifier <;> decide

/-- The flags are zeros, or there is a `-` behind some zeros. -/
theorem flags_cases (flags : List Flag) :
    (∃ n, flags = List.replicate n .zero) ∨
      ∃ n flags', flags = List.replicate n .zero ++ .minus :: flags' := by
  induction flags with
  | nil => exact Or.inl ⟨0, rfl⟩
  | cons f flags ih =>
      cases f with
      | minus => exact Or.inr ⟨0, flags, rfl⟩
      | zero =>
          rcases ih with ⟨n, rfl⟩ | ⟨n, flags', rfl⟩
          · exact Or.inl ⟨n + 1, rfl⟩
          · exact Or.inr ⟨n + 1, flags', rfl⟩

theorem widthField_digits : ∀ y ∈ widthField false w, IsDigit y := by
  intro y hy
  unfold widthField at hy
  rw [if_neg Bool.false_ne_true] at hy
  split at hy
  · cases hy
  · exact isDigit_of_mem_numeral hy

theorem decimalValue_widthField (w : Nat) : decimalValue (widthField false w) = w := by
  unfold widthField
  rw [if_neg Bool.false_ne_true]
  split
  next h => rw [h]; rfl
  next => exact decimalValue_numeral w

theorem widthField_ne_nil (hw : w ≠ 0) : widthField false w ≠ [] := by
  rw [widthField, if_neg Bool.false_ne_true, if_neg hw]
  exact numeral_ne_nil 10 w

/-- A width is not taken for a flag. -/
theorem head_widthField (w : Nat) (specifier : Specifier) :
    (widthField false w ++ [specifier.char]).head? ≠ some 0x2D ∧
      (widthField false w ++ [specifier.char]).head? ≠ some 0x30 := by
  unfold widthField
  rw [if_neg Bool.false_ne_true]
  split
  · cases specifier <;> decide
  next h =>
      refine ⟨fun hhead => ?_, head_numeral_ne (by decide) (by decide) (Nat.pos_of_ne_zero h) _⟩
      rw [List.head?_append_of_ne_nil _ (numeral_ne_nil 10 w)] at hhead
      exact absurd (isDigit_of_mem_numeral (List.mem_of_head? hhead)) (by decide)

/-- What `readDirective` reads of these flags and this width, wherever the directive stands. -/
def ReadsDirective (flags : List Flag) (star : Bool) (w : Nat) (specifier : Specifier) (v : UInt32)
    (d : Directive) : Prop :=
  ReadAs d flags w ∧ ∀ args i rest, ArgumentsAt args i star w v →
    ∃ i', args.word i' = v ∧ i' + 1 = i + (if star then 2 else 1) ∧
      readDirective args i (directive flags star w specifier ++ rest)
        = some (d, i', specifier.char :: rest)

/-- One flag at most, and a star. -/
theorem readsDirective_star (flag : Option Flag) (hint : asInt w = w) (specifier : Specifier)
    (v : UInt32) : ReadsDirective flag.toList true w specifier v
      ⟨flag == some .minus, flag == some .zero, true, w, -1, false⟩ := by
  constructor
  · cases flag with
    | none => exact ⟨rfl, rfl, rfl, Or.inl rfl⟩
    | some f => cases f <;> exact ⟨rfl, rfl, rfl, Or.inl rfl⟩
  · rintro args i rest ⟨hword, hv⟩
    refine ⟨i + 1, hv, rfl, ?_⟩
    have hread := readDirective_star args i flag (isPlain_char specifier) rest
    rw [hword, hint] at hread
    rw [directive, List.append_assoc]
    exact hread

/-- Zeros behind the first flag belong to the width. -/
theorem widthDigits (n w : Nat) :
    (∀ y ∈ List.replicate n 0x30 ++ widthField false w, IsDigit y) ∧
      decimalValue (List.replicate n 0x30 ++ widthField false w) = w ∧
      (List.replicate n 0x30 ++ widthField false w = [] → w = 0) := by
  refine ⟨?_, by rw [decimalValue_zeros, decimalValue_widthField], fun h => ?_⟩
  · rw [List.forall_mem_append]
    refine ⟨fun y hy => ?_, widthField_digits⟩
    rw [List.eq_of_mem_replicate hy]
    decide
  · by_contra hw
    exact widthField_ne_nil hw (List.append_eq_nil_iff.mp h).2

/-- One flag or none, with zeros behind it, and a width in digits. -/
theorem readsDirective_digits (flag : Option Flag) {n : Nat} (hn : flag = none → n = 0)
    (hw : w < 2 ^ 32) (hint : asInt w = w) (specifier : Specifier) (v : UInt32) :
    ∃ d, ReadsDirective (flag.toList ++ List.replicate n .zero) false w specifier v d := by
  obtain ⟨hdigits, hvalue, hempty⟩ := widthDigits n w
  have hhead : flag = none →
      (List.replicate n 0x30 ++ widthField false w ++ [specifier.char]).head? ≠ some 0x2D ∧
      (List.replicate n 0x30 ++ widthField false w ++ [specifier.char]).head? ≠ some 0x30 := by
    intro hflag
    rw [hn hflag]
    exact head_widthField w specifier
  have hchars : ∀ rest, directive (flag.toList ++ List.replicate n .zero) false w specifier ++ rest
      = flag.toList.map Flag.char
        ++ (List.replicate n 0x30 ++ widthField false w ++ specifier.char :: rest) := by
    intro rest
    simp [directive, Flag.char]
  have hstar : specifier.char ≠ 0x2A := by cases specifier <;> decide
  generalize List.replicate n 0x30 ++ widthField false w = ds at *
  refine ⟨⟨flag == some .minus, flag == some .zero, !ds.isEmpty, w, -1, false⟩, ?_, ?_⟩
  · refine ⟨?_, ?_, rfl, ?_⟩
    · cases flag with
      | none => rw [hn rfl]; rfl
      | some f => cases f <;> simp
    · cases flag with
      | none => rw [hn rfl]; rfl
      | some f => cases f <;> simp
    · cases ds with
      | nil => exact Or.inr (hempty rfl)
      | cons y ds => exact Or.inl rfl
  · intro args i rest hv
    refine ⟨i, hv, rfl, ?_⟩
    have hread := readDirective_digits args i flag hdigits hhead (fun _ => hstar)
      (isPlain_char specifier) rest
    rw [hvalue, Nat.mod_eq_of_lt hw, hint] at hread
    rw [hchars]
    exact hread

/-- **Flags that are read**: the conversion gets them and the width. -/
theorem readDirective_readable (h : Readable flags star) (hw : w ≤ 1000) (specifier : Specifier)
    (v : UInt32) : ∃ d, ReadsDirective flags star w specifier v d := by
  have hint : asInt w = w := if_pos (by omega)
  cases star with
  | true =>
      match flags, h with
      | [], _ => exact ⟨_, readsDirective_star none hint specifier v⟩
      | [f], _ => exact ⟨_, readsDirective_star (some f) hint specifier v⟩
  | false =>
      have hlt : w < 2 ^ 32 := by omega
      cases flags with
      | nil => exact readsDirective_digits none (fun _ => rfl) hlt hint specifier v
      | cons f flags =>
          rcases flags_cases flags with ⟨n, rfl⟩ | ⟨n, flags', rfl⟩
          · exact readsDirective_digits (some f) (fun hf => nomatch hf) hlt hint specifier v
          · -- a second `-` is not read
            refine absurd ?_ h
            rw [List.tail_cons]
            simp

/-- **Flags that are not read**: the conversion gets a `-` or a star for its specifier, and a `%` is
printed. -/
theorem readDirective_unreadable (h : ¬ Readable flags star) (specifier : Specifier) :
    ∃ c l, (c = 0x2D ∨ c = 0x2A) ∧ ∀ args i rest, ∃ d, d.isLl = false ∧
      readDirective args i (directive flags star w specifier ++ rest)
        = some (d, i, c :: (l ++ rest)) := by
  -- the first flag, zeros, and then a character that is neither of them
  have hbehind : ∃ f n c l, (c = 0x2D ∨ c = 0x2A) ∧ (n = 0 → c ≠ 0x2A) ∧
      directive flags star w specifier
        = Flag.char f :: (List.replicate n 0x30 ++ c :: l) := by
    cases flags with
    | nil => cases star <;> exact absurd (by simp [Readable]) h
    | cons f flags =>
        rcases flags_cases flags with ⟨n, rfl⟩ | ⟨n, flags', rfl⟩
        · cases star with
          | false => exact absurd (by simp [Readable]) h
          | true =>
              have hn : n ≠ 0 := by
                rintro rfl
                exact h (by simp [Readable])
              exact ⟨f, n, 0x2A, [specifier.char], Or.inr rfl, fun h0 => absurd h0 hn,
                by simp [directive, widthField, Flag.char]⟩
        · exact ⟨f, n, 0x2D, flags'.map Flag.char ++ (widthField star w ++ [specifier.char]),
            Or.inl rfl, fun _ => by decide, by simp [directive, Flag.char]⟩
  obtain ⟨f, n, c, l, hc, hstar, hchars⟩ := hbehind
  have hplain : IsPlain c := by
    unfold IsPlain
    rcases hc with rfl | rfl <;> decide
  have hdigits : ∀ y ∈ List.replicate n (0x30 : UInt8), IsDigit y := by
    intro y hy
    rw [List.eq_of_mem_replicate hy]
    decide
  refine ⟨c, l, hc, fun args i rest => ?_⟩
  have hread := readDirective_digits args i (some f) hdigits (fun h => nomatch h)
    (fun h => hstar (by simpa using h)) hplain (l ++ rest)
  rw [hchars, List.cons_append, List.append_assoc, List.cons_append]
  exact ⟨_, rfl, hread⟩

end flags

/-! ## What `printf` gets right -/

/-- A width and a value as arguments. -/
def wordArgs (star : Bool) (w : Nat) (v : UInt32) : VaList :=
  ⟨fun i => if star ∧ i = 0 then UInt32.ofNat w else v, fun _ => [], zero_not_mem_empty⟩

theorem argumentsAt_wordArgs (star : Bool) {w : Nat} (hw : w ≤ 1000) (v : UInt32) :
    ArgumentsAt (wordArgs star w v) 0 star w v := by
  cases star with
  | false => rfl
  | true =>
      refine ⟨?_, rfl⟩
      change (UInt32.ofNat w).toNat = w
      rw [UInt32.toNat_ofNat']
      omega

/-- **Integers in `printf`**: for flags that are read, and values and widths that the conversion gets
right, and for no others. -/
theorem printsIso_iff (flags : List Flag) (star : Bool) {w : Nat} (hw : w ≤ 1000)
    (specifier : Specifier) (v : UInt32) :
    PrintsIso flags star w specifier v ↔ Readable flags star ∧ Printable flags w v specifier := by
  have hargs := argumentsAt_wordArgs star hw v
  have hspecifier : specifier.char ≠ 0x25 := by cases specifier <;> decide
  by_cases hreadable : Readable flags star
  · rw [and_iff_right hreadable]
    obtain ⟨d, hd, hread⟩ := readDirective_readable hreadable hw specifier v
    -- the conversion is that of the directive, whatever stands behind it
    have hrun : ∀ args i rest, ArgumentsAt args i star w v →
        printfFrom args i (0x25 :: (directive flags star w specifier ++ rest))
          = (printfFrom args (i + if star then 2 else 1) rest).map (events d specifier v ++ ·) := by
      intro args i rest h
      obtain ⟨i', hv, hi, hread⟩ := hread args i rest h
      rw [printfFrom_directive hspecifier hread, convert_specifier, hv, hi]
    rw [← events_printable_iff hd]
    constructor
    · rintro ⟨es, htext, hin, hes⟩
      have heq := (hes _ 0 [0] hargs).symm.trans (hrun _ 0 [0] hargs)
      rw [printfFrom_end, Option.map_some, Option.map_some, List.append_nil, List.append_nil] at heq
      cases heq
      exact ⟨htext, hin⟩
    · rintro ⟨htext, hin⟩
      exact ⟨_, htext, hin, hrun⟩
  · refine iff_of_false (fun hprints => ?_) fun h => hreadable h.1
    obtain ⟨es, htext, -, hes⟩ := hprints
    obtain ⟨c, l, hc, hread⟩ := @readDirective_unreadable flags star w hreadable specifier
    obtain ⟨d, hd, hread⟩ := hread (wordArgs star w v) 0 [0]
    have hpercent : c ≠ 0x25 := by rcases hc with rfl | rfl <;> decide
    have hput : ∀ i, (convert (wordArgs star w v) d c i).1 = [.put 0x25, .put c] := by
      intro i
      rcases hc with rfl | rfl <;> simp [convert, Directive.printOther, hd]
    have hrun := hes _ 0 [0] hargs
    rw [printfFrom_directive hpercent hread, printfFrom_end, hput, Option.map_some, List.append_nil,
      Option.map_eq_some_iff] at hrun
    obtain ⟨es', -, rfl⟩ := hrun
    have hmem : 0x25 ∈ isoText flags w specifier v := by
      rw [← htext]
      exact List.mem_cons_self
    have hrange := mem_isoText hmem
    revert hrange
    decide

/-- "%05d" of 42. -/
theorem printsIso_iff_zeros : PrintsIso [.zero] false 5 .d 42 :=
  (printsIso_iff [.zero] false (by decide) .d 42).mpr
    ⟨by rw [Readable]; decide, by decide, by decide⟩

/-- Of -42, "%05d" makes two blanks, the sign, two zeros and the digits. -/
theorem not_printsIso : ¬ PrintsIso [.zero] false 5 .d 0xFFFFFFD6 := by
  rintro ⟨es, htext, -, hes⟩
  have hrun := hes (wordArgs false 5 0xFFFFFFD6) 0 [0] rfl
  have hprinted : printfFrom (wordArgs false 5 0xFFFFFFD6) 0
      (0x25 :: (directive [.zero] false 5 .d ++ [0]))
      = some ([.fill [0x34, 0x32, 0]] ++ putAll [0x20, 0x20, 0x2D, 0x30, 0x30, 0x34, 0x32]) := by
    decide
  rw [hprinted, printfFrom_end, Option.map_some, List.append_nil] at hrun
  cases hrun
  revert htext
  decide

end MicroKernel.Libc
