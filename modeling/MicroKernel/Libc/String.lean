import Mathlib.Data.List.TakeWhile
import Mathlib.Tactic

set_option autoImplicit false

/-! # Strings (`lib/libc/string.c`)

`strlen`, `strncpy`, `strncat`, `strcmp`, `strncmp` and `str_trim_spaces` on the cells that a pointer
leads to. Each walks its cells one by one, and has no result where it would walk past the last of
them. The rules are about strings `l ++ 0 :: rest`, with no `0` in `l`.
-/

namespace MicroKernel.Libc

/-- `strlen`. -/
def strlen : List UInt8 → Option Nat
  | [] => none
  | c :: str => if c = 0 then some 0 else (strlen str).map (· + 1)

/-- The second loop of `strncpy`: write `num` zeros. -/
def padZeros : List UInt8 → Nat → Option (List UInt8)
  | dest, 0 => some dest
  | [], _ + 1 => none
  | _ :: dest, num + 1 => (padZeros dest num).map (0 :: ·)

/-- `strncpy`: the cells of `dest` afterwards. -/
def strncpy : List UInt8 → List UInt8 → Nat → Option (List UInt8)
  | dest, _, 0 => some dest
  | _, [], _ + 1 => none
  | [], _ :: _, _ + 1 => none
  | d :: dest, c :: src, num + 1 =>
      if c = 0 then padZeros (d :: dest) (num + 1) else (strncpy dest src num).map (c :: ·)

/-- The loop of `strncat`, from the end of `dest` on: the bound is tested after the character. -/
def appendLoop : List UInt8 → List UInt8 → Nat → Option (List UInt8)
  | [], _, _ => none
  | _, [], _ => none
  | _ :: dest, c :: src, n =>
      if c ≠ 0 ∧ n ≠ 0 then (appendLoop dest src (n - 1)).map (c :: ·) else some (0 :: dest)

/-- `strncat`: the cells of `dest` afterwards. -/
def strncat : List UInt8 → List UInt8 → Nat → Option (List UInt8)
  | [], _, _ => none
  | d :: dest, src, n =>
      if d = 0 then appendLoop (d :: dest) src n else (strncat dest src n).map (d :: ·)

/-- `strcmp`. -/
def strcmp : List UInt8 → List UInt8 → Option Int
  | a :: str1, b :: str2 =>
      if a ≠ 0 ∧ a = b then strcmp str1 str2 else some (a.toNat - b.toNat)
  | _, _ => none

/-- `strncmp`. -/
def strncmp : List UInt8 → List UInt8 → Nat → Option Int
  | _, _, 0 => some 0
  | a :: str1, b :: str2, n + 1 =>
      if a ≠ 0 ∧ a = b then strncmp str1 str2 n else some (a.toNat - b.toNat)
  | _, _, _ + 1 => none

/-- `str_trim_spaces`: the cells of `output` afterwards. -/
def strTrimSpaces : List UInt8 → List UInt8 → Nat → Option (List UInt8)
  | _, [], 0 => none
  | _, _ :: output, 0 => some (0 :: output)
  | [], _, _ + 1 => none
  | c :: input, output, n + 1 =>
      if c ≠ 0x20 ∧ c ≠ 0 then
        match output with
        | [] => none
        | _ :: output => (strTrimSpaces input output n).map (c :: ·)
      else strTrimSpaces input output n

/-- The string that a pointer leads to. -/
def text (str : List UInt8) : List UInt8 := str.takeWhile (· ≠ 0)

section strings

variable {l rest : List UInt8}

theorem text_eq (hl : 0 ∉ l) : text (l ++ 0 :: rest) = l := by
  have hne : ∀ c ∈ l, decide (c ≠ 0) = true := by
    intro c hc
    exact decide_eq_true (fun h0 => hl (h0 ▸ hc))
  rw [text, List.takeWhile_append_of_pos hne]
  simp

theorem strlen_eq (hl : 0 ∉ l) : strlen (l ++ 0 :: rest) = some l.length := by
  induction l with
  | nil => rfl
  | cons c l ih =>
      rw [List.mem_cons, not_or] at hl
      have hc : c ≠ 0 := Ne.symm hl.1
      simp [strlen, hc, ih hl.2]

theorem padZeros_eq (num : Nat) (dest : List UInt8) (h : num ≤ dest.length) :
    padZeros dest num = some (List.replicate num 0 ++ dest.drop num) := by
  induction num generalizing dest with
  | zero => simp [padZeros]
  | succ num ih =>
      cases dest with
      | nil => simp at h
      | cons d dest => simp [padZeros, ih dest (by simpa using h), List.replicate_succ]

/-- `strncpy` copies at most `num` characters and pads with zeros up to `num`. -/
theorem strncpy_eq (hl : 0 ∉ l) (dest : List UInt8) (num : Nat) (h : num ≤ dest.length) :
    strncpy dest (l ++ 0 :: rest) num
      = some (l.take num ++ (List.replicate (num - l.length) 0 ++ dest.drop num)) := by
  induction l generalizing dest num with
  | nil =>
      cases num with
      | zero => simp [strncpy]
      | succ num =>
          cases dest with
          | nil => simp at h
          | cons d dest =>
              rw [List.nil_append, strncpy, if_pos rfl, padZeros_eq _ _ h]
              simp
  | cons c l ih =>
      rw [List.mem_cons, not_or] at hl
      have hc : c ≠ 0 := Ne.symm hl.1
      cases num with
      | zero => simp [strncpy]
      | succ num =>
          cases dest with
          | nil => simp at h
          | cons d dest => simp [strncpy, hc, ih hl.2 dest num (by simpa using h)]

/-- A text that is as long as the number of characters asked for needs no zero behind it. -/
theorem strncpy_full (hl : 0 ∉ l) (rest dest : List UInt8) (h : l.length ≤ dest.length) :
    strncpy dest (l ++ rest) l.length = some (l ++ dest.drop l.length) := by
  induction l generalizing dest with
  | nil => simp [strncpy]
  | cons c l ih =>
      rw [List.mem_cons, not_or] at hl
      have hc : c ≠ 0 := Ne.symm hl.1
      cases dest with
      | nil => simp at h
      | cons d dest => simp [strncpy, hc, ih hl.2 dest (by simpa using h)]

theorem text_cons (c : UInt8) (str : List UInt8) :
    text (c :: str) = if c = 0 then [] else c :: text str := by
  unfold text
  by_cases hc : c = 0 <;> simp [hc]

theorem zero_not_mem_text (str : List UInt8) : 0 ∉ text str := by
  intro h
  simpa using List.mem_takeWhile_imp h

/-- What `strncpy` copies of cells that need not hold a zero. -/
theorem strncpy_cells (num : Nat) (dest src : List UInt8) (hdest : num ≤ dest.length)
    (hsrc : num ≤ src.length) :
    strncpy dest src num = some (text (src.take num)
      ++ (List.replicate (num - (text (src.take num)).length) 0 ++ dest.drop num)) := by
  induction num generalizing dest src with
  | zero => simp [strncpy, text]
  | succ num ih =>
      cases dest with
      | nil => simp at hdest
      | cons d dest =>
          cases src with
          | nil => simp at hsrc
          | cons c src =>
              rw [strncpy, List.take_succ_cons, text_cons]
              by_cases hc : c = 0
              · rw [if_pos hc, if_pos hc, padZeros_eq _ _ hdest]
                simp
              · rw [if_neg hc, if_neg hc,
                  ih dest src (by simpa using hdest) (by simpa using hsrc)]
                simp

theorem appendLoop_eq (hl : 0 ∉ l) (n : Nat) (d : UInt8) (dest : List UInt8)
    (h : (l.take n).length ≤ dest.length) :
    appendLoop (d :: dest) (l ++ 0 :: rest) n
      = some (l.take n ++ 0 :: dest.drop (l.take n).length) := by
  induction l generalizing n d dest with
  | nil => simp [appendLoop]
  | cons c l ih =>
      rw [List.mem_cons, not_or] at hl
      have hc : c ≠ 0 := Ne.symm hl.1
      cases n with
      | zero => simp [appendLoop]
      | succ n =>
          cases dest with
          | nil => simp at h
          | cons d' dest =>
              rw [List.cons_append, appendLoop, if_pos ⟨hc, Nat.succ_ne_zero n⟩, Nat.add_sub_cancel,
                ih hl.2 n d' dest (by simpa using h)]
              simp

/-- `strncat` appends at most `n` characters and ends the string. -/
theorem strncat_eq {m : List UInt8} (hl : 0 ∉ l) (hm : 0 ∉ m) (n : Nat) (dest : List UInt8)
    (h : (m.take n).length ≤ dest.length) :
    strncat (l ++ 0 :: dest) (m ++ 0 :: rest) n
      = some (l ++ (m.take n ++ 0 :: dest.drop (m.take n).length)) := by
  induction l with
  | nil => rw [List.nil_append, strncat, if_pos rfl, appendLoop_eq hm n 0 dest h, List.nil_append]
  | cons c l ih =>
      rw [List.mem_cons, not_or] at hl
      rw [List.cons_append, strncat, if_neg (Ne.symm hl.1), ih hl.2]
      rfl

/-- `str_trim_spaces` keeps what is neither a space nor a zero. -/
theorem strTrimSpaces_eq (n : Nat) (input output : List UInt8) (hinput : n ≤ input.length)
    (houtput : n < output.length) :
    strTrimSpaces input output n
      = some ((input.take n).filter (fun c => decide (c ≠ 0x20 ∧ c ≠ 0)) ++ 0 ::
          output.drop (((input.take n).filter fun c => decide (c ≠ 0x20 ∧ c ≠ 0)).length + 1)) := by
  induction n generalizing input output with
  | zero =>
      cases output with
      | nil => simp at houtput
      | cons d output => simp [strTrimSpaces]
  | succ n ih =>
      cases output with
      | nil => simp at houtput
      | cons d output =>
          rw [List.length_cons] at houtput
          cases input with
          | nil => simp at hinput
          | cons c input =>
              rw [List.length_cons] at hinput
              by_cases hc : c ≠ 0x20 ∧ c ≠ 0
              · rw [strTrimSpaces, if_pos hc, ih input output (by omega) (by omega),
                  List.take_succ_cons, List.filter_cons_of_pos (by simpa using hc)]
                rfl
              · rw [strTrimSpaces, if_neg hc, ih input (d :: output) (by omega) (by simp; omega),
                  List.take_succ_cons, List.filter_cons_of_neg (by simpa using hc)]

/-- Behind the cell with the last zero the output is as it was. -/
theorem getElem?_strTrimSpaces {n x : Nat} {input output cells : List UInt8} (hx : n < x)
    (h : strTrimSpaces input output n = some cells) : cells[x]? = output[x]? := by
  induction n generalizing x input output cells with
  | zero =>
      obtain ⟨x, rfl⟩ : ∃ y, x = y + 1 := ⟨x - 1, by omega⟩
      cases output with
      | nil => simp [strTrimSpaces] at h
      | cons d output =>
          simp only [strTrimSpaces, Option.some.injEq] at h
          rw [← h, List.getElem?_cons_succ, List.getElem?_cons_succ]
  | succ n ih =>
      cases input with
      | nil => simp [strTrimSpaces] at h
      | cons c input =>
          cases output with
          | nil =>
              by_cases hc : c ≠ 0x20 ∧ c ≠ 0
              · simp [strTrimSpaces, hc] at h
              · rw [strTrimSpaces, if_neg hc] at h
                exact ih (by omega) h
          | cons d output =>
              by_cases hc : c ≠ 0x20 ∧ c ≠ 0
              · rw [strTrimSpaces, if_pos hc] at h
                obtain ⟨cells', hcells, rfl⟩ := Option.map_eq_some_iff.mp h
                obtain ⟨x, rfl⟩ : ∃ y, x = y + 1 := ⟨x - 1, by omega⟩
                rw [List.getElem?_cons_succ, List.getElem?_cons_succ, ih (by omega) hcells]
              · rw [strTrimSpaces, if_neg hc] at h
                exact ih (by omega) h

theorem toNat_sub_eq_zero_iff (a b : UInt8) : (a.toNat : Int) - b.toNat = 0 ↔ a = b := by
  rw [← UInt8.toNat_inj]
  omega

/-- `strcmp` returns `0` for equal strings only. -/
theorem strcmp_eq {m : List UInt8} (hl : 0 ∉ l) (hm : 0 ∉ m) (rest rest' : List UInt8) :
    ∃ d, strcmp (l ++ 0 :: rest) (m ++ 0 :: rest') = some d ∧ (d = 0 ↔ l = m) := by
  have hdiff := toNat_sub_eq_zero_iff
  induction l generalizing m with
  | nil =>
      cases m with
      | nil => exact ⟨0, by simp [strcmp], by simp⟩
      | cons b m =>
          rw [List.mem_cons, not_or] at hm
          exact ⟨(0 : UInt8).toNat - b.toNat, by simp [strcmp], by rw [hdiff]; simp [hm.1]⟩
  | cons a l ih =>
      rw [List.mem_cons, not_or] at hl
      have ha : a ≠ 0 := Ne.symm hl.1
      cases m with
      | nil => exact ⟨a.toNat - (0 : UInt8).toNat, by simp [strcmp, ha], by rw [hdiff]; simp [ha]⟩
      | cons b m =>
          rw [List.mem_cons, not_or] at hm
          by_cases hab : a = b
          · obtain ⟨d, hd, hiff⟩ := ih hl.2 hm.2
            exact ⟨d, by simpa [strcmp, ha, hab, hm.1, Ne.symm hm.1] using hd, by simp [hiff, hab]⟩
          · exact ⟨a.toNat - b.toNat, by simp [strcmp, hab], by rw [hdiff]; simp [hab]⟩

/-- `strncmp` with as many characters as `l` has, which need no zero behind them: together with the
length of the string it tells whether they are the string. -/
theorem strncmp_eq {m : List UInt8} (hm : 0 ∉ m) (rest rest' : List UInt8) :
    ∃ d, strncmp (l ++ rest) (m ++ 0 :: rest') l.length = some d ∧
      (d = 0 ∧ m.length = l.length ↔ l = m) := by
  induction l generalizing m with
  | nil => exact ⟨0, by simp [strncmp], by simp [eq_comm]⟩
  | cons a l ih =>
      cases m with
      | nil => exact ⟨a.toNat - (0 : UInt8).toNat, by simp [strncmp], by simp⟩
      | cons b m =>
          rw [List.mem_cons, not_or] at hm
          by_cases hab : a = b
          · obtain ⟨d, hd, hiff⟩ := ih hm.2
            exact ⟨d, by simpa [strncmp, hab, Ne.symm hm.1] using hd, by simp [hiff, hab]⟩
          · exact ⟨a.toNat - b.toNat, by simp [strncmp, hab], by
              rw [toNat_sub_eq_zero_iff]
              simp [hab]⟩

end strings

end MicroKernel.Libc
