import Mathlib.Tactic

set_option autoImplicit false

/-! # Numbers from their digits

The digits of a number are read one by one, from the top: `valueFrom b v ds` is the number that the
digits `ds` of base `b` make behind digits of value `v`. `lt_mul_add_iff` is the usual test for the
next digit to go above a limit, without going there.

`IsNumeral` says that a string is the numeral of a number, whatever the characters of the digits are.
A loop that takes the digits off a number from the last one on makes the numeral backwards.
-/

namespace MicroKernel.Lib.Positional

/-- The value of the digits `ds` behind others of value `v`. -/
def valueFrom (b v : Nat) (ds : List Nat) : Nat := ds.foldl (fun v d => v * b + d) v

variable {b v d w n : Nat} {ds ds' : List Nat}

@[simp] theorem valueFrom_nil (b v : Nat) : valueFrom b v [] = v := rfl

@[simp] theorem valueFrom_cons (b v d : Nat) (ds : List Nat) :
    valueFrom b v (d :: ds) = valueFrom b (v * b + d) ds := rfl

theorem valueFrom_append (b v : Nat) (ds ds' : List Nat) :
    valueFrom b v (ds ++ ds') = valueFrom b (valueFrom b v ds) ds' := List.foldl_append ..

/-- More digits make a number that is not smaller. -/
theorem le_valueFrom (hb : 0 < b) (v : Nat) (ds : List Nat) : v ≤ valueFrom b v ds := by
  induction ds generalizing v with
  | nil => exact Nat.le_refl v
  | cons d ds ih =>
      calc v ≤ v * b := Nat.le_mul_of_pos_right v hb
        _ ≤ v * b + d := Nat.le_add_right _ _
        _ ≤ valueFrom b v (d :: ds) := ih _

/-- **Cutoff and last digit**: whether a digit takes a number above `n` shows in the quotient and the
remainder of `n` by the base. -/
theorem lt_mul_add_iff (hd : d < b) :
    n < v * b + d ↔ n / b < v ∨ (v = n / b ∧ n % b < d) := by
  have hn := Nat.div_add_mod n b
  have hr := Nat.mod_lt n (Nat.zero_lt_of_lt hd)
  rcases Nat.lt_trichotomy v (n / b) with h | h | h
  · have hle : (v + 1) * b ≤ n / b * b := Nat.mul_le_mul_right b h
    rw [Nat.add_mul, Nat.one_mul, Nat.mul_comm (n / b)] at hle
    constructor
    · omega
    · rintro (h' | ⟨h', -⟩) <;> omega
  · rw [Nat.mul_comm] at hn
    subst h
    constructor
    · intro hlt
      exact Or.inr ⟨rfl, by omega⟩
    · rintro (h' | ⟨-, h'⟩) <;> omega
  · have hle : (n / b + 1) * b ≤ v * b := Nat.mul_le_mul_right b h
    rw [Nat.add_mul, Nat.one_mul, Nat.mul_comm (n / b)] at hle
    exact iff_of_true (by omega) (Or.inl h)

/-- Each digit makes a number at least as many times larger as the base says. -/
theorem mul_pow_le_valueFrom (b v : Nat) (ds : List Nat) :
    v * b ^ ds.length ≤ valueFrom b v ds := by
  induction ds generalizing v with
  | nil => simp
  | cons d ds ih =>
      calc v * b ^ (d :: ds).length
          = v * b * b ^ ds.length := by rw [List.length_cons, Nat.pow_succ', Nat.mul_assoc]
        _ ≤ (v * b + d) * b ^ ds.length := Nat.mul_le_mul_right _ (Nat.le_add_right _ _)
        _ ≤ valueFrom b v (d :: ds) := ih _

/-- The digits of a number from the top make the number. -/
theorem valueFrom_digits (b n : Nat) : valueFrom b 0 (Nat.digits b n).reverse = n := by
  have hfold : valueFrom b 0 (Nat.digits b n).reverse
      = (Nat.digits b n).foldr (fun d v => d + b * v) 0 := by
    rw [valueFrom, List.foldl_reverse]
    congr 1
    funext d v
    rw [Nat.mul_comm, Nat.add_comm]
  calc valueFrom b 0 (Nat.digits b n).reverse
      = Nat.ofDigits b (Nat.digits b n) := by rw [hfold, Nat.ofDigits_eq_foldr]; rfl
    _ = n := Nat.ofDigits_digits b n

/-! ## Numerals -/

section numeral

variable {α : Type} {digit : α → Option Nat} {write : Nat → α} {s : List α} {c : α}

/-- The string `s` is the numeral of `n` in base `b`, where `digit` says which digit a character is. A
zero does not lead, unless it is the only digit. -/
structure IsNumeral (digit : α → Option Nat) (b n : Nat) (s : List α) : Prop where
  ne_nil : s ≠ []
  isDigit : ∀ c ∈ s, ∃ d < b, digit c = some d
  value : valueFrom b 0 (s.filterMap digit) = n
  leading : ∀ c ∈ s.head?, digit c = some 0 → s = [c]

/-- The numeral of a digit. -/
theorem isNumeral_singleton (hd : d < b) (hc : digit c = some d) : IsNumeral digit b d [c] where
  ne_nil := List.cons_ne_nil _ _
  isDigit := by
    intro c' hc'
    obtain rfl := List.mem_singleton.mp hc'
    exact ⟨d, hd, hc⟩
  value := by simp [List.filterMap_cons_some hc]
  leading := by
    rintro c' hc' -
    rw [Option.some.inj hc']

theorem filterMap_map_digits (hwrite : ∀ d < b, digit (write d) = some d) {ds : List Nat}
    (hds : ∀ d ∈ ds, d < b) : (ds.map write).filterMap digit = ds := by
  induction ds with
  | nil => rfl
  | cons d ds ih =>
      have hfirst := hwrite d (hds d List.mem_cons_self)
      rw [List.map_cons, List.filterMap_cons_some hfirst,
        ih fun d' hd' => hds d' (List.mem_cons_of_mem _ hd')]

/-- **The digits backwards.** -/
theorem isNumeral_digits (hb : 1 < b) (hwrite : ∀ d < b, digit (write d) = some d) (hn : n ≠ 0) :
    IsNumeral digit b n ((Nat.digits b n).map write).reverse where
  ne_nil := by simpa [Nat.digits_ne_nil_iff_ne_zero] using hn
  isDigit := by
    intro c hc
    obtain ⟨d, hd, rfl⟩ := List.mem_map.mp (List.mem_reverse.mp hc)
    have hlt := Nat.digits_lt_base hb hd
    exact ⟨d, hlt, hwrite d hlt⟩
  value := by
    rw [← List.map_reverse, filterMap_map_digits hwrite, valueFrom_digits]
    intro d hd
    exact Nat.digits_lt_base hb (List.mem_reverse.mp hd)
  leading := by
    intro c hc hzero
    -- the first digit is the last one of `Nat.digits`, which is not zero
    rw [List.head?_reverse, List.getLast?_map, Option.mem_def, Option.map_eq_some_iff] at hc
    obtain ⟨d, hd, rfl⟩ := hc
    obtain ⟨hne, hlast⟩ := List.mem_getLast?_eq_getLast hd
    have hlt := Nat.digits_lt_base hb (List.mem_of_getLast? hd)
    rw [hwrite d hlt, Option.some.injEq] at hzero
    exact absurd (hlast.symm.trans hzero) (Nat.getLast_digit_ne_zero b hn)

/-- A loop that takes the digits off one by one, with a counter that is large enough. -/
theorem loop_eq_digits (hb : 1 < b) {loop : Nat → Nat → List α} (hzero : ∀ k, loop k 0 = [])
    (hstep : ∀ k n, 0 < n → loop (k + 1) n = write (n % b) :: loop k (n / b)) (k : Nat)
    (hk : n ≤ k) : loop k n = (Nat.digits b n).map write := by
  induction k generalizing n with
  | zero =>
      obtain rfl := Nat.le_zero.mp hk
      rw [hzero, Nat.digits_zero, List.map_nil]
  | succ k ih =>
      rcases Nat.eq_zero_or_pos n with rfl | hn
      · rw [hzero, Nat.digits_zero, List.map_nil]
      · have hquot : n / b ≤ k := by
          have := Nat.div_lt_self hn hb
          omega
        rw [hstep k n hn, ih hquot, Nat.digits_def' hb hn, List.map_cons]

/-- A numeral is no longer than it has to be. -/
theorem IsNumeral.length_le (h : IsNumeral digit b n s) {k : Nat} (hk : 0 < k) (hn : n < b ^ k) :
    s.length ≤ k := by
  obtain ⟨hne, hdigit, hvalue, hleading⟩ := h
  cases s with
  | nil => exact absurd rfl hne
  | cons c s =>
      obtain ⟨d, hd, hc⟩ := hdigit c List.mem_cons_self
      rcases Nat.eq_zero_or_pos d with rfl | hpos
      · rw [hleading c rfl hc]
        exact hk
      · have hlen : (s.filterMap digit).length = s.length := by
          refine List.filterMap_length_eq_length.mpr fun c' hc' => ?_
          obtain ⟨d', -, hd'⟩ := hdigit c' (List.mem_cons_of_mem _ hc')
          rw [hd', Option.isSome_some]
        rw [List.filterMap_cons_some hc, valueFrom_cons, Nat.zero_mul, Nat.zero_add] at hvalue
        have hpow : b ^ s.length < b ^ k := by
          calc b ^ s.length
              ≤ d * b ^ s.length := Nat.le_mul_of_pos_left _ hpos
            _ ≤ valueFrom b d (s.filterMap digit) := hlen ▸ mul_pow_le_valueFrom b d _
            _ < b ^ k := hvalue ▸ hn
        by_contra hlong
        rw [List.length_cons, Nat.not_le, Nat.lt_succ_iff] at hlong
        exact absurd (Nat.pow_le_pow_right (Nat.zero_lt_of_lt hd) hlong) (Nat.not_le.mpr hpow)

end numeral

end MicroKernel.Lib.Positional
