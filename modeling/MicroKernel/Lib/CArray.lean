import Mathlib.Data.List.Basic
import Mathlib.Tactic

set_option autoImplicit false

/-! # Arrays with checked indices

An array is the list of its cells, and an index is an integer. A read or a write outside of the array
has no result, so a program that returns has touched cells of the array only. The rules describe an
array as `p ++ x :: q`, with the index `p.length` at the cell `x`.
-/

namespace MicroKernel.Lib.CArray

variable {α : Type}

/-- `b[i]`. -/
def read (b : List α) (i : Int) : Option α := if 0 ≤ i then b[i.toNat]? else none

/-- `b[i] = x`. -/
def write (b : List α) (i : Int) (x : α) : Option (List α) :=
  if 0 ≤ i ∧ i.toNat < b.length then some (b.set i.toNat x) else none

/-- `b[i] = b[i + 1]` for `n` indices from `i` upwards. -/
def shiftLeft (b : List α) (i : Int) : Nat → Option (List α)
  | 0 => some b
  | n + 1 => do
      let x ← read b (i + 1)
      let b ← write b i x
      shiftLeft b (i + 1) n

/-- `b[i] = b[i - 1]` for `n` indices from `i` downwards. -/
def shiftRight (b : List α) (i : Int) : Nat → Option (List α)
  | 0 => some b
  | n + 1 => do
      let x ← read b (i - 1)
      let b ← write b i x
      shiftRight b (i - 1) n

/-- The cells `b[i]`, …, `b[i + n - 1]`. -/
def readRange (b : List α) (i : Int) : Nat → Option (List α)
  | 0 => some []
  | n + 1 => do
      let x ← read b i
      let xs ← readRange b (i + 1) n
      some (x :: xs)

/-! ## Single cells -/

section cells

variable {b p q : List α} {x : α} {i : Int}

theorem read_at (hb : b = p ++ x :: q) (hi : i = p.length) : read b i = some x := by
  subst hb hi
  simp [read]

theorem write_at (hb : b = p ++ x :: q) (hi : i = p.length) (y : α) :
    write b i y = some (p ++ y :: q) := by
  subst hb hi
  simp [write]

/-- A write at an index of the array. -/
theorem write_natCast {n : Nat} (h : n < b.length) (y : α) : write b n y = some (b.set n y) := by
  rw [write, if_pos ⟨Int.natCast_nonneg n, by rwa [Int.toNat_natCast]⟩, Int.toNat_natCast]

/-- A write at the end of a middle part. -/
theorem write_behind (a : List α) (hi : i = p.length + a.length) (y : α) :
    write (p ++ (a ++ x :: q)) i y = some (p ++ (a ++ y :: q)) := by
  rw [← List.append_assoc, write_at rfl (by simp [hi]), List.append_assoc]

end cells

/-! ## Loops -/

/-- The cells behind `x` move to the left, and the last one is there twice. -/
theorem shiftLeft_eq (mid : List α) {p rest : List α} {x : α} {i : Int} (hi : i = p.length) :
    shiftLeft (p ++ x :: (mid ++ rest)) i mid.length
      = some (p ++ (mid ++ (x :: mid).getLast (List.cons_ne_nil x mid) :: rest)) := by
  induction mid generalizing p x i with
  | nil => rfl
  | cons y mid ih =>
      have hread : read (p ++ x :: (y :: mid ++ rest)) (i + 1) = some y :=
        read_at (p := p ++ [x]) (q := mid ++ rest) (by simp) (by simp [hi])
      have hwrite : write (p ++ x :: (y :: mid ++ rest)) i y
          = some ((p ++ [y]) ++ y :: (mid ++ rest)) := by
        rw [write_at rfl hi, List.append_assoc]
        rfl
      calc shiftLeft (p ++ x :: (y :: mid ++ rest)) i (y :: mid).length
          = shiftLeft ((p ++ [y]) ++ y :: (mid ++ rest)) (i + 1) mid.length := by
            rw [List.length_cons, shiftLeft, hread]
            simp only [Option.bind_eq_bind, Option.bind_some, hwrite]
        _ = some ((p ++ [y]) ++ (mid ++ (y :: mid).getLast (List.cons_ne_nil y mid) :: rest)) :=
            ih (by simp [hi])
        _ = _ := by simp

/-- The cells before `y` move to the right, and the first one is there twice. -/
theorem shiftRight_eq (mid : List α) {p rest : List α} {y : α} {i : Int}
    (hi : i = p.length + mid.length) :
    shiftRight (p ++ (mid ++ y :: rest)) i mid.length
      = some (p ++ ((mid ++ [y]).head (by simp) :: (mid ++ rest))) := by
  induction mid using List.reverseRecOn generalizing y rest i with
  | nil => rfl
  | append_singleton mid z ih =>
      have hlen : i = (p ++ (mid ++ [z])).length := by simp [hi]
      have hread : read (p ++ (mid ++ [z] ++ y :: rest)) (i - 1) = some z :=
        read_at (p := p ++ mid) (q := y :: rest) (by simp) (by simp [hi]; omega)
      have hwrite : write (p ++ (mid ++ [z] ++ y :: rest)) i z
          = some (p ++ (mid ++ z :: (z :: rest))) := by
        rw [write_at (p := p ++ (mid ++ [z])) (x := y) (q := rest) (by simp) hlen]
        simp
      calc shiftRight (p ++ (mid ++ [z] ++ y :: rest)) i (mid ++ [z]).length
          = shiftRight (p ++ (mid ++ z :: (z :: rest))) (i - 1) mid.length := by
            rw [List.length_append, List.length_singleton, shiftRight, hread]
            simp only [Option.bind_eq_bind, Option.bind_some, hwrite]
        _ = some (p ++ ((mid ++ [z]).head (by simp) :: (mid ++ z :: rest))) :=
            ih (by simp [hi]; omega)
        _ = _ := by simp [List.head_append]

/-- The cells of a middle part. -/
theorem readRange_eq (mid : List α) {b p rest : List α} {i : Int} {n : Nat}
    (hb : b = p ++ (mid ++ rest)) (hi : i = p.length) (hn : n = mid.length) :
    readRange b i n = some mid := by
  subst hn
  induction mid generalizing p i with
  | nil => rfl
  | cons x mid ih =>
      have hread : read b i = some x := read_at (q := mid ++ rest) (by simp [hb]) hi
      have hrest : readRange b (i + 1) mid.length = some mid :=
        ih (p := p ++ [x]) (by simp [hb]) (by simp [hi])
      simp [readRange, hread, hrest]

end MicroKernel.Lib.CArray
