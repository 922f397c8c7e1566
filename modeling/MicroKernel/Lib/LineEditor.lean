import Mathlib.Data.List.Basic
import Mathlib.Tactic

set_option autoImplicit false

/-! # The reference line editor

A line of at most `n` characters with a cursor, as the pair of the characters before the cursor, the
nearest one first, and those from the cursor on. Every operation works at the heads of the two lists.
-/

namespace MicroKernel.Lib

/-- A line with a cursor, limited to `n` characters. -/
@[ext] structure LineEditor (α : Type) (n : Nat) where
  before : List α
  after : List α
  le : before.length + after.length ≤ n

namespace LineEditor

variable {α : Type} {n : Nat}

/-- The line. -/
def text (e : LineEditor α n) : List α := e.before.reverse ++ e.after

/-- The position of the cursor. -/
def cursor (e : LineEditor α n) : Nat := e.before.length

/-- The empty line. -/
def empty : LineEditor α n := ⟨[], [], Nat.zero_le n⟩

/-- Insert at the cursor; a full line stays. -/
def insert (e : LineEditor α n) (x : α) : LineEditor α n :=
  if h : e.before.length + e.after.length < n then
    { before := x :: e.before
      after := e.after
      le := by simp only [List.length_cons]; omega }
  else e

/-- Delete before the cursor. -/
def backspace (e : LineEditor α n) : LineEditor α n where
  before := e.before.tail
  after := e.after
  le := by
    have := e.le
    rw [List.length_tail]
    omega

/-- Delete at the cursor. -/
def delete (e : LineEditor α n) : LineEditor α n where
  before := e.before
  after := e.after.tail
  le := by
    have := e.le
    rw [List.length_tail]
    omega

/-- One character to the left. -/
def left (e : LineEditor α n) : LineEditor α n where
  before := e.before.tail
  after := e.before.head?.toList ++ e.after
  le := by
    have := e.le
    cases hb : e.before <;> simp [hb] at this ⊢ <;> omega

/-- One character to the right. -/
def right (e : LineEditor α n) : LineEditor α n where
  before := e.after.head?.toList ++ e.before
  after := e.after.tail
  le := by
    have := e.le
    cases ha : e.after <;> simp [ha] at this ⊢ <;> omega

/-- To the start of the line. -/
def home (e : LineEditor α n) : LineEditor α n where
  before := []
  after := e.before.reverse ++ e.after
  le := by
    have := e.le
    simpa using this

/-- To the end of the line. -/
def toEnd (e : LineEditor α n) : LineEditor α n where
  before := e.after.reverse ++ e.before
  after := []
  le := by
    have := e.le
    simp only [List.length_append, List.length_reverse, List.length_nil]
    omega

/-- Delete from the cursor on. -/
def kill (e : LineEditor α n) : LineEditor α n where
  before := e.before
  after := []
  le := by
    have := e.le
    simp only [List.length_nil]
    omega

/-! ## The text and the cursor -/

section text

variable {e e' : LineEditor α n}

@[simp] theorem length_text (e : LineEditor α n) :
    e.text.length = e.before.length + e.after.length := by simp [text]

/-- A line with its cursor is determined by the two. -/
theorem eq_of_text (ht : e.text = e'.text) (hc : e.cursor = e'.cursor) : e = e' := by
  obtain ⟨hb, ha⟩ := List.append_inj ht (by simpa [cursor] using hc)
  exact LineEditor.ext (List.reverse_injective hb) ha

theorem mem_text {x : α} : x ∈ e.text ↔ x ∈ e.before ∨ x ∈ e.after := by simp [text]

/-- The cursor moves over the text. -/
@[simp] theorem text_left (e : LineEditor α n) : e.left.text = e.text := by
  cases hb : e.before <;> simp [text, left, hb]

@[simp] theorem text_right (e : LineEditor α n) : e.right.text = e.text := by
  cases ha : e.after <;> simp [text, right, ha]

@[simp] theorem text_home (e : LineEditor α n) : e.home.text = e.text := by simp [text, home]

@[simp] theorem text_toEnd (e : LineEditor α n) : e.toEnd.text = e.text := by simp [text, toEnd]

/-- The start of the line is as many moves away as there are characters before the cursor. -/
theorem iterate_left_length (e : LineEditor α n) :
    Nat.iterate left e.before.length e = e.home := by
  generalize hb : e.before.length = k
  induction k generalizing e with
  | zero =>
      rw [List.length_eq_zero_iff] at hb
      exact LineEditor.ext hb (by simp [home, hb])
  | succ k ih =>
      have hleft : e.left.before.length = k := by simp [left, hb]
      calc Nat.iterate left (k + 1) e = e.left.home := ih e.left hleft
        _ = e.home := eq_of_text (by simp) rfl

theorem iterate_right_length (e : LineEditor α n) :
    Nat.iterate right e.after.length e = e.toEnd := by
  generalize ha : e.after.length = k
  induction k generalizing e with
  | zero =>
      rw [List.length_eq_zero_iff] at ha
      exact LineEditor.ext (by simp [toEnd, ha]) ha
  | succ k ih =>
      have hright : e.right.after.length = k := by simp [right, ha]
      have hcursor : e.right.toEnd.cursor = e.toEnd.cursor := by
        have htext := congrArg List.length e.text_right
        simp only [length_text] at htext
        simp only [cursor, toEnd, List.length_append, List.length_reverse]
        omega
      calc Nat.iterate right (k + 1) e = e.right.toEnd := ih e.right hright
        _ = e.toEnd := eq_of_text (by simp) hcursor

/-- Where an operation changes nothing. -/
theorem eq_left_iff : e = e.left ↔ e.before = [] := by
  refine ⟨fun h => ?_, fun hb => LineEditor.ext (by simp [left, hb]) (by simp [left, hb])⟩
  have hlen := congrArg (fun e => e.before.length) h
  cases hb : e.before with
  | nil => rfl
  | cons c b => simp [left, hb] at hlen

theorem eq_right_iff : e = e.right ↔ e.after = [] := by
  refine ⟨fun h => ?_, fun ha => LineEditor.ext (by simp [right, ha]) (by simp [right, ha])⟩
  have hlen := congrArg (fun e => e.after.length) h
  cases ha : e.after with
  | nil => rfl
  | cons c a => simp [right, ha] at hlen

theorem eq_home_iff : e = e.home ↔ e.before = [] :=
  ⟨fun h => congrArg before h, fun hb => LineEditor.ext hb (by simp [home, hb])⟩

theorem eq_toEnd_iff : e = e.toEnd ↔ e.after = [] :=
  ⟨fun h => congrArg after h, fun ha => LineEditor.ext (by simp [toEnd, ha]) ha⟩

theorem eq_delete_iff : e = e.delete ↔ e.after = [] := by
  refine ⟨fun h => ?_, fun ha => LineEditor.ext rfl (by simp [delete, ha])⟩
  have hlen := congrArg (fun e => e.after.length) h
  cases ha : e.after with
  | nil => rfl
  | cons c a => simp [delete, ha] at hlen

/-- Insertion brings in no other character. -/
theorem mem_text_insert {x y : α} (h : y ∈ (e.insert x).text) : y = x ∨ y ∈ e.text := by
  unfold insert at h
  split at h
  · simpa [text, or_assoc, or_left_comm] using h
  · exact Or.inr h

/-- A deletion brings in no character. -/
theorem mem_text_backspace {x : α} (h : x ∈ e.backspace.text) : x ∈ e.text := by
  rw [mem_text] at h ⊢
  exact h.imp_left List.mem_of_mem_tail

theorem mem_text_delete {x : α} (h : x ∈ e.delete.text) : x ∈ e.text := by
  rw [mem_text] at h ⊢
  exact h.imp_right List.mem_of_mem_tail

theorem mem_text_kill {x : α} (h : x ∈ e.kill.text) : x ∈ e.text := by
  rw [mem_text] at h ⊢
  exact h.imp_right fun hx => absurd hx List.not_mem_nil

end text

end LineEditor

end MicroKernel.Lib
