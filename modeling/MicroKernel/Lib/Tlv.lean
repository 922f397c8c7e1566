import MicroKernel.Lib.Bytes

set_option autoImplicit false

/-! # Options of code, length and value

A stream of options as protocols use it: an option is a code, the length of its value and the
value; one code stands alone as a pad, and one ends the stream. What a reader keeps of a stream is
the last option of each kind that it looks for (`foldl_keep_last`).
-/

namespace MicroKernel.Lib

/-! ## Bytes at an address -/

/-- The bytes `l` are at `a`. -/
def Bytes.Holds (p : Bytes) (a : Nat) (l : List UInt8) : Prop :=
  ∀ i, i < l.length → p (a + i) = l.getD i 0

namespace Bytes

theorem holds_nil (p : Bytes) (a : Nat) : Holds p a [] := fun i hi => absurd hi (Nat.not_lt_zero i)

theorem holds_cons {p : Bytes} {a : Nat} {b : UInt8} {l : List UInt8} :
    Holds p a (b :: l) ↔ p a = b ∧ Holds p (a + 1) l := by
  constructor
  · intro h
    refine ⟨h 0 (Nat.succ_pos _), fun i hi => ?_⟩
    have h' := h (i + 1) (Nat.succ_lt_succ hi)
    rwa [Nat.add_comm i 1, ← Nat.add_assoc, Nat.add_comm 1 i] at h'
  · rintro ⟨h0, h⟩ i hi
    cases i with
    | zero => exact h0
    | succ i =>
        have h' := h i (Nat.lt_of_succ_lt_succ hi)
        rwa [Nat.add_assoc, Nat.add_comm 1 i] at h'

theorem holds_append {p : Bytes} {a : Nat} {l m : List UInt8} :
    Holds p a (l ++ m) ↔ Holds p a l ∧ Holds p (a + l.length) m := by
  induction l generalizing a with
  | nil => exact ⟨fun h => ⟨holds_nil p a, h⟩, fun h => h.2⟩
  | cons b l ih =>
      rw [List.cons_append, holds_cons, holds_cons, ih, and_assoc, List.length_cons,
        Nat.add_assoc, Nat.add_comm 1]

theorem Holds.congr {p q : Bytes} {a : Nat} {l : List UInt8} (h : Holds p a l)
    (hsame : ∀ i, i < l.length → q (a + i) = p (a + i)) : Holds q a l :=
  fun i hi => (hsame i hi).trans (h i hi)

theorem holds_copy (p : Bytes) (a : Nat) (l : List UInt8) :
    Holds (copy p a (fun i => l.getD i 0) 0 l.length) a l := by
  intro i hi
  rw [copy_inside _ _ _ (Nat.le_add_right a i) (Nat.add_lt_add_left hi a), Nat.zero_add,
    Nat.add_sub_cancel_left]

end Bytes

/-! ## Options -/

/-- An option: its code is neither that of a pad nor that of the end, and the length of its value
is a byte. -/
structure Tlv where
  code : UInt8
  value : List UInt8
  not_pad : code ≠ 0
  not_end : code ≠ 255
  short : value.length < 256

namespace Tlv

/-- The bytes of an option. -/
def bytes (x : Tlv) : List UInt8 := x.code :: UInt8.ofNat x.value.length :: x.value

/-- The bytes of a stream of options, and of pads where there is none. -/
def stream (items : List (Option Tlv)) : List UInt8 :=
  items.flatMap fun | none => [0] | some x => x.bytes

theorem stream_none (items : List (Option Tlv)) : stream (none :: items) = 0 :: stream items := rfl

theorem stream_some (x : Tlv) (items : List (Option Tlv)) :
    stream (some x :: items) = x.bytes ++ stream items := rfl

theorem length_toNat (x : Tlv) : (UInt8.ofNat x.value.length).toNat = x.value.length := by
  have hshort := x.short
  rw [UInt8.toNat_ofNat']
  omega

theorem bytes_length (x : Tlv) : x.bytes.length = 2 + x.value.length := by
  unfold bytes
  rw [List.length_cons, List.length_cons]
  omega

end Tlv

/-- **The last one stays**: a fold that overwrites its value at certain elements ends with what
the last of them has left. -/
theorem foldl_keep_last {α β : Type} (keep : α → Bool) (value : α → β) (l : List α) (v : β) :
    l.foldl (fun v x => if keep x then value x else v) v
      = (l.filter keep).getLast?.elim v value := by
  induction l generalizing v with
  | nil => rfl
  | cons x l ih =>
      rw [List.foldl_cons, ih]
      by_cases hx : keep x = true
      · rw [if_pos hx, List.filter_cons_of_pos hx, List.getLast?_cons]
        cases (l.filter keep).getLast? with
        | none => rfl
        | some y => rfl
      · rw [if_neg hx, List.filter_cons_of_neg hx]

end MicroKernel.Lib
