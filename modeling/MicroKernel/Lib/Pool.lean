import Mathlib.Order.Bounds.Basic
import Mathlib.Tactic

set_option autoImplicit false

/-! # Allocators of numbered units

An allocator hands out the units `lo, …, hi - 1` of a pool one by one, and takes them back. What
it may do is said over its history alone: the units in use are those that were handed out and not
taken back since, and a call hands out the lowest unit that is not in use.

`lawful_history` is the induction over a history: an implementation whose single calls are lawful
for the units that its state marks as used is lawful over every sequence of calls.
-/

namespace MicroKernel.Lib

/-- What a call of an allocator did. -/
inductive PoolEvent
  | allocated (k : Nat)
  | exhausted
  | freed (k : Nat)
  | ignored

namespace PoolEvent

/-- The units in use after the event. -/
def apply (used : Set Nat) : PoolEvent → Set Nat
  | allocated k => insert k used
  | exhausted => used
  | freed k => used \ {k}
  | ignored => used

/-- The event is one that an allocator of `lo, …, hi - 1` may show while `used` is in use. -/
def Lawful (lo hi : Nat) (used : Set Nat) : PoolEvent → Prop
  | allocated k => IsLeast {j | lo ≤ j ∧ j < hi ∧ j ∉ used} k
  | exhausted => ∀ j, lo ≤ j → j < hi → j ∈ used
  | freed _ => True
  | ignored => True

end PoolEvent

/-- Every event of a history is lawful after those before it. -/
def LawfulHistory (lo hi : Nat) : Set Nat → List PoolEvent → Prop
  | _, [] => True
  | used, e :: es => e.Lawful lo hi used ∧ LawfulHistory lo hi (e.apply used) es

/-- The calls of a run, each with its answer. -/
def trace {σ C A : Type} (step : σ → C → σ × A) : σ → List C → List (C × A)
  | _, [] => []
  | s, c :: cs => (c, (step s c).2) :: trace step (step s c).1 cs

/-- Two sets hold the same units of the pool. -/
def SameUnits (lo hi : Nat) (used used' : Set Nat) : Prop :=
  ∀ j, lo ≤ j → j < hi → (j ∈ used ↔ j ∈ used')

section history

variable {lo hi : Nat} {used used' : Set Nat}

theorem SameUnits.apply (h : SameUnits lo hi used used') (e : PoolEvent) :
    SameUnits lo hi (e.apply used) (e.apply used') := by
  intro j h1 h2
  cases e with
  | allocated k => simp [PoolEvent.apply, h j h1 h2]
  | exhausted => exact h j h1 h2
  | freed k => simp [PoolEvent.apply, h j h1 h2]
  | ignored => exact h j h1 h2

/-- Whether an event is lawful depends on the units of the pool only. -/
theorem SameUnits.lawful (h : SameUnits lo hi used used') {e : PoolEvent}
    (he : e.Lawful lo hi used) : e.Lawful lo hi used' := by
  cases e with
  | allocated k =>
      obtain ⟨⟨h1, h2, h3⟩, hleast⟩ := he
      refine ⟨⟨h1, h2, (h k h1 h2).not.mp h3⟩, ?_⟩
      rintro j ⟨h4, h5, h6⟩
      exact hleast ⟨h4, h5, (h j h4 h5).not.mpr h6⟩
  | exhausted => exact fun j h1 h2 => (h j h1 h2).mp (he j h1 h2)
  | freed k => trivial
  | ignored => trivial

variable {σ C A : Type} {step : σ → C → σ × A} {event : C → A → PoolEvent} {s : σ} {cs : List C}

/-- **Histories**: when every call does to the marked units what its event says, and the event is
lawful for them, then the history of any sequence of calls is lawful. -/
theorem lawful_history (marked : σ → Set Nat)
    (hstep : ∀ (s : σ), ∀ c ∈ cs, (event c (step s c).2).Lawful lo hi (marked s) ∧
      SameUnits lo hi (marked (step s c).1) ((event c (step s c).2).apply (marked s)))
    (hs : SameUnits lo hi (marked s) used) :
    LawfulHistory lo hi used ((trace step s cs).map fun r => event r.1 r.2) := by
  induction cs generalizing s used with
  | nil => trivial
  | cons c cs ih =>
      obtain ⟨hlawful, hmarked⟩ := hstep s c List.mem_cons_self
      refine ⟨hs.lawful hlawful, ih (fun s c hc => hstep s c (List.mem_cons_of_mem _ hc)) ?_⟩
      intro j h1 h2
      exact (hmarked j h1 h2).trans (hs.apply _ j h1 h2)

/-- What holds of the answer to every call holds of the answers in a run. -/
theorem of_mem_trace {P : C → A → Prop} (h : ∀ s c, P c (step s c).2) {r : C × A}
    (hr : r ∈ trace step s cs) : P r.1 r.2 := by
  induction cs generalizing s with
  | nil => cases hr
  | cons c cs ih =>
      rcases List.mem_cons.mp hr with rfl | hr
      · exact h s c
      · exact ih hr

end history

end MicroKernel.Lib
