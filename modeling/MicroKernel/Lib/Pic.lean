import Mathlib.Data.List.FinRange
import Mathlib.Logic.Function.Basic

set_option autoImplicit false

/-! # A pair of interrupt controllers

Two 8259A, the second one on line 2 of the first. A controller remembers which lines have requested an
interrupt and which are in service, and delivers the first request that is not masked and has no line of
the same or a higher priority in service. Line 0 goes first. It obeys two commands, 0x11 (initialise, the
words for the data port follow) and 0x20 (the first line in service ends).

`PicPair.next` is the interrupt that the processor gets when it asks.
-/

namespace MicroKernel.Lib

/-- What the data port waits for. -/
inductive PicPhase
  | operation
  | icw2
  | icw3
  | icw4
  deriving DecidableEq

/-- The registers of a controller, with a bit for each line. -/
structure Pic where
  request : Fin 8 → Bool
  service : Fin 8 → Bool
  mask : Fin 8 → Bool
  base : UInt8
  phase : PicPhase

namespace Pic

/-- The line may interrupt. -/
def Deliverable (p : Pic) (n : Fin 8) : Prop :=
  p.request n = true ∧ p.mask n = false ∧ ∀ k ≤ n, p.service k = false

instance (p : Pic) (n : Fin 8) : Decidable (p.Deliverable n) :=
  inferInstanceAs (Decidable (_ ∧ _ ∧ _))

/-- The line that interrupts. -/
def pending (p : Pic) : Option (Fin 8) := (List.finRange 8).find? fun n => decide (p.Deliverable n)

/-- A device has requested an interrupt. -/
def raise (p : Pic) (n : Fin 8) : Pic := { p with request := Function.update p.request n true }

/-- The processor takes the interrupt. -/
def acknowledge (p : Pic) (n : Fin 8) : Pic :=
  { p with
    request := Function.update p.request n false
    service := Function.update p.service n true }

/-- The first line in service ends. -/
def endOfInterrupt (p : Pic) : Pic :=
  match (List.finRange 8).find? p.service with
  | none => p
  | some n => { p with service := Function.update p.service n false }

/-- A byte for the command port. -/
def command (p : Pic) (value : UInt8) : Pic :=
  if value = 0x11 then
    ⟨fun _ => false, fun _ => false, fun _ => false, p.base, .icw2⟩
  else if value = 0x20 then p.endOfInterrupt
  else p

/-- A byte for the data port. -/
def data (p : Pic) (value : UInt8) : Pic :=
  match p.phase with
  | .operation => { p with mask := fun n => value.toNat.testBit n }
  | .icw2 => { p with base := value &&& 0xF8, phase := .icw3 }
  | .icw3 => { p with phase := .icw4 }
  | .icw4 => { p with phase := .operation }

/-- No line is in service. -/
def Idle (p : Pic) : Prop := ∀ n, p.service n = false

variable {p : Pic} {n k : Fin 8}

theorem deliverable_of_pending (h : p.pending = some n) : p.Deliverable n := by
  simpa using List.find?_some h

theorem pending_eq_none : p.pending = none ↔ ∀ n, ¬ p.Deliverable n := by
  simp [pending, List.find?_eq_none]

theorem pending_isSome : p.pending.isSome = true ↔ ∃ n, p.Deliverable n := by
  rw [Option.isSome_iff_ne_none, ne_eq, pending_eq_none]
  exact not_forall_not

theorem Idle.deliverable_iff (h : p.Idle) :
    p.Deliverable n ↔ p.request n = true ∧ p.mask n = false :=
  ⟨fun hd => ⟨hd.1, hd.2.1⟩, fun hr => ⟨hr.1, hr.2, fun k _ => h k⟩⟩

/-- In operation the data port takes the mask. -/
theorem data_operation (h : p.phase = .operation) (value : UInt8) :
    p.data value = { p with mask := fun n => value.toNat.testBit n } := by
  obtain ⟨request, service, mask, base, phase⟩ := p
  obtain rfl : phase = .operation := h
  rfl

/-! ## The end of an interrupt -/

theorem endOfInterrupt_idle (h : p.Idle) : p.endOfInterrupt = p := by
  have hnone : (List.finRange 8).find? p.service = none := by
    rw [List.find?_eq_none]
    intro n _
    rw [h n]
    decide
  unfold endOfInterrupt
  rw [hnone]

/-- The line that ends is in service, and none before it is. -/
theorem endOfInterrupt_service (hn : p.service n = true) (hfirst : ∀ k < n, p.service k = false) :
    p.endOfInterrupt = { p with service := Function.update p.service n false } := by
  have hfind : (List.finRange 8).find? p.service = some n := by
    rw [List.find?_eq_some_iff_getElem]
    refine ⟨hn, n.val, by simp, by simp, fun j hj => ?_⟩
    have hlt : (⟨j, by omega⟩ : Fin 8) < n := hj
    simpa using hfirst _ hlt
  unfold endOfInterrupt
  rw [hfind]

/-- Taking an interrupt and ending it leaves no line in service. -/
theorem endOfInterrupt_acknowledge (h : p.Idle) (n : Fin 8) :
    (p.acknowledge n).endOfInterrupt = { p with request := Function.update p.request n false } := by
  have hn : (p.acknowledge n).service n = true := Function.update_self ..
  have hfirst : ∀ k < n, (p.acknowledge n).service k = false := fun k hk =>
    (Function.update_of_ne hk.ne _ _).trans (h k)
  have hservice : Function.update (p.acknowledge n).service n false = p.service := by
    funext k
    by_cases hkn : k = n
    · rw [hkn, Function.update_self, h n]
    · rw [Function.update_of_ne hkn]
      exact Function.update_of_ne hkn ..
  rw [endOfInterrupt_service hn hfirst, hservice]
  rfl

theorem Idle.acknowledge_end (h : p.Idle) (n : Fin 8) : (p.acknowledge n).endOfInterrupt.Idle := by
  rw [endOfInterrupt_acknowledge h]
  exact h

/-- Several ends do what one does when nothing else is in service. -/
theorem endOfInterrupt_iterate (h : p.endOfInterrupt.Idle) (j : Nat) :
    endOfInterrupt^[j + 1] p = p.endOfInterrupt := by
  induction j with
  | zero => rfl
  | succ j ih => rw [Function.iterate_succ_apply', ih, endOfInterrupt_idle h]

@[simp] theorem request_endOfInterrupt (p : Pic) : p.endOfInterrupt.request = p.request := by
  unfold endOfInterrupt
  split <;> rfl

@[simp] theorem mask_endOfInterrupt (p : Pic) : p.endOfInterrupt.mask = p.mask := by
  unfold endOfInterrupt
  split <;> rfl

@[simp] theorem base_endOfInterrupt (p : Pic) : p.endOfInterrupt.base = p.base := by
  unfold endOfInterrupt
  split <;> rfl

@[simp] theorem phase_endOfInterrupt (p : Pic) : p.endOfInterrupt.phase = p.phase := by
  unfold endOfInterrupt
  split <;> rfl

end Pic

/-! ## The pair -/

/-- The line of the first controller that the second one is on. -/
def cascadeLine : Fin 8 := ⟨2, by decide⟩

/-- A line of one of the controllers. -/
inductive Irq
  | master (n : Fin 8)
  | slave (k : Fin 8)
  deriving DecidableEq

/-- The number of the line. -/
def Irq.number : Irq → Nat
  | master n => n
  | slave k => 8 + k

/-- The two controllers. -/
structure PicPair where
  master : Pic
  slave : Pic

namespace PicPair

/-- The first controller, with the request of the second one on its line. -/
def cascaded (p : PicPair) : Pic :=
  { p.master with request := Function.update p.master.request cascadeLine p.slave.pending.isSome }

/-- The interrupt that is delivered. -/
def next (p : PicPair) : Option Irq :=
  match p.cascaded.pending with
  | none => none
  | some n => if n = cascadeLine then p.slave.pending.map Irq.slave else some (Irq.master n)

/-- The line has a request. -/
def requested (p : PicPair) : Irq → Bool
  | .master n => p.master.request n
  | .slave k => p.slave.request k

/-- The line is masked. -/
def masked (p : PicPair) : Irq → Bool
  | .master n => p.master.mask n
  | .slave k => p.slave.mask k || p.master.mask cascadeLine

/-- A device requests an interrupt. -/
def raise (p : PicPair) : Irq → PicPair
  | .master n => { p with master := p.master.raise n }
  | .slave k => { p with slave := p.slave.raise k }

/-- The processor takes the interrupt. -/
def acknowledge (p : PicPair) : Irq → PicPair
  | .master n => { p with master := p.master.acknowledge n }
  | .slave k => ⟨{ p.master with service := Function.update p.master.service cascadeLine true },
      p.slave.acknowledge k⟩

/-- The vector of the interrupt. -/
def vector (p : PicPair) : Irq → UInt8
  | .master n => p.master.base + UInt8.ofNat n
  | .slave k => p.slave.base + UInt8.ofNat k

/-- No line is in service. -/
def Idle (p : PicPair) : Prop := p.master.Idle ∧ p.slave.Idle

variable {p : PicPair} {irq : Irq}

theorem cascaded_request_line (p : PicPair) :
    p.cascaded.request cascadeLine = p.slave.pending.isSome := by simp [cascaded]

theorem cascaded_request_ne {n : Fin 8} (h : n ≠ cascadeLine) :
    p.cascaded.request n = p.master.request n := by simp [cascaded, h]

theorem next_eq_slave {k : Fin 8} (h : p.next = some (.slave k)) :
    p.slave.Deliverable k ∧ p.cascaded.Deliverable cascadeLine := by
  unfold next at h
  split at h
  · cases h
  next n hn =>
    split at h
    next heq =>
      obtain ⟨k', hk', hirq⟩ := Option.map_eq_some_iff.mp h
      cases hirq
      exact ⟨Pic.deliverable_of_pending hk', heq ▸ Pic.deliverable_of_pending hn⟩
    next => cases h

theorem next_eq_master {n : Fin 8} (h : p.next = some (.master n)) :
    n ≠ cascadeLine ∧ p.master.Deliverable n := by
  unfold next at h
  split at h
  · cases h
  next n' hn =>
    split at h
    next heq =>
      obtain ⟨k', -, hirq⟩ := Option.map_eq_some_iff.mp h
      cases hirq
    next hne =>
      cases h
      obtain ⟨hr, hm, hs⟩ := Pic.deliverable_of_pending hn
      exact ⟨hne, (cascaded_request_ne hne).symm.trans hr, hm, hs⟩

/-- What is delivered was requested and is not masked. -/
theorem requested_of_next (h : p.next = some irq) : p.requested irq = true ∧ p.masked irq = false := by
  cases irq with
  | master n =>
      obtain ⟨-, hr, hm, -⟩ := next_eq_master h
      exact ⟨hr, hm⟩
  | slave k =>
      obtain ⟨⟨hr, hm, -⟩, -, hm', -⟩ := next_eq_slave h
      exact ⟨hr, by rw [masked, hm]; exact hm'⟩

theorem next_isSome : p.next.isSome = true ↔ ∃ n, p.cascaded.Deliverable n := by
  rw [← Pic.pending_isSome]
  unfold next
  cases hn : p.cascaded.pending with
  | none => simp
  | some n =>
      dsimp only
      split
      next heq =>
        -- the request on this line is that of the second controller
        have hr := (Pic.deliverable_of_pending hn).1
        rw [heq] at hr
        have hsome : p.slave.pending.isSome = true := p.cascaded_request_line.symm.trans hr
        simp [hsome]
      next => simp

/-- **Nothing waits for nothing**: when no line is in service, an interrupt is delivered as soon as one is
requested on a line that is not masked. -/
theorem Idle.next_isSome (h : p.Idle) :
    p.next.isSome = true ↔
      ∃ irq, irq ≠ .master cascadeLine ∧ p.requested irq = true ∧ p.masked irq = false := by
  rw [PicPair.next_isSome]
  have hidle : p.cascaded.Idle := h.1
  constructor
  · rintro ⟨n, hn⟩
    obtain ⟨hr, hm⟩ := hidle.deliverable_iff.mp hn
    by_cases hcascade : n = cascadeLine
    · rw [hcascade] at hr hm
      have hsome : p.slave.pending.isSome = true := p.cascaded_request_line.symm.trans hr
      obtain ⟨k, hk⟩ := Pic.pending_isSome.mp hsome
      obtain ⟨hkr, hkm⟩ := h.2.deliverable_iff.mp hk
      exact ⟨.slave k, by simp, hkr, by rw [masked, hkm]; exact hm⟩
    · exact ⟨.master n, by simpa using hcascade, (cascaded_request_ne hcascade).symm.trans hr, hm⟩
  · rintro ⟨irq, hne, hr, hm⟩
    cases irq with
    | master n =>
        have hcascade : n ≠ cascadeLine := by simpa using hne
        exact ⟨n, hidle.deliverable_iff.mpr ⟨(cascaded_request_ne hcascade).trans hr, hm⟩⟩
    | slave k =>
        rw [masked, Bool.or_eq_false_iff] at hm
        have hsome := Pic.pending_isSome.mpr ⟨k, h.2.deliverable_iff.mpr ⟨hr, hm.1⟩⟩
        exact ⟨cascadeLine, hidle.deliverable_iff.mpr ⟨p.cascaded_request_line.trans hsome, hm.2⟩⟩

end PicPair

end MicroKernel.Lib
