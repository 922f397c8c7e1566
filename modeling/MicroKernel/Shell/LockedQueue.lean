import MicroKernel.Lib.Spinlock
import MicroKernel.Shell.Queue

set_option autoImplicit false

/-! # The input queue between processors and interrupts (`kb.c`, `include/lib/spinlock.h`)

`input_queue_push` and `input_queue_pop` access the volatile variables of the queue one after the
other: `QueueAccess` names what an access has still in front of it. Between two accesses other processors run,
and in front of `cli` also interrupts. `Lib.Spinlock` is the lock that the calls take.
-/

namespace MicroKernel.Shell

open MicroKernel.Lib

/-- The result of a call. -/
inductive QueueResult
  | pushed (ok : Bool)
  | popped (ch : UInt8)
  deriving DecidableEq

/-- The next access to the queue, with the local variables of the call. -/
inductive QueueAccess
  | pushReadTail (ch : UInt8)
  | pushReadHead (ch : UInt8) (nextTail : Fin inputQueueSize)
  | pushReadSlot (ch : UInt8) (nextTail : Fin inputQueueSize)
  | pushWriteSlot (ch : UInt8) (nextTail : Fin inputQueueSize) (slot : Nat)
  | pushWriteTail (nextTail : Fin inputQueueSize)
  | popReadHead
  | popReadTail (head : Nat)
  | popReadSlot
  | popReadChar (slot : Nat)
  | popReadNext (ch : UInt8)
  | popWriteHead (ch : UInt8) (nextHead : Fin inputQueueSize)

/-- `(index + 1) % INPUT_QUEUE_SIZE`. -/
def nextIndex (index : Nat) : Fin inputQueueSize :=
  ⟨(index + 1) % inputQueueSize, Nat.mod_lt _ (by decide)⟩

/-- The accesses of `input_queue_push` and `input_queue_pop` between the two calls of the lock. -/
def queueAccess (a : QueueAccess) (q : InputQueue) : (QueueAccess ⊕ QueueResult) × InputQueue :=
  match a with
  | .pushReadTail ch => (.inl (.pushReadHead ch (nextIndex q.tail)), q)
  | .pushReadHead ch nextTail =>
      if nextTail.val = q.head then (.inr (.pushed false), q)
      else (.inl (.pushReadSlot ch nextTail), q)
  | .pushReadSlot ch nextTail => (.inl (.pushWriteSlot ch nextTail q.tail), q)
  | .pushWriteSlot ch nextTail slot =>
      (.inl (.pushWriteTail nextTail), { q with slots := Function.update q.slots slot ch })
  | .pushWriteTail nextTail =>
      (.inr (.pushed true), { q with tail := nextTail.val, tail_lt := nextTail.isLt })
  | .popReadHead => (.inl (.popReadTail q.head), q)
  | .popReadTail head =>
      if head = q.tail then (.inr (.popped 0), q) else (.inl .popReadSlot, q)
  | .popReadSlot => (.inl (.popReadChar q.head), q)
  | .popReadChar slot => (.inl (.popReadNext (q.slots slot)), q)
  | .popReadNext ch => (.inl (.popWriteHead ch (nextIndex q.head)), q)
  | .popWriteHead ch nextHead =>
      (.inr (.popped ch), { q with head := nextHead.val, head_lt := nextHead.isLt })

/-- The queue as an object that processors share. -/
def queueObject : SharedObject QueueCall QueueResult InputQueue where
  Loc := QueueAccess
  start
    | .push ch => .pushReadTail ch
    | .pop => .popReadHead
  access := queueAccess

/-- A whole call. -/
def queueCall (c : QueueCall) (q : InputQueue) : QueueResult × InputQueue :=
  match c with
  | .push ch => (.pushed (inputQueuePush q ch).1, (inputQueuePush q ch).2)
  | .pop => (.popped (inputQueuePop q).1, (inputQueuePop q).2)

/-- **The accesses make the call**, when nothing comes between them. -/
theorem queueObject_implements : queueObject.Implements queueCall := by
  intro c q
  cases c with
  | push ch =>
      have hfirst : Relation.ReflTransGen queueObject.Goes (.pushReadTail ch, q)
          (.pushReadHead ch (nextIndex q.tail), q) := .single rfl
      by_cases hfull : (q.tail + 1) % inputQueueSize = q.head
      · have hcall : queueCall (.push ch) q = (.pushed false, q) := by
          unfold queueCall inputQueuePush
          simp [hfull]
        refine ⟨_, hfirst, ?_⟩
        rw [hcall]
        exact if_pos hfull
      · have hhead : queueObject.Goes (.pushReadHead ch (nextIndex q.tail), q)
            (.pushReadSlot ch (nextIndex q.tail), q) := if_neg hfull
        have hslot : queueObject.Goes (.pushReadSlot ch (nextIndex q.tail), q)
            (.pushWriteSlot ch (nextIndex q.tail) q.tail, q) := rfl
        have hwrite : queueObject.Goes (.pushWriteSlot ch (nextIndex q.tail) q.tail, q)
            (.pushWriteTail (nextIndex q.tail),
              { q with slots := Function.update q.slots q.tail ch }) := rfl
        refine ⟨_, ((hfirst.tail hhead).tail hslot).tail hwrite, ?_⟩
        unfold queueCall inputQueuePush
        simp only [hfull, if_false]
        rfl
  | pop =>
      have hfirst : Relation.ReflTransGen queueObject.Goes (.popReadHead, q)
          (.popReadTail q.head, q) := .single rfl
      by_cases hempty : q.head = q.tail
      · have hcall : queueCall .pop q = (.popped 0, q) := by
          unfold queueCall inputQueuePop
          simp [hempty]
        refine ⟨_, hfirst, ?_⟩
        rw [hcall]
        exact if_pos hempty
      · have htail : queueObject.Goes (.popReadTail q.head, q) (.popReadSlot, q) := if_neg hempty
        have hslot : queueObject.Goes (.popReadSlot, q) (.popReadChar q.head, q) := rfl
        have hchar : queueObject.Goes (.popReadChar q.head, q)
            (.popReadNext (q.slots q.head), q) := rfl
        have hnext : queueObject.Goes (.popReadNext (q.slots q.head), q)
            (.popWriteHead (q.slots q.head) (nextIndex q.head), q) := rfl
        refine ⟨_, (((hfirst.tail htail).tail hslot).tail hchar).tail hnext, ?_⟩
        unfold queueCall inputQueuePop
        simp only [hempty, if_false]
        rfl

/-- Whole calls, as the runs of the queue count them. -/
theorem runWhole_queueCall (calls : List QueueCall) (r : QueueRun) :
    (SharedObject.runWhole queueCall r.queue calls).2 = (calls.foldl QueueRun.call r).queue := by
  induction calls generalizing r with
  | nil => rfl
  | cons c calls ih =>
      have hcall : (r.call c).queue = (queueCall c r.queue).2 := by
        cases c with
        | push ch => rfl
        | pop => rfl
      rw [List.foldl_cons, ← ih, hcall]
      rfl

section locked

variable {P : Type} [DecidableEq P] {m₀ m : Machine queueObject P}

/-- **The lock makes the calls atomic.** Whatever the steps of any number of processors and of their
interrupt handlers are: one processor at most is between taking and giving back the lock; the calls
that have left it have the results that they have one after the other, in the order in which they left,
and what was popped and what is pending is what was pushed; the interrupt flag is restored to what it
was before the call; and a processor that spins can get in. -/
theorem queue_linearizable (h₀ : m₀.Initial emptyQueue) (hr : m₀.Reaches m) :
    (∀ p q, (m.processors p).top.holds = true → (m.processors q).top.holds = true → p = q) ∧
    (∃ q, SharedObject.runWhole queueCall emptyQueue (m.history.map Prod.fst)
        = (m.history.map Prod.snd, q) ∧ (m.lock = 0 → m.memory = q)) ∧
    (m.lock = 0 → (runCalls (m.history.map Prod.fst)).popped ++ m.memory.toList
      = (runCalls (m.history.map Prod.fst)).pushed) ∧
    (∀ p before saved r, (m.processors p).top = .restoring before saved r → saved = before) ∧
    ∀ p k before saved, (m.processors p).top = .spinning k before saved →
      ∃ m', m.Reaches m' ∧
        (m'.processors p).top = .inside k before saved (queueObject.start k) := by
  have hsound := hr.sound h₀.sound
  have hfree : m.lock = 0 → queueObject.History emptyQueue m.history m.memory :=
    fun hlock => hsound.atomic.history fun p => Machine.ne_inside (hsound.free.mp hlock p)
  refine ⟨hsound.alone, ?_, fun hlock => ?_, fun p before saved r hp => ?_, fun p k before saved => ?_⟩
  · obtain ⟨q, hhist, -⟩ := id hsound.atomic
    have hwhole := hhist.eq_runWhole queueObject_implements
    refine ⟨q, hwhole, fun hlock => ?_⟩
    have hnow := (hfree hlock).eq_runWhole queueObject_implements
    exact (Prod.ext_iff.mp (hnow.symm.trans hwhole)).2
  · have hnow := (hfree hlock).eq_runWhole queueObject_implements
    have hqueue := runWhole_queueCall (m.history.map Prod.fst) ⟨emptyQueue, [], []⟩
    rw [hnow] at hqueue
    have hfifo := foldl_call_fifo (m.history.map Prod.fst) ⟨emptyQueue, [], []⟩ toList_emptyQueue
    rw [← hqueue] at hfifo
    exact hfifo
  · have hfit := (hsound.fits p).top
    rw [hp] at hfit
    exact hfit.2
  · exact hsound.can_enter fun c q => ⟨_, _, queueObject_implements c q⟩

end locked

/-- Two processors with interrupts enabled. -/
def twoProcessors : Machine queueObject Bool where
  processors _ := ⟨true, .idle, []⟩
  lock := 0
  memory := emptyQueue
  history := []

theorem twoProcessors_initial : twoProcessors.Initial emptyQueue :=
  ⟨fun _ => ⟨rfl, rfl⟩, rfl, rfl, rfl⟩

/-- One processor has taken the lock for a push, the other one spins for a pop. -/
theorem twoProcessors_reaches : ∃ m, twoProcessors.Reaches m ∧
    (m.processors true).top = .inside (.push 0x61) true true (.pushReadTail 0x61) ∧
    (m.processors false).top = .spinning .pop true true := by
  have s1 : Machine.Step true twoProcessors _ := .own (.call (QueueCall.push 0x61) true [])
  have h1 : twoProcessors.Reaches _ := .single ⟨true, s1⟩
  have h2 := h1.tail ⟨true, .own (.readFlags (QueueCall.push 0x61) true true [])⟩
  have h3 := h2.tail ⟨true, .own (.cli (QueueCall.push 0x61) true true true [])⟩
  have h4 := h3.tail ⟨true, .testAndSet rfl⟩
  have h5 := h4.tail ⟨false, .own (.call QueueCall.pop true [])⟩
  have h6 := h5.tail ⟨false, .own (.readFlags QueueCall.pop true true [])⟩
  have h7 := h6.tail ⟨false, .own (.cli QueueCall.pop true true true [])⟩
  exact ⟨_, h7, rfl, rfl⟩

/-- The processor that spins gets in. -/
theorem queue_linearizable_two : ∃ m m', twoProcessors.Reaches m ∧
    (m.processors true).top = .inside (.push 0x61) true true (.pushReadTail 0x61) ∧
    m.Reaches m' ∧ (m'.processors false).top = .inside .pop true true .popReadHead := by
  obtain ⟨m, hr, hin, hspin⟩ := twoProcessors_reaches
  obtain ⟨-, -, -, -, henter⟩ := queue_linearizable twoProcessors_initial hr
  obtain ⟨m', hr', hpop⟩ := henter false .pop true true hspin
  exact ⟨m, m', hr, hin, hr', hpop⟩

end MicroKernel.Shell
