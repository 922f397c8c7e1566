import MicroKernel.Lib.RingQueue

set_option autoImplicit false

/-! # The input queue of the keyboard (`drivers/char/kb.c`)

`input_queue_push` and `input_queue_pop`. Each runs under the lock of the queue, so any interleaving
of the interrupt handler and the shell is a sequence of whole calls.
-/

namespace MicroKernel.Shell

open MicroKernel.Lib

/-- `INPUT_QUEUE_SIZE`. -/
def inputQueueSize : Nat := 256

/-- `input_queue` with `input_queue_head` and `input_queue_tail`. -/
abbrev InputQueue := RingQueue UInt8 inputQueueSize

/-- The queue that the kernel starts with. -/
def emptyQueue : InputQueue where
  slots _ := 0
  head := 0
  tail := 0
  head_lt := by decide
  tail_lt := by decide

/-- `input_queue_push`. -/
def inputQueuePush (q : InputQueue) (ch : UInt8) : Bool × InputQueue :=
  let nextTail := (q.tail + 1) % inputQueueSize
  if nextTail = q.head then (false, q)
  else (true, { q with
    slots := Function.update q.slots q.tail ch
    tail := nextTail
    tail_lt := Nat.mod_lt _ (by decide) })

/-- `input_queue_pop`. -/
def inputQueuePop (q : InputQueue) : UInt8 × InputQueue :=
  if q.head = q.tail then (0, q)
  else (q.slots q.head, { q with
    head := (q.head + 1) % inputQueueSize
    head_lt := Nat.mod_lt _ (by decide) })

/-- `input_queue_empty`. -/
def inputQueueEmpty (q : InputQueue) : Bool := q.head = q.tail

/-! ## The two calls on lists -/

section calls

variable {q : InputQueue}

theorem inputQueueEmpty_iff : inputQueueEmpty q = true ↔ q.toList = [] := by
  rw [inputQueueEmpty, decide_eq_true_iff, RingQueue.toList_eq_nil]

theorem inputQueueEmpty_cons {ch : UInt8} {l : List UInt8} (h : q.toList = ch :: l) :
    inputQueueEmpty q = false := by
  rw [← Bool.not_eq_true, inputQueueEmpty_iff, h]
  exact List.cons_ne_nil ch l

theorem toList_emptyQueue : emptyQueue.toList = [] := RingQueue.toList_eq_nil.mpr rfl

theorem length_pending_le (q : InputQueue) : q.toList.length ≤ 255 := by
  rw [RingQueue.length_toList]
  exact Nat.le_of_lt_succ q.count_lt

theorem inputQueuePush_eq (q : InputQueue) (ch : UInt8) :
    inputQueuePush q ch = match q.push ch with
      | none => (false, q)
      | some q' => (true, q') := by
  unfold inputQueuePush RingQueue.push
  by_cases h : (q.tail + 1) % inputQueueSize = q.head
  · simp [RingQueue.next, h]
  · simp [RingQueue.next, h]

/-- A push on a full queue changes nothing. -/
theorem inputQueuePush_full (h : q.toList.length = 255) (ch : UInt8) :
    inputQueuePush q ch = (false, q) := by
  rw [inputQueuePush_eq, RingQueue.push_eq_none.mpr h]

/-- A push on any other queue appends the character. -/
theorem inputQueuePush_room (h : q.toList.length < 255) (ch : UInt8) :
    ∃ q', inputQueuePush q ch = (true, q') ∧ q'.toList = q.toList ++ [ch] := by
  rw [inputQueuePush_eq]
  cases hp : q.push ch with
  | none => exact absurd (RingQueue.push_eq_none.mp hp) h.ne
  | some q' => exact ⟨q', rfl, RingQueue.toList_push hp⟩

theorem inputQueuePop_eq (q : InputQueue) :
    inputQueuePop q = match q.pop with
      | none => (0, q)
      | some r => r := by
  unfold inputQueuePop RingQueue.pop
  by_cases h : q.head = q.tail
  · simp [h]
  · simp [RingQueue.next, h]

/-- A pop of an empty queue returns `'\0'` and changes nothing. -/
theorem inputQueuePop_nil (h : q.toList = []) : inputQueuePop q = (0, q) := by
  rw [inputQueuePop_eq, RingQueue.pop_eq_none.mpr h]

/-- A pop of any other queue takes the first character. -/
theorem inputQueuePop_cons {ch : UInt8} {l : List UInt8} (h : q.toList = ch :: l) :
    ∃ q', inputQueuePop q = (ch, q') ∧ q'.toList = l := by
  rw [inputQueuePop_eq]
  cases hp : q.pop with
  | none =>
      rw [RingQueue.pop_eq_none, h] at hp
      cases hp
  | some r =>
      obtain ⟨ch', q'⟩ := r
      have hlist := RingQueue.toList_pop hp
      rw [h] at hlist
      obtain ⟨rfl, rfl⟩ := List.cons.inj hlist
      exact ⟨q', rfl, rfl⟩

end calls

/-! ## Interleavings -/

/-- A call of the queue. -/
inductive QueueCall
  | push (ch : UInt8)
  | pop

/-- The queue, what was pushed successfully, and what was popped while the queue was not empty. -/
structure QueueRun where
  queue : InputQueue
  pushed : List UInt8
  popped : List UInt8

/-- The effect of a call. -/
def QueueRun.call (r : QueueRun) : QueueCall → QueueRun
  | .push ch =>
      let (pushed, q) := inputQueuePush r.queue ch
      { r with queue := q, pushed := if pushed then r.pushed ++ [ch] else r.pushed }
  | .pop =>
      let (ch, q) := inputQueuePop r.queue
      { r with queue := q, popped := if inputQueueEmpty r.queue then r.popped else r.popped ++ [ch] }

/-- Any interleaving of calls from the empty queue. -/
def runCalls (calls : List QueueCall) : QueueRun :=
  calls.foldl QueueRun.call ⟨emptyQueue, [], []⟩

/-- What was popped and what is pending is what was pushed. -/
theorem QueueRun.call_fifo (r : QueueRun) (h : r.popped ++ r.queue.toList = r.pushed)
    (c : QueueCall) : (r.call c).popped ++ (r.call c).queue.toList = (r.call c).pushed := by
  cases c with
  | push ch =>
      by_cases hfull : r.queue.toList.length = 255
      · simp [call, inputQueuePush_full hfull, h]
      · have hroom := Nat.lt_of_le_of_ne (length_pending_le r.queue) hfull
        obtain ⟨q', hpush, hlist⟩ := inputQueuePush_room hroom ch
        simp [call, hpush, hlist, ← h]
  | pop =>
      cases hq : r.queue.toList with
      | nil =>
          have hempty := inputQueueEmpty_iff.mpr hq
          simpa [call, inputQueuePop_nil hq, hempty] using h
      | cons ch l =>
          obtain ⟨q', hpop, hlist⟩ := inputQueuePop_cons hq
          simp [call, hpop, inputQueueEmpty_cons hq, hlist, ← h, hq]

theorem foldl_call_fifo (calls : List QueueCall) (r : QueueRun)
    (h : r.popped ++ r.queue.toList = r.pushed) :
    (calls.foldl QueueRun.call r).popped ++ (calls.foldl QueueRun.call r).queue.toList
      = (calls.foldl QueueRun.call r).pushed := by
  induction calls generalizing r with
  | nil => exact h
  | cons c calls ih => exact ih _ (r.call_fifo h c)

/-- **The queue is a bounded FIFO**, over every interleaving of pushes and pops. -/
theorem queue_fifo (calls : List QueueCall) :
    let r := runCalls calls
    r.popped ++ r.queue.toList = r.pushed ∧ r.queue.toList.length ≤ 255 ∧
    (∀ ch, (inputQueuePush r.queue ch).1 = false ↔ r.queue.toList.length = 255) ∧
    (∀ ch, (inputQueuePush r.queue ch).1 = false → (inputQueuePush r.queue ch).2 = r.queue) ∧
    (r.queue.toList = [] → inputQueuePop r.queue = (0, r.queue)) := by
  intro r
  have hfails : ∀ ch, (inputQueuePush r.queue ch).1 = false ↔ r.queue.toList.length = 255 := by
    intro ch
    constructor
    · intro hfail
      by_contra hne
      have hroom := Nat.lt_of_le_of_ne (length_pending_le r.queue) hne
      obtain ⟨q', hpush, -⟩ := inputQueuePush_room hroom ch
      rw [hpush] at hfail
      cases hfail
    · intro hfull
      rw [inputQueuePush_full hfull]
  refine ⟨foldl_call_fifo calls ⟨emptyQueue, [], []⟩ ?_, length_pending_le r.queue, hfails,
    fun ch hfail => ?_, inputQueuePop_nil⟩
  · rw [toList_emptyQueue]
    rfl
  · rw [inputQueuePush_full ((hfails ch).mp hfail)]

end MicroKernel.Shell
