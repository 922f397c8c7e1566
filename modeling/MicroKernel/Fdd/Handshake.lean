import MicroKernel.Fdd.Driver

set_option autoImplicit false

/-! # Bytes to and from the floppy controller

The controller is never busy for longer than the driver waits. The driver does not know for how long
it is busy, so the lemmas on the steps of the driver say in which phase the controller is, and bound
the time for which it is busy (`At`).
-/

namespace MicroKernel.Fdd

open MicroKernel.Lib Floppy Floppy.Controller Bytes

/-- The machine with another state of the controller. -/
def Machine.set (m : Machine) (c : Controller) : Machine := { m with controller := c }

/-- The machine with another value of `irq_triggered`. -/
def Machine.withIrq (m : Machine) (b : Bool) : Machine := { m with irqTriggered := b }

/-- The machine is `m₀` but for the controller, which is `c` but for its times; it is in the phase
`phase`, busy for `k` units of time at most. -/
def At (m₀ : Machine) (c : Controller) (phase : Phase) (k : Nat) (m : Machine) : Prop :=
  ∃ b p, b ≤ k ∧ (∀ n, p n < 100) ∧ m = m₀.set (timed c phase b p)

section steps

variable {m₀ m : Machine} {c c' : Controller} {phase : Phase} {k n : Nat}

theorem At.mono (h : At m₀ c phase k m) (hk : k ≤ n) : At m₀ c phase n m := by
  obtain ⟨b, p, hb, hp, rfl⟩ := h
  exact ⟨b, p, hb.trans hk, hp, rfl⟩

theorem At.controller (h : At m₀ c phase k m) : m.controller.phase = phase := by
  obtain ⟨b, p, hb, hp, rfl⟩ := h
  rfl

/-- The machine itself is where its controller is. -/
theorem At.self (hbusy : m.controller.busy ≤ k) (hpauses : ∀ n, m.controller.pauses n < 100) :
    At m m.controller m.controller.phase k m := ⟨_, _, hbusy, hpauses, rfl⟩

/-- `irq_triggered` gets a value. -/
theorem At.setIrq (h : At m₀ c phase k m) (b : Bool) :
    ∃ m', (setIrqTriggered b).run () m = some ((), m') ∧ At (m₀.withIrq b) c phase k m' := by
  obtain ⟨b', p, hb, hp, rfl⟩ := h
  exact ⟨_, rfl, b', p, hb, hp, rfl⟩

/-- The digital output register is written, and there is no reset. -/
theorem At.writeDor {value : Nat} (h : At m₀ c phase k m) (hbit : value.testBit 2 = true)
    (hphase : phase ≠ .held) :
    ∃ m', (onController (Controller.writeDor value)).run () m = some ((), m') ∧
      At m₀ { c with dor := value } phase k m' := by
  obtain ⟨b, p, hb, hp, rfl⟩ := h
  have hwritten : (timed c phase b p).writeDor value = timed { c with dor := value } phase b p := by
    unfold Controller.writeDor
    rw [if_pos hbit]
    cases hp : phase with
    | held => exact absurd hp hphase
    | idle => rfl
    | command got => rfl
    | executing job => rfl
    | result left => rfl
  refine ⟨_, rfl, b, p, hb, hp, ?_⟩
  rw [← hwritten]
  rfl

/-! ## Time -/

theorem tick_set (hphase : ∀ job, phase ≠ .executing job) (b : Nat) (p : Nat → Nat) :
    (m₀.set (timed c phase b p)).tick = m₀.set (timed c phase (b - 1) p) := by
  have htick : (timed c phase b p).tick = (timed c phase (b - 1) p, false) := by
    unfold tick
    cases hp : phase with
    | executing job => exact absurd hp (hphase job)
    | held => rfl
    | idle => rfl
    | command got => rfl
    | result left => rfl
  unfold Machine.tick Machine.set
  rw [htick]
  simp

theorem iterate_tick_set (hphase : ∀ job, phase ≠ .executing job) (b : Nat) (p : Nat → Nat) :
    Machine.tick^[n] (m₀.set (timed c phase b p)) = m₀.set (timed c phase (b - n) p) := by
  induction n generalizing b with
  | zero => rfl
  | succ n ih =>
      rw [Function.iterate_succ_apply, tick_set hphase, ih, Nat.sub_sub, Nat.add_comm 1 n]

/-- A delay lets the controller become ready. -/
theorem At.delay (h : At m₀ c phase k m) (hphase : ∀ job, phase ≠ .executing job) (ms : Nat) :
    ∃ m', (delayMs ms).run () m = some ((), m') ∧ At m₀ c phase (k - ms) m' := by
  obtain ⟨b, p, hb, hp, rfl⟩ := h
  refine ⟨_, rfl, b - ms, p, Nat.sub_le_sub_right hb ms, hp, ?_⟩
  exact iterate_tick_set hphase b p

/-! ## Waiting for the request -/

/-- A loop waits while the controller is busy, and no longer. -/
theorem run_fdcWait {ready : UInt8 → Bool} {p : Nat → Nat} (hphase : ∀ job, phase ≠ .executing job)
    (hbusy : ∀ b, 0 < b → ready (timed c phase b p).status = false)
    (hcalm : ready (timed c phase 0 p).status = true) {b : Nat} (hb : b < n) :
    (fdcWait ready n).run () (m₀.set (timed c phase b p)) = some (true, m₀.set (timed c phase 0 p)) := by
  induction n generalizing b with
  | zero => omega
  | succ n ih =>
      have hstatus : fdcGetStatus.run () (m₀.set (timed c phase b p))
          = some ((timed c phase b p).status, m₀.set (timed c phase b p)) := rfl
      rw [fdcWait, Prog.run_bind_of_some () _ hstatus, Prog.run_ite]
      cases b with
      | zero =>
          rw [if_pos hcalm]
          rfl
      | succ b =>
          have hdelay : (delayMs 1).run () (m₀.set (timed c phase (b + 1) p))
              = some ((), m₀.set (timed c phase b p)) := by
            change some ((), Machine.tick^[1] _) = _
            rw [iterate_tick_set hphase]
            rfl
          rw [if_neg (by rw [hbusy _ (Nat.succ_pos b)]; decide), Prog.run_bind_of_some () _ hdelay]
          exact ih (by omega)

/-- The phase behind the bytes `got` of a command. -/
def taking (got : List UInt8) : Phase := if got = [] then .idle else .command got

theorem taking_snoc (got : List UInt8) (value : UInt8) :
    taking (got ++ [value]) = .command (got ++ [value]) :=
  if_neg (List.append_ne_nil_of_right_ne_nil got (by simp))

theorem taking_ne_executing (got : List UInt8) (job : Job) : taking got ≠ .executing job := by
  unfold taking
  split <;> simp

theorem status_taking (got : List UInt8) (b : Nat) (p : Nat → Nat) :
    (timed c (taking got) b p).status
      = if b = 0 then (if got = [] then 0x80 else 0x90) else (if got = [] then 0 else 0x10) := by
  unfold taking timed status
  by_cases hg : got = []
  · simp [hg]
  · simp [hg]

theorem status_result (left : List UInt8) (b : Nat) (p : Nat → Nat) :
    (timed c (.result left) b p).status = if b = 0 then 0xD0 else 0x10 := rfl

theorem run_fdcWait_taking (got : List UInt8) {b : Nat} (p : Nat → Nat) (hb : b < n) :
    (fdcWait fdcReadyToWrite n).run () (m₀.set (timed c (taking got) b p))
      = some (true, m₀.set (timed c (taking got) 0 p)) := by
  refine run_fdcWait (taking_ne_executing got) ?_ ?_ hb
  · intro b hb
    rw [status_taking, if_neg (by omega)]
    split <;> decide
  · rw [status_taking, if_pos rfl]
    split <;> decide

/-- `fdc_wait_write` comes to an end. -/
theorem At.waitWrite (got : List UInt8) (h : At m₀ c (taking got) 99 m) :
    ∃ m', (fdcWait fdcReadyToWrite 100).run () m = some (true, m') ∧ At m₀ c (taking got) 0 m' := by
  obtain ⟨b, p, hb, hp, rfl⟩ := h
  exact ⟨_, run_fdcWait_taking got p (by omega), 0, p, le_rfl, hp, rfl⟩

/-- `fdc_wait_read` comes to an end. -/
theorem At.waitRead {left : List UInt8} (h : At m₀ c (.result left) 99 m) :
    ∃ m', (fdcWait fdcReadyToRead 100).run () m = some (true, m') ∧ At m₀ c (.result left) 0 m' := by
  obtain ⟨b, p, hb, hp, rfl⟩ := h
  refine ⟨_, run_fdcWait (by simp) ?_ ?_ (by omega), 0, p, le_rfl, hp, rfl⟩
  · intro b hb
    rw [status_result, if_neg (by omega)]
    decide
  · rw [status_result, if_pos rfl]
    decide

/-! ## Sending a command -/

theorem writeFifo_taking (got : List UInt8) (value : UInt8) (p : Nat → Nat) :
    (timed c (taking got) 0 p).writeFifo value = (timed c (taking got) 0 p).accept (got ++ [value]) := by
  unfold writeFifo timed taking
  rw [if_pos rfl]
  by_cases hg : got = []
  · simp [hg]
  · simp [hg]

/-- A byte of a command, with more to come. -/
theorem At.sendByte {got : List UInt8} (value : UInt8) (h : At m₀ c (taking got) 99 m)
    (hlen : (got ++ [value]).length < commandLength ((got ++ [value]).headD 0)) :
    ∃ m', (fdcSendCommand value).run () m = some (true, m') ∧
      At m₀ c (taking (got ++ [value])) 99 m' := by
  obtain ⟨m₁, hwait, b, p, hb, hp, rfl⟩ := h.waitWrite got
  obtain rfl : b = 0 := Nat.le_zero.mp hb
  have hsent : (timed c (taking got) 0 p).writeFifo value
      = timed c (taking (got ++ [value])) (p 0) (fun n => p (n + 1)) := by
    rw [writeFifo_taking, taking_snoc]
    unfold accept
    rw [if_pos hlen]
    rfl
  refine ⟨_, ?_, p 0, fun n => p (n + 1), Nat.le_of_lt_succ (hp 0), fun n => hp (n + 1), rfl⟩
  unfold fdcSendCommand
  rw [Prog.run_bind_of_some () _ hwait]
  change some (true, m₀.set ((timed c (taking got) 0 p).writeFifo value)) = _
  rw [hsent]

/-- The last byte of a command. -/
theorem At.sendLast (got : List UInt8) (value : UInt8) (h : At m₀ c (taking got) 99 m)
    (hlen : (got ++ [value]).length = commandLength ((got ++ [value]).headD 0)) :
    ∃ m' p, (fdcSendCommand value).run () m = some (true, m') ∧ (∀ n, p n < 100) ∧
      m' = m₀.set ((timed c (taking got) 0 p).execute (got ++ [value])) := by
  obtain ⟨m₁, hwait, b, p, hb, hp, rfl⟩ := h.waitWrite got
  obtain rfl : b = 0 := Nat.le_zero.mp hb
  have hsent : (timed c (taking got) 0 p).writeFifo value
      = (timed c (taking got) 0 p).execute (got ++ [value]) := by
    rw [writeFifo_taking]
    unfold accept
    exact if_neg (by omega)
  refine ⟨_, p, ?_, hp, rfl⟩
  unfold fdcSendCommand
  rw [Prog.run_bind_of_some () _ hwait]
  change some (true, m₀.set ((timed c (taking got) 0 p).writeFifo value)) = _
  rw [hsent]

/-- The bytes of a command bring the controller to its execution. -/
theorem At.sendCommands {got rest : List UInt8} (h : At m₀ c (taking got) 99 m) (hne : rest ≠ [])
    (hlen : (got ++ rest).length = commandLength ((got ++ rest).headD 0)) :
    ∃ m' p last, (fdcSendCommands rest).run () m = some (true, m') ∧ (∀ n, p n < 100) ∧
      m' = m₀.set ((timed c last 0 p).execute (got ++ rest)) := by
  induction rest generalizing got m with
  | nil => exact absurd rfl hne
  | cons value rest ih =>
      have hsplit : got ++ value :: rest = got ++ [value] ++ rest := by simp
      by_cases hrest : rest = []
      · subst hrest
        obtain ⟨m', p, hrun, hp, hm'⟩ := h.sendLast got value hlen
        refine ⟨m', p, taking got, ?_, hp, hm'⟩
        rw [fdcSendCommands, Prog.run_bind_of_some () _ hrun]
        rfl
      · have hhead : (got ++ [value]).headD 0 = (got ++ [value] ++ rest).headD 0 := by
          cases got <;> rfl
        have hpos := List.length_pos_of_ne_nil hrest
        rw [hsplit] at hlen ⊢
        have hmore : (got ++ [value]).length < commandLength ((got ++ [value]).headD 0) := by
          rw [List.length_append] at hlen
          rw [hhead, ← hlen]
          omega
        obtain ⟨m₁, hrun₁, h₁⟩ := h.sendByte value hmore
        obtain ⟨m', p, last, hrun, hp, hm'⟩ := ih h₁ hrest hlen
        refine ⟨m', p, last, ?_, hp, hm'⟩
        rw [fdcSendCommands, Prog.run_bind_of_some () _ hrun₁]
        exact hrun

/-- A command for an idle controller. -/
theorem At.sendCommand (h : At m₀ c .idle 99 m) (code : UInt8) (rest : List UInt8)
    (hlen : commandLength code = (code :: rest).length) :
    ∃ m' p last, (fdcSendCommands (code :: rest)).run () m = some (true, m') ∧ (∀ n, p n < 100) ∧
      m' = m₀.set ((timed c last 0 p).execute (code :: rest)) := by
  have hstart : At m₀ c (taking []) 99 m := h
  exact hstart.sendCommands (List.cons_ne_nil code rest) hlen.symm

/-! ## Taking a result -/

/-- The phase in which the bytes `left` of a result are left. -/
def giving (left : List UInt8) : Phase := if left = [] then .idle else .result left

/-- The time for which the controller may be busy then. -/
def givingTime (left : List UInt8) : Nat := if left = [] then 0 else 99

/-- `fdc_read_data` gives the next byte. -/
theorem At.readData {value : UInt8} {left : List UInt8} (h : At m₀ c (.result (value :: left)) 99 m) :
    ∃ m', fdcReadData.run () m = some (value, m') ∧ At m₀ c (giving left) (givingTime left) m' := by
  obtain ⟨m₁, hwait, b, p, hb, hp, rfl⟩ := h.waitRead
  obtain rfl : b = 0 := Nat.le_zero.mp hb
  unfold fdcReadData
  rw [Prog.run_bind_of_some () _ hwait]
  unfold giving givingTime
  by_cases hl : left = []
  · subst hl
    exact ⟨_, rfl, 0, p, le_rfl, hp, rfl⟩
  · have hread : (timed c (.result (value :: left)) 0 p).readFifo
        = (value, timed c (.result left) (p 0) fun n => p (n + 1)) := by
      unfold readFifo timed
      simp only [if_neg hl]
      rfl
    rw [if_neg hl, if_neg hl]
    refine ⟨_, ?_, p 0, fun n => p (n + 1), Nat.le_of_lt_succ (hp 0), fun n => hp (n + 1), rfl⟩
    change some ((timed c (.result (value :: left)) 0 p).readFifo.1,
      m₀.set (timed c (.result (value :: left)) 0 p).readFifo.2) = _
    rw [hread]

/-! ## Waiting for the interrupt -/

theorem tick_executing (job : Job) (b : Nat) (p : Nat → Nat) :
    (timed c (.executing job) b p).tick
      = if b ≤ 1 then (timed c (.executing job) b p).finish job
        else (timed c (.executing job) (b - 1) p, false) := rfl

/-- The loop waits until the end of the job raises the interrupt. -/
theorem run_fdcWaitForIrqLoop {job : Job} {p : Nat → Nat} (hlisten : m₀.listening = true)
    (hirq : m₀.irqTriggered = false)
    (hends : ∀ b, ((timed c (.executing job) b p).finish job).2 = true) {b : Nat} (hb : b < n)
    (hn : 1 < n) : ∃ b', (fdcWaitForIrqLoop n).run () (m₀.set (timed c (.executing job) b p))
      = some (true, (m₀.withIrq true).set ((timed c (.executing job) b' p).finish job).1) := by
  induction n generalizing b with
  | zero => omega
  | succ n ih =>
      have hdelay : (delayMs 1).run () (m₀.set (timed c (.executing job) b p))
          = some ((), (m₀.set (timed c (.executing job) b p)).tick) := rfl
      rw [fdcWaitForIrqLoop, Prog.run_bind, Prog.run_get, Option.bind_some, Prog.run_ite,
        if_neg (by change m₀.irqTriggered ≠ true; rw [hirq]; decide), Prog.run_bind_of_some () _ hdelay]
      by_cases hb1 : b ≤ 1
      · -- the job ends, and the next look finds the interrupt
        have hend : (m₀.set (timed c (.executing job) b p)).tick
            = (m₀.withIrq true).set ((timed c (.executing job) b p).finish job).1 := by
          unfold Machine.tick Machine.set Machine.withIrq
          rw [tick_executing, if_pos hb1]
          simp [hends, hlisten]
        obtain ⟨n, rfl⟩ : ∃ i, n = i + 1 := ⟨n - 1, by omega⟩
        refine ⟨b, ?_⟩
        rw [hend]
        rfl
      · have hwait : (m₀.set (timed c (.executing job) b p)).tick
            = m₀.set (timed c (.executing job) (b - 1) p) := by
          unfold Machine.tick Machine.set
          rw [tick_executing, if_neg hb1]
          simp
        rw [hwait]
        exact ih (by omega) (by omega)

/-- `fdc_wait_for_irq` sees the end of a job. -/
theorem At.waitForIrq {job : Job} (h : At m₀ c (.executing job) 2999 m) (hlisten : m₀.listening = true)
    (hirq : m₀.irqTriggered = false)
    (hends : ∀ b p, ((timed c (.executing job) b p).finish job).2 = true) :
    ∃ m' b p, fdcWaitForIrq.run () m = some (true, m') ∧ (∀ n, p n < 100) ∧
      m' = (m₀.withIrq true).set ((timed c (.executing job) b p).finish job).1 := by
  obtain ⟨b, p, hb, hp, rfl⟩ := h
  obtain ⟨b', hrun⟩ := run_fdcWaitForIrqLoop (b := b) (n := 3000) hlisten hirq (fun b => hends b p)
    (by omega) (by decide)
  exact ⟨_, b', p, hrun, hp, rfl⟩

/-- A job that has no end. -/
theorem At.tick_endless {job : Job} (h : At m₀ c (.executing job) k m)
    (hends : ∀ b p, (timed c (.executing job) b p).finish job = (timed c (.executing job) b p, false)) :
    At m₀ c (.executing job) k m.tick := by
  obtain ⟨b, p, hb, hp, rfl⟩ := h
  have htick : ∃ b', b' ≤ k ∧ (timed c (.executing job) b p).tick
      = (timed c (.executing job) b' p, false) := by
    rw [tick_executing]
    split
    · exact ⟨b, hb, hends b p⟩
    · exact ⟨b - 1, by omega, rfl⟩
  obtain ⟨b', hb', htick⟩ := htick
  refine ⟨b', p, hb', hp, ?_⟩
  unfold Machine.tick Machine.set
  rw [htick]
  simp

/-- `fdc_wait_for_irq` gives up. -/
theorem At.waitForIrq_endless {job : Job} (h : At m₀ c (.executing job) k m)
    (hirq : m₀.irqTriggered = false)
    (hends : ∀ b p, (timed c (.executing job) b p).finish job = (timed c (.executing job) b p, false))
    (n : Nat) : ∃ m', (fdcWaitForIrqLoop n).run () m = some (false, m') ∧
      At m₀ c (.executing job) k m' := by
  induction n generalizing m with
  | zero => exact ⟨m, rfl, h⟩
  | succ n ih =>
      have hfalse : m.irqTriggered = false := by
        obtain ⟨b, p, hb, hp, rfl⟩ := h
        exact hirq
      obtain ⟨m', hrun, h'⟩ := ih (h.tick_endless hends)
      refine ⟨m', ?_, h'⟩
      rw [fdcWaitForIrqLoop, Prog.run_bind, Prog.run_get, Option.bind_some, Prog.run_ite,
        if_neg (by rw [hfalse]; decide)]
      exact hrun

/-- `fdc_wait_write` gives up where a job has no end. -/
theorem At.waitWrite_endless {job : Job} (h : At m₀ c (.executing job) k m)
    (hends : ∀ b p, (timed c (.executing job) b p).finish job = (timed c (.executing job) b p, false))
    (n : Nat) : ∃ m', (fdcWait fdcReadyToWrite n).run () m = some (false, m') ∧
      At m₀ c (.executing job) k m' := by
  induction n generalizing m with
  | zero => exact ⟨m, rfl, h⟩
  | succ n ih =>
      have hstatus : fdcGetStatus.run () m = some (0x10, m) := by
        obtain ⟨b, p, hb, hp, rfl⟩ := h
        rfl
      obtain ⟨m', hrun, h'⟩ := ih (h.tick_endless hends)
      refine ⟨m', ?_, h'⟩
      rw [fdcWait, Prog.run_bind_of_some () _ hstatus, Prog.run_ite, if_neg (by decide)]
      exact hrun

end steps

end MicroKernel.Fdd
