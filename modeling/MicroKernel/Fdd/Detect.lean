import MicroKernel.Fdd.Handshake

set_option autoImplicit false

/-! # The detection of floppy drives

`fdd_detect_drives` takes a drive for present if the heads report cylinder 0 behind a RECALIBRATE. The
controller reports that for a place without a drive, too: it has given up, and says so in bits of the
status that the driver does not look at. So both drives are found, whatever there is.
-/

namespace MicroKernel.Fdd

open MicroKernel.Lib Floppy Floppy.Controller Bytes

section sense

variable {m₀ m : Machine} {c : Controller} {st : UInt8} {rest : List UInt8} {drive k : Nat}

/-! ## Reports of interrupts -/

theorem At.sense_sent (h : At m₀ c .idle 99 m) (hpending : c.pending = st :: rest) :
    ∃ m', (fdcSendCommand 0x08).run () m = some (true, m') ∧
      At m₀ { c with pending := rest }
        (.result [st, UInt8.ofNat (c.cylinders (st.toNat % 4))]) 99 m' := by
  obtain ⟨m', p, hrun, hp, rfl⟩ := At.sendLast [] 0x08 h commandLength_senseInterrupt.symm
  refine ⟨_, hrun, p 0, fun n => p (n + 1), Nat.le_of_lt_succ (hp 0), fun n => hp (n + 1), ?_⟩
  have hsense : (timed c (taking []) 0 p).execute ([] ++ [0x08])
      = (timed c (taking []) 0 p).senseInterrupt := execute_senseInterrupt _
  have hpending' : (timed c (taking []) 0 p).pending = st :: rest := hpending
  rw [hsense]
  unfold senseInterrupt
  rw [hpending']
  rfl

/-- SENSE INTERRUPT takes a report, which comes with a cylinder. -/
theorem At.sense (h : At m₀ c .idle 99 m) (hpending : c.pending = st :: rest) :
    ∃ m₁ m₂ m₃, (fdcSendCommand 0x08).run () m = some (true, m₁) ∧
      fdcReadData.run () m₁ = some (st, m₂) ∧
      fdcReadData.run () m₂ = some (UInt8.ofNat (c.cylinders (st.toNat % 4)), m₃) ∧
      At m₀ { c with pending := rest } .idle 0 m₃ := by
  obtain ⟨m₁, hrun₁, h₁⟩ := h.sense_sent hpending
  obtain ⟨m₂, hrun₂, h₂⟩ := h₁.readData
  obtain ⟨m₃, hrun₃, h₃⟩ := At.readData h₂
  exact ⟨m₁, m₂, m₃, hrun₁, hrun₂, hrun₃, h₃⟩

/-- The loop of `fdc_init_controller` on an idle controller takes as many reports as it has passes. -/
theorem At.clearInterrupts (n : Nat) (h : At m₀ c .idle 0 m) (hn : c.pending.length = n) :
    ∃ m' irq, (clearInterrupts n).run () m = some ((), m') ∧
      At (m₀.withIrq irq) { c with pending := [] } .idle 0 m' := by
  induction n generalizing m₀ m c with
  | zero =>
      refine ⟨m, m₀.irqTriggered, rfl, ?_⟩
      rw [← List.eq_nil_of_length_eq_zero hn]
      exact h
  | succ n ih =>
      obtain ⟨st, rest, hpending⟩ := List.exists_cons_of_length_eq_add_one hn
      have hrest : rest.length = n := by
        rw [hpending, List.length_cons] at hn
        omega
      obtain ⟨m₁, hrun₁, h₁⟩ := h.setIrq false
      obtain ⟨m₂, hrun₂, h₂⟩ := h₁.delay (by simp) 10
      obtain ⟨m₃, m₄, m₅, hrun₃, hrun₄, hrun₅, h₅⟩ := At.sense (h₂.mono (by omega)) hpending
      obtain ⟨m', irq, hrun, h'⟩ := ih h₅ hrest
      refine ⟨m', irq, ?_, h'⟩
      rw [Fdd.clearInterrupts, Prog.run_bind_of_some () _ hrun₁, Prog.run_bind_of_some () _ hrun₂,
        Prog.run_bind_of_some () _ hrun₃, Prog.run_bind_of_some () _ hrun₄,
        Prog.run_bind_of_some () _ hrun₅]
      exact hrun

/-! ## The reset -/

/-- The reports of a reset. -/
def resetReports : List UInt8 := [0xC0, 0xC1, 0xC2, 0xC3]

/-- The controller executes a reset, or has come to its end. -/
def Waking (m₀ : Machine) (c : Controller) (m : Machine) : Prop :=
  ∃ irq, At (m₀.withIrq irq) c (.executing .reset) 99 m ∨
    At (m₀.withIrq irq) { c with pending := resetReports } .idle 0 m

theorem tick_reset (m₀ : Machine) (c : Controller) (b : Nat) (p : Nat → Nat) : ∃ irq,
    (m₀.set (timed c (.executing .reset) b p)).tick
      = if b ≤ 1 then (m₀.withIrq irq).set (timed { c with pending := resetReports } .idle 0 p)
        else m₀.set (timed c (.executing .reset) (b - 1) p) := by
  unfold Machine.tick Machine.set
  rw [tick_executing]
  by_cases hb : b ≤ 1
  · refine ⟨m₀.irqTriggered || m₀.listening, ?_⟩
    rw [if_pos hb, if_pos hb]
    simp [finish, Machine.withIrq, timed, resetReports]
  · refine ⟨m₀.irqTriggered, ?_⟩
    rw [if_neg hb, if_neg hb]
    simp

theorem Waking.tick (h : Waking m₀ c m) : Waking m₀ c m.tick := by
  obtain ⟨irq, h | h⟩ := h
  · obtain ⟨b, p, hb, hp, rfl⟩ := h
    obtain ⟨irq', htick⟩ := tick_reset (m₀.withIrq irq) c b p
    rw [htick]
    split
    · exact ⟨irq', Or.inr ⟨0, p, le_rfl, hp, rfl⟩⟩
    · exact ⟨irq, Or.inl ⟨b - 1, p, by omega, hp, rfl⟩⟩
  · obtain ⟨b, p, hb, hp, rfl⟩ := h
    refine ⟨irq, Or.inr ⟨b - 1, p, by omega, hp, ?_⟩⟩
    exact tick_set (by simp) b p

theorem Waking.delay (h : Waking m₀ c m) (ms : Nat) :
    ∃ m', (delayMs ms).run () m = some ((), m') ∧ Waking m₀ c m' := by
  refine ⟨_, rfl, ?_⟩
  change Waking m₀ c (Machine.tick^[ms] m)
  induction ms generalizing m with
  | zero => exact h
  | succ ms ih =>
      rw [Function.iterate_succ_apply]
      exact ih h.tick

theorem run_fdcWait_reset (m₀ : Machine) (c : Controller) {n b : Nat} (p : Nat → Nat) (hb : b < n)
    (hn : 1 < n) : ∃ irq,
    (fdcWait fdcReadyToWrite n).run () (m₀.set (timed c (.executing .reset) b p))
      = some (true, (m₀.withIrq irq).set (timed { c with pending := resetReports } .idle 0 p)) := by
  induction n generalizing b with
  | zero => omega
  | succ n ih =>
      have hstatus : fdcGetStatus.run () (m₀.set (timed c (.executing .reset) b p))
          = some (0x10, m₀.set (timed c (.executing .reset) b p)) := rfl
      have hdelay : (delayMs 1).run () (m₀.set (timed c (.executing .reset) b p))
          = some ((), (m₀.set (timed c (.executing .reset) b p)).tick) := rfl
      obtain ⟨irq, htick⟩ := tick_reset m₀ c b p
      rw [fdcWait, Prog.run_bind_of_some () _ hstatus, Prog.run_ite, if_neg (by decide),
        Prog.run_bind_of_some () _ hdelay, htick]
      by_cases hb1 : b ≤ 1
      · obtain ⟨n, rfl⟩ : ∃ i, n = i + 1 := ⟨n - 1, by omega⟩
        refine ⟨irq, ?_⟩
        rw [if_pos hb1]
        exact run_fdcWait_taking [] p (Nat.succ_pos n)
      · rw [if_neg hb1]
        exact ih (by omega) (by omega)

/-- `fdc_wait_write` lasts until the reset is over. -/
theorem Waking.waitWrite (h : Waking m₀ c m) : ∃ m' irq,
    (fdcWait fdcReadyToWrite 100).run () m = some (true, m') ∧
      At (m₀.withIrq irq) { c with pending := resetReports } .idle 0 m' := by
  obtain ⟨irq, h | h⟩ := h
  · obtain ⟨b, p, hb, hp, rfl⟩ := h
    obtain ⟨irq', hrun⟩ := run_fdcWait_reset (m₀.withIrq irq) c p (show b < 100 by omega) (by decide)
    exact ⟨_, irq', hrun, 0, p, le_rfl, hp, rfl⟩
  · obtain ⟨m', hrun, h'⟩ := At.waitWrite [] (h.mono (by omega))
    exact ⟨m', irq, hrun, h'⟩

/-- A command for a controller that wakes is one for a controller that is awake. -/
theorem Waking.sendCommand (h : Waking m₀ c m) (value : UInt8) : ∃ m' irq,
    (fdcSendCommand value).run () m = (fdcSendCommand value).run () m' ∧
      At (m₀.withIrq irq) { c with pending := resetReports } .idle 0 m' := by
  obtain ⟨m', irq, hrun, b, p, hb, hp, rfl⟩ := h.waitWrite
  obtain rfl : b = 0 := Nat.le_zero.mp hb
  refine ⟨_, irq, ?_, 0, p, le_rfl, hp, rfl⟩
  have hagain : (fdcWait fdcReadyToWrite 100).run ()
      ((m₀.withIrq irq).set (timed { c with pending := resetReports } .idle 0 p))
        = some (true, (m₀.withIrq irq).set (timed { c with pending := resetReports } .idle 0 p)) :=
    run_fdcWait_taking [] p (by decide)
  unfold fdcSendCommand
  rw [Prog.run_bind_of_some () _ hrun, Prog.run_bind_of_some () _ hagain]

/-! ## Setting up the controller -/

/-- A machine whose controller the driver can wait for, whatever the controller is doing. -/
structure Prompt (c : Controller) : Prop where
  pauses : ∀ n, c.pauses n < 100
  works : ∀ n, c.works n < 3000

theorem Waking.setIrq (h : Waking m₀ c m) (b : Bool) :
    ∃ m', (setIrqTriggered b).run () m = some ((), m') ∧ Waking m₀ c m' := by
  obtain ⟨irq, h | h⟩ := h
  · obtain ⟨m', hrun, h'⟩ := h.setIrq b
    exact ⟨m', hrun, b, Or.inl h'⟩
  · obtain ⟨m', hrun, h'⟩ := h.setIrq b
    exact ⟨m', hrun, b, Or.inr h'⟩

/-- The loop of `fdc_init_controller` behind a reset takes its four reports. -/
theorem Waking.clearInterrupts (h : Waking m₀ c m) : ∃ m' irq,
    (clearInterrupts 4).run () m = some ((), m') ∧
      At (m₀.withIrq irq) { c with pending := [] } .idle 0 m' := by
  obtain ⟨m₁, hrun₁, h₁⟩ := h.setIrq false
  obtain ⟨m₂, hrun₂, h₂⟩ := h₁.delay 10
  obtain ⟨m₃, irq, hrun₃, h₃⟩ := h₂.sendCommand 0x08
  obtain ⟨m₄, m₅, m₆, hrun₄, hrun₅, hrun₆, h₆⟩ := At.sense (h₃.mono (by omega)) rfl
  obtain ⟨m', irq', hrun, h'⟩ := h₆.clearInterrupts 3 rfl
  refine ⟨m', irq', ?_, h'⟩
  rw [hrun₄] at hrun₃
  rw [Fdd.clearInterrupts, Prog.run_bind_of_some () _ hrun₁, Prog.run_bind_of_some () _ hrun₂,
    Prog.run_bind_of_some () _ hrun₃, Prog.run_bind_of_some () _ hrun₅,
    Prog.run_bind_of_some () _ hrun₆]
  exact hrun

/-- SPECIFY has no result. -/
theorem At.specify (h : At m₀ c .idle 99 m) : ∃ m',
    (fdcSendCommands [0x03, 0xDF, 0x02]).run () m = some (true, m') ∧ At m₀ c .idle 99 m' := by
  obtain ⟨m', p, last, hrun, hp, rfl⟩ := h.sendCommand 0x03 [0xDF, 0x02] commandLength_specify
  exact ⟨_, hrun, p 0, fun n => p (n + 1), Nat.le_of_lt_succ (hp 0), fun n => hp (n + 1), rfl⟩

/-- **`fdc_init_controller`** succeeds, whatever the controller is doing. -/
theorem run_fdcInitController (hp : Prompt m.controller) : ∃ m' irq,
    fdcInitController.run () m = some (true, m') ∧ At ({ m with listening := true }.withIrq irq)
      { m.controller with dor := 0x0C, pending := [] } .idle 99 m' := by
  generalize hm₀ : { m with listening := true } = m₀
  have hc : m₀.controller = m.controller := by rw [← hm₀]
  have h₀ : At m₀ { m.controller with dor := 0x00, pending := [] } .held 0
      (m₀.set (m₀.controller.writeDor 0x00)) := by
    refine ⟨0, m.controller.pauses, le_rfl, hp.pauses, ?_⟩
    rw [hc]
    exact congrArg m₀.set (if_neg (by decide))
  obtain ⟨m₁, hrun₁, b, p, hb, hpauses, rfl⟩ := h₀.delay (by simp) 10
  have hreset : (timed { m.controller with dor := 0x00, pending := [] } .held b p).writeDor 0x0C
      = timed { m.controller with dor := 0x0C, pending := [] } (.executing .reset) (p 0)
          (fun n => p (n + 1)) := if_pos (by decide)
  have h₂ : Waking m₀ { m.controller with dor := 0x0C, pending := [] }
      (m₀.set ((timed { m.controller with dor := 0x00, pending := [] } .held b p).writeDor 0x0C)) := by
    refine ⟨m₀.irqTriggered, Or.inl ⟨p 0, fun n => p (n + 1), Nat.le_of_lt_succ (hpauses 0),
      fun n => hpauses (n + 1), ?_⟩⟩
    rw [hreset]
    rfl
  obtain ⟨m₃, hrun₃, h₃⟩ := h₂.delay 10
  obtain ⟨m₄, irq, hrun₄, h₄⟩ := h₃.clearInterrupts
  obtain ⟨m₅, hrun₅, h₅⟩ := At.specify (h₄.mono (by omega))
  refine ⟨m₅, irq, ?_, h₅⟩
  have hlisten : fdcInitialize.run () m = some ((), m₀) := by
    rw [← hm₀]
    rfl
  have hhold : (onController (Controller.writeDor 0x00)).run () m₀
      = some ((), m₀.set (m₀.controller.writeDor 0x00)) := rfl
  have hrelease : (onController (Controller.writeDor 0x0C)).run ()
      (m₀.set (timed { m.controller with dor := 0x00, pending := [] } .held b p))
        = some ((), m₀.set ((timed { m.controller with dor := 0x00, pending := [] } .held b p).writeDor
            0x0C)) := rfl
  unfold fdcInitController
  rw [Prog.run_bind_of_some () _ hlisten, Prog.run_bind_of_some () _ hhold,
    Prog.run_bind_of_some () _ hrun₁, Prog.run_bind_of_some () _ hrelease,
    Prog.run_bind_of_some () _ hrun₃, Prog.run_bind_of_some () _ hrun₄]
  exact hrun₅

/-! ## Calibration -/

/-- The report of a RECALIBRATE. -/
def report (attached : Bool) (drive : Nat) : UInt8 :=
  UInt8.ofNat ((if attached then 0x20 else 0x70) + drive)

/-- The report names its drive, and has the bit that the driver looks for. -/
theorem report_spec (attached : Bool) (hdrive : drive < 4) :
    (report attached drive).toNat % 4 = drive ∧ report attached drive &&& 0x20 ≠ 0 := by
  have hall : ∀ attached : Bool, ∀ drive < 4,
      (report attached drive).toNat % 4 = drive ∧ report attached drive &&& 0x20 ≠ 0 := by decide
  exact hall attached drive hdrive

/-- The values that the driver writes to the digital output register do not reset the controller. -/
theorem dor_testBit (drive : Nat) :
    (0x1C ||| drive % 4).testBit 2 = true ∧ (0x0C ||| drive % 4).testBit 2 = true := by
  have hall : ∀ d < 4, (0x1C ||| d).testBit 2 = true ∧ (0x0C ||| d).testBit 2 = true := by decide
  exact hall _ (Nat.mod_lt _ (by decide))

theorem motorsOff_testBit (drive : Nat) {d : Nat} (hd : d < 4) :
    (0x0C ||| drive % 4).testBit (4 + d) = false := by
  have hall : ∀ e < 4, ∀ d < 4, (0x0C ||| e).testBit (4 + d) = false := by decide
  exact hall _ (Nat.mod_lt _ (by decide)) d hd

/-- The command brings the controller to the calibration. -/
theorem At.sendRecalibrate (h : At m₀ c .idle 99 m) (hworks : ∀ n, c.works n < 3000)
    (hdrive : drive < 4) :
    ∃ m', (fdcSendCommands [0x07, UInt8.ofNat (drive % 4)]).run () m = some (true, m') ∧
      At m₀ { c with works := fun n => c.works (n + 1) } (.executing (.recalibrate drive)) 2999 m' := by
  obtain ⟨m', p, last, hrun, hp, rfl⟩ :=
    h.sendCommand 0x07 [UInt8.ofNat (drive % 4)] commandLength_recalibrate
  have hunit : (UInt8.ofNat (drive % 4)).toNat % 4 = drive := by
    rw [UInt8.toNat_ofNat']
    omega
  refine ⟨_, hrun, c.works 0, p, Nat.le_of_lt_succ (hworks 0), hp, ?_⟩
  have hexecute : (timed c last 0 p).execute [0x07, UInt8.ofNat (drive % 4)]
      = timed { c with works := fun n => c.works (n + 1) }
          (.executing (.recalibrate ((UInt8.ofNat (drive % 4)).toNat % 4))) (c.works 0) p := rfl
  rw [hexecute, hunit]

/-- The calibration ends with a report, which stands alone if no other was there. -/
theorem At.recalibrated (h : At m₀ c (.executing (.recalibrate drive)) 2999 m)
    (hlisten : m₀.listening = true) (hirq : m₀.irqTriggered = false) (hpending : c.pending = []) :
    ∃ m', fdcWaitForIrq.run () m = some (true, m') ∧
      At (m₀.withIrq true)
        { c with
          cylinders := Function.update c.cylinders drive 0
          pending := [report (c.attached drive) drive] } .idle 0 m' := by
  obtain ⟨m', b, p, hrun, hp, hm'⟩ := h.waitForIrq hlisten hirq (fun _ _ => rfl)
  have hreports : c.pending ++ [report (c.attached drive) drive]
      = [report (c.attached drive) drive] := by
    rw [hpending, List.nil_append]
  refine ⟨m', hrun, 0, p, le_rfl, hp, ?_⟩
  rw [hm', ← hreports]
  rfl

/-- The controller behind the calibration of a drive. -/
def calibrated (c : Controller) (drive : Nat) : Controller :=
  { c with
    dor := 0x0C ||| drive % 4
    works := fun n => c.works (n + 1)
    cylinders := Function.update c.cylinders drive 0 }

/-- **`fdc_calibrate_drive`** succeeds in its first attempt, whether the drive is there or not. -/
theorem At.calibrate (h : At m₀ c .idle 99 m) (hlisten : m₀.listening = true)
    (hworks : ∀ n, c.works n < 3000) (hpending : c.pending = []) (hdrive : drive < 4) : ∃ m',
    (fdcCalibrateDrive drive).run () m = some (true, m') ∧
      At (m₀.withIrq true) (calibrated c drive) .idle 0 m' := by
  obtain ⟨m₁, hrun₁, h₁⟩ := h.writeDor (dor_testBit drive).1 (by simp)
  obtain ⟨m₂, hrun₂, h₂⟩ := h₁.delay (by simp) 500
  obtain ⟨m₃, hrun₃, h₃⟩ := h₂.setIrq false
  obtain ⟨m₄, hrun₄, h₄⟩ := (h₃.mono (by omega)).sendRecalibrate hworks hdrive
  obtain ⟨m₅, hrun₅, h₅⟩ := h₄.recalibrated hlisten rfl hpending
  obtain ⟨hunit, hbit⟩ := report_spec (c.attached drive) hdrive
  obtain ⟨m₆, m₇, m₈, hrun₆, hrun₇, hrun₈, h₈⟩ := At.sense (h₅.mono (by omega)) rfl
  obtain ⟨m₉, hrun₉, h₉⟩ := h₈.writeDor (dor_testBit drive).2 (by simp)
  have hcylinder :
      Function.update c.cylinders drive 0 ((report (c.attached drive) drive).toNat % 4) = 0 := by
    rw [hunit, Function.update_self]
  refine ⟨m₉, ?_, ?_⟩
  · unfold fdcCalibrateDrive calibrateLoop fdcMotorOn
    rw [Prog.run_bind_of_some () _ hrun₁, Prog.run_bind_of_some () _ hrun₂,
      Prog.run_bind_of_some () _ hrun₃, Prog.run_bind_of_some () _ hrun₄]
    simp only [Bool.not_true, Bool.false_eq_true, if_false]
    rw [Prog.run_bind_of_some () _ hrun₅]
    simp only [Bool.not_true, Bool.false_eq_true, if_false]
    rw [Prog.run_bind_of_some () _ hrun₆]
    simp only [Bool.not_true, Bool.false_eq_true, if_false]
    unfold fdcMotorOff
    rw [Prog.run_bind_of_some () _ hrun₇, Prog.run_bind_of_some () _ hrun₈,
      Prog.run_bind_of_some () _ hrun₉, Prog.run_ite, if_pos ⟨hbit, by simp only [hcylinder]; rfl⟩]
    rfl
  · have hnone : ([] : List UInt8) = c.pending := hpending.symm
    rw [hnone] at h₉
    exact h₉

/-! ## The table -/

/-- The controller waits for a command, and the motors are off. -/
structure Ready (m : Machine) : Prop where
  idle : m.controller.phase = .idle
  busy : m.controller.busy ≤ 99
  prompt : Prompt m.controller
  pending : m.controller.pending = []
  listening : m.listening = true
  motors : ∀ d, d < 4 → m.controller.dor.testBit (4 + d) = false

/-- The same drives and disks, and the same memory. -/
structure Keeps (c c' : Controller) : Prop where
  chip : c'.chip = c.chip
  attached : c'.attached = c.attached
  disks : c'.disks = c.disks
  memory : c'.memory = c.memory

theorem Keeps.trans {c₁ c₂ c₃ : Controller} (h : Keeps c₁ c₂) (h' : Keeps c₂ c₃) : Keeps c₁ c₃ :=
  ⟨h'.chip.trans h.chip, h'.attached.trans h.attached, h'.disks.trans h.disks, h'.memory.trans h.memory⟩

theorem Ready.at (h : Ready m) : At m m.controller .idle 99 m := by
  rw [← h.idle]
  exact At.self h.busy h.prompt.pauses

theorem At.keeps {phase : Phase} (h : At m₀ c phase k m) : Keeps c m.controller := by
  obtain ⟨b, p, hb, hp, rfl⟩ := h
  exact ⟨rfl, rfl, rfl, rfl⟩

theorem At.cylinders {phase : Phase} (h : At m₀ c phase k m) : m.controller.cylinders = c.cylinders := by
  obtain ⟨b, p, hb, hp, rfl⟩ := h
  rfl

theorem At.ready (h : At m₀ c .idle 99 m) (hlisten : m₀.listening = true)
    (hworks : ∀ n, c.works n < 3000) (hpending : c.pending = [])
    (hmotors : ∀ d, d < 4 → c.dor.testBit (4 + d) = false) : Ready m := by
  obtain ⟨b, p, hb, hp, rfl⟩ := h
  exact ⟨rfl, hb, ⟨hp, hworks⟩, hpending, hlisten, hmotors⟩

/-- A pass of `fdd_detect_drives` finds its drive. -/
theorem Ready.probe (h : Ready m) (hdrive : drive < 4) : ∃ m₁ m₂ m₃ m₄,
    (fdcMotorOn drive).run () m = some ((), m₁) ∧ (delayMs 500).run () m₁ = some ((), m₂) ∧
    (fdcCalibrateDrive drive).run () m₂ = some (true, m₃) ∧ fdcGetStatus.run () m₃ = some (0x80, m₃) ∧
    (fdcMotorOff drive).run () m₃ = some ((), m₄) ∧ Ready m₄ ∧ Keeps m.controller m₄.controller ∧
    m₄.controller.cylinders = Function.update m.controller.cylinders drive 0 := by
  obtain ⟨m₁, hrun₁, h₁⟩ := h.at.writeDor (dor_testBit drive).1 (by simp)
  obtain ⟨m₂, hrun₂, h₂⟩ := h₁.delay (by simp) 500
  obtain ⟨m₃, hrun₃, h₃⟩ := (h₂.mono (by omega)).calibrate h.listening h.prompt.works h.pending hdrive
  obtain ⟨m₄, hrun₄, h₄⟩ := h₃.writeDor (dor_testBit drive).2 (by simp)
  have hstatus : fdcGetStatus.run () m₃ = some (0x80, m₃) := by
    obtain ⟨b, p, hb, hp, rfl⟩ := h₃
    obtain rfl : b = 0 := Nat.le_zero.mp hb
    rfl
  have hready : Ready m₄ := (h₄.mono (by omega)).ready h.listening (fun n => h.prompt.works (n + 1))
    h.pending (fun d hd => motorsOff_testBit drive hd)
  have hkeeps : Keeps m.controller m₄.controller :=
    ⟨h₄.keeps.chip, h₄.keeps.attached, h₄.keeps.disks, h₄.keeps.memory⟩
  exact ⟨m₁, m₂, m₃, m₄, hrun₁, hrun₂, hrun₃, hstatus, hrun₄, hready, hkeeps, h₄.cylinders⟩

/-- The entry of a floppy drive. -/
def entry (drive : Nat) (detectedDrive : Drives.Drive) : Drives.Drive :=
  { detectedDrive with
    type := .fdd
    fddDriveNo := drive
    name := Drives.fddName drive
    cylinder := 80
    head := 2
    sector := 18
    mountPoint := [] }

/-- The entries of drives, as far as there is memory for them. -/
def entries (allocated : Nat → Option Drives.Drive) (drives : List Nat) : List Drives.Drive :=
  drives.filterMap fun drive => (allocated drive).map (entry drive)

/-- The loop of `fdd_detect_drives` has ended, with these entries. -/
structure Detected (drives : List Nat) (l : List Drives.Drive) (m : Machine) (t' : Drives.DriveTable)
    (m' : Machine) : Prop where
  table : t'.drives = l
  ready : Ready m'
  keeps : Keeps m.controller m'.controller
  cylinders : ∀ d, m.controller.cylinders d = 0 ∨ d ∈ drives → m'.controller.cylinders d = 0

/-- A pass that has calibrated `drive`, and the rest of the loop behind it. -/
theorem Detected.cons {rest : List Nat} {l : List Drives.Drive} {t' : Drives.DriveTable}
    {m₁ m' : Machine} (hd : Detected rest l m₁ t' m') (hkeeps : Keeps m.controller m₁.controller)
    (hcylinders : m₁.controller.cylinders = Function.update m.controller.cylinders drive 0) :
    Detected (drive :: rest) l m t' m' := by
  refine ⟨hd.table, hd.ready, hkeeps.trans hd.keeps, fun d hmem => hd.cylinders d ?_⟩
  rw [hcylinders]
  by_cases hdrive : d = drive
  · rw [hdrive, Function.update_self]
    exact Or.inl rfl
  · rw [Function.update_of_ne hdrive]
    exact hmem.imp_right fun hmem => (List.mem_cons.mp hmem).resolve_left hdrive

/-- What is known of the end of a run, where there is room for it, can be replaced by what follows. -/
theorem run_imp {room : Prop} [Decidable room] {r : Option (Drives.DriveTable × Machine)}
    {p q : Drives.DriveTable → Machine → Prop}
    (h : if room then ∃ t' m', r = some (t', m') ∧ p t' m' else r = none)
    (himp : ∀ t' m', p t' m' → q t' m') :
    if room then ∃ t' m', r = some (t', m') ∧ q t' m' else r = none := by
  split
  next hroom =>
    rw [if_pos hroom] at h
    obtain ⟨t', m', hrun, hp⟩ := h
    exact ⟨t', m', hrun, himp t' m' hp⟩
  next hroom =>
    rw [if_neg hroom] at h
    exact h

/-- A pass of the loop finds its drive, and enters it if there are memory and room. -/
theorem Ready.detectLoop_cons (allocated : Nat → Option Drives.Drive) (rest : List Nat)
    (t : Drives.DriveTable) (h : Ready m) (hdrive : drive < 4) : ∃ m', Ready m' ∧
    Keeps m.controller m'.controller ∧
    m'.controller.cylinders = Function.update m.controller.cylinders drive 0 ∧
    (fddDetectLoop allocated (drive :: rest) t).run () m =
      match allocated drive with
      | none => (fddDetectLoop allocated rest t).run () m'
      | some detectedDrive =>
          if hfit : t.drives.length < Drives.maxDrives then
            (fddDetectLoop allocated rest (t.push (entry drive detectedDrive) hfit)).run () m'
          else none := by
  obtain ⟨m₁, m₂, m₃, m', hrun₁, hrun₂, hrun₃, hrun₄, hrun', h', hkeeps, hcylinders⟩ := h.probe hdrive
  refine ⟨m', h', hkeeps, hcylinders, ?_⟩
  rw [fddDetectLoop, Prog.run_bind_of_some () _ hrun₁, Prog.run_bind_of_some () _ hrun₂,
    Prog.run_bind_of_some () _ hrun₃]
  simp only [Bool.not_true, Bool.false_eq_true, if_false]
  rw [Prog.run_bind_of_some () _ hrun₄, Prog.run_ite, if_neg (by decide)]
  cases allocated drive with
  | none => exact Prog.run_bind_of_some () _ hrun'
  | some detectedDrive =>
      simp only
      split
      · exact Prog.run_bind_of_some () _ hrun'
      · rfl

/-- The loop enters every drive, as long as there is room. -/
theorem Ready.detectLoop (allocated : Nat → Option Drives.Drive) {drives : List Nat}
    (hdrives : ∀ d ∈ drives, d < 4) (t : Drives.DriveTable) (h : Ready m) :
    if t.drives.length + (entries allocated drives).length ≤ Drives.maxDrives then
      ∃ t' m', (fddDetectLoop allocated drives t).run () m = some (t', m') ∧
        Detected drives (t.drives ++ entries allocated drives) m t' m'
    else (fddDetectLoop allocated drives t).run () m = none := by
  induction drives generalizing t m with
  | nil =>
      have hlen := t.length_le
      rw [if_pos (by simpa [entries] using hlen)]
      exact ⟨t, m, rfl, (List.append_nil _).symm, h, ⟨rfl, rfl, rfl, rfl⟩, fun d hd => by simpa using hd⟩
  | cons drive rest ih =>
      have hrest : ∀ d ∈ rest, d < 4 := fun d hd => hdrives d (List.mem_cons_of_mem _ hd)
      obtain ⟨m₁, h₁, hkeeps, hcylinders, hrun⟩ :=
        h.detectLoop_cons allocated rest t (hdrives drive List.mem_cons_self)
      rw [hrun]
      cases halloc : allocated drive with
      | none =>
          have hentries : entries allocated (drive :: rest) = entries allocated rest := by
            simp [entries, halloc]
          rw [hentries]
          exact run_imp (ih hrest t h₁) fun _ _ hd => hd.cons hkeeps hcylinders
      | some detectedDrive =>
          have hentries : entries allocated (drive :: rest)
              = entry drive detectedDrive :: entries allocated rest := by
            simp [entries, halloc]
          simp only
          rw [hentries, List.length_cons]
          by_cases hfit : t.drives.length < Drives.maxDrives
          · have hih := ih hrest (t.push (entry drive detectedDrive) hfit) h₁
            have htable : (t.push (entry drive detectedDrive) hfit).drives
                = t.drives ++ [entry drive detectedDrive] := rfl
            rw [htable, List.length_append, List.length_singleton, Nat.add_assoc,
              Nat.add_comm 1, List.append_assoc, List.singleton_append] at hih
            rw [dif_pos hfit]
            exact run_imp hih fun _ _ hd => hd.cons hkeeps hcylinders
          · rw [dif_neg hfit, if_neg (by omega)]

/-- **Both drives are detected**, whichever are there, on a controller that is never busy for longer than
the driver waits; there is no result where the table is too short for them. -/
theorem fddDetectDrives_finds (allocated : Nat → Option Drives.Drive) (t : Drives.DriveTable)
    (hp : Prompt m.controller) (hinit : m.fdcControllerInitialized = false) :
    if t.drives.length + (entries allocated [0, 1]).length ≤ Drives.maxDrives then
      ∃ t' m', (fddDetectDrives allocated t).run () m = some (t', m') ∧
        Detected [0, 1] (t.drives ++ entries allocated [0, 1]) m t' m'
    else (fddDetectDrives allocated t).run () m = none := by
  obtain ⟨m₁, irq, hrun₁, h₁⟩ := run_fdcInitController hp
  obtain ⟨m₂, hm₂⟩ : ∃ m₂, m₂ = { m₁ with fdcControllerInitialized := true } := ⟨_, rfl⟩
  have hensure : ensureInitialized.run () m = some (true, m₂) := by
    unfold ensureInitialized
    rw [Prog.run_bind, Prog.run_get, Option.bind_some, Prog.run_ite, if_neg (by rw [hinit]; decide),
      Prog.run_bind_of_some () _ hrun₁, hm₂]
    rfl
  have h₁' : Ready m₁ := h₁.ready rfl hp.works rfl (fun d hd => motorsOff_testBit 0 hd)
  have h₂ : Ready m₂ := by
    rw [hm₂]
    exact ⟨h₁'.idle, h₁'.busy, h₁'.prompt, h₁'.pending, h₁'.listening, h₁'.motors⟩
  have hcontroller : m₂.controller = m₁.controller := by rw [hm₂]
  have hkeeps : Keeps m.controller m₂.controller := by
    rw [hcontroller]
    exact ⟨h₁.keeps.chip, h₁.keeps.attached, h₁.keeps.disks, h₁.keeps.memory⟩
  have hcylinders : m₂.controller.cylinders = m.controller.cylinders := by
    rw [hcontroller]
    exact h₁.cylinders
  have hdrives : ∀ d ∈ [0, 1], d < 4 := by decide
  unfold fddDetectDrives
  rw [Prog.run_bind_of_some () _ hensure]
  simp only [Bool.not_true, Bool.false_eq_true, if_false]
  refine run_imp (h₂.detectLoop allocated hdrives t) fun t' m' hd => ?_
  exact ⟨hd.table, hd.ready, hkeeps.trans hd.keeps, fun d hmem => hd.cylinders d (hcylinders ▸ hmem)⟩

end sense

/-! ## The start of the machine -/

/-- To the model of the start, a controller that is never busy for too long is one on which every drive
answers. -/
structure Answers (hw : Drives.Hardware) : Prop where
  fdcInit : hw.fdcInit = true
  calibrated : ∀ drive, hw.calibrated drive = true
  fdcStatus : ∀ drive, hw.fdcStatus drive = 0x80

theorem Answers.floppies {hw : Drives.Hardware} (h : Answers hw) (drives : List Nat) :
    Drives.floppies hw drives = entries hw.allocated drives := by
  unfold Drives.floppies entries
  congr 1
  funext drive
  unfold Drives.fddProbe
  rw [h.calibrated, h.fdcStatus, if_neg (by decide), if_neg (by decide)]
  rfl

/-- The detection on the controller has the entries that the model of the start has. -/
theorem fddDetectDrives_refines {hw : Drives.Hardware} {m : Machine} (h : Answers hw)
    (t : Drives.DriveTable) (hp : Prompt m.controller) (hinit : m.fdcControllerInitialized = false) :
    ((fddDetectDrives hw.allocated t).run () m).map (·.1.drives)
      = (Drives.fddDetectDrives hw t).map (·.drives) := by
  have hstart : (Drives.fddDetectDrives hw t).map (·.drives)
      = if t.drives.length + (entries hw.allocated [0, 1]).length ≤ Drives.maxDrives
        then some (t.drives ++ entries hw.allocated [0, 1]) else none := by
    unfold Drives.fddDetectDrives
    rw [h.fdcInit, if_neg (by decide), Drives.fddDetectLoop_eq, h.floppies]
  have hfinds := fddDetectDrives_finds hw.allocated t hp hinit
  rw [hstart]
  split
  next hroom =>
    rw [if_pos hroom] at hfinds
    obtain ⟨t', m', hrun, hd⟩ := hfinds
    rw [hrun, ← hd.table]
    rfl
  next hroom =>
    rw [if_neg hroom] at hfinds
    rw [hfinds]
    rfl

/-! ### A machine without floppy drives -/

/-- A machine behind its start, with a controller and the drives and disks on it. -/
def started (chip : Chip) (attached : Nat → Bool) (disks : Nat → Option Disk) : Machine where
  controller :=
    { chip, attached, disks
      dor := 0
      phase := .held
      busy := 0
      pauses := fun n => n % 4
      works := fun n => 100 + n % 8
      pending := []
      cylinders := fun _ => 5
      dma := ⟨false, 0, 0, 0, 0, true⟩
      memory := fun _ => 0 }
  listening := false
  irqTriggered := false
  fdcControllerInitialized := false

theorem started_prompt (chip : Chip) (attached : Nat → Bool) (disks : Nat → Option Disk) :
    Prompt (started chip attached disks).controller := by
  constructor
  · intro n
    change n % 4 < 100
    omega
  · intro n
    change 100 + n % 8 < 3000
    omega

/-- The memory for an entry, full of zeros. -/
def blankEntry : Nat → Option Drives.Drive := fun _ =>
  some ⟨.none, 0, false, [], [], 0, 0, 0, 0, 0, []⟩

theorem fddDetectDrives_finds_absent : ∃ t' m',
    (fddDetectDrives blankEntry .empty).run () (started ⟨true, false⟩ (fun _ => false) fun _ => none)
      = some (t', m') ∧
    Detected [0, 1] (entries blankEntry [0, 1]) (started ⟨true, false⟩ (fun _ => false) fun _ => none)
      t' m' := by
  have hfinds := fddDetectDrives_finds blankEntry .empty
    (started_prompt ⟨true, false⟩ (fun _ => false) fun _ => none) rfl
  rw [if_pos (by decide)] at hfinds
  exact hfinds

end MicroKernel.Fdd
