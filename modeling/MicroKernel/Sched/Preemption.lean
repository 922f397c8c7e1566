import MicroKernel.Cpu.Interrupts
import MicroKernel.Sched.Threads

set_option autoImplicit false

/-! # Ticks as interrupts

`hardware_init` registers `scheduler_interrupt_handler` for line 9. A tick is called by `irq_handler`,
which ends the interrupt when the scheduler returns. A thread that was switched out returns when it is
switched to, and ends the interrupt that it was switched out in; the code of a task that starts has nothing
to return to.

So the tick that starts a task ends nothing, line 9 stays in service, and the second controller delivers
no line from there on. The task has the processor until it returns or calls the scheduler itself: the
programs do so with `int $0x29`, which takes the gate of line 9 past the controllers. Then line 9 goes out
of service if a thread goes on that returns through the end of such an interrupt (`no_tick_after_start`).
-/

namespace MicroKernel.Sched

open MicroKernel.Lib MicroKernel.Cpu

/-- Line 9. -/
def schedulerLine : Irq := .slave ⟨1, by decide⟩

/-- The interrupt of `int $0x29`. -/
def softwareVector : Nat := 0x29

/-- The threads, the controllers and the routines. `vectors` has the `regs->irq_number` of the interrupt
that a thread was switched out in, and `others` counts what line 9 has not asked for: the calls of
`task_exit`, the `int $0x29`, and the ticks that come from other lines. -/
structure System where
  machine : Machine
  pics : PicPair
  routines : Routines
  vectors : Thread → Option Nat
  others : Nat

namespace System

/-- The kernel before any task is created. -/
def boot (pics : PicPair) (routines : Routines) : System :=
  ⟨Machine.boot, pics, routines, fun _ => none, 0⟩

/-- The controllers when `θ` goes on: a thread that was switched out is in `irq_handler`, behind the call
of the scheduler. -/
def goOn (vectors : Thread → Option Nat) (θ : Thread) (p : PicPair) : PicPair :=
  match vectors θ with
  | some irqNumber => sendEoi irqNumber p
  | none => p

/-- After a call of the scheduler by `irq_handler` that led to the tables `t`. -/
def switched (s : System) (irqNumber : Nat) (cpu : Context) (t : State) (p : PicPair) : System :=
  let machine := s.machine.ticked cpu t
  let vectors := Function.update s.vectors s.machine.running (some irqNumber)
  { s with machine := machine, vectors := vectors, pics := goOn vectors machine.running p }

/-- After an interrupt of line `irq` in which the scheduler was called. -/
def ticked (s : System) (irq : Irq) (cpu : Context) (t : State) : System :=
  { s.switched (32 + irq.number) cpu t (s.pics.acknowledge irq) with
    others := if irq = schedulerLine then s.others else s.others + 1 }

/-- After `int $0x29` in which the scheduler was called. -/
def yielded (s : System) (cpu : Context) (t : State) : System :=
  { s.switched softwareVector cpu t s.pics with others := s.others + 1 }

/-- After `task_exit`. -/
def exited (s : System) (t : State) : System :=
  { s with
    machine := s.machine.exited t
    pics := goOn s.vectors (s.machine.exited t).running s.pics
    others := s.others + 1 }

/-- The routine switches threads. `apic_timer_isr` calls the scheduler. -/
def Switches (r : Routine) : Prop := r = .schedulerInterruptHandler ∨ r = .apicTimerIsr

/-- `irq_handler` calls a routine that switches threads. -/
def CallsScheduler (s : System) (irqNumber : Nat) : Prop :=
  ∃ r, calledFor s.routines irqNumber = some r ∧ Switches r

/-- A step of the system: one of `Machine.Step`, or one of `Cpu.Machine.Step`, or a software interrupt. The
first two meet in the tick. -/
inductive Step (L : Layout) : System → System → Prop
  | create {s : System} (entryPoint : UInt32) (stack : Option UInt32) : s.machine.running ≠ .wild →
      Step L s { s with machine :=
        { s.machine with tables := (createProcess s.machine.tables entryPoint stack).2 } }
  | createForFile {s : System} (filename : List UInt8) (entryPoint : UInt32) (stack : Option UInt32) :
      s.machine.running ≠ .wild → Step L s { s with machine :=
        { s.machine with tables := (createProcessForFile s.machine.tables filename entryPoint stack).2 } }
  | terminate {s : System} {t : State} (pid : Int) : s.machine.running ≠ .wild →
      terminateProcess s.machine.tables pid = .ok t →
      Step L s { s with machine := { s.machine with tables := t } }
  | raise {s : System} (irq : Irq) : Step L s { s with pics := s.pics.raise irq }
  | mask {s : System} (port : UInt16) (value : UInt8) : port = 0x21 ∨ port = 0xA1 →
      Step L s { s with pics := outb s.pics port value }
  | register {s : System} (irq : Fin 17) (r : Option Routine) :
      Step L s { s with routines := registerInterruptHandler s.routines irq r }
  | interrupt {s : System} (irq : Irq) : s.pics.next = some irq →
      ¬ s.CallsScheduler (32 + irq.number) →
      Step L s { s with pics := (irqHandler s.routines (32 + irq.number) (s.pics.acknowledge irq)).2 }
  | tick {s : System} (irq : Irq) (cpu : Context) {r : Switch × State} : s.machine.running ≠ .wild →
      s.pics.next = some irq → s.CallsScheduler (32 + irq.number) →
      schedulerInterruptHandler L s.machine.tables cpu = .ok r → Step L s (s.ticked irq cpu r.2)
  | software {s : System} (cpu : Context) {r : Switch × State} : s.machine.running ≠ .wild →
      s.CallsScheduler softwareVector →
      schedulerInterruptHandler L s.machine.tables cpu = .ok r → Step L s (s.yielded cpu r.2)
  | softwareReturns {s : System} : s.machine.running ≠ .wild → ¬ s.CallsScheduler softwareVector →
      Step L s { s with
        pics := (irqHandler s.routines softwareVector s.pics).2
        others := s.others + 1 }
  | exit {s : System} {t : Fin maxTasks} {loaded : Context} {s' : State} :
      s.machine.running = .task t → taskExit s.machine.tables = .ok (some loaded, s') →
      Step L s (s.exited s')

/-- `s'` is reached from `s`. -/
def Reaches (L : Layout) (s s' : System) : Prop := Relation.ReflTransGen (Step L) s s'

/-- Line 9 is in service, and line 8 is not. -/
structure Blocked (s : System) : Prop where
  first : s.pics.slave.service ⟨0, by decide⟩ = false
  second : s.pics.slave.service ⟨1, by decide⟩ = true

/-- The running thread was switched out in an interrupt of the second controller, or by `int $0x29`. -/
def Returns (s : System) : Prop := ∃ irqNumber, s.vectors s.machine.running = some irqNumber ∧ 40 ≤ irqNumber

section runs

variable {L : Layout} {s s' : System}

/-- The threads go by the steps of `Machine`. -/
theorem Step.machine (hs : Step L s s') :
    s'.machine = s.machine ∨ Machine.Step L s.machine s'.machine := by
  cases hs with
  | create entryPoint stack hrun => exact Or.inr (.create entryPoint stack hrun)
  | createForFile filename entryPoint stack hrun =>
      exact Or.inr (.createForFile filename entryPoint stack hrun)
  | terminate pid hrun hterm => exact Or.inr (.terminate pid hrun hterm)
  | raise irq => exact Or.inl rfl
  | mask port value _ => exact Or.inl rfl
  | register irq r => exact Or.inl rfl
  | interrupt irq _ _ => exact Or.inl rfl
  | tick irq cpu hrun _ _ htick => exact Or.inr (.tick cpu hrun htick)
  | software cpu hrun _ htick => exact Or.inr (.tick cpu hrun htick)
  | softwareReturns _ _ => exact Or.inl rfl
  | exit hrun hexit => exact Or.inr (.exit hrun hexit)

theorem Reaches.machine (hr : Reaches L s s') : Machine.Reaches L s.machine s'.machine := by
  induction hr with
  | refl => exact .refl
  | tail _ hs ih =>
      rcases hs.machine with heq | hstep
      · rw [heq]
        exact ih
      · exact ih.tail hstep

/-- Only a thread that was switched out is in an interrupt. -/
def Fresh (s : System) : Prop := ∀ θ, s.machine.registers θ = none → s.vectors θ = none

theorem Fresh.switched (h : s.Fresh) (irqNumber : Nat) (cpu : Context) (t : State) (p : PicPair) :
    (s.switched irqNumber cpu t p).Fresh := by
  intro θ hθ
  change Function.update s.machine.registers s.machine.running (some cpu) θ = none at hθ
  change Function.update s.vectors s.machine.running (some irqNumber) θ = none
  by_cases heq : θ = s.machine.running
  · rw [heq, Function.update_self] at hθ
    cases hθ
  · rw [Function.update_of_ne heq] at hθ ⊢
    exact h θ hθ

theorem Fresh.step (h : s.Fresh) (hs : Step L s s') : s'.Fresh := by
  cases hs with
  | create entryPoint stack _ => exact h
  | createForFile filename entryPoint stack _ => exact h
  | terminate pid _ _ => exact h
  | raise irq => exact h
  | mask port value _ => exact h
  | register irq r => exact h
  | interrupt irq _ _ => exact h
  | tick irq cpu _ _ _ _ => exact h.switched (32 + irq.number) cpu _ (s.pics.acknowledge irq)
  | software cpu _ _ _ => exact h.switched softwareVector cpu _ s.pics
  | softwareReturns _ _ => exact h
  | exit _ _ => exact h

theorem Reaches.fresh (hr : Reaches L s s') (h : s.Fresh) : s'.Fresh := by
  induction hr with
  | refl => exact h
  | tail _ hs ih => exact ih.step hs

end runs

section blocked

variable {L : Layout} {s s' : System}

/-- The second controller delivers its first line only. -/
theorem Blocked.next_ne (h : s.Blocked) {k : Fin 8} (hk : 1 ≤ k.val) : s.pics.next ≠ some (.slave k) := by
  intro hnext
  obtain ⟨⟨-, -, hservice⟩, -⟩ := PicPair.next_eq_slave hnext
  have hfree := hservice ⟨1, by decide⟩ hk
  rw [h.second] at hfree
  cases hfree

/-- The end of an interrupt of line 8 does not end that of line 9. -/
theorem Blocked.interrupt (h : s.Blocked) {irq : Irq} (hnext : s.pics.next = some irq) :
    Blocked { s with pics := (irqHandler s.routines (32 + irq.number) (s.pics.acknowledge irq)).2 } := by
  unfold irqHandler
  dsimp only
  rw [iterate_outb]
  cases irq with
  | master n =>
      have hlt : ¬ 40 ≤ 32 + (Irq.master n).number := by
        have hn := n.isLt
        change ¬ 40 ≤ 32 + n.val
        omega
      rw [sendEoi, if_neg hlt, outb_master]
      exact ⟨h.first, h.second⟩
  | slave k =>
      by_cases hk : 1 ≤ k.val
      · exact absurd hnext (h.next_ne hk)
      · obtain rfl : k = ⟨0, by decide⟩ := Fin.ext (by dsimp only; omega)
        have hfirst : ∀ l < (⟨0, by decide⟩ : Fin 8),
            (s.pics.slave.acknowledge ⟨0, by decide⟩).service l = false :=
          fun l hl => absurd hl (Nat.not_lt_zero _)
        have hend := Pic.endOfInterrupt_service (p := s.pics.slave.acknowledge ⟨0, by decide⟩)
          (by simp [Pic.acknowledge]) hfirst
        have hne : (⟨1, by decide⟩ : Fin 8) ≠ ⟨0, by decide⟩ := by decide
        rw [sendEoi, if_pos (by decide), outb_slave, outb_master]
        dsimp only [PicPair.acknowledge]
        rw [hend]
        refine ⟨by simp, ?_⟩
        dsimp only
        rw [Function.update_of_ne hne]
        exact (Function.update_of_ne hne true s.pics.slave.service).trans h.second

/-- **Who ends line 9**: the thread that goes on, if it returns through the end of an interrupt of the
second controller. -/
theorem Blocked.goOn (h : s.Blocked) (vectors : Thread → Option Nat) (θ : Thread) :
    (System.goOn vectors θ s.pics).slave.service ⟨1, by decide⟩ = false ↔
      ∃ irqNumber, vectors θ = some irqNumber ∧ 40 ≤ irqNumber := by
  have hsecond := h.second
  unfold System.goOn
  cases hθ : vectors θ with
  | none =>
      dsimp only
      rw [hsecond]
      exact iff_of_false (by decide) (by simp)
  | some irqNumber =>
      have hfirst : ∀ l < (⟨1, by decide⟩ : Fin 8), s.pics.slave.service l = false := by
        intro l hl
        obtain rfl : l = ⟨0, by decide⟩ := Fin.ext (Nat.lt_one_iff.mp hl)
        exact h.first
      have hend := Pic.endOfInterrupt_service hsecond hfirst
      simp only [Option.some.injEq, exists_eq_left']
      by_cases hle : 40 ≤ irqNumber
      · rw [sendEoi, if_pos hle, outb_slave, outb_master]
        dsimp only
        rw [hend]
        exact iff_of_true (by simp) hle
      · rw [sendEoi, if_neg hle, outb_master]
        dsimp only
        rw [hsecond]
        exact iff_of_false (by decide) hle

theorem Step.others_le (hs : Step L s s') : s.others ≤ s'.others := by
  cases hs with
  | tick irq cpu _ _ _ _ =>
      change _ ≤ if irq = schedulerLine then s.others else s.others + 1
      split <;> omega
  | software cpu _ _ _ => exact Nat.le_succ _
  | softwareReturns _ _ => exact Nat.le_succ _
  | exit _ _ => exact Nat.le_succ _
  | _ => exact le_refl _

/-- **Line 9 stays in service** as long as the scheduler is called by nobody else, and the running thread
goes on. -/
theorem Blocked.step (h : s.Blocked) (hs : Step L s s') (hothers : s'.others = s.others) :
    s'.Blocked ∧ s'.machine.running = s.machine.running := by
  cases hs with
  | create entryPoint stack _ => exact ⟨⟨h.first, h.second⟩, rfl⟩
  | createForFile filename entryPoint stack _ => exact ⟨⟨h.first, h.second⟩, rfl⟩
  | terminate pid _ _ => exact ⟨⟨h.first, h.second⟩, rfl⟩
  | raise irq =>
      refine ⟨?_, rfl⟩
      cases irq with
      | master n => exact ⟨h.first, h.second⟩
      | slave k => exact ⟨h.first, h.second⟩
  | mask port value hport =>
      have hdata : ∀ p : Pic, (p.data value).service = p.service := by
        intro p
        unfold Pic.data
        split <;> rfl
      refine ⟨?_, rfl⟩
      rcases hport with rfl | rfl
      · exact ⟨h.first, h.second⟩
      · have hservice := hdata s.pics.slave
        exact ⟨(congrFun hservice _).trans h.first, (congrFun hservice _).trans h.second⟩
  | register irq r => exact ⟨⟨h.first, h.second⟩, rfl⟩
  | interrupt irq hnext _ => exact ⟨h.interrupt hnext, rfl⟩
  | tick irq cpu _ hnext _ _ =>
      change (if irq = schedulerLine then s.others else s.others + 1) = s.others at hothers
      split at hothers
      next hline =>
        rw [hline] at hnext
        exact absurd hnext (h.next_ne (le_refl 1))
      next => exact absurd hothers (Nat.succ_ne_self _)
  | software cpu _ _ _ => exact absurd hothers (Nat.succ_ne_self _)
  | softwareReturns _ _ => exact absurd hothers (Nat.succ_ne_self _)
  | exit _ _ => exact absurd hothers (Nat.succ_ne_self _)

theorem Reaches.others_le (hr : Reaches L s s') : s.others ≤ s'.others := by
  induction hr with
  | refl => exact le_refl _
  | tail _ hs ih => exact ih.trans hs.others_le

theorem Blocked.reaches (h : s.Blocked) (hr : Reaches L s s') (hothers : s'.others = s.others) :
    s'.Blocked ∧ s'.machine.running = s.machine.running := by
  induction hr with
  | refl => exact ⟨h, rfl⟩
  | tail hr hs ih =>
      have hle := Reaches.others_le hr
      have hle' := hs.others_le
      obtain ⟨hblocked, hrunning⟩ := ih (by omega)
      obtain ⟨hblocked', hrunning'⟩ := hblocked.step hs (by omega)
      exact ⟨hblocked', hrunning'.trans hrunning⟩

/-! ## The tick that starts a task -/

/-- A tick of line 9 that starts a task leaves the line in service. -/
theorem Step.blocked (hs : Step L s s') (h : s.machine.Sound) (hfresh : s.Fresh) {t : Fin maxTasks}
    (hnew : (s.machine.tables.tasks t).isStarted = false) (hrun : s'.machine.running = .task t)
    (hothers : s'.others = s.others) : s'.Blocked := by
  have hnot : s.machine.running ≠ .task t := by
    intro heq
    rw [h.running_isStarted heq] at hnew
    cases hnew
  -- only a tick of line 9 changes the running thread without being counted
  cases hs with
  | create entryPoint stack _ => exact absurd hrun hnot
  | createForFile filename entryPoint stack _ => exact absurd hrun hnot
  | terminate pid _ _ => exact absurd hrun hnot
  | raise irq => exact absurd hrun hnot
  | mask port value _ => exact absurd hrun hnot
  | register irq r => exact absurd hrun hnot
  | interrupt irq _ _ => exact absurd hrun hnot
  | @tick irq cpu r hwild hnext hcalls htick =>
      change (if irq = schedulerLine then s.others else s.others + 1) = s.others at hothers
      split at hothers
      next hline =>
        rw [hline] at hnext ⊢
        have hrun' : (s.machine.ticked cpu r.2).running = .task t := hrun
        have hnone : Function.update s.vectors s.machine.running (some (32 + schedulerLine.number))
            (s.machine.ticked cpu r.2).running = none := by
          rw [hrun']
          exact (Function.update_of_ne hnot.symm _ _).trans (hfresh _ (h.contexts.fresh t hnew))
        -- the task has nothing to return to, so nothing ends the interrupt
        have hpics : (s.ticked schedulerLine cpu r.2).pics = s.pics.acknowledge schedulerLine := by
          dsimp only [ticked, switched]
          rw [System.goOn, hnone]
        obtain ⟨⟨-, -, hservice⟩, -⟩ := PicPair.next_eq_slave hnext
        have hne : (⟨0, by decide⟩ : Fin 8) ≠ ⟨1, by decide⟩ := by decide
        constructor
        · rw [hpics]
          exact (Function.update_of_ne hne true s.pics.slave.service).trans
            (hservice ⟨0, by decide⟩ (by decide))
        · rw [hpics]
          simp [schedulerLine, PicPair.acknowledge, Pic.acknowledge]
      next => exact absurd hothers (Nat.succ_ne_self _)
  | software cpu _ _ _ => exact absurd hothers (Nat.succ_ne_self _)
  | softwareReturns _ _ => exact absurd hothers (Nat.succ_ne_self _)
  | exit _ _ => exact absurd hothers (Nat.succ_ne_self _)

/-- **No tick comes after a start.** From the tick of line 9 that starts a task on, as long as no task
returns, no program executes `int $0x29` and no other line calls the scheduler, the task has the processor
and no line from 9 on is delivered. The first `int $0x29` or return takes line 9 out of service exactly when
the thread that goes on was switched out in an interrupt of the second controller or by `int $0x29`. -/
theorem no_tick_after_start {s₁ : System} {pics : PicPair} {routines : Routines}
    (hr : Reaches L (boot pics routines) s) (hs : Step L s s₁) {t : Fin maxTasks}
    (hnew : (s.machine.tables.tasks t).isStarted = false) (hrun : s₁.machine.running = .task t)
    (hline : s₁.others = s.others) (hr' : Reaches L s₁ s') (hothers : s'.others = s₁.others) :
    (s'.machine.running = .task t ∧ ∀ k : Fin 8, 1 ≤ k.val → s'.pics.next ≠ some (.slave k)) ∧
    (∀ cpu u, (s'.yielded cpu u).pics.slave.service ⟨1, by decide⟩ = false ↔
      (s'.yielded cpu u).Returns) ∧
    ∀ u, (s'.exited u).pics.slave.service ⟨1, by decide⟩ = false ↔ (s'.exited u).Returns := by
  have hsound := (Reaches.machine hr).sound Machine.sound_boot
  have hblocked := hs.blocked hsound (Reaches.fresh hr fun _ _ => rfl) hnew hrun hline
  obtain ⟨hblocked', hrunning⟩ := hblocked.reaches hr' hothers
  exact ⟨⟨hrunning.trans hrun, fun k hk => hblocked'.next_ne hk⟩,
    fun _ _ => hblocked'.goOn _ _, fun _ => hblocked'.goOn _ _⟩

/-- A tick of line 9 that goes on with a thread which line 9 or `int $0x29` has switched out leaves nothing
in service. -/
theorem idle_ticked (hidle : s.pics.Idle) {cpu : Context} {t : State}
    (hback : (s.ticked schedulerLine cpu t).vectors (s.ticked schedulerLine cpu t).machine.running
      = some softwareVector) : (s.ticked schedulerLine cpu t).pics.Idle := by
  have hend : sendEoi softwareVector (s.pics.acknowledge schedulerLine) = _ :=
    sendEoi_slave hidle ⟨1, by decide⟩ 0
  change (System.goOn (s.ticked schedulerLine cpu t).vectors
    (s.ticked schedulerLine cpu t).machine.running (s.pics.acknowledge schedulerLine)).Idle
  rw [System.goOn, hback]
  dsimp only
  rw [hend]
  exact hidle

end blocked

/-- The controllers initialised and the scheduler registered. -/
def started : System :=
  boot (irqRemap Cpu.Machine.unknownPics)
    (Function.update (fun _ => none) ⟨9, by decide⟩ (some .schedulerInterruptHandler))

/-- Two processes, and a request on line 9. -/
def twoWaiting : System :=
  { started with
    machine := .twoCreated
    pics := (irqRemap Cpu.Machine.unknownPics).raise schedulerLine }

theorem reaches_twoWaiting (L : Layout) : Reaches L started twoWaiting :=
  ((Relation.ReflTransGen.single (.create 0x1000 (some 0x200000) (by decide))).tail
    (.create 0x2000 (some 0x300000) (by decide))).tail (.raise schedulerLine)

/-- The second process is started and line 9 makes another request, which is not delivered. With
`int $0x29` the process starts the first one, and line 9 is still in service. -/
theorem no_tick_after_start_two : ∃ r q, schedulerInterruptHandler ⟨0⟩ twoTasks zeroContext = .ok r ∧
    schedulerInterruptHandler ⟨0⟩ r.2 zeroContext = .ok q ∧
    { twoWaiting.ticked schedulerLine zeroContext r.2 with
      pics := (twoWaiting.ticked schedulerLine zeroContext r.2).pics.raise schedulerLine }.pics.next
      ≠ some schedulerLine ∧
    ({ twoWaiting.ticked schedulerLine zeroContext r.2 with
      pics := (twoWaiting.ticked schedulerLine zeroContext r.2).pics.raise schedulerLine }.yielded
        zeroContext q.2).pics.slave.service ⟨1, by decide⟩ ≠ false := by
  refine ⟨_, _, rfl, rfl, ?_⟩
  have htick : Step ⟨0⟩ twoWaiting (twoWaiting.ticked schedulerLine zeroContext _) :=
    .tick schedulerLine zeroContext (by decide) (by decide)
      ⟨.schedulerInterruptHandler, by decide, Or.inl rfl⟩ rfl
  obtain ⟨⟨-, hnext⟩, hyield, -⟩ := no_tick_after_start (reaches_twoWaiting ⟨0⟩) htick
    (t := ⟨1, by decide⟩) rfl rfl rfl (Relation.ReflTransGen.single (.raise schedulerLine)) rfl
  refine ⟨hnext _ (le_refl 1), fun hfree => ?_⟩
  -- the first process has nothing to return to
  obtain ⟨irqNumber, hnone, -⟩ := (hyield _ _).mp hfree
  cases hnone

end System

end MicroKernel.Sched
