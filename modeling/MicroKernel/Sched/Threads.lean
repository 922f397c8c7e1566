import MicroKernel.Sched.StackFrames
import MicroKernel.Sched.Tick

set_option autoImplicit false

/-! # Threads of control (`swtch` over whole runs)

The kernel starts with one thread, which becomes the shell, and `current_task` is 0 although no task is
running. A tick saves the registers in the context of `current_task`, so those of the shell go to the
context of the first task that is created. `task_exit` saves nothing.

`Machine` keeps, beside the tables, which thread has the processor, which one was saved in each context,
and with which registers a thread was switched out. `Machine.Sound` is the invariant that ties them to the
contexts in the tables.
-/

namespace MicroKernel.Sched

open MicroKernel.Lib

/-- A thread: the one that the kernel started with, the code of a task, or whatever a `ret` from a stack
that was never set up leads to. -/
inductive Thread
  | boot
  | task (t : Fin maxTasks)
  | wild
  deriving DecidableEq

/-- The first task that is created. -/
def firstTask : Fin maxTasks := ⟨0, maxTasks_pos⟩

/-- The context that a thread is saved in. -/
def Thread.slot : Thread → Option (Fin maxTasks)
  | .boot => some firstTask
  | .task t => some t
  | .wild => none

/-- The registers that `swtch` saves. -/
def Context.SameRegisters (c c' : Context) : Prop :=
  c.esp = c'.esp ∧ c.ebp = c'.ebp ∧ c.ebx = c'.ebx ∧ c.esi = c'.esi ∧ c.edi = c'.edi

/-- The tables, and where the threads are. -/
structure Machine where
  tables : State
  running : Thread
  saved : Fin maxTasks → Option Thread
  registers : Thread → Option Context

/-- The kernel before any task is created. -/
def Machine.boot : Machine := ⟨Sched.boot, .boot, fun _ => none, fun _ => none⟩

namespace Machine

/-- The thread that `swtch` goes on with: nothing was saved in the context of a task that was created
and never started. -/
def resumed (saved : Fin maxTasks → Option Thread) (t : Fin maxTasks) : Thread := (saved t).getD .wild

/-- The contexts after a tick: a task that starts gets a stack to begin with, and then the running
thread is saved. -/
def savedByTick (m : Machine) (t : Fin maxTasks) : Fin maxTasks → Option Thread :=
  Function.update (if (m.tables.tasks t).isStarted then m.saved
    else Function.update m.saved t (some (.task t))) m.tables.currentTask (some m.running)

/-- After a tick with the registers `cpu` that led to the tables `s`. -/
def ticked (m : Machine) (cpu : Context) (s : State) : Machine where
  tables := s
  running := resumed (m.savedByTick s.currentTask) s.currentTask
  saved := m.savedByTick s.currentTask
  registers := Function.update m.registers m.running (some cpu)

/-- After `task_exit`, which led to the tables `s`. -/
def exited (m : Machine) (s : State) : Machine :=
  { m with tables := s, running := resumed m.saved s.currentTask }

/-- A step of the system. `task_exit` is what the code of a task returns to. -/
inductive Step (L : Layout) : Machine → Machine → Prop
  | create {m : Machine} (entryPoint : UInt32) (stack : Option UInt32) : m.running ≠ .wild →
      Step L m { m with tables := (createProcess m.tables entryPoint stack).2 }
  | createForFile {m : Machine} (filename : List UInt8) (entryPoint : UInt32)
      (stack : Option UInt32) : m.running ≠ .wild →
      Step L m { m with tables := (createProcessForFile m.tables filename entryPoint stack).2 }
  | terminate {m : Machine} {s : State} (pid : Int) : m.running ≠ .wild →
      terminateProcess m.tables pid = .ok s → Step L m { m with tables := s }
  | exit {m : Machine} {t : Fin maxTasks} {loaded : Context} {s : State} : m.running = .task t →
      taskExit m.tables = .ok (some loaded, s) → Step L m (m.exited s)
  | tick {m : Machine} (cpu : Context) {r : Switch × State} : m.running ≠ .wild →
      schedulerInterruptHandler L m.tables cpu = .ok r → Step L m (m.ticked cpu r.2)

/-- `m'` is reached from `m`. -/
def Reaches (L : Layout) (m m' : Machine) : Prop := Relation.ReflTransGen (Step L) m m'

/-! ## The invariant -/

/-- What the context of a task holds: the registers of the thread that was saved in it, or those that
`startTask` puts there. -/
structure Contexts (s : State) (saved : Fin maxTasks → Option Thread)
    (registers : Thread → Option Context) : Prop where
  slot : ∀ t θ, saved t = some θ → θ.slot = some t ∧ t.val < s.numTasks
  started : ∀ t, (s.tasks t).isStarted = true → (saved t).isSome = true
  own : ∀ t, saved t = some (.task t) → (s.tasks t).isStarted = true
  fresh : ∀ t, (s.tasks t).isStarted = false → registers (.task t) = none
  kept : ∀ t θ c, saved t = some θ → registers θ = some c → (s.tasks t).context.SameRegisters c
  left : ∀ t, saved t = some .boot → (registers .boot).isSome = true
  stack : ∀ t, saved t = some (.task t) → registers (.task t) = none →
    (s.tasks t).context.esp = (s.tasks t).kernelStack + 4 * stackSize - 8
  created : ∀ t : Fin maxTasks, t.val < s.numTasks → saved t = none →
    (s.tasks t).context.esp = (s.tasks t).kernelStack + 4 * stackSize

/-- The running thread belongs to `current_task`. -/
structure Sound (m : Machine) : Prop where
  contexts : Contexts m.tables m.saved m.registers
  running : m.running ≠ .wild → m.running.slot = some m.tables.currentTask
  task : ∀ t, m.running = .task t → m.saved t = some (.task t)
  boot : m.running = .boot → (m.tables.tasks firstTask).isStarted = true →
    m.saved firstTask = some .boot
  left : m.running ≠ .boot → (m.saved firstTask).isSome = true

end Machine

/-! ## Steps that switch nothing -/

/-- The registered tasks stay what they are but for their status, and no task is started. -/
structure SameContexts (s s' : State) : Prop where
  numTasks : s.numTasks ≤ s'.numTasks
  tasks : ∀ t : Fin maxTasks, t.val < s.numTasks →
    (s'.tasks t).context = (s.tasks t).context ∧ (s'.tasks t).kernelStack = (s.tasks t).kernelStack ∧
      (s'.tasks t).isStarted = (s.tasks t).isStarted
  started : ∀ t, (s'.tasks t).isStarted = true → (s.tasks t).isStarted = true
  created : ∀ t : Fin maxTasks, s.numTasks ≤ t.val → t.val < s'.numTasks →
    (s'.tasks t).context.esp = (s'.tasks t).kernelStack + 4 * stackSize

section same

variable {s s₁ s' : State}

theorem SameContexts.of_tasks (hn : s'.numTasks = s.numTasks)
    (h : ∀ t, (s'.tasks t).context = (s.tasks t).context ∧
      (s'.tasks t).kernelStack = (s.tasks t).kernelStack ∧
      (s'.tasks t).isStarted = (s.tasks t).isStarted) : SameContexts s s' :=
  ⟨hn.ge, fun t _ => h t, fun t ht => (h t).2.2 ▸ ht, fun t h1 h2 => by omega⟩

theorem sameContexts_finish (s : State) (i : Fin maxTasks) : SameContexts s (finish s i) := by
  refine .of_tasks rfl fun t => ?_
  by_cases ht : t = i
  · simp [finish, ht]
  · simp [finish, ht]

theorem sameContexts_createTask (s : State) (entryPoint stack : UInt32) (i : Fin maxPrograms) :
    SameContexts s (createTask s entryPoint stack i) := by
  unfold createTask
  split
  next hn =>
    refine ⟨Nat.le_succ _, fun t ht => ?_, fun t ht => ?_, fun t h1 h2 => ?_⟩
    · have hne : t ≠ ⟨s.numTasks, hn⟩ := fun heq => by
        rw [heq] at ht
        exact Nat.lt_irrefl _ ht
      simp [hne]
    · by_cases heq : t = ⟨s.numTasks, hn⟩
      · rw [heq] at ht
        simp [newTask] at ht
      · simpa [heq] using ht
    · have heq : t = ⟨s.numTasks, hn⟩ := Fin.ext (by dsimp only at h2 ⊢; omega)
      simp [heq, newTask]
  next => exact .of_tasks rfl fun t => ⟨rfl, rfl, rfl⟩

theorem sameContexts_launch (s : State) (name : List UInt8) (entryPoint : UInt32)
    (stack : Option UInt32) : SameContexts s (launch s name entryPoint stack).2 := by
  have hrefl : ∀ s' : State, s'.numTasks = s.numTasks → s'.tasks = s.tasks → SameContexts s s' :=
    fun s' hn ht => .of_tasks hn fun t => by rw [ht]; exact ⟨rfl, rfl, rfl⟩
  unfold launch
  cases findFreeSlot s with
  | none => exact hrefl s rfl rfl
  | some i =>
      cases stack with
      | none => exact hrefl _ rfl rfl
      | some stack =>
          obtain ⟨hn, ht, hs, hc⟩ := sameContexts_createTask
            (setProcess { s with nextPid := incremented s.nextPid } i ⟨s.nextPid, name, true⟩)
            entryPoint stack i
          exact ⟨hn, ht, hs, hc⟩

theorem sameContexts_terminate {pid : Int} (h : terminateProcess s pid = .ok s') :
    SameContexts s s' := by
  unfold terminateProcess at h
  split at h
  · cases h
    exact .of_tasks rfl fun t => ⟨rfl, rfl, rfl⟩
  · dsimp only at h
    split at h
    · cases h
      obtain ⟨hn, ht, hs, hc⟩ := sameContexts_finish
        (setProcess s _ { s.processList _ with isRunning := false }) _
      exact ⟨hn, ht, hs, hc⟩
    · cases h

variable {saved : Fin maxTasks → Option Thread} {registers : Thread → Option Context}

theorem Machine.Contexts.same (h : Machine.Contexts s saved registers) (hs : SameContexts s s') :
    Machine.Contexts s' saved registers where
  slot t θ hθ := ⟨(h.slot t θ hθ).1, lt_of_lt_of_le (h.slot t θ hθ).2 hs.numTasks⟩
  started t ht := h.started t (hs.started t ht)
  own t ht := (hs.tasks t (h.slot t _ ht).2).2.2.trans (h.own t ht)
  fresh t ht := by
    refine h.fresh t ?_
    by_contra hst
    rw [Bool.not_eq_false] at hst
    obtain ⟨θ, hθ⟩ := Option.isSome_iff_exists.mp (h.started t hst)
    rw [(hs.tasks t (h.slot t θ hθ).2).2.2, hst] at ht
    cases ht
  kept t θ c hθ hc := by
    rw [(hs.tasks t (h.slot t θ hθ).2).1]
    exact h.kept t θ c hθ hc
  left := h.left
  stack t ht hr := by
    obtain ⟨hctx, hstack, -⟩ := hs.tasks t (h.slot t _ ht).2
    rw [hctx, hstack]
    exact h.stack t ht hr
  created t ht hnone := by
    by_cases hlt : t.val < s.numTasks
    · obtain ⟨hctx, hstack, -⟩ := hs.tasks t hlt
      rw [hctx, hstack]
      exact h.created t hlt hnone
    · exact hs.created t (Nat.not_lt.mp hlt) ht

end same

/-! ## A tick -/

/-- What a tick does to the contexts. -/
structure Ticked (s : State) (cpu : Context) (s' : State) : Prop where
  numTasks : s'.numTasks = s.numTasks
  selected : s'.currentTask.val < s.numTasks
  isStarted : ∀ t, (s'.tasks t).isStarted = true ↔
    t = s'.currentTask ∨ (s.tasks t).isStarted = true
  kernelStack : ∀ t, (s'.tasks t).kernelStack = (s.tasks t).kernelStack
  current : (s'.tasks s.currentTask).context.SameRegisters cpu
  other : ∀ t, t ≠ s.currentTask → (t ≠ s'.currentTask ∨ (s.tasks t).isStarted = true) →
    (s'.tasks t).context = (s.tasks t).context
  fresh : s'.currentTask ≠ s.currentTask → (s.tasks s'.currentTask).isStarted = false →
    (s'.tasks s'.currentTask).context.esp
      = (s'.tasks s'.currentTask).kernelStack + 4 * stackSize - 8

section tick

variable {L : Layout} {s : State} {cpu : Context}

theorem swtch_isStarted (s : State) (cpu : Context) (old new t : Fin maxTasks) :
    ((swtch s cpu old new).2.tasks t).isStarted = (s.tasks t).isStarted := by
  by_cases ht : t = old <;> simp [swtch, ht]

theorem swtch_kernelStack (s : State) (cpu : Context) (old new t : Fin maxTasks) :
    ((swtch s cpu old new).2.tasks t).kernelStack = (s.tasks t).kernelStack := by
  by_cases ht : t = old <;> simp [swtch, ht]

theorem swtch_tasks_ne (s : State) (cpu : Context) {old t : Fin maxTasks} (ht : t ≠ old)
    (new : Fin maxTasks) : (swtch s cpu old new).2.tasks t = s.tasks t := Function.update_of_ne ht _ _

theorem swtch_context (s : State) (cpu : Context) (old new : Fin maxTasks) :
    ((swtch s cpu old new).2.tasks old).context.SameRegisters cpu := by
  simp [swtch, Context.SameRegisters]

theorem startTask_isStarted (L : Layout) (s : State) (t t' : Fin maxTasks) :
    ((startTask L s t).2.tasks t').isStarted = true ↔ t' = t ∨ (s.tasks t').isStarted = true := by
  by_cases ht : t' = t <;> simp [startTask, ht]

theorem startTask_kernelStack (L : Layout) (s : State) (t t' : Fin maxTasks) :
    ((startTask L s t).2.tasks t').kernelStack = (s.tasks t').kernelStack := by
  by_cases ht : t' = t <;> simp [startTask, ht]

theorem startTask_tasks_ne (L : Layout) (s : State) {t t' : Fin maxTasks} (ht : t' ≠ t) :
    (startTask L s t).2.tasks t' = s.tasks t' := Function.update_of_ne ht _ _

theorem startTask_esp (L : Layout) (s : State) (t : Fin maxTasks) :
    ((startTask L s t).2.tasks t).context.esp
      = ((startTask L s t).2.tasks t).kernelStack + 4 * stackSize - 8 := by
  simp [startTask]

/-- **What a tick does** to the contexts, and which of them it loads. -/
theorem ticked_of_tick {r : Switch × State} (h : schedulerInterruptHandler L s cpu = .ok r) :
    Ticked s cpu r.2 ∧ r.1.loaded = (r.2.tasks r.2.currentTask).context := by
  obtain ⟨⟨i, hi, hval, -, -⟩, hsame⟩ := tick_spec h
  have hselected : r.2.currentTask.val < s.numTasks := by
    rw [hval]
    exact Nat.mod_lt _ (by omega)
  have hloaded : r.1.loaded = (r.2.tasks r.2.currentTask).context := by
    unfold schedulerInterruptHandler at h
    cases hsel : selectTask s with
    | error fault =>
        rw [hsel] at h
        cases h
    | ok t =>
        rw [hsel] at h
        dsimp only at h
        split at h
        all_goals
          cases h
          rfl
  refine ⟨?_, hloaded⟩
  obtain ⟨t, hcur, ⟨hst, heq⟩ | ⟨hst, -, heq⟩⟩ := tick_cases h
  · refine ⟨hsame.numTasks, hselected, fun x => ?_, fun x => ?_, ?_, fun x hx _ => ?_, fun _ hnot => ?_⟩
    · rw [hcur, heq, swtch_isStarted]
      exact ⟨Or.inr, fun hor => hor.elim (fun hx => hx ▸ hst) id⟩
    · rw [heq, swtch_kernelStack]
    · rw [heq]
      exact swtch_context _ _ _ _
    · rw [heq, swtch_tasks_ne _ _ hx]
    · rw [hcur, hst] at hnot
      cases hnot
  · refine ⟨hsame.numTasks, hselected, fun x => ?_, fun x => ?_, ?_, fun x hx hor => ?_, fun hne _ => ?_⟩
    · rw [hcur, heq, swtch_isStarted]
      exact startTask_isStarted L { s with currentTask := t } t x
    · rw [heq, swtch_kernelStack]
      exact startTask_kernelStack L { s with currentTask := t } t x
    · rw [heq]
      exact swtch_context _ _ _ _
    · have hxt : x ≠ t := by
        rintro rfl
        rcases hor with hne | hstarted
        · exact hne hcur.symm
        · rw [hst] at hstarted
          cases hstarted
      rw [heq, swtch_tasks_ne _ _ hx, startTask_tasks_ne L _ hxt]
    · rw [hcur] at hne ⊢
      rw [heq, swtch_tasks_ne _ _ hne]
      exact startTask_esp L { s with currentTask := t } t

end tick

/-! ## Runs -/

namespace Machine

section sound

variable {L : Layout} {m m' : Machine} {cpu : Context} {s : State}

theorem savedByTick_current (m : Machine) (t : Fin maxTasks) :
    m.savedByTick t m.tables.currentTask = some m.running := Function.update_self _ _ _

/-- The contexts that a tick does not save to. -/
theorem savedByTick_ne (m : Machine) {t x : Fin maxTasks} (hx : x ≠ m.tables.currentTask) :
    m.savedByTick t x
      = if x = t ∧ (m.tables.tasks t).isStarted = false then some (.task t) else m.saved x := by
  rw [savedByTick, Function.update_of_ne hx]
  cases hst : (m.tables.tasks t).isStarted with
  | true => simp
  | false =>
      by_cases hxt : x = t
      · simp [hxt]
      · simp [hxt]

/-- A thread is saved in its own context. -/
theorem Sound.savedByTick_slot (h : m.Sound) (hrun : m.running ≠ .wild) {t x : Fin maxTasks} {θ : Thread}
    (hθ : m.savedByTick t x = some θ) : θ.slot = some x := by
  by_cases hx : x = m.tables.currentTask
  · rw [hx, savedByTick_current] at hθ
    cases hθ
    rw [hx]
    exact h.running hrun
  · rw [savedByTick_ne m hx] at hθ
    split at hθ
    next hstart =>
      cases hθ
      rw [hstart.1]
      rfl
    next => exact (h.contexts.slot x θ hθ).1

/-- The running thread is saved nowhere else. -/
theorem Sound.ne_running (h : m.Sound) (hrun : m.running ≠ .wild) {x : Fin maxTasks} {θ : Thread}
    (hx : x ≠ m.tables.currentTask) (hθ : θ.slot = some x) : θ ≠ m.running := by
  rintro rfl
  rw [h.running hrun] at hθ
  exact hx (Option.some.inj hθ).symm

theorem Sound.running_isStarted (h : m.Sound) {t : Fin maxTasks} (ht : m.running = .task t) :
    (m.tables.tasks t).isStarted = true := h.contexts.own t (h.task t ht)

/-- What a tick does to a context: it saves the running thread to it, begins a thread in it, or leaves
it alone. -/
theorem savedByTick_cases (m : Machine) (t x : Fin maxTasks) :
    (x = m.tables.currentTask ∧ m.savedByTick t x = some m.running) ∨
    (x ≠ m.tables.currentTask ∧ x = t ∧ (m.tables.tasks x).isStarted = false ∧
      m.savedByTick t x = some (.task x)) ∨
    (x ≠ m.tables.currentTask ∧ (x ≠ t ∨ (m.tables.tasks x).isStarted = true) ∧
      m.savedByTick t x = m.saved x) := by
  by_cases hcur : x = m.tables.currentTask
  · refine Or.inl ⟨hcur, ?_⟩
    rw [hcur, savedByTick_current]
  · by_cases hstart : x = t ∧ (m.tables.tasks t).isStarted = false
    · obtain ⟨rfl, hst⟩ := hstart
      refine Or.inr (Or.inl ⟨hcur, rfl, hst, ?_⟩)
      rw [savedByTick_ne m hcur, if_pos ⟨rfl, hst⟩]
    · refine Or.inr (Or.inr ⟨hcur, ?_, ?_⟩)
      · by_cases hx : x = t
        · subst hx
          exact Or.inr (by simpa using hstart)
        · exact Or.inl hx
      · rw [savedByTick_ne m hcur, if_neg hstart]

/-- The running thread has one of the tasks. -/
theorem Sound.currentTask_lt (h : m.Sound) (hrun : m.running ≠ .wild) (hpos : 0 < m.tables.numTasks) :
    m.tables.currentTask.val < m.tables.numTasks := by
  have hslot := h.running hrun
  cases hr : m.running with
  | boot =>
      rw [hr] at hslot
      rw [← Option.some.inj hslot]
      exact hpos
  | task t =>
      rw [hr] at hslot
      rw [← Option.some.inj hslot]
      exact (h.contexts.slot t _ (h.task t hr)).2
  | wild => exact absurd hr hrun

/-- **A tick** keeps the contexts. -/
theorem Sound.contexts_ticked (h : m.Sound) (hrun : m.running ≠ .wild) (ht : Ticked m.tables cpu s) :
    Contexts s (m.savedByTick s.currentTask) (Function.update m.registers m.running (some cpu)) where
  slot x θ hθ := by
    refine ⟨h.savedByTick_slot hrun hθ, ?_⟩
    rw [ht.numTasks]
    obtain ⟨rfl, -⟩ | ⟨-, rfl, -, -⟩ | ⟨-, -, hsaved⟩ := m.savedByTick_cases s.currentTask x
    · exact h.currentTask_lt hrun (Nat.zero_lt_of_lt ht.selected)
    · exact ht.selected
    · rw [hsaved] at hθ
      exact (h.contexts.slot x θ hθ).2
  started x hx := by
    obtain ⟨-, hsaved⟩ | ⟨-, -, -, hsaved⟩ | ⟨-, hor, hsaved⟩ := m.savedByTick_cases s.currentTask x
    · rw [hsaved]
      rfl
    · rw [hsaved]
      rfl
    · rw [hsaved]
      have hst : (m.tables.tasks x).isStarted = true :=
        ((ht.isStarted x).mp hx).elim (fun hsel => hor.resolve_left fun hne => hne hsel) id
      exact h.contexts.started x hst
  own x hx := by
    rw [ht.isStarted]
    obtain ⟨rfl, hsaved⟩ | ⟨-, hsel, -, -⟩ | ⟨-, -, hsaved⟩ := m.savedByTick_cases s.currentTask x
    · rw [hsaved] at hx
      exact Or.inr (h.running_isStarted (Option.some.inj hx))
    · exact Or.inl hsel
    · rw [hsaved] at hx
      exact Or.inr (h.contexts.own x hx)
  fresh x hx := by
    have hnot : (m.tables.tasks x).isStarted = false := by
      by_contra hst
      rw [Bool.not_eq_false] at hst
      rw [(ht.isStarted x).mpr (Or.inr hst)] at hx
      cases hx
    have hne : Thread.task x ≠ m.running := by
      intro heq
      rw [h.running_isStarted heq.symm] at hnot
      cases hnot
    rw [Function.update_of_ne hne]
    exact h.contexts.fresh x hnot
  kept x θ c hθ hc := by
    obtain ⟨rfl, hsaved⟩ | ⟨hcur, -, hnot, hsaved⟩ | ⟨hcur, hor, hsaved⟩ :=
      m.savedByTick_cases s.currentTask x
    · rw [hsaved] at hθ
      cases hθ
      rw [Function.update_self] at hc
      cases hc
      exact ht.current
    · -- a thread that begins has no registers yet
      rw [Function.update_of_ne (h.ne_running hrun hcur (h.savedByTick_slot hrun hθ))] at hc
      rw [hsaved] at hθ
      cases hθ
      rw [h.contexts.fresh x hnot] at hc
      cases hc
    · rw [Function.update_of_ne (h.ne_running hrun hcur (h.savedByTick_slot hrun hθ))] at hc
      rw [hsaved] at hθ
      rw [ht.other x hcur hor]
      exact h.contexts.kept x θ c hθ hc
  left x hθ := by
    obtain ⟨-, hsaved⟩ | ⟨-, -, -, hsaved⟩ | ⟨hcur, -, hsaved⟩ := m.savedByTick_cases s.currentTask x
    · rw [hsaved] at hθ
      rw [← Option.some.inj hθ, Function.update_self]
      rfl
    · rw [hsaved] at hθ
      cases hθ
    · rw [Function.update_of_ne (h.ne_running hrun hcur (h.savedByTick_slot hrun hθ))]
      rw [hsaved] at hθ
      exact h.contexts.left x hθ
  created x hx hnone := by
    rw [ht.numTasks] at hx
    obtain ⟨-, hsaved⟩ | ⟨-, -, -, hsaved⟩ | ⟨hcur, hor, hsaved⟩ := m.savedByTick_cases s.currentTask x
    · rw [hsaved] at hnone
      cases hnone
    · rw [hsaved] at hnone
      cases hnone
    · rw [hsaved] at hnone
      rw [ht.other x hcur hor, ht.kernelStack]
      exact h.contexts.created x hx hnone
  stack x hθ hnone := by
    obtain ⟨-, hsaved⟩ | ⟨hcur, rfl, hnot, -⟩ | ⟨hcur, hor, hsaved⟩ :=
      m.savedByTick_cases s.currentTask x
    · rw [hsaved] at hθ
      rw [← Option.some.inj hθ, Function.update_self] at hnone
      cases hnone
    · exact ht.fresh hcur hnot
    · rw [Function.update_of_ne (h.ne_running hrun hcur (h.savedByTick_slot hrun hθ))] at hnone
      rw [hsaved] at hθ
      rw [ht.other x hcur hor, ht.kernelStack]
      exact h.contexts.stack x hθ hnone

theorem resumed_eq {saved : Fin maxTasks → Option Thread} {t : Fin maxTasks} {θ : Thread}
    (h : resumed saved t = θ) (hθ : θ ≠ .wild) : saved t = some θ := by
  unfold resumed at h
  cases hs : saved t with
  | none =>
      rw [hs] at h
      exact absurd h.symm hθ
  | some θ' =>
      rw [hs] at h
      exact congrArg some h

/-- A tick goes on with a thread. -/
theorem Sound.savedByTick_selected (h : m.Sound) (t : Fin maxTasks) :
    ∃ θ, m.savedByTick t t = some θ := by
  by_cases hcur : t = m.tables.currentTask
  · refine ⟨m.running, ?_⟩
    rw [hcur]
    exact savedByTick_current m _
  · rw [savedByTick_ne m hcur]
    by_cases hst : (m.tables.tasks t).isStarted = true
    · obtain ⟨θ, hθ⟩ := Option.isSome_iff_exists.mp (h.contexts.started t hst)
      exact ⟨θ, by rw [if_neg (by simp [hst]), hθ]⟩
    · exact ⟨_, if_pos ⟨rfl, by simpa using hst⟩⟩

/-- A thread with the context 0. -/
theorem slot_first {θ : Thread} (h : θ.slot = some firstTask) :
    θ = .boot ∨ θ = .task firstTask := by
  cases θ with
  | boot => exact Or.inl rfl
  | task t => exact Or.inr (congrArg Thread.task (Option.some.inj h))
  | wild => cases h

theorem Sound.ticked (h : m.Sound) (hrun : m.running ≠ .wild) (ht : Ticked m.tables cpu s) :
    (m.ticked cpu s).Sound where
  contexts := h.contexts_ticked hrun ht
  running hne := h.savedByTick_slot hrun (resumed_eq rfl hne)
  task t hrt := by
    have hsaved := resumed_eq (show resumed _ _ = Thread.task t from hrt) (by simp)
    have hcur : s.currentTask = t := (Option.some.inj (h.savedByTick_slot hrun hsaved)).symm
    rw [hcur] at hsaved
    change m.savedByTick s.currentTask t = _
    rw [hcur]
    exact hsaved
  boot hrt _ := by
    have hsaved := resumed_eq (show resumed _ _ = Thread.boot from hrt) (by simp)
    have hcur : s.currentTask = firstTask := (Option.some.inj (h.savedByTick_slot hrun hsaved)).symm
    rw [hcur] at hsaved
    change m.savedByTick s.currentTask firstTask = _
    rw [hcur]
    exact hsaved
  left _ := by
    change (m.savedByTick s.currentTask firstTask).isSome = true
    by_cases hcur : firstTask = m.tables.currentTask
    · rw [hcur, savedByTick_current]
      rfl
    · rw [savedByTick_ne m hcur]
      split
      next => rfl
      next =>
        refine h.left fun hboot => hcur ?_
        have hslot := h.running hrun
        rw [hboot] at hslot
        exact Option.some.inj hslot

/-- **`task_exit`** finishes the task and goes on with another one. -/
theorem taskExit_cases {s s' : State} {loaded : Context} (h : taskExit s = .ok (some loaded, s')) :
    ∃ t, s' = { finish s s.currentTask with currentTask := t } ∧ loaded = (s'.tasks t).context ∧
      t.val < s.numTasks := by
  unfold taskExit at h
  dsimp only at h
  split at h
  · cases h
  · split at h
    · cases h
    next t hsel =>
      cases h
      obtain ⟨-, -, -, ht, -⟩ := selectTask_eq_ok.mp hsel
      exact ⟨t, rfl, rfl, ht.1⟩

theorem Contexts.exited {s s' : State} {loaded : Context} {saved : Fin maxTasks → Option Thread}
    {registers : Thread → Option Context} (h : Contexts s saved registers)
    (hexit : taskExit s = .ok (some loaded, s')) : Contexts s' saved registers := by
  obtain ⟨t, rfl, -⟩ := taskExit_cases hexit
  obtain ⟨hn, hts, hst, hc⟩ := sameContexts_finish s s.currentTask
  exact h.same ⟨hn, hts, hst, hc⟩

theorem Sound.exited (h : m.Sound) {t : Fin maxTasks} {loaded : Context} (hrt : m.running = .task t)
    (hexit : taskExit m.tables = .ok (some loaded, s)) : (m.exited s).Sound where
  contexts := h.contexts.exited hexit
  running hne := (h.contexts.slot _ _ (resumed_eq rfl hne)).1
  task t' hrt' := by
    have hsaved := resumed_eq (show resumed _ _ = Thread.task t' from hrt') (by simp)
    have hcur : s.currentTask = t' := (Option.some.inj (h.contexts.slot _ _ hsaved).1).symm
    rw [hcur] at hsaved
    exact hsaved
  boot hrt' _ := by
    have hsaved := resumed_eq (show resumed _ _ = Thread.boot from hrt') (by simp)
    have hcur : s.currentTask = firstTask := (Option.some.inj (h.contexts.slot _ _ hsaved).1).symm
    rw [hcur] at hsaved
    exact hsaved
  left _ := h.left (by rw [hrt]; simp)

theorem Sound.same (h : m.Sound) (hs : SameContexts m.tables s)
    (hc : s.currentTask = m.tables.currentTask) : Sound { m with tables := s } where
  contexts := h.contexts.same hs
  running hne := (h.running hne).trans (congrArg some hc.symm)
  task := h.task
  boot hrt hst := h.boot hrt (hs.started firstTask hst)
  left := h.left

theorem currentTask_terminate {s s' : State} {pid : Int} (h : terminateProcess s pid = .ok s') :
    s'.currentTask = s.currentTask := by
  unfold terminateProcess at h
  split at h
  · cases h
    rfl
  · dsimp only at h
    split at h
    · cases h
      rfl
    · cases h

/-- **Every step keeps the invariant.** -/
theorem Sound.step (h : m.Sound) (hs : Step L m m') : m'.Sound := by
  cases hs with
  | create entryPoint stack _ =>
      exact h.same (sameContexts_launch _ _ _ _) (launch_current _ _ _ _).1
  | createForFile filename entryPoint stack _ =>
      exact h.same (sameContexts_launch _ _ _ _) (launch_current _ _ _ _).1
  | terminate pid _ hok => exact h.same (sameContexts_terminate hok) (currentTask_terminate hok)
  | exit hrt hexit => exact h.exited hrt hexit
  | tick cpu hrun hok => exact h.ticked hrun (ticked_of_tick hok).1

theorem sound_boot : Machine.boot.Sound where
  contexts :=
    { slot := fun _ _ h => by cases h
      started := fun _ h => by cases h
      own := fun _ h => by cases h
      fresh := fun _ _ => rfl
      kept := fun _ _ _ h => by cases h
      left := fun _ h => by cases h
      stack := fun _ h => by cases h
      created := fun _ h => absurd h (Nat.not_lt_zero _) }
  running _ := rfl
  task _ h := by cases h
  boot _ h := by cases h
  left h := absurd rfl h

theorem Reaches.sound (hr : Reaches L m m') (h : m.Sound) : m'.Sound := by
  induction hr with
  | refl => exact h
  | tail _ hs ih => exact ih.step hs

/-! ## What a switch goes on with -/

/-- The registers are those with which the running thread was switched out. The code of a task that never
was finds the two words of `startTask` at the end of its stack. -/
def GoesOnWith (m : Machine) (loaded : Context) : Prop :=
  (∀ c, m.registers m.running = some c → loaded.SameRegisters c) ∧
    (m.registers m.running = none →
      loaded.esp = (m.tables.tasks m.tables.currentTask).kernelStack + 4 * stackSize - 8)

/-- The registers of a thread that is saved in the context of `current_task`. -/
theorem Sound.goesOnWith (h : m.Sound)
    (hsaved : m.saved m.tables.currentTask = some m.running) :
    m.GoesOnWith (m.tables.tasks m.tables.currentTask).context := by
  refine ⟨fun c hc => h.contexts.kept _ _ c hsaved hc, fun hnone => ?_⟩
  have hslot := (h.contexts.slot _ _ hsaved).1
  cases hrun : m.running with
  | boot =>
      rw [hrun] at hsaved hnone
      have hleft := h.contexts.left _ hsaved
      rw [hnone] at hleft
      cases hleft
  | task t =>
      rw [hrun] at hsaved hnone hslot
      have ht : t = m.tables.currentTask := Option.some.inj hslot
      rw [← ht] at hsaved ⊢
      exact h.contexts.stack t hsaved hnone
  | wild =>
      rw [hrun] at hslot
      cases hslot

theorem ticked_saved (h : m.Sound) :
    (m.ticked cpu s).saved (m.ticked cpu s).tables.currentTask = some (m.ticked cpu s).running := by
  obtain ⟨θ, hθ⟩ := h.savedByTick_selected s.currentTask
  change m.savedByTick s.currentTask s.currentTask = some (resumed (m.savedByTick s.currentTask) _)
  rw [resumed, hθ]
  rfl

/-- **A tick goes on with a thread**, and with its own registers. -/
theorem tick_goes_on (hr : Reaches L Machine.boot m) (hrun : m.running ≠ .wild) {r : Switch × State}
    (h : schedulerInterruptHandler L m.tables cpu = .ok r) :
    (m.ticked cpu r.2).running ≠ .wild ∧ (m.ticked cpu r.2).GoesOnWith r.1.loaded := by
  have hsound := hr.sound sound_boot
  obtain ⟨ht, hloaded⟩ := ticked_of_tick h
  have hsound' := hsound.ticked hrun ht
  have hsaved : (m.ticked cpu r.2).saved (m.ticked cpu r.2).tables.currentTask
      = some (m.ticked cpu r.2).running := ticked_saved hsound
  refine ⟨fun hwild => ?_, ?_⟩
  · have hslot := (hsound'.contexts.slot _ _ hsaved).1
    rw [hwild] at hslot
    cases hslot
  · rw [hloaded]
    exact hsound'.goesOnWith hsaved

end sound

/-- The machine with two processes, no task started. -/
def twoCreated : Machine := { Machine.boot with tables := twoTasks }

theorem reaches_twoCreated (L : Layout) : Reaches L Machine.boot twoCreated :=
  (Relation.ReflTransGen.single (.create 0x1000 (some 0x200000) (by decide))).tail
    (.create 0x2000 (some 0x300000) (by decide))

/-- The first tick leaves the shell for the second process. -/
theorem tick_goes_on_two : ∃ r, schedulerInterruptHandler ⟨0⟩ twoTasks zeroContext = .ok r ∧
    (twoCreated.ticked zeroContext r.2).running ≠ .wild ∧
    (twoCreated.ticked zeroContext r.2).GoesOnWith r.1.loaded := by
  obtain ⟨r, hr, -⟩ := (tick_iff ⟨0⟩ twoTasks).mpr ⟨⟨0, by decide⟩, by decide⟩ zeroContext
  exact ⟨r, hr, tick_goes_on (reaches_twoCreated ⟨0⟩) (by decide) hr⟩

/-! ## The shell and the first task -/

section sound

variable {L : Layout} {m m' : Machine} {s : State}

/-- The context of the first task is taken by one of the two threads, and the other one does not run. -/
structure Lost (m : Machine) (θ kept : Thread) : Prop where
  started : (m.tables.tasks firstTask).isStarted = true
  saved : m.saved firstTask = some kept
  running : m.running ≠ θ

theorem Lost.step {θ kept : Thread} (hl : m.Lost θ kept) (h : m.Sound) (hne : kept ≠ θ)
    (hslot : θ.slot = some firstTask) (hs : Step L m m') : m'.Lost θ kept := by
  have hlt : firstTask.val < m.tables.numTasks := (h.contexts.slot _ _ hl.saved).2
  have hwild : θ ≠ .wild := by
    rintro rfl
    cases hslot
  cases hs with
  | create entryPoint stack _ =>
      exact ⟨((sameContexts_launch _ _ _ _).tasks _ hlt).2.2.trans hl.started, hl.saved, hl.running⟩
  | createForFile filename entryPoint stack _ =>
      exact ⟨((sameContexts_launch _ _ _ _).tasks _ hlt).2.2.trans hl.started, hl.saved, hl.running⟩
  | terminate pid _ hok =>
      exact ⟨((sameContexts_terminate hok).tasks _ hlt).2.2.trans hl.started, hl.saved, hl.running⟩
  | exit hrt hexit =>
      obtain ⟨t, rfl, -⟩ := taskExit_cases hexit
      refine ⟨((sameContexts_finish m.tables _).tasks _ hlt).2.2.trans hl.started, hl.saved,
        fun hθ => ?_⟩
      have hsaved := resumed_eq hθ hwild
      have hcur : t = firstTask :=
        Option.some.inj ((h.contexts.slot _ _ hsaved).1.symm.trans hslot)
      rw [hcur, hl.saved] at hsaved
      exact hne (Option.some.inj hsaved)
  | @tick cpu r hrun hok =>
      obtain ⟨ht, -⟩ := ticked_of_tick hok
      have hsaved : m.savedByTick r.2.currentTask firstTask = some kept := by
        by_cases hcur : firstTask = m.tables.currentTask
        · -- the running thread has this context, so it is the one that was kept
          have hrt : m.running.slot = some firstTask := (h.running hrun).trans (congrArg some hcur.symm)
          have hkept : m.running = kept := by
            have hk := slot_first (h.contexts.slot _ _ hl.saved).1
            have hθ := slot_first hslot
            have hr := slot_first hrt
            have hnot := hl.running
            grind
          rw [← hkept]
          conv_lhs => rw [hcur]
          exact savedByTick_current m _
        · rw [savedByTick_ne m hcur, if_neg, hl.saved]
          rintro ⟨heq, hnot⟩
          rw [← heq, hl.started] at hnot
          cases hnot
      refine ⟨(ht.isStarted _).mpr (Or.inr hl.started), hsaved, fun hθ => ?_⟩
      have hsel := resumed_eq hθ hwild
      have hcur : r.2.currentTask = firstTask :=
        Option.some.inj ((h.savedByTick_slot hrun hsel).symm.trans hslot)
      rw [hcur] at hsel
      rw [hcur, hsel] at hsaved
      exact hne (Option.some.inj hsaved).symm

theorem Lost.reaches {θ kept : Thread} (hl : m.Lost θ kept) (h : m.Sound) (hne : kept ≠ θ)
    (hslot : θ.slot = some firstTask) (hr : Reaches L m m') : m'.running ≠ θ := by
  have hboth : m'.Sound ∧ m'.Lost θ kept := by
    induction hr with
    | refl => exact ⟨h, hl⟩
    | tail _ hs ih => exact ⟨ih.1.step hs, ih.2.step ih.1 hne hslot hs⟩
  exact hboth.2.running

/-- **The shell or the first process**: once the first task is started, one of the two is lost. -/
theorem shell_or_first (hr : Reaches L Machine.boot m)
    (hstarted : (m.tables.tasks firstTask).isStarted = true) :
    (∀ m', Reaches L m m' → m'.running ≠ .boot) ∨
      (∀ m', Reaches L m m' → m'.running ≠ .task firstTask) := by
  have hsound := hr.sound sound_boot
  obtain ⟨θ, hθ⟩ := Option.isSome_iff_exists.mp (hsound.contexts.started _ hstarted)
  obtain rfl | rfl := slot_first (hsound.contexts.slot _ _ hθ).1
  · have hl : m.Lost (.task firstTask) .boot := ⟨hstarted, hθ, fun hrun => by
      rw [hsound.task _ hrun] at hθ
      cases hθ⟩
    exact Or.inr fun m' hm' => hl.reaches hsound (by simp) rfl hm'
  · have hl : m.Lost .boot (.task firstTask) := ⟨hstarted, hθ, fun hrun => by
      rw [hsound.boot hrun hstarted] at hθ
      cases hθ⟩
    exact Or.inl fun m' hm' => hl.reaches hsound (by simp) rfl hm'

end sound

/-- The machine with one process. -/
def oneCreated : Machine :=
  { Machine.boot with tables := (createProcess Sched.boot 0x1000 (some 0x200000)).2 }

theorem reaches_oneCreated (L : Layout) : Reaches L Machine.boot oneCreated :=
  Relation.ReflTransGen.single (.create 0x1000 (some 0x200000) (by decide))

/-- With one process it is the first tick that decides. -/
theorem shell_or_first_one : ∃ r, schedulerInterruptHandler ⟨0⟩ oneCreated.tables zeroContext = .ok r ∧
    ((∀ m', Reaches ⟨0⟩ (oneCreated.ticked zeroContext r.2) m' → m'.running ≠ .boot) ∨
      ∀ m', Reaches ⟨0⟩ (oneCreated.ticked zeroContext r.2) m' → m'.running ≠ .task firstTask) :=
  ⟨_, rfl, shell_or_first ((reaches_oneCreated ⟨0⟩).tail (.tick zeroContext (by decide) rfl)) rfl⟩

/-! ## A task that returns -/

section sound

variable {L : Layout} {m m' : Machine} {s : State}

/-- Nothing is saved in the context of another task than the first one until it is started. -/
theorem Contexts.saved_eq_none_iff {s : State} {saved : Fin maxTasks → Option Thread}
    {registers : Thread → Option Context} (h : Contexts s saved registers) {t : Fin maxTasks}
    (ht : t ≠ firstTask) : saved t = none ↔ (s.tasks t).isStarted = false := by
  constructor
  · intro hnone
    by_contra hst
    have hsome := h.started t (by simpa using hst)
    rw [hnone] at hsome
    cases hsome
  · intro hnot
    rw [Option.eq_none_iff_forall_ne_some]
    intro θ hθ
    have hslot := (h.slot t θ hθ).1
    cases θ with
    | boot => exact ht (Option.some.inj hslot).symm
    | task t' =>
        obtain rfl : t' = t := Option.some.inj hslot
        rw [h.own _ hθ] at hnot
        cases hnot
    | wild => cases hslot

/-- **`task_exit`** goes on with a thread and its registers, unless it selects a task that was never
started: then `swtch` returns to the word behind the stack. -/
theorem exit_goes_on (hr : Reaches L Machine.boot m) {t : Fin maxTasks} (hrun : m.running = .task t)
    {loaded : Context} (h : taskExit m.tables = .ok (some loaded, s)) :
    ((m.exited s).running = .wild ↔
      s.currentTask ≠ firstTask ∧ (s.tasks s.currentTask).isStarted = false) ∧
    ((m.exited s).running = .wild →
      loaded.esp = (s.tasks s.currentTask).kernelStack + 4 * stackSize) ∧
    ((m.exited s).running ≠ .wild → (m.exited s).GoesOnWith loaded) := by
  have hsound := hr.sound sound_boot
  have hsound' := hsound.exited hrun h
  obtain ⟨t', hs, hloaded, hlt⟩ := taskExit_cases h
  have hcur : s.currentTask = t' := by rw [hs]
  have hn : s.numTasks = m.tables.numTasks := by rw [hs]; rfl
  have hnone : (m.exited s).running = .wild ↔ m.saved s.currentTask = none := by
    change resumed m.saved s.currentTask = .wild ↔ _
    unfold resumed
    cases hsaved : m.saved s.currentTask with
    | none => simp
    | some θ =>
        have hslot := (hsound.contexts.slot _ _ hsaved).1
        cases θ with
        | boot => simp
        | task t => simp
        | wild => cases hslot
  refine ⟨?_, fun hwild => ?_, fun hne => ?_⟩
  · rw [hnone]
    by_cases hfirst : s.currentTask = firstTask
    · have hleft := hsound.left (by rw [hrun]; simp)
      rw [hfirst]
      simp only [ne_eq, not_true_eq_false, false_and, iff_false]
      intro heq
      rw [heq] at hleft
      cases hleft
    · have hiff : m.saved s.currentTask = none ↔ (s.tasks s.currentTask).isStarted = false :=
        hsound'.contexts.saved_eq_none_iff hfirst
      rw [hiff]
      exact ⟨fun hnot => ⟨hfirst, hnot⟩, And.right⟩
  · rw [hloaded, ← hcur]
    exact hsound'.contexts.created s.currentTask (by change s.currentTask.val < s.numTasks; omega)
      (hnone.mp hwild)
  · rw [hloaded, ← hcur]
    exact hsound'.goesOnWith (resumed_eq rfl hne)

end sound

/-- The machine with three processes, the second of which has been started. -/
def threeCreated : Machine :=
  { Machine.boot with tables := (createProcess twoTasks 0x3000 (some 0x400000)).2 }

/-- The second process returns before the third one is started. -/
theorem exit_goes_on_three : ∃ r loaded s,
    schedulerInterruptHandler ⟨0⟩ threeCreated.tables zeroContext = .ok r ∧
    taskExit r.2 = .ok (some loaded, s) ∧
    ((threeCreated.ticked zeroContext r.2).exited s).running = .wild ∧
    loaded.esp = 0x400000 + 4 * stackSize := by
  refine ⟨_, _, _, rfl, rfl, ?_⟩
  obtain ⟨hwild, hesp, -⟩ := exit_goes_on (L := ⟨0⟩) (t := ⟨1, by decide⟩)
    (((reaches_twoCreated ⟨0⟩).tail (.create 0x3000 (some 0x400000) (by decide))).tail
      (.tick zeroContext (by decide) rfl)) rfl rfl
  have hrun := hwild.mpr ⟨by decide, rfl⟩
  exact ⟨hrun, hesp hrun⟩

end Machine

end MicroKernel.Sched
