import MicroKernel.Lib.Cyclic
import Mathlib.Data.Fintype.Card

set_option autoImplicit false

/-! # Processes and tasks (`kernel/proc/process.c`, `kernel/sched/scheduler.c`)

Two tables: `process_list` with its reusable slots, and `tasks`, which only grows. A task points to
the slot of its process. The operations below are those that change them.

What the code gets from elsewhere is an argument: the stack that `k_malloc` returned (nothing for
`NULL`), the entry point, and the registers of the processor when `swtch` is called. The words
that the scheduler writes to the stack of a task that starts are returned beside the state: the
stack is memory of the heap, not of the tables.

A `Fault` is a step without a result that C defines: a division by zero, a write behind an array,
a loop that never ends.
-/

namespace MicroKernel.Sched

open MicroKernel.Lib

/-! ## The tables -/

/-- `MAX_PROGRAMS`. -/
def maxPrograms : Nat := 256

/-- `MAX_TASKS`. -/
def maxTasks : Nat := 8

theorem maxPrograms_pos : 0 < maxPrograms := by decide

theorem maxTasks_pos : 0 < maxTasks := by decide

/-- `STACK_SIZE`. -/
def stackSize : UInt32 := 1024 * 8

/-- `PROGRAM_LOAD_ADDRESS`. -/
def programLoadAddress : UInt32 := 0x01100000

/-- `Process`. The name is the string in the array `name`. -/
structure Process where
  pid : Int
  name : List UInt8
  isRunning : Bool
  deriving DecidableEq

/-- `context_t`. -/
structure Context where
  esp : UInt32
  ebp : UInt32
  ebx : UInt32
  esi : UInt32
  edi : UInt32
  eip : UInt32
  deriving DecidableEq

/-- `TASK_READY`, `TASK_RUNNING`, `TASK_SLEEPING`, `TASK_FINISHED`. -/
inductive Status
  | ready
  | running
  | sleeping
  | finished
  deriving DecidableEq

/-- `task_t`. The process is a slot of `process_list`, or nothing for `NULL`. -/
structure Task where
  kernelStack : UInt32
  context : Context
  status : Status
  isStarted : Bool
  process : Option (Fin maxPrograms)
  deriving DecidableEq

/-- The globals of the two modules. `current_task` and `num_tasks` stay within the array. -/
structure State where
  processList : Fin maxPrograms → Process
  nextPid : Int
  tasks : Fin maxTasks → Task
  currentTask : Fin maxTasks
  numTasks : Nat
  numTasks_le : numTasks ≤ maxTasks

/-- Where the linker puts `task_exit`. -/
structure Layout where
  taskExit : UInt32

/-- A step without a defined result. -/
inductive Fault
  | divideError
  | outOfBounds
  | endlessLoop
  deriving DecidableEq

/-- All bytes zero. -/
def zeroContext : Context := ⟨0, 0, 0, 0, 0, 0⟩

/-- The state that the kernel starts with. -/
def boot : State where
  processList _ := ⟨0, [], false⟩
  nextPid := 1
  tasks _ := ⟨0, zeroContext, .ready, false, none⟩
  currentTask := ⟨0, maxTasks_pos⟩
  numTasks := 0
  numTasks_le := Nat.zero_le _

/-! ## Creating -/

/-- The task that `create_task` makes. The stack grows down from `stack + STACK_SIZE`, where `stack`
points to words. -/
def newTask (entryPoint stack : UInt32) (process : Fin maxPrograms) : Task where
  kernelStack := stack
  context := { zeroContext with eip := entryPoint, esp := stack + 4 * stackSize }
  status := .ready
  isStarted := false
  process := some process

/-- `create_task`. When the table is full it prints a message and returns. -/
def createTask (s : State) (entryPoint stack : UInt32) (process : Fin maxPrograms) : State :=
  if h : s.numTasks < maxTasks then
    { s with
      tasks := Function.update s.tasks ⟨s.numTasks, h⟩ (newTask entryPoint stack process)
      numTasks := s.numTasks + 1
      numTasks_le := h }
  else s

/-- The first slot that no running program has. -/
def findFreeSlot (s : State) : Option (Fin maxPrograms) :=
  (List.finRange maxPrograms).find? fun i => !(s.processList i).isRunning

/-- Write a slot of `process_list`. -/
def setProcess (s : State) (i : Fin maxPrograms) (p : Process) : State :=
  { s with processList := Function.update s.processList i p }

/-- `next_pid++`, an `int`. -/
def incremented (pid : Int) : Int := Int.bmod (pid + 1) (2 ^ 32)

/-- The common body of the two functions below: take a slot, allocate a stack, create the task. -/
def launch (s : State) (name : List UInt8) (entryPoint : UInt32) (stack : Option UInt32) :
    Int × State :=
  match findFreeSlot s with
  | none => (-1, s)
  | some i =>
      let s₁ := { s with nextPid := incremented s.nextPid }
      match stack with
      | none => (-1, setProcess s₁ i ⟨s.nextPid, name, false⟩)
      | some stack =>
          (s.nextPid, createTask (setProcess s₁ i ⟨s.nextPid, name, true⟩) entryPoint stack i)

/-- `create_process`. -/
def createProcess (s : State) (entryPoint : UInt32) (stack : Option UInt32) : Int × State :=
  launch s [0x55, 0x6E, 0x6B, 0x6E, 0x6F, 0x77, 0x6E] entryPoint stack

/-- `create_process_for_file`: the file name is cut to 31 characters, and `entryPoint` is the word
that is found in the program header after loading, also when the file was not found. -/
def createProcessForFile (s : State) (filename : List UInt8) (entryPoint : UInt32)
    (stack : Option UInt32) : Int × State :=
  launch s (filename.take 31) (entryPoint + programLoadAddress) stack

/-! ## Terminating -/

/-- The first running process with the pid. -/
def findRunning (s : State) (pid : Int) : Option (Fin maxPrograms) :=
  (List.finRange maxPrograms).find? fun i =>
    (s.processList i).isRunning && decide ((s.processList i).pid = pid)

/-- `tasks[i].status = TASK_FINISHED`. -/
def finish (s : State) (i : Fin maxTasks) : State :=
  { s with tasks := Function.update s.tasks i { s.tasks i with status := .finished } }

/-- `terminate_process`. It uses the index of the process for the array of tasks. -/
def terminateProcess (s : State) (pid : Int) : Except Fault State :=
  match findRunning s pid with
  | none => .ok s
  | some i =>
      let s := setProcess s i { s.processList i with isRunning := false }
      if h : i.val < maxTasks then .ok (finish s ⟨i.val, h⟩) else .error .outOfBounds

/-! ## Scheduling -/

/-- The task is registered and not finished. -/
def Unfinished (s : State) (t : Fin maxTasks) : Prop :=
  t.val < s.numTasks ∧ (s.tasks t).status ≠ .finished

instance (s : State) (t : Fin maxTasks) : Decidable (Unfinished s t) :=
  inferInstanceAs (Decidable (_ ∧ _))

/-- `(current_task + 1) % num_tasks`. -/
def nextIndex (s : State) (h : s.numTasks ≠ 0) (t : Fin maxTasks) : Fin maxTasks :=
  ⟨(t.val + 1) % s.numTasks,
    Nat.lt_of_lt_of_le (Nat.mod_lt _ (Nat.pos_of_ne_zero h)) s.numTasks_le⟩

/-- The loop that chooses the next task. `k` bounds its turns. -/
def selectLoop (s : State) : Nat → Fin maxTasks → Except Fault (Fin maxTasks)
  | 0, _ => .error .endlessLoop
  | k + 1, t =>
      if h : s.numTasks = 0 then .error .divideError
      else if (s.tasks (nextIndex s h t)).status = .finished then selectLoop s k (nextIndex s h t)
      else .ok (nextIndex s h t)

/-- The task that `scheduler_interrupt_handler` switches to. More turns than there are tasks find
nothing new. -/
def selectTask (s : State) : Except Fault (Fin maxTasks) := selectLoop s maxTasks s.currentTask

/-- What a tick does besides changing the tables: the words it writes to the stack of a task that
starts, and the context that `swtch` loads. -/
structure Switch where
  writes : List (UInt32 × UInt32)
  loaded : Context

/-- `swtch`: save the registers in the context of `old`, load the context of `new`. -/
def swtch (s : State) (cpu : Context) (old new : Fin maxTasks) : Context × State :=
  let saved := { cpu with eip := (s.tasks old).context.eip }
  let s := { s with tasks := Function.update s.tasks old { s.tasks old with context := saved } }
  ((s.tasks new).context, s)

/-- The initial stack of a task that starts: the address of `task_exit` and below it the start
address. -/
def startTask (L : Layout) (s : State) (t : Fin maxTasks) : List (UInt32 × UInt32) × State :=
  let task := s.tasks t
  let stackTop := task.kernelStack + 4 * stackSize
  let started := { task with
    isStarted := true
    status := .running
    context := { task.context with esp := stackTop - 8 } }
  ([(stackTop - 4, L.taskExit), (stackTop - 8, task.context.eip)],
    { s with tasks := Function.update s.tasks t started })

/-- `scheduler_interrupt_handler`. -/
def schedulerInterruptHandler (L : Layout) (s : State) (cpu : Context) :
    Except Fault (Switch × State) :=
  match selectTask s with
  | .error fault => .error fault
  | .ok t =>
      let current := s.currentTask
      let s := { s with currentTask := t }
      let (writes, s) := if (s.tasks t).isStarted then ([], s) else startTask L s t
      let (loaded, s) := swtch s cpu current t
      .ok (⟨writes, loaded⟩, s)

/-- The number of unfinished tasks, as `task_exit` counts them. -/
def activeTasks (s : State) : Nat := ((List.finRange maxTasks).filter (Unfinished s ·)).length

/-- `task_exit`. Without an unfinished task it halts the system, and the tables stay as they are;
else it goes on to the next one, and the context of that task is loaded. -/
def taskExit (s : State) : Except Fault (Option Context × State) :=
  let s := finish s s.currentTask
  if activeTasks s = 0 then .ok (none, s)
  else
    match selectTask s with
    | .error fault => .error fault
    | .ok t => .ok (some (s.tasks t).context, { s with currentTask := t })

/-! ## Runs -/

/-- A step of the system. -/
inductive Op
  | create (entryPoint : UInt32) (stack : Option UInt32)
  | createForFile (filename : List UInt8) (entryPoint : UInt32) (stack : Option UInt32)
  | terminate (pid : Int)
  | exit
  | tick (cpu : Context)

/-- The state after a step. -/
def step (L : Layout) (s : State) : Op → Except Fault State
  | .create entryPoint stack => .ok (createProcess s entryPoint stack).2
  | .createForFile filename entryPoint stack =>
      .ok (createProcessForFile s filename entryPoint stack).2
  | .terminate pid => terminateProcess s pid
  | .exit => (taskExit s).map Prod.snd
  | .tick cpu => (schedulerInterruptHandler L s cpu).map Prod.snd

/-- `s'` is reached from `s` by the operations `ops`. -/
inductive Run (L : Layout) : State → List Op → State → Prop
  | nil (s : State) : Run L s [] s
  | cons {s s₁ s' : State} {op : Op} {ops : List Op} :
      step L s op = .ok s₁ → Run L s₁ ops s' → Run L s (op :: ops) s'

/-- `P` holds of every step of the run from `s` by the operations. A run ends at a fault. -/
def Throughout (L : Layout) (P : State → Op → Prop) : State → List Op → Prop
  | _, [] => True
  | s, op :: ops => P s op ∧ ∀ s₁, step L s op = .ok s₁ → Throughout L P s₁ ops

theorem throughout_congr {L : Layout} {P Q : State → Op → Prop} (h : ∀ s op, P s op ↔ Q s op)
    (s : State) (ops : List Op) : Throughout L P s ops ↔ Throughout L Q s ops := by
  induction ops generalizing s with
  | nil => exact Iff.rfl
  | cons op ops ih => simp only [Throughout, h, ih]

/-! ## Lookups -/

section lookups

variable {s : State} {pid : Int} {i : Fin maxPrograms}

theorem findFreeSlot_eq_some (h : findFreeSlot s = some i) : (s.processList i).isRunning = false := by
  simpa using List.find?_some h

theorem findFreeSlot_eq_none :
    findFreeSlot s = none ↔ ∀ p, (s.processList p).isRunning = true := by
  simp [findFreeSlot]

theorem findRunning_eq_some (h : findRunning s pid = some i) :
    (s.processList i).isRunning = true ∧ (s.processList i).pid = pid := by
  simpa using List.find?_some h

theorem setProcess_self (s : State) (i : Fin maxPrograms) (p : Process) :
    (setProcess s i p).processList i = p := Function.update_self ..

theorem status_finish (s : State) (t t' : Fin maxTasks) :
    ((finish s t).tasks t').status = if t' = t then .finished else (s.tasks t').status := by
  by_cases h : t' = t
  · simp [finish, h]
  · simp [finish, h]

theorem process_finish (s : State) (t t' : Fin maxTasks) :
    ((finish s t).tasks t').process = (s.tasks t').process := by
  by_cases h : t' = t
  · simp [finish, h]
  · simp [finish, h]

theorem unfinished_finish (s : State) (t t' : Fin maxTasks) :
    Unfinished (finish s t) t' ↔ Unfinished s t' ∧ t' ≠ t := by
  unfold Unfinished
  rw [status_finish]
  by_cases h : t' = t
  · simp [h]
  · simp [h, finish]

end lookups

end MicroKernel.Sched
