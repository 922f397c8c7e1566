import MicroKernel.Heap.Use
import MicroKernel.Sched.Pairing

set_option autoImplicit false

/-! # The stacks of the tasks

`create_process` asks `k_malloc` for `STACK_SIZE` bytes. `create_task` and
`scheduler_interrupt_handler` take what it returns for a pointer to words and add `STACK_SIZE` to it,
which is four times as far: the initial stack pointer and the first two words are 24 KiB behind the
end of the stack.

The pointer of a task stays what it was in every run (`Run.sameStacks`), so that the words go to the
same place whenever the task is started, and whatever other processes are created before
(`writes_of_firstStart`).
-/

namespace MicroKernel.Sched

open MicroKernel.Lib Bytes

/-! ## Processes with a stack from the heap -/

/-- A call of `create_process` or of `create_process_for_file`. -/
inductive Creation
  | process (entryPoint : UInt32)
  | file (filename : List UInt8) (entryPoint : UInt32)

/-- The call, with what `k_malloc` returns. -/
def Creation.run (s : State) (stack : Option UInt32) : Creation → Int × State
  | .process entryPoint => createProcess s entryPoint stack
  | .file filename entryPoint => createProcessForFile s filename entryPoint stack

/-- The call has created a process: there was a slot, and `k_malloc(STACK_SIZE)` returned `ptr`. -/
structure Created (LH : Heap.Layout) (c : Creation) (s : State) (r : Heap.Run) (s' : State)
    (r' : Heap.Run) (ptr : Nat) : Prop where
  slot : (findFreeSlot s).isSome = true
  malloc : Heap.kMalloc LH r.heap stackSize.toNat = some (r'.heap, ptr)
  ptr_ne : ptr ≠ 0
  live : r'.live = (ptr, stackSize.toNat) :: r.live
  state : s' = (c.run s (some (UInt32.ofNat ptr))).2

/-- The task that the call has registered, if it has. -/
def NewTask (s s' : State) (t : Fin maxTasks) : Prop := t.val = s.numTasks ∧ t.val < s'.numTasks

/-- The tick from `s` to `s'` is the one that starts the task. -/
def FirstStart (t : Fin maxTasks) (s s' : State) : Prop :=
  s'.currentTask = t ∧ (s.tasks t).isStarted = false

/-- The memory after the words of a tick. -/
def Switch.store (w : Switch) (m : Bytes) : Bytes :=
  w.writes.foldl (fun m e => store32 m e.1.toNat e.2.toNat) m

/-- What the frame of the task should be like: the initial stack pointer and the words of its start
are in the stack at `ptr`, whatever happens before the start, and so no other live block changes. -/
structure FrameInStack (LH : Heap.Layout) (L : Layout) (ptr : Nat) (t : Fin maxTasks) (s : State)
    (r : Heap.Run) : Prop where
  esp : ptr ≤ (s.tasks t).context.esp.toNat ∧
    (s.tasks t).context.esp.toNat ≤ ptr + stackSize.toNat
  words : ∀ ops s₁ cpu switch s₂, Run L s ops s₁ →
    schedulerInterruptHandler L s₁ cpu = .ok (switch, s₂) → FirstStart t s₁ s₂ →
      ∀ e ∈ switch.writes, ptr ≤ e.1.toNat ∧ e.1.toNat + 4 ≤ ptr + stackSize.toNat
  others : ∀ ops s₁ cpu switch s₂ r₁, Run L s ops s₁ →
    schedulerInterruptHandler L s₁ cpu = .ok (switch, s₂) → FirstStart t s₁ s₂ →
      Relation.ReflTransGen (Heap.UseStep LH) r r₁ → (ptr, stackSize.toNat) ∈ r₁.live →
        ∀ e ∈ r₁.live, e.1 ≠ ptr → ∀ x, e.1 ≤ x → x < e.1 + e.2 →
          switch.store r₁.heap.mem x = r₁.heap.mem x

/-! ## The pointer of a task stays -/

/-- Registered tasks stay registered, with the stack they have. -/
def SameStacks (s s' : State) : Prop :=
  ∀ t : Fin maxTasks, t.val < s.numTasks →
    t.val < s'.numTasks ∧ (s'.tasks t).kernelStack = (s.tasks t).kernelStack

section keep

variable {L : Layout} {s s₁ s' : State} {cpu : Context} {t : Fin maxTasks}

theorem SameStacks.refl (s : State) : SameStacks s s := fun _ ht => ⟨ht, rfl⟩

theorem SameStacks.trans (h : SameStacks s s₁) (h' : SameStacks s₁ s') : SameStacks s s' := by
  intro t ht
  obtain ⟨ht₁, heq⟩ := h t ht
  obtain ⟨ht', heq'⟩ := h' t ht₁
  exact ⟨ht', heq'.trans heq⟩

/-- One task changes, but not its stack. -/
theorem sameStacks_update (s : State) (i : Fin maxTasks) {task : Task}
    (h : task.kernelStack = (s.tasks i).kernelStack) :
    SameStacks s { s with tasks := Function.update s.tasks i task } := by
  intro t ht
  refine ⟨ht, ?_⟩
  by_cases hti : t = i
  · rw [hti]
    exact (congrArg Task.kernelStack (Function.update_self ..)).trans h
  · exact congrArg Task.kernelStack (Function.update_of_ne hti ..)

theorem sameStacks_createTask (s : State) (entryPoint stack : UInt32) (i : Fin maxPrograms) :
    SameStacks s (createTask s entryPoint stack i) := by
  intro t ht
  unfold createTask
  split
  · -- the new task is behind the registered ones
    refine ⟨Nat.lt_succ_of_lt ht, congrArg Task.kernelStack (Function.update_of_ne ?_ ..)⟩
    intro heq
    rw [heq] at ht
    exact Nat.lt_irrefl _ ht
  · exact ⟨ht, rfl⟩

theorem sameStacks_launch (s : State) (name : List UInt8) (entryPoint : UInt32)
    (stack : Option UInt32) : SameStacks s (launch s name entryPoint stack).2 := by
  unfold launch
  cases findFreeSlot s with
  | none => exact .refl s
  | some i =>
      cases stack with
      | none => exact .refl s
      | some stack =>
          exact sameStacks_createTask
            (setProcess { s with nextPid := incremented s.nextPid } i ⟨s.nextPid, name, true⟩)
            entryPoint stack i

/-- A tick that completes goes on with a task, which it starts first when that is due. -/
theorem tick_cases {r : Switch × State} (h : schedulerInterruptHandler L s cpu = .ok r) :
    ∃ t, r.2.currentTask = t ∧
      ((s.tasks t).isStarted = true ∧
          r.2 = (swtch { s with currentTask := t } cpu s.currentTask t).2 ∨
        (s.tasks t).isStarted = false ∧
          r.1.writes = (startTask L { s with currentTask := t } t).1 ∧
          r.2 = (swtch (startTask L { s with currentTask := t } t).2 cpu s.currentTask t).2) := by
  unfold schedulerInterruptHandler at h
  cases hsel : selectTask s with
  | error fault =>
      rw [hsel] at h
      cases h
  | ok t =>
      rw [hsel] at h
      dsimp only at h
      cases hst : (s.tasks t).isStarted with
      | true =>
          rw [if_pos hst] at h
          cases h
          exact ⟨t, rfl, Or.inl ⟨hst, rfl⟩⟩
      | false =>
          rw [if_neg (by rw [hst]; decide)] at h
          cases h
          exact ⟨t, rfl, Or.inr ⟨hst, rfl, rfl⟩⟩

theorem sameStacks_swtch (s : State) (cpu : Context) (old new : Fin maxTasks) :
    SameStacks s (swtch s cpu old new).2 := sameStacks_update s old rfl

theorem sameStacks_startTask (L : Layout) (s : State) (t : Fin maxTasks) :
    SameStacks s (startTask L s t).2 := sameStacks_update s t rfl

theorem sameStacks_tick {r : Switch × State} (h : schedulerInterruptHandler L s cpu = .ok r) :
    SameStacks s r.2 := by
  obtain ⟨t, -, ⟨-, heq⟩ | ⟨-, -, heq⟩⟩ := tick_cases h
  · rw [heq]
    exact sameStacks_swtch { s with currentTask := t } cpu s.currentTask t
  · rw [heq]
    exact (sameStacks_startTask L { s with currentTask := t } t).trans
      (sameStacks_swtch _ cpu s.currentTask t)

/-- Every step of the system. -/
theorem sameStacks_step {op : Op} (h : step L s op = .ok s') : SameStacks s s' := by
  cases op with
  | create entryPoint stack =>
      cases h
      exact sameStacks_launch s _ entryPoint stack
  | createForFile filename entryPoint stack =>
      cases h
      exact sameStacks_launch s _ _ stack
  | terminate pid =>
      simp only [step, terminateProcess] at h
      split at h
      · cases h
        exact .refl _
      · split at h
        · cases h
          exact sameStacks_update (setProcess s _ _) _ rfl
        · cases h
  | exit =>
      simp only [step, taskExit] at h
      have hfinish : SameStacks s (finish s s.currentTask) := sameStacks_update _ _ rfl
      split at h
      · cases h
        exact hfinish
      · split at h
        · cases h
        · cases h
          exact hfinish
  | tick cpu =>
      simp only [step] at h
      cases htick : schedulerInterruptHandler L s cpu with
      | error fault =>
          rw [htick] at h
          cases h
      | ok r =>
          rw [htick] at h
          cases h
          exact sameStacks_tick htick

/-- **The stacks stay** in every run. -/
theorem Run.sameStacks {ops : List Op} (h : Run L s ops s') : SameStacks s s' := by
  induction h with
  | nil s => exact .refl s
  | cons hstep _ ih => exact (sameStacks_step hstep).trans ih

/-- The words of a tick that starts a task, from the pointer that the task has. -/
theorem writes_of_tick {r : Switch × State} (h : schedulerInterruptHandler L s cpu = .ok r)
    (hfirst : FirstStart t s r.2) :
    r.1.writes = [((s.tasks t).kernelStack + 4 * stackSize - 4, L.taskExit),
      ((s.tasks t).kernelStack + 4 * stackSize - 8, (s.tasks t).context.eip)] := by
  obtain ⟨rfl, hnot⟩ := hfirst
  obtain ⟨t, rfl, ⟨hst, -⟩ | ⟨-, hwrites, -⟩⟩ := tick_cases h
  · rw [hnot] at hst
    cases hst
  · exact hwrites

end keep

/-! ## What the creation leaves -/

/-- `k_malloc` returns a 32-bit pointer. -/
theorem kMallocRec_lt {LH : Heap.Layout} {n ptr : Nat} {heap' : Heap.State} (k : Nat)
    {heap : Heap.State} (h : Heap.kMallocRec LH n k heap = some (heap', ptr)) : ptr < 2 ^ 32 := by
  induction k generalizing heap with
  | zero => cases h
  | succ k ih =>
      rw [Heap.kMallocRec, Option.bind_eq_some_iff] at h
      obtain ⟨current, -, h⟩ := h
      split at h
      · cases h
        exact Nat.mod_lt _ (by decide)
      · dsimp only at h
        split at h
        · cases h
          decide
        · obtain ⟨heap₁, -, h⟩ := Option.bind_eq_some_iff.mp h
          exact ih h

section created

variable {LH : Heap.Layout} {L : Layout} {c : Creation} {s s' : State} {r r' : Heap.Run} {ptr : Nat}
  {t : Fin maxTasks}

theorem Created.ptr_lt (h : Created LH c s r s' r' ptr) : ptr < 2 ^ 32 := kMallocRec_lt _ h.malloc

/-- Both functions have the same body. -/
theorem Creation.run_eq (c : Creation) (s : State) (stack : Option UInt32) :
    ∃ name entryPoint, c.run s stack = launch s name entryPoint stack := by
  cases c with
  | process entryPoint => exact ⟨_, _, rfl⟩
  | file filename entryPoint => exact ⟨_, _, rfl⟩

/-- A task is registered when there is room for one, and this is what it is like. -/
theorem Created.task (h : Created LH c s r s' r' ptr) (ht : t.val = s.numTasks) :
    NewTask s s' t ∧ ∃ entryPoint i, s'.tasks t = newTask entryPoint (UInt32.ofNat ptr) i := by
  obtain ⟨i, hi⟩ := Option.isSome_iff_exists.mp h.slot
  obtain ⟨name, entryPoint, hrun⟩ := c.run_eq s (some (UInt32.ofNat ptr))
  have hn : s.numTasks < maxTasks := ht ▸ t.isLt
  have hs' : s' = launched s name entryPoint (UInt32.ofNat ptr) i hn := by
    rw [h.state, hrun, launch_some hi hn]
  obtain rfl : t = ⟨s.numTasks, hn⟩ := Fin.ext ht
  refine ⟨⟨rfl, ?_⟩, entryPoint, i, ?_⟩
  · rw [hs']
    exact Nat.lt_succ_self _
  · rw [hs']
    exact Function.update_self ..

theorem toNat_top (hptr : ptr < 2 ^ 32) :
    (UInt32.ofNat ptr + 4 * stackSize).toNat = (ptr + 32768) % 2 ^ 32 := by
  have hsize : (4 * stackSize).toNat = 32768 := rfl
  rw [UInt32.toNat_add, UInt32.toNat_ofNat', hsize, Nat.mod_eq_of_lt hptr]

/-- **The words of the start**, at whatever tick it is: 24 KiB behind the end of the stack. -/
theorem Created.writes (h : Created LH c s r s' r' ptr) (ht : NewTask s s' t) {ops : List Op}
    {s₁ s₂ : State} {cpu : Context} {switch : Switch} (hrun : Run L s' ops s₁)
    (htick : schedulerInterruptHandler L s₁ cpu = .ok (switch, s₂)) (hfirst : FirstStart t s₁ s₂) :
    switch.writes = [(UInt32.ofNat ptr + 4 * stackSize - 4, L.taskExit),
      (UInt32.ofNat ptr + 4 * stackSize - 8, (s₁.tasks t).context.eip)] := by
  obtain ⟨-, entryPoint, i, htask⟩ := h.task ht.1
  have hstack : (s₁.tasks t).kernelStack = UInt32.ofNat ptr := by
    rw [(hrun.sameStacks t ht.2).2, htask]
    rfl
  rw [← hstack]
  exact writes_of_tick htick hfirst

/-- A process that has a task has no frame in its stack. -/
theorem Created.not_frameInStack (h : Created LH c s r s' r' ptr) (ht : NewTask s s' t) :
    ¬ FrameInStack LH L ptr t s' r' := by
  intro hframe
  obtain ⟨-, entryPoint, i, htask⟩ := h.task ht.1
  have hesp : (s'.tasks t).context.esp.toNat = (ptr + 32768) % 2 ^ 32 := by
    rw [htask]
    exact toNat_top h.ptr_lt
  have hsize : stackSize.toNat = 8192 := rfl
  have hptr := h.ptr_lt
  obtain ⟨hlo, hhi⟩ := hframe.esp
  rw [hesp] at hlo hhi
  omega

end created

/-! ## The first process -/

/-- A request that the free list serves. -/
theorem exists_malloc {LH : Heap.Layout} {r : Heap.Run} {bs bs' : List Block} (h : Heap.Inv LH r bs)
    {n a : Nat} (ha : Lib.alloc Heap.blockSize n bs = some (a, bs')) :
    ∃ r', Heap.kMalloc LH r.heap n = some (r'.heap, a + Heap.blockSize) ∧
      r'.live = (a + Heap.blockSize, n) :: r.live ∧ Heap.UseStep LH r r' ∧ Heap.Inv LH r' bs' := by
  have hk := Heap.kMalloc_served (L := LH) h.seg h.placed ha
  refine ⟨_, hk, rfl, .call ⟨.malloc n, trivial, (Heap.fromFreeList_iff h.seg h.placed).mpr ?_, ?_⟩,
    h.alloc ha⟩
  · exact ⟨a, bs', ha⟩
  · simp [Heap.Run.call, hk, Heap.grant, Heap.blockSize]

/-- The list after the first request for a stack. -/
def oneStack : List Block := [⟨0x00204000, 8192, false⟩, ⟨0x0020600c, 0x0edf9fe8, true⟩]

/-- The process that is created right after the start. -/
theorem created_boot : ∃ r', Heap.Inv Heap.layout512 r' oneStack ∧
    Created Heap.layout512 (.process 0x00400000) boot (Heap.boot Heap.layout512 fun _ => 0)
      (createProcess boot 0x00400000 (some (UInt32.ofNat 0x0020400c))).2 r' 0x0020400c := by
  have hboot := Heap.inv_boot Heap.layout512 (by decide) fun _ => 0
  obtain ⟨r', hk, hlive, -, hi⟩ := exists_malloc hboot (n := stackSize.toNat) rfl
  exact ⟨r', hi, by decide, hk, by decide, hlive, rfl⟩

/-! ## When the frames are in the stacks -/

/-- **Stack frames.** For every state of the heap and of the tables and every process that is
created: its frame is in its stack exactly when it gets no task, because the table of the tasks is
full. -/
theorem framesInStack_iff {LH : Heap.Layout} {L : Layout} {c : Creation} {s s' : State}
    {r r' : Heap.Run} {ptr : Nat} (h : Created LH c s r s' r' ptr) :
    (∀ t, NewTask s s' t → FrameInStack LH L ptr t s' r') ↔ s.numTasks = maxTasks := by
  have hle := s.numTasks_le
  constructor
  · intro hframes
    by_contra hne
    have hn : s.numTasks < maxTasks := by omega
    have ht := (h.task (t := ⟨s.numTasks, hn⟩) rfl).1
    exact h.not_frameInStack ht (hframes _ ht)
  · intro hfull t ht
    have hlt := t.isLt
    rw [ht.1, hfull] at hlt
    exact absurd hlt (Nat.lt_irrefl _)

/-- The first process has a task. -/
theorem framesInStack_iff_boot : ∃ s' r',
    Created Heap.layout512 (.process 0x00400000) boot (Heap.boot Heap.layout512 fun _ => 0) s' r'
      0x0020400c ∧
    ¬ ∀ t, NewTask boot s' t → FrameInStack Heap.layout512 ⟨0x00101234⟩ 0x0020400c t s' r' := by
  obtain ⟨r', -, hcreated⟩ := created_boot
  exact ⟨_, r', hcreated, fun h => absurd ((framesInStack_iff hcreated).mp h) (by decide)⟩

/-- The list after four requests for a stack. -/
def fourStacks : List Block :=
  [⟨0x00204000, 8192, false⟩, ⟨0x0020600c, 8192, false⟩, ⟨0x00208018, 8192, false⟩,
    ⟨0x0020a024, 8192, false⟩, ⟨0x0020c030, 0x0edf3fc4, true⟩]

/-- The first process that is created after the start, and three more stacks. The words of its start
go to the fourth. -/
theorem not_framesInStack :
    ∃ s' r' r₁ switch s₂,
      Created Heap.layout512 (.process 0x00400000) boot (Heap.boot Heap.layout512 fun _ => 0) s' r'
        0x0020400c ∧
      (¬ ∀ t, NewTask boot s' t → FrameInStack Heap.layout512 ⟨0x00101234⟩ 0x0020400c t s' r') ∧
      Relation.ReflTransGen (Heap.UseStep Heap.layout512) r' r₁ ∧ (0x0020a030, 8192) ∈ r₁.live ∧
      schedulerInterruptHandler ⟨0x00101234⟩ s' zeroContext = .ok (switch, s₂) ∧
      switch.store r₁.heap.mem 0x0020c008 ≠ r₁.heap.mem 0x0020c008 := by
  obtain ⟨r', hi', hcreated⟩ := created_boot
  obtain ⟨r₂, -, -, hstep₂, hi₂⟩ := exists_malloc hi' (n := stackSize.toNat) rfl
  obtain ⟨r₃, -, -, hstep₃, hi₃⟩ := exists_malloc hi₂ (n := stackSize.toNat) rfl
  obtain ⟨r₄, -, hlive₄, hstep₄, hi₄⟩ := exists_malloc hi₃ (n := stackSize.toNat) rfl
  have hlist : Heap.Inv Heap.layout512 r₄ fourStacks := hi₄
  obtain ⟨hnew, -⟩ := hcreated.task (t := ⟨0, by decide⟩) rfl
  -- the owner of the fourth stack has a zero where the word will go
  have hoff : ∀ bs, Heap.walk r₄.heap.mem Heap.steps r₄.heap.freeList = some bs →
      Heap.OffHeaders bs 0x0020c008 := by
    intro bs hwalk
    have hplaced := hlist.placed
    rw [Heap.walk_eq hlist.seg hplaced.pos hplaced.length_lt] at hwalk
    obtain rfl : fourStacks = bs := Option.some.inj hwalk
    simp [Heap.OffHeaders, fourStacks, Heap.blockSize]
  have hwrite := Heap.UseStep.store (L := Heap.layout512) 0 hoff
  obtain ⟨⟨switch, s₂⟩, htick, hcurrent⟩ : ∃ r : Switch × State,
      schedulerInterruptHandler ⟨0x00101234⟩
        (createProcess boot 0x00400000 (some (UInt32.ofNat 0x0020400c))).2 zeroContext = .ok r ∧
      r.2.currentTask = ⟨0, by decide⟩ := ⟨_, rfl, rfl⟩
  refine ⟨_, r', _, switch, s₂, hcreated, fun h => hcreated.not_frameInStack hnew (h _ hnew),
    (((Relation.ReflTransGen.single hstep₂).tail hstep₃).tail hstep₄).tail hwrite, ?_, htick, ?_⟩
  · rw [hlive₄]
    exact List.mem_cons_self
  · have hwrites := hcreated.writes hnew (.nil _) htick ⟨hcurrent, rfl⟩
    have hzero : store8 r₄.heap.mem 0x0020c008 0 0x0020c008 = 0 := store8_same ..
    rw [Switch.store, hwrites]
    dsimp only [List.foldl_cons, List.foldl_nil]
    rw [hzero, store32_outside _ _ (by decide)]
    exact ne_of_eq_of_ne (store32_byte _ _ _ (show 0 < 4 by decide)) (by decide)

end MicroKernel.Sched
