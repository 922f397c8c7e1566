import MicroKernel.Sched.Terminate
import MicroKernel.Sched.Tick

set_option autoImplicit false

/-! # Processes and their tasks

The two tables are paired when every running process has exactly one unfinished task and every
unfinished task belongs to a running process. Three operations can break that: a creation that
finds no memory or no room in `tasks`, a termination that marks a task of another index, and
`task_exit`, which does not look at `process_list` at all.

`staysPaired_iff` says for one step from paired tables when the step keeps them paired, and
`runs_stay_paired_iff` for whole runs.
-/

namespace MicroKernel.Sched

/-- **The tables are paired.** -/
structure Paired (s : State) : Prop where
  task : ∀ p, (s.processList p).isRunning = true →
    ∃ t, (Unfinished s t ∧ (s.tasks t).process = some p) ∧
      ∀ t', Unfinished s t' ∧ (s.tasks t').process = some p → t' = t
  process : ∀ t, Unfinished s t →
    ∃ p, (s.tasks t).process = some p ∧ (s.processList p).isRunning = true
  pids : ∀ p q, (s.processList p).isRunning = true → (s.processList q).isRunning = true →
    (s.processList p).pid = (s.processList q).pid → p = q

/-- The result of a creation: a positive pid only when a task of that process was added, and
without a new task `-1` and both tables as before. -/
structure Creates (s : State) (r : Int × State) : Prop where
  added : 0 < r.1 → r.2.numTasks = s.numTasks + 1 ∧ ∃ t p, t.val = s.numTasks ∧
    Unfinished r.2 t ∧ (r.2.tasks t).process = some p ∧
    (r.2.processList p).isRunning = true ∧ (r.2.processList p).pid = r.1
  failed : r.2.numTasks = s.numTasks →
    r.1 = -1 ∧ r.2.processList = s.processList ∧ r.2.tasks = s.tasks

/-- The call does what it should: a creation is one, a termination stays in its arrays. -/
def CallOk (s : State) : Op → Prop
  | .create entryPoint stack => Creates s (createProcess s entryPoint stack)
  | .createForFile filename entryPoint stack =>
      Creates s (createProcessForFile s filename entryPoint stack)
  | .terminate pid => ∃ s', terminateProcess s pid = .ok s'
  | .exit => True
  | .tick _ => True

/-- The call does what it should and leaves the tables paired. -/
def StaysPaired (L : Layout) (s : State) (op : Op) : Prop :=
  CallOk s op ∧ ∀ s', step L s op = .ok s' → Paired s'

/-- The creation finds a stack and room in `tasks`, or no free slot. -/
def HasRoom (s : State) (stack : Option UInt32) : Prop :=
  (∃ p, (s.processList p).isRunning = false) → stack ≠ none ∧ s.numTasks < maxTasks

/-- The condition on a step: a creation has room; the process to terminate has the task of its own
index; no unfinished task exits. -/
def KeepsPairing (s : State) : Op → Prop
  | .create _ stack => HasRoom s stack
  | .createForFile _ _ stack => HasRoom s stack
  | .terminate pid => ∀ p, findRunning s pid = some p →
      ∃ t, t.val = p.val ∧ Unfinished s t ∧ (s.tasks t).process = some p
  | .exit => ¬ Unfinished s s.currentTask
  | .tick _ => True

/-- Every task so far was added by a creation that used one pid. -/
structure Numbered (s : State) : Prop where
  nextPid : s.nextPid = s.numTasks + 1
  pid_lt : ∀ p, (s.processList p).pid < s.nextPid

/-! ## What stays -/

section stays

variable {s s' : State}

/-- Pairing depends on the processes, on which tasks are unfinished, and on what they point to. -/
theorem Paired.congr (h : Paired s) (hp : s'.processList = s.processList)
    (hu : ∀ t, Unfinished s' t ↔ Unfinished s t)
    (ht : ∀ t, (s'.tasks t).process = (s.tasks t).process) : Paired s' := by
  refine ⟨fun p hrun => ?_, fun t hun => ?_, fun p q => ?_⟩
  · rw [hp] at hrun
    simpa only [hu, ht] using h.task p hrun
  · simpa only [ht, hp] using h.process t ((hu t).mp hun)
  · simpa only [hp] using h.pids p q

theorem SameTables.paired (h : SameTables s s') (hs : Paired s) : Paired s' :=
  hs.congr h.processList h.unfinished h.process

theorem Numbered.congr (h : Numbered s) (hn : s'.numTasks = s.numTasks)
    (hpid : s'.nextPid = s.nextPid)
    (hp : ∀ p, (s'.processList p).pid = (s.processList p).pid) : Numbered s' := by
  refine ⟨?_, fun p => ?_⟩
  · rw [hpid, hn, h.nextPid]
  · rw [hp, hpid]
    exact h.pid_lt p

theorem paired_boot : Paired boot := by
  refine ⟨fun p hrun => ?_, fun t ht => ?_, fun p q hrun => ?_⟩
  · cases hrun
  · exact absurd ht.1 (Nat.not_lt_zero _)
  · cases hrun

theorem numbered_boot : Numbered boot := ⟨rfl, fun _ => Int.zero_lt_one⟩

end stays

/-! ## Creations -/

section creations

variable {s : State} {name : List UInt8} {entryPoint : UInt32} {i : Fin maxPrograms}

/-- A creation with room. -/
def launched (s : State) (name : List UInt8) (entryPoint stack : UInt32) (i : Fin maxPrograms)
    (h : s.numTasks < maxTasks) : State where
  processList := Function.update s.processList i ⟨s.nextPid, name, true⟩
  nextPid := incremented s.nextPid
  tasks := Function.update s.tasks ⟨s.numTasks, h⟩ (newTask entryPoint stack i)
  currentTask := s.currentTask
  numTasks := s.numTasks + 1
  numTasks_le := h

theorem launch_none (h : findFreeSlot s = none) (stack : Option UInt32) :
    launch s name entryPoint stack = (-1, s) := by
  unfold launch
  rw [h]

theorem launch_some (h : findFreeSlot s = some i) (hn : s.numTasks < maxTasks) (stack : UInt32) :
    launch s name entryPoint (some stack)
      = (s.nextPid, launched s name entryPoint stack i hn) := by
  unfold launch
  rw [h]
  dsimp only [createTask, setProcess]
  rw [dif_pos hn]
  rfl

/-- Without a stack the slot gets a pid and a name all the same. -/
theorem launch_noStack (h : findFreeSlot s = some i) :
    (launch s name entryPoint none).2.numTasks = s.numTasks ∧
      ((launch s name entryPoint none).2.processList i).pid = s.nextPid := by
  unfold launch
  rw [h]
  exact ⟨rfl, by rw [setProcess_self]⟩

theorem createTask_full (s : State) (hn : ¬ s.numTasks < maxTasks) (stack : UInt32) :
    (createTask s entryPoint stack i).numTasks = s.numTasks := by
  unfold createTask
  rw [dif_neg hn]

/-- Without room in `tasks` the pid is returned all the same. -/
theorem launch_full (h : findFreeSlot s = some i) (hn : ¬ s.numTasks < maxTasks) (stack : UInt32) :
    (launch s name entryPoint (some stack)).1 = s.nextPid ∧
      (launch s name entryPoint (some stack)).2.numTasks = s.numTasks := by
  unfold launch
  rw [h]
  refine ⟨rfl, (createTask_full _ ?_ stack).trans rfl⟩
  exact hn

theorem incremented_eq (h : Numbered s) : incremented s.nextPid = s.nextPid + 1 := by
  have hle := s.numTasks_le
  rw [incremented, h.nextPid, Int.bmod_eq_of_le]
  · simp only [maxTasks] at hle
    omega
  · simp only [maxTasks] at hle
    omega

variable {stack : UInt32} {hn : s.numTasks < maxTasks}

theorem unfinished_launched (t : Fin maxTasks) :
    Unfinished (launched s name entryPoint stack i hn) t ↔
      Unfinished s t ∨ t = ⟨s.numTasks, hn⟩ := by
  unfold Unfinished launched
  by_cases ht : t = ⟨s.numTasks, hn⟩
  · simp [ht, newTask]
  · have hne : t.val ≠ s.numTasks := fun hv => ht (Fin.ext hv)
    simp [ht]
    omega

theorem process_launched (t : Fin maxTasks) :
    ((launched s name entryPoint stack i hn).tasks t).process
      = if t = ⟨s.numTasks, hn⟩ then some i else (s.tasks t).process := by
  by_cases ht : t = ⟨s.numTasks, hn⟩
  · simp [launched, ht, newTask]
  · simp [launched, ht]

theorem running_launched (p : Fin maxPrograms) :
    ((launched s name entryPoint stack i hn).processList p).isRunning = true ↔
      p = i ∨ (s.processList p).isRunning = true := by
  by_cases hp : p = i
  · simp [launched, hp]
  · simp [launched, hp]

theorem pid_launched (p : Fin maxPrograms) :
    ((launched s name entryPoint stack i hn).processList p).pid
      = if p = i then s.nextPid else (s.processList p).pid := by
  by_cases hp : p = i
  · simp [launched, hp]
  · simp [launched, hp]

/-- The new task is not one of the old ones. -/
theorem not_unfinished_new : ¬ Unfinished s ⟨s.numTasks, hn⟩ := fun h => Nat.lt_irrefl _ h.1

/-- A creation with room pairs the new process with the new task. -/
theorem Paired.launched (h : Paired s) (hnum : Numbered s)
    (hfree : (s.processList i).isRunning = false) :
    Paired (launched s name entryPoint stack i hn) := by
  -- no unfinished task points to the free slot
  have hnone : ∀ t, Unfinished s t → (s.tasks t).process ≠ some i := by
    intro t ht hp
    obtain ⟨p, hp', hrun⟩ := h.process t ht
    rw [hp, Option.some.injEq] at hp'
    rw [← hp', hfree] at hrun
    cases hrun
  refine ⟨fun p hrun => ?_, fun t ht => ?_, fun p q hp hq heq => ?_⟩
  · simp only [unfinished_launched, process_launched]
    by_cases hpi : p = i
    · refine ⟨⟨s.numTasks, hn⟩, ⟨Or.inr rfl, by simp [hpi]⟩, ?_⟩
      rintro t' ⟨ht' | rfl, hproc⟩
      · have hne : t' ≠ ⟨s.numTasks, hn⟩ := fun he => not_unfinished_new (he ▸ ht')
        rw [if_neg hne, hpi] at hproc
        exact absurd hproc (hnone t' ht')
      · rfl
    · obtain ⟨t, ⟨ht, hproc⟩, hunique⟩ :=
        h.task p (((running_launched p).mp hrun).resolve_left hpi)
      have hne : t ≠ ⟨s.numTasks, hn⟩ := fun he => not_unfinished_new (he ▸ ht)
      refine ⟨t, ⟨Or.inl ht, by rw [if_neg hne, hproc]⟩, ?_⟩
      rintro t' ⟨ht' | rfl, hproc'⟩
      · have hne' : t' ≠ ⟨s.numTasks, hn⟩ := fun he => not_unfinished_new (he ▸ ht')
        rw [if_neg hne'] at hproc'
        exact hunique t' ⟨ht', hproc'⟩
      · rw [if_pos rfl, Option.some.injEq] at hproc'
        exact absurd hproc'.symm hpi
  · simp only [process_launched, running_launched]
    rcases (unfinished_launched t).mp ht with ht | rfl
    · have hne : t ≠ ⟨s.numTasks, hn⟩ := fun he => not_unfinished_new (he ▸ ht)
      obtain ⟨p, hp, hrun⟩ := h.process t ht
      exact ⟨p, by rw [if_neg hne, hp], Or.inr hrun⟩
    · exact ⟨i, if_pos rfl, Or.inl rfl⟩
  · rw [pid_launched, pid_launched] at heq
    have hlt := hnum.pid_lt
    rw [running_launched] at hp hq
    by_cases hpi : p = i
    · by_cases hqi : q = i
      · rw [hpi, hqi]
      · rw [if_pos hpi, if_neg hqi] at heq
        exact absurd heq.symm (hlt q).ne
    · by_cases hqi : q = i
      · rw [if_neg hpi, if_pos hqi] at heq
        exact absurd heq (hlt p).ne
      · rw [if_neg hpi, if_neg hqi] at heq
        exact h.pids p q (hp.resolve_left hpi) (hq.resolve_left hqi) heq

theorem Numbered.launched (h : Numbered s) :
    Numbered (launched s name entryPoint stack i hn) := by
  have hnext : (Sched.launched s name entryPoint stack i hn).nextPid = s.nextPid + 1 :=
    incremented_eq h
  refine ⟨?_, fun p => ?_⟩
  · rw [hnext, h.nextPid]
    rfl
  · rw [hnext, pid_launched]
    have hlt := h.pid_lt p
    split <;> omega

/-- **A creation** does what it should and leaves the tables paired exactly when it has room. -/
theorem launch_iff (h : Paired s) (hnum : Numbered s) (stack : Option UInt32) :
    (Creates s (launch s name entryPoint stack) ∧ Paired (launch s name entryPoint stack).2) ↔
      HasRoom s stack := by
  have hpos : 0 < s.nextPid := by
    rw [hnum.nextPid]
    omega
  cases hslot : findFreeSlot s with
  | none =>
      rw [launch_none hslot]
      refine iff_of_true ⟨⟨nofun, fun _ => ⟨rfl, rfl, rfl⟩⟩, h⟩ ?_
      rintro ⟨p, hp⟩
      rw [findFreeSlot_eq_none.mp hslot p] at hp
      cases hp
  | some i =>
      have hfree := findFreeSlot_eq_some hslot
      constructor
      · rintro ⟨⟨hadded, hfailed⟩, -⟩ -
        cases stack with
        | none =>
            -- the slot has a new pid
            obtain ⟨hsame, hpid⟩ := launch_noStack hslot
            obtain ⟨-, hlist, -⟩ := hfailed hsame
            rw [hlist] at hpid
            exact absurd hpid (hnum.pid_lt i).ne
        | some stack =>
            refine ⟨nofun, ?_⟩
            by_contra hfull
            obtain ⟨hpid, hsame⟩ := launch_full hslot hfull stack
            obtain ⟨hgrown, -⟩ := hadded (by rw [hpid]; exact hpos)
            rw [hsame] at hgrown
            omega
      · intro hroom
        obtain ⟨hstack, hn⟩ := hroom ⟨i, hfree⟩
        obtain ⟨stack, rfl⟩ := Option.ne_none_iff_exists'.mp hstack
        rw [launch_some hslot hn]
        refine ⟨⟨fun _ => ⟨rfl, ⟨s.numTasks, hn⟩, i, rfl, ?_, ?_, ?_, ?_⟩, fun hsame => ?_⟩,
          h.launched hnum hfree⟩
        · exact (unfinished_launched _).mpr (Or.inr rfl)
        · rw [process_launched, if_pos rfl]
        · exact (running_launched i).mpr (Or.inl rfl)
        · rw [pid_launched, if_pos rfl]
        · exact absurd hsame (Nat.ne_of_gt (Nat.lt_succ_self _))

theorem Numbered.launch (h : Numbered s) {stack : Option UInt32} (hroom : HasRoom s stack) :
    Numbered (launch s name entryPoint stack).2 := by
  cases hslot : findFreeSlot s with
  | none =>
      rw [launch_none hslot]
      exact h
  | some i =>
      obtain ⟨hstack, hn⟩ := hroom ⟨i, findFreeSlot_eq_some hslot⟩
      obtain ⟨stack, rfl⟩ := Option.ne_none_iff_exists'.mp hstack
      rw [launch_some hslot hn]
      exact h.launched

end creations

/-! ## Terminations and exits -/

section finishing

variable {s : State} {p : Fin maxPrograms} {t : Fin maxTasks}

/-- `process_list[p].is_running = false`. -/
def stopped (s : State) (p : Fin maxPrograms) : State :=
  setProcess s p { s.processList p with isRunning := false }

theorem running_stopped (q : Fin maxPrograms) :
    ((stopped s p).processList q).isRunning = true ↔
      q ≠ p ∧ (s.processList q).isRunning = true := by
  by_cases hq : q = p
  · simp [stopped, setProcess, hq]
  · simp [stopped, setProcess, hq]

theorem pid_stopped (q : Fin maxPrograms) :
    ((stopped s p).processList q).pid = (s.processList q).pid := by
  by_cases hq : q = p
  · simp [stopped, setProcess, hq]
  · simp [stopped, setProcess, hq]

/-- Stopping a process and finishing its task keeps the rest paired. -/
theorem Paired.stopped (h : Paired s) (ht : Unfinished s t)
    (hp : (s.tasks t).process = some p) : Paired (finish (stopped s p) t) := by
  have hu : ∀ t', Unfinished (finish (Sched.stopped s p) t) t' ↔ Unfinished s t' ∧ t' ≠ t :=
    unfinished_finish _ t
  have hproc : ∀ t', ((finish (Sched.stopped s p) t).tasks t').process = (s.tasks t').process :=
    process_finish _ t
  refine ⟨fun q hq => ?_, fun t' ht' => ?_, fun q q' hq hq' heq => ?_⟩
  · obtain ⟨hne, hrun⟩ := (running_stopped q).mp hq
    obtain ⟨t', ⟨ht', hp'⟩, hunique⟩ := h.task q hrun
    have hne' : t' ≠ t := by
      rintro rfl
      rw [hp, Option.some.injEq] at hp'
      exact hne hp'.symm
    refine ⟨t', ⟨(hu t').mpr ⟨ht', hne'⟩, (hproc t').trans hp'⟩, ?_⟩
    rintro t'' ⟨ht'', hp''⟩
    exact hunique t'' ⟨((hu t'').mp ht'').1, (hproc t'').symm.trans hp''⟩
  · obtain ⟨hleft, hne⟩ := (hu t').mp ht'
    obtain ⟨q, hq, hrun⟩ := h.process t' hleft
    refine ⟨q, (hproc t').trans hq, (running_stopped q).mpr ⟨?_, hrun⟩⟩
    -- the process has no other task than `t`
    rintro rfl
    obtain ⟨u, -, hunique⟩ := h.task q hrun
    exact hne ((hunique t' ⟨hleft, hq⟩).trans (hunique t ⟨ht, hp⟩).symm)
  · have heq' : (s.processList q).pid = (s.processList q').pid := by
      rw [← pid_stopped q, ← pid_stopped q']
      exact heq
    exact h.pids q q' ((running_stopped q).mp hq).2 ((running_stopped q').mp hq').2 heq'

/-- **A termination** leaves the tables paired exactly when the process has the task of its own
index. -/
theorem terminate_iff (h : Paired s) {pid : Int} (hfound : findRunning s pid = some p) :
    (∃ s', terminateProcess s pid = .ok s' ∧ Paired s') ↔
      ∃ t, t.val = p.val ∧ Unfinished s t ∧ (s.tasks t).process = some p := by
  have hrun := (findRunning_eq_some hfound).1
  rw [terminateProcess_of_findRunning hfound]
  constructor
  · rintro ⟨s', hs', hpaired⟩
    by_cases hlt : p.val < maxTasks
    · rw [dif_pos hlt] at hs'
      cases hs'
      obtain ⟨t, ⟨ht, hp⟩, -⟩ := h.task p hrun
      -- a task of the process that is not finished would belong to no running process
      have heq : t = ⟨p.val, hlt⟩ := by
        by_contra hne
        obtain ⟨q, hq, hq'⟩ := hpaired.process t ((unfinished_finish (stopped s p) _ t).mpr ⟨ht, hne⟩)
        have hqp : q = p := by
          have hsame := (process_finish (stopped s p) ⟨p.val, hlt⟩ t).symm.trans hq
          exact Option.some.inj (hsame.symm.trans hp)
        exact ((running_stopped q).mp hq').1 hqp
      exact ⟨t, by rw [heq], ht, hp⟩
    · rw [dif_neg hlt] at hs'
      cases hs'
  · rintro ⟨t, hval, ht, hp⟩
    have hlt : p.val < maxTasks := hval ▸ t.isLt
    have hidx : t = ⟨p.val, hlt⟩ := Fin.ext hval
    rw [dif_pos hlt, ← hidx]
    exact ⟨_, rfl, h.stopped ht hp⟩

/-- `task_exit` always has a result: with a task left there is one to switch to. -/
theorem taskExit_spec (s : State) : ∃ r, taskExit s = .ok r ∧
    r.2.processList = s.processList ∧ r.2.nextPid = s.nextPid ∧ r.2.numTasks = s.numTasks ∧
    r.2.tasks = (finish s s.currentTask).tasks := by
  unfold taskExit
  dsimp only
  by_cases hactive : activeTasks (finish s s.currentTask) = 0
  · rw [if_pos hactive]
    exact ⟨_, rfl, rfl, rfl, rfl, rfl⟩
  · rw [if_neg hactive]
    obtain ⟨t, ht⟩ := List.exists_mem_of_length_pos (Nat.pos_of_ne_zero hactive)
    rw [List.mem_filter, decide_eq_true_iff] at ht
    obtain ⟨t', hfirst⟩ := exists_firstAfter ht.2
    rw [selectTask_eq_ok.mpr hfirst]
    exact ⟨_, rfl, rfl, rfl, rfl, rfl⟩

/-- **An exit** leaves the tables paired exactly when the task is finished already. -/
theorem exit_iff (h : Paired s) {r : Option Context × State} (hr : taskExit s = .ok r) :
    Paired r.2 ↔ ¬ Unfinished s s.currentTask := by
  obtain ⟨r', hr', hlist, -, hnum, htasks⟩ := taskExit_spec s
  rw [hr] at hr'
  cases hr'
  have hu : ∀ t, Unfinished r.2 t ↔ Unfinished s t ∧ t ≠ s.currentTask := by
    intro t
    rw [← unfinished_finish]
    unfold Unfinished
    rw [hnum, htasks]
    rfl
  have hproc : ∀ t, (r.2.tasks t).process = (s.tasks t).process := by
    intro t
    rw [htasks, process_finish]
  constructor
  · intro hpaired ht
    obtain ⟨p, hp, hrun⟩ := h.process _ ht
    obtain ⟨t, -, hunique⟩ := h.task p hrun
    -- the process still runs, and its only task was this one
    obtain ⟨t', ⟨ht', hp'⟩, -⟩ := hpaired.task p (by rw [hlist]; exact hrun)
    obtain ⟨hleft, hne⟩ := (hu t').mp ht'
    rw [hproc] at hp'
    exact hne ((hunique t' ⟨hleft, hp'⟩).trans (hunique _ ⟨ht, hp⟩).symm)
  · intro hfin
    refine h.congr hlist (fun t => ?_) hproc
    rw [hu]
    refine and_iff_left_of_imp fun ht => ?_
    rintro rfl
    exact hfin ht

end finishing

/-! ## Steps and runs -/

section runs

variable {L : Layout} {s : State}

/-- **One step from paired tables.** -/
theorem staysPaired_iff (h : Paired s) (hnum : Numbered s) (op : Op) :
    StaysPaired L s op ↔ KeepsPairing s op := by
  have hok : ∀ {s' : State}, (∀ s₁, Except.ok (ε := Fault) s' = .ok s₁ → Paired s₁) ↔ Paired s' :=
    fun {s'} => ⟨fun hall => hall s' rfl, fun hp s₁ heq => Except.ok.inj heq ▸ hp⟩
  cases op with
  | create entryPoint stack => exact (and_congr_right fun _ => hok).trans (launch_iff h hnum stack)
  | createForFile filename entryPoint stack =>
      exact (and_congr_right fun _ => hok).trans (launch_iff h hnum stack)
  | terminate pid =>
      unfold StaysPaired CallOk KeepsPairing step
      dsimp only
      cases hfound : findRunning s pid with
      | none =>
          have hsame : terminateProcess s pid = .ok s := by
            unfold terminateProcess
            rw [hfound]
          rw [hsame]
          exact iff_of_true ⟨⟨s, rfl⟩, hok.mpr h⟩ nofun
      | some p =>
          simp only [Option.some.injEq, forall_eq']
          rw [← terminate_iff h hfound]
          constructor
          · rintro ⟨⟨s', hs'⟩, hall⟩
            exact ⟨s', hs', hall s' hs'⟩
          · rintro ⟨s', hs', hp⟩
            refine ⟨⟨s', hs'⟩, fun s₁ hs₁ => ?_⟩
            rw [hs'] at hs₁
            exact Except.ok.inj hs₁ ▸ hp
  | exit =>
      obtain ⟨r, hr, -⟩ := taskExit_spec s
      unfold StaysPaired CallOk KeepsPairing step
      rw [hr, true_and, ← exit_iff h hr]
      exact hok
  | tick cpu =>
      refine iff_of_true ⟨trivial, fun s' hs' => ?_⟩ trivial
      obtain ⟨r, hr, rfl⟩ := ok_of_map hs'
      exact (tick_spec hr).2.paired h

/-- A step that meets the condition keeps the pids in order. -/
theorem Numbered.step (hnum : Numbered s) {op : Op} (hkeep : KeepsPairing s op) {s' : State}
    (hs : Sched.step L s op = .ok s') : Numbered s' := by
  cases op with
  | create entryPoint stack =>
      cases hs
      exact hnum.launch hkeep
  | createForFile filename entryPoint stack =>
      cases hs
      exact hnum.launch hkeep
  | terminate pid =>
      unfold Sched.step at hs
      dsimp only at hs
      cases hfound : findRunning s pid with
      | none =>
          unfold terminateProcess at hs
          rw [hfound] at hs
          cases hs
          exact hnum
      | some p =>
          rw [terminateProcess_of_findRunning hfound] at hs
          split at hs
          · cases hs
            exact hnum.congr rfl rfl fun q => pid_stopped q
          · cases hs
  | exit =>
      obtain ⟨r, hr, rfl⟩ := ok_of_map hs
      obtain ⟨r', hr', hlist, hpid, hn, -⟩ := taskExit_spec s
      rw [hr] at hr'
      cases hr'
      exact hnum.congr hn hpid fun q => by rw [hlist]
  | tick cpu =>
      obtain ⟨r, hr, rfl⟩ := ok_of_map hs
      have htables := (tick_spec hr).2
      exact hnum.congr htables.numTasks htables.nextPid fun q => by rw [htables.processList]

theorem throughout_paired_iff (h : Paired s) (hnum : Numbered s) (ops : List Op) :
    Throughout L (StaysPaired L) s ops ↔ Throughout L KeepsPairing s ops := by
  induction ops generalizing s with
  | nil => exact Iff.rfl
  | cons op ops ih =>
      have hstep := staysPaired_iff (L := L) h hnum op
      constructor
      · rintro ⟨hstays, hrest⟩
        have hkeep := hstep.mp hstays
        refine ⟨hkeep, fun s₁ hs₁ => ?_⟩
        exact (ih (hstays.2 s₁ hs₁) (hnum.step hkeep hs₁)).mp (hrest s₁ hs₁)
      · rintro ⟨hkeep, hrest⟩
        have hstays := hstep.mpr hkeep
        refine ⟨hstays, fun s₁ hs₁ => ?_⟩
        exact (ih (hstays.2 s₁ hs₁) (hnum.step hkeep hs₁)).mpr (hrest s₁ hs₁)

/-- **Processes and tasks stay paired** throughout a run, and every creation and termination does
what it should, if and only if every step of the run meets its condition. -/
theorem runs_stay_paired_iff (L : Layout) (ops : List Op) :
    Paired boot ∧
    (Throughout L (StaysPaired L) boot ops ↔ Throughout L KeepsPairing boot ops) :=
  ⟨paired_boot, throughout_paired_iff paired_boot numbered_boot ops⟩

end runs

/-- A process whose task exits goes on running without one; a creation without a stack leaves its
pid and its name in the table; a process in a slot that is used for the second time is stopped
without its task. -/
theorem not_runs_stay_paired :
    ¬ Throughout ⟨0⟩ (StaysPaired ⟨0⟩) boot [.create 0x1000 (some 0x200000), .exit] ∧
    ¬ Throughout ⟨0⟩ (StaysPaired ⟨0⟩) boot [.create 0x1000 none] ∧
    ¬ Throughout ⟨0⟩ (StaysPaired ⟨0⟩) boot [.create 0x1000 (some 0x200000),
      .create 0x2000 (some 0x300000), .terminate 1, .create 0x3000 (some 0x400000),
      .terminate 3] := by
  simp only [throughout_paired_iff paired_boot numbered_boot]
  refine ⟨?_, ?_, ?_⟩
  · rintro ⟨-, h⟩
    have hexit := (h _ rfl).1
    exact hexit ⟨by decide, by decide⟩
  · rintro ⟨hroom, -⟩
    exact (hroom ⟨⟨0, by decide⟩, rfl⟩).1 rfl
  · rintro ⟨-, h⟩
    obtain ⟨-, h⟩ := h _ rfl
    obtain ⟨-, h⟩ := h _ rfl
    obtain ⟨-, h⟩ := h _ rfl
    obtain ⟨hterminate, -⟩ := h reusedSlot rfl
    obtain ⟨t, hval, ht, -⟩ := hterminate ⟨0, by decide⟩ rfl
    obtain rfl : t = ⟨0, by decide⟩ := Fin.ext hval
    exact ht.2 rfl

end MicroKernel.Sched
