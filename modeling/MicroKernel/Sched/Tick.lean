import MicroKernel.Sched.Tasks

set_option autoImplicit false

/-! # A tick of the scheduler

`scheduler_interrupt_handler` goes on from `current_task` until it is at an unfinished task. It
checks neither that there is a task nor that one is unfinished. `selectTask_cases` compares its
loop with the cyclic order of `Lib.Cyclic`: with an unfinished task it selects the next one, without
a task it divides by zero, and with finished tasks only it goes round for ever.
-/

namespace MicroKernel.Sched

open MicroKernel.Lib

section select

variable {s s' : State}

/-- The number is that of an unfinished task. -/
def unfinishedAt (s : State) (i : Nat) : Bool :=
  if h : i < maxTasks then decide (Unfinished s ⟨i, h⟩) else false

/-- The unfinished tasks, in the order in which they come behind `current_task`. -/
def readyOrder (s : State) : List Nat := Cyclic.order (unfinishedAt s) s.numTasks s.currentTask

theorem unfinishedAt_val (s : State) (t : Fin maxTasks) :
    unfinishedAt s t.val = decide (Unfinished s t) := dif_pos t.isLt

theorem mem_readyOrder (t : Fin maxTasks) : t.val ∈ readyOrder s ↔ Unfinished s t := by
  rw [readyOrder, Cyclic.mem_order, unfinishedAt_val, decide_eq_true_iff]
  exact and_iff_right_of_imp fun h => h.1

/-- The loop of the scheduler is the search of the next unfinished task. -/
theorem selectLoop_eq (hn : s.numTasks ≠ 0) (k : Nat) (t : Fin maxTasks) :
    (selectLoop s k t).toOption.map Fin.val = Cyclic.search (unfinishedAt s) s.numTasks k t := by
  induction k generalizing t with
  | zero => rfl
  | succ k ih =>
      have hval : (nextIndex s hn t).val = (t.val + 1) % s.numTasks := rfl
      have hlt : (nextIndex s hn t).val < s.numTasks := Nat.mod_lt _ (Nat.pos_of_ne_zero hn)
      rw [selectLoop, dif_neg hn, Cyclic.search, ← hval, unfinishedAt_val]
      by_cases hf : (s.tasks (nextIndex s hn t)).status = .finished
      · simp [Unfinished, hf, ih]
      · simp [Unfinished, hf, hlt, Except.toOption]

/-- A task is selected when the cyclic order has a first one, whatever the bound of the loop. -/
theorem selectLoop_eq_ok (hn : s.numTasks ≠ 0) {k : Nat} (hk : s.numTasks ≤ k) (t : Fin maxTasks) :
    selectLoop s k s.currentTask = .ok t ↔
    (readyOrder s).head? = some t.val := by
  rw [readyOrder, ← Cyclic.search_eq_head? _ _ hk (Nat.pos_of_ne_zero hn), ← selectLoop_eq hn]
  cases selectLoop s k s.currentTask with
  | error fault => simp [Except.toOption]
  | ok t' => simp [Except.toOption, Fin.val_inj]

theorem selectLoop_of_numTasks_eq_zero (hn : s.numTasks = 0) (k : Nat) (t : Fin maxTasks) :
    selectLoop s (k + 1) t = .error .divideError := by
  rw [selectLoop, dif_pos hn]

/-- `t` is the first unfinished task behind `current_task`. -/
def FirstAfter (s : State) (t : Fin maxTasks) : Prop :=
  ∃ i, i < s.numTasks ∧ t.val = (s.currentTask.val + 1 + i) % s.numTasks ∧ Unfinished s t ∧
    ∀ t' : Fin maxTasks, ∀ j, j < i → t'.val = (s.currentTask.val + 1 + j) % s.numTasks →
      ¬ Unfinished s t'

theorem head?_readyOrder (t : Fin maxTasks) :
    (readyOrder s).head? = some t.val ↔ FirstAfter s t := by
  rw [readyOrder, Cyclic.head?_order_eq_some]
  constructor
  · rintro ⟨i, hi, hval, ht, hbefore⟩
    rw [unfinishedAt_val, decide_eq_true_iff] at ht
    refine ⟨i, hi, hval, ht, fun t' j hj hval' ht' => ?_⟩
    have hno := hbefore j hj
    rw [← hval', unfinishedAt_val, decide_eq_false_iff_not] at hno
    exact hno ht'
  · rintro ⟨i, hi, hval, ht, hbefore⟩
    refine ⟨i, hi, hval, by simpa [unfinishedAt_val] using ht, fun j hj => ?_⟩
    have hlt : (s.currentTask.val + 1 + j) % s.numTasks < maxTasks :=
      Nat.lt_of_lt_of_le (Nat.mod_lt _ (by omega)) s.numTasks_le
    simpa [unfinishedAt, hlt] using hbefore ⟨_, hlt⟩ j hj rfl

/-- **The selection** is that of the first unfinished task. -/
theorem selectTask_eq_ok {t : Fin maxTasks} : selectTask s = .ok t ↔ FirstAfter s t := by
  by_cases hn : s.numTasks = 0
  · have hsel : selectTask s = .error .divideError := selectLoop_of_numTasks_eq_zero hn 7 _
    rw [hsel]
    refine iff_of_false nofun ?_
    rintro ⟨i, hi, -⟩
    omega
  · rw [selectTask, selectLoop_eq_ok hn s.numTasks_le, head?_readyOrder]

/-- With an unfinished task there is a first one. -/
theorem exists_firstAfter {t : Fin maxTasks} (ht : Unfinished s t) : ∃ t', FirstAfter s t' := by
  have hsome := Cyclic.head?_order_isSome (p := unfinishedAt s) (c := s.currentTask).mpr
    ⟨t.val, ht.1, by simpa [unfinishedAt_val] using ht⟩
  obtain ⟨i, hi⟩ := Option.isSome_iff_exists.mp hsome
  have hmem := Cyclic.mem_order.mp (List.mem_of_mem_head? hi)
  exact ⟨⟨i, Nat.lt_of_lt_of_le hmem.1 s.numTasks_le⟩, (head?_readyOrder _).mp hi⟩

/-- **What the loop does**: it selects the next unfinished task, or divides by zero because there is
no task, or goes round for ever because all tasks are finished. -/
theorem selectTask_cases (s : State) :
    (∃ t, selectTask s = .ok t ∧ FirstAfter s t) ∨
    (selectTask s = .error .divideError ∧ s.numTasks = 0) ∨
    (selectTask s = .error .endlessLoop ∧ s.numTasks ≠ 0 ∧ (∀ t, ¬ Unfinished s t) ∧
      ∀ k t, selectLoop s k s.currentTask ≠ .ok t) := by
  by_cases hn : s.numTasks = 0
  · exact Or.inr (Or.inl ⟨selectLoop_of_numTasks_eq_zero hn _ _, hn⟩)
  have hloop : ∀ k t, selectLoop s k t ≠ .error .divideError ∧
      selectLoop s k t ≠ .error .outOfBounds := by
    intro k
    induction k with
    | zero => exact fun t => ⟨nofun, nofun⟩
    | succ k ih =>
        intro t
        rw [selectLoop, dif_neg hn]
        split
        · exact ih _
        · exact ⟨nofun, nofun⟩
  by_cases hall : ∃ t, Unfinished s t
  · obtain ⟨t, ht⟩ := hall
    obtain ⟨t', ht'⟩ := exists_firstAfter ht
    exact Or.inl ⟨t', selectTask_eq_ok.mpr ht', ht'⟩
  · rw [not_exists] at hall
    -- a bound is no limit: what more turns find is found within `maxTasks` turns
    have hnone : ∀ k t, selectLoop s k s.currentTask ≠ .ok t := by
      intro k t hk
      have hsearch := selectLoop_eq hn k s.currentTask
      rw [hk, Cyclic.search_eq_find?] at hsearch
      have hp := List.find?_some hsearch.symm
      rw [unfinishedAt_val, decide_eq_true_iff] at hp
      exact hall t hp
    refine Or.inr (Or.inr ⟨?_, hn, hall, hnone⟩)
    unfold selectTask
    cases hsel : selectLoop s maxTasks s.currentTask with
    | ok t => exact absurd hsel (hnone maxTasks t)
    | error fault =>
        cases fault with
        | divideError => exact absurd hsel (hloop _ _).1
        | outOfBounds => exact absurd hsel (hloop _ _).2
        | endlessLoop => rfl

end select

/-! ## A tick -/

/-- The tables agree in all but the contexts, and in which tasks are started. -/
structure SameTables (s s' : State) : Prop where
  processList : s'.processList = s.processList
  nextPid : s'.nextPid = s.nextPid
  numTasks : s'.numTasks = s.numTasks
  process : ∀ t, (s'.tasks t).process = (s.tasks t).process
  status : ∀ t, (s'.tasks t).status = .finished ↔ (s.tasks t).status = .finished

theorem SameTables.trans {s s₁ s' : State} (h : SameTables s s₁) (h' : SameTables s₁ s') :
    SameTables s s' where
  processList := h'.processList.trans h.processList
  nextPid := h'.nextPid.trans h.nextPid
  numTasks := h'.numTasks.trans h.numTasks
  process t := (h'.process t).trans (h.process t)
  status t := (h'.status t).trans (h.status t)

theorem SameTables.unfinished {s s' : State} (h : SameTables s s') (t : Fin maxTasks) :
    Unfinished s' t ↔ Unfinished s t := by
  rw [Unfinished, Unfinished, h.numTasks, Ne, Ne, h.status]

section tick

variable {L : Layout} {s s' : State} {cpu : Context}

theorem sameTables_swtch (s : State) (cpu : Context) (old new : Fin maxTasks) :
    SameTables s (swtch s cpu old new).2 := by
  have htask : ∀ t, ((swtch s cpu old new).2.tasks t).process = (s.tasks t).process ∧
      ((swtch s cpu old new).2.tasks t).status = (s.tasks t).status := by
    intro t
    by_cases ht : t = old
    · simp [swtch, ht]
    · simp [swtch, ht]
  exact ⟨rfl, rfl, rfl, fun t => (htask t).1, fun t => by rw [(htask t).2]⟩

theorem sameTables_startTask (L : Layout) {t : Fin maxTasks}
    (ht : (s.tasks t).status ≠ .finished) : SameTables s (startTask L s t).2 := by
  refine ⟨rfl, rfl, rfl, fun t' => ?_, fun t' => ?_⟩
  · by_cases h : t' = t
    · simp [startTask, h]
    · simp [startTask, h]
  · by_cases h : t' = t
    · simp [startTask, h, ht]
    · simp [startTask, h]

/-- **What a tick does**: `current_task` is the task that the loop selects, and the tables stay. -/
theorem tick_spec {r : Switch × State} (h : schedulerInterruptHandler L s cpu = .ok r) :
    FirstAfter s r.2.currentTask ∧ SameTables s r.2 := by
  unfold schedulerInterruptHandler at h
  cases hsel : selectTask s with
  | error fault =>
      rw [hsel] at h
      cases h
  | ok t =>
      have hfirst := selectTask_eq_ok.mp hsel
      obtain ⟨-, -, -, ht, -⟩ := id hfirst
      have hcur : SameTables s { s with currentTask := t } :=
        ⟨rfl, rfl, rfl, fun _ => rfl, fun _ => Iff.rfl⟩
      rw [hsel] at h
      dsimp only at h
      by_cases hst : (s.tasks t).isStarted = true
      · rw [if_pos hst] at h
        cases h
        exact ⟨hfirst, hcur.trans (sameTables_swtch _ cpu s.currentTask t)⟩
      · rw [if_neg hst] at h
        cases h
        have hstart : SameTables { s with currentTask := t }
            (startTask L { s with currentTask := t } t).2 := sameTables_startTask L ht.2
        exact ⟨hfirst, (hcur.trans hstart).trans (sameTables_swtch _ cpu s.currentTask t)⟩

/-- A tick completes when there is a task to select. -/
theorem tick_of_firstAfter {t : Fin maxTasks} (h : FirstAfter s t) :
    ∃ r, schedulerInterruptHandler L s cpu = .ok r := by
  unfold schedulerInterruptHandler
  rw [selectTask_eq_ok.mpr h]
  exact ⟨_, rfl⟩

/-- **A tick completes** exactly when there is an unfinished task, and then selects the first one
behind `current_task`. -/
theorem tick_iff (L : Layout) (s : State) :
    (∀ cpu, ∃ r, schedulerInterruptHandler L s cpu = .ok r ∧ FirstAfter s r.2.currentTask) ↔
      ∃ t, Unfinished s t := by
  constructor
  · intro h
    obtain ⟨r, -, -, -, -, ht, -⟩ := h zeroContext
    exact ⟨_, ht⟩
  · rintro ⟨t, ht⟩ cpu
    obtain ⟨t', hfirst⟩ := exists_firstAfter ht
    obtain ⟨r, hr⟩ := tick_of_firstAfter hfirst
    exact ⟨r, hr, (tick_spec hr).1⟩

end tick

/-! ## Runs -/

/-- The ready tasks and the current one are the same. -/
structure SameReady (s s' : State) : Prop where
  currentTask : s'.currentTask = s.currentTask
  numTasks : s'.numTasks = s.numTasks
  unfinished : ∀ t, Unfinished s' t ↔ Unfinished s t

/-- Ticks one after the other, with the tasks they select. Between two ticks anything may happen
that leaves the current task and the set of unfinished tasks as they are. -/
inductive Ticks (L : Layout) : State → List (Fin maxTasks) → Prop
  | nil (s : State) : Ticks L s []
  | tick {s s₁ : State} {cpu : Context} {r : Switch × State} {ts : List (Fin maxTasks)} :
      SameReady s s₁ → schedulerInterruptHandler L s₁ cpu = .ok r → Ticks L r.2 ts →
      Ticks L s (r.2.currentTask :: ts)

section runs

variable {L : Layout} {s s' : State}

theorem unfinishedAt_congr (h : ∀ t, Unfinished s' t ↔ Unfinished s t) :
    unfinishedAt s' = unfinishedAt s := by
  funext i
  unfold unfinishedAt
  simp only [h]

theorem Ticks.follows {ts : List (Fin maxTasks)} (h : Ticks L s ts) :
    Cyclic.Follows (unfinishedAt s) s.numTasks s.currentTask (ts.map Fin.val) := by
  induction h with
  | nil => trivial
  | @tick s s₁ cpu r ts hsame hr _ ih =>
      obtain ⟨hfirst, htables⟩ := tick_spec hr
      have hready : unfinishedAt s₁ = unfinishedAt s := unfinishedAt_congr hsame.unfinished
      have hafter : unfinishedAt r.2 = unfinishedAt s₁ := unfinishedAt_congr htables.unfinished
      rw [hafter, hready, htables.numTasks, hsame.numTasks] at ih
      have hhead := (head?_readyOrder _).mpr hfirst
      rw [readyOrder, hready, hsame.numTasks, hsame.currentTask] at hhead
      exact ⟨hhead, ih⟩

theorem length_readyOrder (s : State) : (readyOrder s).length = activeTasks s := by
  have hperm : (readyOrder s).Perm
      (((List.finRange maxTasks).filter (Unfinished s ·)).map Fin.val) := by
    refine (List.perm_ext_iff_of_nodup (Cyclic.nodup_order _ _ _) ?_).mpr fun i => ?_
    · exact ((List.nodup_finRange _).filter _).map Fin.val_injective
    · simp only [List.mem_map, List.mem_filter, List.mem_finRange, true_and, decide_eq_true_eq]
      constructor
      · intro hi
        have hlt := Nat.lt_of_lt_of_le (Cyclic.mem_order.mp hi).1 s.numTasks_le
        exact ⟨⟨i, hlt⟩, (mem_readyOrder ⟨i, hlt⟩).mp hi, rfl⟩
      · rintro ⟨t, ht, rfl⟩
        exact (mem_readyOrder t).mpr ht
  rw [hperm.length_eq, List.length_map, activeTasks]

/-- **Round robin**: as many ticks as there are unfinished tasks select each of them once. -/
theorem Ticks.fair {ts : List (Fin maxTasks)} (h : Ticks L s ts)
    (hlen : ts.length = activeTasks s) : ts.Nodup ∧ ∀ t, t ∈ ts ↔ Unfinished s t := by
  have horder : ts.map Fin.val = readyOrder s := by
    apply h.follows.eq_order
    rw [List.length_map, hlen, ← length_readyOrder, readyOrder]
  refine ⟨?_, fun t => ?_⟩
  · apply List.Nodup.of_map Fin.val
    rw [horder]
    exact Cyclic.nodup_order _ _ _
  · rw [← mem_readyOrder, ← horder, List.mem_map_of_injective Fin.val_injective]

/-- `current_task` is registered, once there is a task; before that it is 0. -/
def CurrentRegistered (s : State) : Prop := s.currentTask.val ≤ s.numTasks - 1

theorem CurrentRegistered.lt (h : CurrentRegistered s) (hn : s.numTasks ≠ 0) :
    s.currentTask.val < s.numTasks := by
  unfold CurrentRegistered at h
  omega

theorem currentRegistered_of_firstAfter (h : FirstAfter s s'.currentTask)
    (hn : s'.numTasks = s.numTasks) : CurrentRegistered s' := by
  obtain ⟨-, -, -, ht, -⟩ := h
  have hlt := ht.1
  unfold CurrentRegistered
  omega

theorem launch_current (s : State) (name : List UInt8) (entryPoint : UInt32)
    (stack : Option UInt32) : (launch s name entryPoint stack).2.currentTask = s.currentTask ∧
      s.numTasks ≤ (launch s name entryPoint stack).2.numTasks := by
  unfold launch
  cases findFreeSlot s with
  | none => exact ⟨rfl, Nat.le_refl _⟩
  | some i =>
      cases stack with
      | none => exact ⟨rfl, Nat.le_refl _⟩
      | some stack =>
          dsimp only
          unfold createTask
          split
          · exact ⟨rfl, Nat.le_succ _⟩
          · exact ⟨rfl, Nat.le_refl _⟩

theorem ok_of_map {α β : Type} {x : Except Fault α} {f : α → β} {b : β} (h : x.map f = .ok b) :
    ∃ a, x = .ok a ∧ f a = b := by
  cases x with
  | error fault => cases h
  | ok a => exact ⟨a, rfl, Except.ok.inj h⟩

theorem CurrentRegistered.step (h : CurrentRegistered s) {op : Op}
    (hs : Sched.step L s op = .ok s') : CurrentRegistered s' := by
  have hgrow : s'.currentTask = s.currentTask → s.numTasks ≤ s'.numTasks →
      CurrentRegistered s' := by
    intro h1 h2
    unfold CurrentRegistered at h ⊢
    rw [h1]
    omega
  cases op with
  | create entryPoint stack =>
      cases hs
      exact hgrow (launch_current ..).1 (launch_current ..).2
  | createForFile filename entryPoint stack =>
      cases hs
      exact hgrow (launch_current ..).1 (launch_current ..).2
  | terminate pid =>
      unfold Sched.step terminateProcess at hs
      dsimp only at hs
      split at hs
      · cases hs
        exact h
      · split at hs
        · cases hs
          exact h
        · cases hs
  | exit =>
      obtain ⟨r, hr, rfl⟩ := ok_of_map hs
      unfold taskExit at hr
      dsimp only at hr
      split at hr
      · cases hr
        exact h
      · split at hr
        · cases hr
        · next t hsel =>
          cases hr
          exact currentRegistered_of_firstAfter (selectTask_eq_ok.mp hsel) rfl
  | tick cpu =>
      obtain ⟨r, hr, rfl⟩ := ok_of_map hs
      obtain ⟨hfirst, htables⟩ := tick_spec hr
      exact currentRegistered_of_firstAfter hfirst htables.numTasks

theorem currentRegistered_of_run {ops : List Op} (h : Run L s ops s')
    (hs : CurrentRegistered s) : CurrentRegistered s' := by
  induction h with
  | nil => exact hs
  | cons hstep _ ih => exact ih (hs.step hstep)

/-- **Ticks in every reachable state.** A tick completes exactly when a registered task is not
finished; it then selects the first such task behind `current_task`, which is a registered one
itself. As many ticks as there are unfinished tasks select each of them once. -/
theorem tick_selects {ops : List Op} (h : Run L boot ops s) :
    (s.numTasks ≠ 0 → s.currentTask.val < s.numTasks) ∧
    ((∀ cpu, ∃ r, schedulerInterruptHandler L s cpu = .ok r ∧ FirstAfter s r.2.currentTask) ↔
      ∃ t, Unfinished s t) ∧
    ∀ ts, Ticks L s ts → ts.length = activeTasks s → ts.Nodup ∧ ∀ t, t ∈ ts ↔ Unfinished s t :=
  ⟨(currentRegistered_of_run h (Nat.zero_le _)).lt, tick_iff L s, fun _ hts hlen => hts.fair hlen⟩

end runs

/-- Two processes. -/
def twoTasks : State :=
  (createProcess (createProcess boot 0x1000 (some 0x200000)).2 0x2000 (some 0x300000)).2

theorem run_twoTasks (L : Layout) : Run L boot
    [.create 0x1000 (some 0x200000), .create 0x2000 (some 0x300000)] twoTasks :=
  .cons rfl (.cons rfl (.nil _))

/-- With two tasks two ticks select each of them. -/
theorem tick_selects_two : ∃ ts, Ticks ⟨0⟩ twoTasks ts ∧ ts.length = activeTasks twoTasks ∧
    ts.Nodup ∧ ∀ t, t ∈ ts ↔ Unfinished twoTasks t := by
  obtain ⟨-, hiff, hfair⟩ := tick_selects (run_twoTasks ⟨0⟩)
  obtain ⟨r₁, h₁, -⟩ := hiff.mpr ⟨⟨0, by decide⟩, by decide⟩ zeroContext
  obtain ⟨-, htables⟩ := tick_spec h₁
  have hleft : Unfinished r₁.2 ⟨0, by decide⟩ := (htables.unfinished _).mpr (by decide)
  obtain ⟨r₂, h₂, -⟩ := (tick_iff ⟨0⟩ r₁.2).mpr ⟨_, hleft⟩ zeroContext
  have hsame : ∀ s, SameReady s s := fun s => ⟨rfl, rfl, fun _ => Iff.rfl⟩
  have hts : Ticks ⟨0⟩ twoTasks [r₁.2.currentTask, r₂.2.currentTask] :=
    .tick (hsame _) h₁ (.tick (hsame _) h₂ (.nil _))
  have hcount : activeTasks twoTasks = 2 := by decide
  exact ⟨_, hts, hcount.symm, hfair _ hts hcount.symm⟩

/-- The state after one process was created and terminated. -/
def oneTerminated : State :=
  finish (setProcess (createProcess boot 0x1000 (some 0x200000)).2 ⟨0, maxPrograms_pos⟩
    ⟨1, [0x55, 0x6E, 0x6B, 0x6E, 0x6F, 0x77, 0x6E], false⟩) ⟨0, maxTasks_pos⟩

/-- Without a task a tick divides by zero; after the only process was terminated it never ends. -/
theorem not_tick_selects :
    (Run ⟨0⟩ boot [] boot ∧
      schedulerInterruptHandler ⟨0⟩ boot zeroContext = .error .divideError) ∧
    Run ⟨0⟩ boot [.create 0x1000 (some 0x200000), .terminate 1] oneTerminated ∧
      schedulerInterruptHandler ⟨0⟩ oneTerminated zeroContext = .error .endlessLoop :=
  ⟨⟨.nil _, rfl⟩, .cons rfl (.cons rfl (.nil _)), rfl⟩

end MicroKernel.Sched
