import MicroKernel.Sched.Tasks

set_option autoImplicit false

/-! # Terminating a process

`terminate_process` marks the task with the index of the process. A slot of `process_list` is used
again after its process was terminated, an index of `tasks` never is, so the two indices come apart
with the first new process after that, and an index of `process_list` may lie behind the array
`tasks`.
-/

namespace MicroKernel.Sched

/-- The call sets to `TASK_FINISHED` exactly the tasks that point to slot `i`, where the process
with the pid is. -/
def HitsTask (s : State) (pid : Int) (i : Fin maxPrograms) : Prop :=
  ∃ s', terminateProcess s pid = .ok s' ∧ ∀ t : Fin maxTasks, t.val < s.numTasks →
    (s'.tasks t).status
      = if (s.tasks t).process = some i then .finished else (s.tasks t).status

/-- An unfinished task points to slot `i` exactly when it has the same index. -/
def SameIndex (s : State) (i : Fin maxPrograms) : Prop :=
  i.val < maxTasks ∧ ∀ t, Unfinished s t → ((s.tasks t).process = some i ↔ t.val = i.val)

instance (s : State) (i : Fin maxPrograms) : Decidable (SameIndex s i) :=
  inferInstanceAs (Decidable (_ ∧ _))

/-- What `terminate_process` does to the tasks when it finds the process. -/
theorem terminateProcess_of_findRunning {s : State} {pid : Int} {i : Fin maxPrograms}
    (h : findRunning s pid = some i) :
    terminateProcess s pid
      = if hi : i.val < maxTasks then
          .ok (finish (setProcess s i { s.processList i with isRunning := false }) ⟨i.val, hi⟩)
        else .error .outOfBounds := by
  unfold terminateProcess
  rw [h]

/-- **A call hits the right task** exactly when the indices agree. -/
theorem hitsTask_iff {s : State} {pid : Int} {i : Fin maxPrograms}
    (h : findRunning s pid = some i) : HitsTask s pid i ↔ SameIndex s i := by
  unfold HitsTask SameIndex
  rw [terminateProcess_of_findRunning h]
  by_cases hi : i.val < maxTasks
  · rw [dif_pos hi]
    have hstatus : ∀ t : Fin maxTasks,
        ((finish (setProcess s i { s.processList i with isRunning := false }) ⟨i.val, hi⟩).tasks
          t).status = if t.val = i.val then .finished else (s.tasks t).status := by
      intro t
      rw [status_finish]
      simp only [Fin.ext_iff, setProcess]
    constructor
    · rintro ⟨s', hs', hall⟩
      cases hs'
      refine ⟨hi, fun t ht => ?_⟩
      have ht' := hall t ht.1
      rw [hstatus] at ht'
      -- the status was not `TASK_FINISHED` before
      by_cases hv : t.val = i.val
      · refine iff_of_true ?_ hv
        by_contra hp
        rw [if_pos hv, if_neg hp] at ht'
        exact ht.2 ht'.symm
      · refine iff_of_false ?_ hv
        intro hp
        rw [if_neg hv, if_pos hp] at ht'
        exact ht.2 ht'
    · rintro ⟨-, hall⟩
      refine ⟨_, rfl, fun t ht => ?_⟩
      rw [hstatus]
      by_cases hf : (s.tasks t).status = .finished
      · simp [hf]
      · simp only [hall t ⟨ht, hf⟩]
  · rw [dif_neg hi]
    refine iff_of_false ?_ fun hc => hi hc.1
    rintro ⟨s', hs', -⟩
    cases hs'

/-- **Every `terminate_process` of a run** for a running pid hits exactly the right task if and only
if, at each of these calls, the indices agree. -/
theorem terminates_hit_iff (L : Layout) (ops : List Op) :
    Throughout L (fun s op => ∀ pid i, op = .terminate pid → findRunning s pid = some i →
      HitsTask s pid i) boot ops ↔
    Throughout L (fun s op => ∀ pid i, op = .terminate pid → findRunning s pid = some i →
      SameIndex s i) boot ops := by
  refine throughout_congr (fun s op => ?_) boot ops
  constructor
  · exact fun h pid i hop hi => (hitsTask_iff hi).mp (h pid i hop hi)
  · exact fun h pid i hop hi => (hitsTask_iff hi).mpr (h pid i hop hi)

/-- Two processes, the first one terminated, and a third one in its slot. -/
def reusedSlot : State :=
  (createProcess (finish (setProcess
    (createProcess (createProcess boot 0x1000 (some 0x200000)).2 0x2000 (some 0x300000)).2
    ⟨0, maxPrograms_pos⟩ ⟨1, [0x55, 0x6E, 0x6B, 0x6E, 0x6F, 0x77, 0x6E], false⟩) ⟨0, maxTasks_pos⟩)
    0x3000 (some 0x400000)).2

theorem run_reusedSlot (L : Layout) : Run L boot
    [.create 0x1000 (some 0x200000), .create 0x2000 (some 0x300000), .terminate 1,
      .create 0x3000 (some 0x400000)] reusedSlot :=
  .cons rfl (.cons rfl (.cons rfl (.cons rfl (.nil _))))

/-- The third process has slot 0 and task 2: terminating it leaves its task as it is. -/
theorem not_terminates_hit :
    Run ⟨0⟩ boot [.create 0x1000 (some 0x200000), .create 0x2000 (some 0x300000), .terminate 1,
      .create 0x3000 (some 0x400000)] reusedSlot ∧
    findRunning reusedSlot 3 = some ⟨0, by decide⟩ ∧
    ¬ HitsTask reusedSlot 3 ⟨0, by decide⟩ := by
  have hfound : findRunning reusedSlot 3 = some ⟨0, by decide⟩ := rfl
  refine ⟨run_reusedSlot ⟨0⟩, hfound, fun h => ?_⟩
  obtain ⟨-, hall⟩ := (hitsTask_iff hfound).mp h
  have htask := (hall ⟨2, by decide⟩ ⟨by decide, by decide⟩).mp rfl
  cases htask

end MicroKernel.Sched
