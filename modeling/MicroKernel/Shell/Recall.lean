import MicroKernel.Shell.CommandLoop

set_option autoImplicit false

/-! # Recalling a command

UP at the empty prompt that an Enter leaves, in any run of the shell. The history holds the whole line
(`Session.Recorded`), and `replace_current_line` keeps its first 127 characters.
-/

namespace MicroKernel.Shell

open MicroKernel.Lib CArray

/-- UP, by `handle_escape_sequence` with the given queue, and Enter call `process_command` on `l`. -/
def RecallsLast (s : Session) (queue : InputQueue) (l : List UInt8) : Prop :=
  ∃ s₁ s₂, handleEscapeSequence { s with keyboard.queue := queue } = some (true, s₁) ∧
    enterLine s₁ = some s₂ ∧ s₂.ran = s.ran ++ [l]

/-- Some run of the shell ends in `s` with a turn that reads an Enter. -/
def AfterEnter (env : Env) (s : Session) : Prop :=
  ∃ keyboard drive block s₀ events s' serialCh,
    commandLoopStart keyboard drive block = some s₀ ∧ runShell env s₀ events = some s' ∧
    (getcharNonblocking s'.keyboard serialCh).1 = 0x0A ∧ commandTurn env s' serialCh = some s

section recalled

variable {env : Env} {s : Session} {e : LineEditor UInt8 255}

/-- The prompt is empty, no command is browsed, and the last command is the newest of the history. -/
theorem AfterEnter.prompt (h : AfterEnter env s) :
    s.Valid LineEditor.empty ∧ s.history.current = none ∧ s.Recorded := by
  obtain ⟨keyboard, drive, block, s₀, events, s', serialCh, hstart, hrun, hread, hturn⟩ := h
  obtain ⟨hvalid₀, hrec₀, -⟩ := commandLoopStart_valid hstart
  obtain ⟨⟨e', hvalid'⟩, hrec'⟩ := runShell_valid hvalid₀ hrec₀ hrun
  obtain ⟨-, hrec⟩ := hvalid'.commandTurn hrec' hturn
  have henter : enter env { s' with keyboard := (getcharNonblocking s'.keyboard serialCh).2 }
      = some s := by
    rw [← commandChar_enter, ← hread]
    exact hturn
  obtain ⟨hvalid, hcurrent, -⟩ := (hvalid'.withKeyboard _).enter henter
  exact ⟨hvalid, hcurrent, hrec⟩

/-- **What UP and Enter run**: the first 127 characters of the last command. -/
theorem AfterEnter.recalls (h : AfterEnter env s) {earlier : List (List UInt8)} {l : List UInt8}
    (hran : s.ran = earlier ++ [l]) {queue : InputQueue} {rest : List UInt8}
    (hq : queue.toList = 0x5B :: keyUp :: rest) : RecallsLast s queue (l.take 127) := by
  obtain ⟨hvalid, hcurrent, hrec⟩ := h.prompt
  obtain ⟨⟨hcount, tail, hlast⟩, hzero, hne⟩ := hrec earlier l hran
  obtain ⟨r, history, hget, hr, -, hfirst⟩ := hvalid.history.getPrev
  have hslot : r = some (l ++ 0 :: tail) := (hfirst hcount hcurrent).trans hlast
  subst hslot
  obtain ⟨q', -, hescape⟩ := handleEscapeSequence_eq
    (s := { s with keyboard.queue := queue }) hq (by decide)
  obtain ⟨hvalid', hedits'⟩ := (hvalid.withKeyboard { s.keyboard with queue := q' }).withHistory hr
  obtain ⟨e', ⟨handled, s₁, hs₁, hvalid₁, hedits₁, -⟩, htext, -⟩ := hvalid'.recallLine hzero tail
  have hup : handleEscapeSequence { s with keyboard.queue := queue } = some (handled, s₁) :=
    (hescape.trans (handleKeyCode_up hget)).trans hs₁
  obtain rfl : true = handled := by
    obtain ⟨s', -, heq⟩ := Option.map_eq_some_iff.mp hs₁
    exact (Prod.mk.inj heq).1
  obtain ⟨s₂, hs₂, -, -, -, -, hline⟩ := hvalid₁.enterLine
  have htake : e'.text ≠ [] := by
    rw [htext]
    simpa using hne
  refine ⟨s₁, s₂, hup, hs₂, ?_⟩
  rw [(hline htake).1, htext, hedits₁.ran]

/-- UP and Enter run no other text. -/
theorem AfterEnter.recallsLast_iff (h : AfterEnter env s) {earlier : List (List UInt8)}
    {l m : List UInt8} (hran : s.ran = earlier ++ [l]) {queue : InputQueue} {rest : List UInt8}
    (hq : queue.toList = 0x5B :: keyUp :: rest) : RecallsLast s queue m ↔ m = l.take 127 := by
  obtain ⟨s₁, s₂, hup, henter, hran₂⟩ := h.recalls hran hq
  constructor
  · rintro ⟨s₁', s₂', hup', henter', hran₂'⟩
    obtain ⟨-, rfl⟩ := Prod.mk.inj (Option.some.inj (hup.symm.trans hup'))
    obtain rfl := Option.some.inj (henter.symm.trans henter')
    exact List.singleton_inj.mp (List.append_cancel_left (hran₂'.symm.trans hran₂))
  · rintro rfl
    exact ⟨s₁, s₂, hup, henter, hran₂⟩

/-- **When the last command is recalled**: when it has at most 127 characters. -/
theorem recalls_last_iff (env : Env) {s : Session} (h : AfterEnter env s)
    {earlier : List (List UInt8)} {l : List UInt8} (hran : s.ran = earlier ++ [l])
    {queue : InputQueue} {rest : List UInt8} (hq : queue.toList = 0x5B :: keyUp :: rest) :
    RecallsLast s queue l ↔ l.length ≤ 127 := by
  rw [h.recallsLast_iff hran hq, eq_comm, List.take_eq_self_iff]

end recalled

/-! ## Typing a line -/

section typing

variable {s : Session} {e : LineEditor UInt8 255}

/-- A printable character from the serial port, at the end of a line that is not full. -/
theorem Session.Valid.commandTurn_serial (env : Env) (h : s.Valid e) {ch : UInt8}
    (hch : Printable ch) (hroom : e.text.length < 255) (hend : e.after = []) :
    ∃ s' e', Shell.commandTurn env s ch = some s' ∧ s'.Valid e' ∧ e'.text = e.text ++ [ch] ∧
      e'.after = [] ∧ s'.ran = s.ran := by
  have hcr : ch ≠ 0x0D := by
    rintro rfl
    exact absurd hch (by decide)
  have hget : getcharNonblocking s.keyboard ch = (ch, s.keyboard) := by
    rw [getcharNonblocking, if_pos hch.ne_zero, if_neg hcr]
  obtain ⟨line, hinsert, hline⟩ := h.line.insertChar hch.ne_zero
  rw [LineEditor.length_text] at hroom
  refine ⟨{ s with line }, e.insert ch, ?_, h.withLine hline, ?_, ?_, rfl⟩
  · rw [Shell.commandTurn, hget]
    exact (commandChar_printable env hch).trans (by rw [hinsert]; rfl)
  · rw [LineEditor.insert, dif_pos hroom]
    simp [LineEditor.text, hend]
  · rw [LineEditor.insert, dif_pos hroom]
    exact hend

/-- Typing printable characters on the serial port. -/
theorem Session.Valid.type (env : Env) (l : List UInt8) (h : s.Valid e)
    (hl : ∀ ch ∈ l, Printable ch) (hroom : e.text.length + l.length ≤ 255) (hend : e.after = []) :
    ∃ s' e', runShell env s (l.map .turn) = some s' ∧ s'.Valid e' ∧ e'.text = e.text ++ l ∧
      s'.ran = s.ran := by
  induction l generalizing s e with
  | nil => exact ⟨s, e, rfl, h, by simp, rfl⟩
  | cons ch l ih =>
      rw [List.length_cons] at hroom
      obtain ⟨s₁, e₁, hturn, h₁, htext₁, hend₁, hran₁⟩ :=
        h.commandTurn_serial env (hl ch List.mem_cons_self) (by omega) hend
      obtain ⟨s₂, e₂, hrun, h₂, htext₂, hran₂⟩ := ih h₁ (fun c hc => hl c (List.mem_cons_of_mem ch hc))
        (by rw [htext₁, List.length_append, List.length_singleton]; omega) hend₁
      refine ⟨s₂, e₂, ?_, h₂, by simp [htext₂, htext₁], hran₂.trans hran₁⟩
      rw [List.map_cons, runShell, List.foldlM_cons]
      have hevent : shellEvent env s (.turn ch) = some s₁ := hturn
      rw [hevent]
      exact hrun

/-- Enter on a line that is not empty. -/
theorem Session.Valid.enter_quiet (h : s.Valid e) (hne : e.text ≠ []) :
    ∃ s', Shell.enter quietEnv s = some s' ∧ s'.ran = s.ran ++ [e.text] := by
  obtain ⟨s₁, hs₁, hvalid₁, -, -, -, hline⟩ := h.enterLine
  have hcommand : ∃ os, runCommand quietEnv s₁ = some { s₁ with line := s₁.line.out os } := by
    unfold runCommand
    split
    · exact ⟨[], rfl⟩
    · exact ⟨[], by simp [Line.out]⟩
  obtain ⟨os, hcommand⟩ := hcommand
  obtain ⟨line, hclear, hline₂⟩ := (hvalid₁.line.out os).clear
  have hvalid₂ : Session.Valid { s₁ with line, history := s₁.history.reset } LineEditor.empty :=
    ⟨hline₂, hvalid₁.history.reset, hvalid₁.drive⟩
  obtain ⟨os', hprompt⟩ := hvalid₂.prompt
  rw [Shell.enter, hs₁]
  simp only [Option.bind_eq_bind, Option.bind_some, hcommand, hclear, hprompt]
  exact ⟨_, rfl, (hline hne).1⟩

/-- Any command line can be entered on the serial port. -/
theorem afterEnter_of_line (l : List UInt8) (hl : ∀ ch ∈ l, Printable ch) (hne : l ≠ [])
    (hle : l.length ≤ 255) : ∃ s, AfterEnter quietEnv s ∧ s.ran = [l] := by
  obtain ⟨hvalid, -⟩ := commandLoopStart_valid commandLoopStart_firstPrompt
  have hroom : (LineEditor.empty : LineEditor UInt8 255).text.length + l.length ≤ 255 := by
    simpa [LineEditor.empty] using hle
  obtain ⟨s₁, e₁, hrun, h₁, htext, hran⟩ := hvalid.type quietEnv l hl hroom rfl
  have htext' : e₁.text = l := htext
  obtain ⟨s₂, henter, hran₂⟩ := h₁.enter_quiet (by rwa [htext'])
  refine ⟨s₂, ⟨_, _, _, _, l.map .turn, s₁, 0x0A, commandLoopStart_firstPrompt, hrun, rfl, ?_⟩, ?_⟩
  · exact (commandChar_enter quietEnv _).trans henter
  · rw [hran₂, hran, htext']
    rfl

end typing

/-- The two bytes of UP behind the ESC. -/
def upQueue : InputQueue := (inputQueuePush (inputQueuePush emptyQueue 0x5B).2 keyUp).2

theorem toList_upQueue : upQueue.toList = [0x5B, keyUp] := by decide

theorem recalls_last_iff_short :
    ∃ s, AfterEnter quietEnv s ∧ (RecallsLast s upQueue [0x61] ↔ [(0x61 : UInt8)].length ≤ 127) := by
  have hprint : ∀ ch ∈ [(0x61 : UInt8)], Printable ch := by
    intro ch hch
    rw [List.mem_singleton.mp hch]
    decide
  obtain ⟨s, h, hran⟩ := afterEnter_of_line [0x61] hprint (by decide) (by decide)
  exact ⟨s, h, recalls_last_iff quietEnv h (show s.ran = [] ++ [[0x61]] from hran) toList_upQueue⟩

/-- A command line of 128 characters is not recalled. -/
theorem not_recalls_last :
    ∃ s, AfterEnter quietEnv s ∧ s.ran = [List.replicate 128 0x61] ∧
      upQueue.toList = [0x5B, keyUp] ∧ ¬ RecallsLast s upQueue (List.replicate 128 0x61) := by
  have hprint : ∀ ch ∈ List.replicate 128 (0x61 : UInt8), Printable ch := by
    intro ch hch
    rw [List.eq_of_mem_replicate hch]
    decide
  obtain ⟨s, h, hran⟩ := afterEnter_of_line (List.replicate 128 0x61) hprint (by simp) (by simp)
  refine ⟨s, h, hran, toList_upQueue, ?_⟩
  rw [h.recallsLast_iff (show s.ran = [] ++ [List.replicate 128 0x61] from hran) toList_upQueue]
  intro hsame
  exact absurd (congrArg List.length hsame) (by simp)

end MicroKernel.Shell
