import MicroKernel.Shell.CommandLoop

set_option autoImplicit false

/-! # Editing the line

Any sequence of editing steps, each by the function of the shell that performs it, against the
reference editor. The two bytes of a special key wait in the queue, whatever the keyboard put there
before and behind the step.
-/

namespace MicroKernel.Shell

open MicroKernel.Lib CArray

/-- A key of `handle_escape_sequence` that edits the line. -/
inductive EditKey
  | left
  | right
  | home
  | toEnd
  | delete

/-- The code of the key. -/
def EditKey.code : EditKey → UInt8
  | .left => keyLeft
  | .right => keyRight
  | .home => keyHome
  | .toEnd => keyEnd
  | .delete => keyDelete

/-- The key on the reference editor. -/
def EditKey.reference (e : LineEditor UInt8 255) : EditKey → LineEditor UInt8 255
  | .left => e.left
  | .right => e.right
  | .home => e.home
  | .toEnd => e.toEnd
  | .delete => e.delete

/-- An editing step. -/
inductive EditStep
  | insert (ch : UInt8) (printable : Printable ch)
  | backspace
  | key (key : EditKey) (queue : InputQueue) (rest : List UInt8)
      (queued : queue.toList = 0x5B :: key.code :: rest)
  | ctrlC
  | ctrlU
  | ctrlK

/-- The step as the shell performs it. -/
def EditStep.perform (env : Env) (s : Session) : EditStep → Option Session
  | .insert ch _ => commandChar env s ch
  | .backspace => commandChar env s 0x08
  | .key _ queue _ _ => (handleEscapeSequence { s with keyboard.queue := queue }).map Prod.snd
  | .ctrlC => (handleCtrlKey s 0x03).map Prod.snd
  | .ctrlU => (handleCtrlKey s 0x15).map Prod.snd
  | .ctrlK => (handleCtrlKey s 0x0B).map Prod.snd

/-- The step on the reference editor. -/
def EditStep.reference (e : LineEditor UInt8 255) : EditStep → LineEditor UInt8 255
  | .insert ch _ => e.insert ch
  | .backspace => e.backspace
  | .key k _ _ _ => k.reference e
  | .ctrlC => LineEditor.empty
  | .ctrlU => LineEditor.empty
  | .ctrlK => e.kill

section steps

variable {s : Session} {e : LineEditor UInt8 255}

theorem Session.Valid.editKey (h : s.Valid e) (key : EditKey) :
    s.EditsTo (Shell.handleKeyCode s key.code) (key.reference e) := by
  cases key with
  | left => exact h.left
  | right => exact h.right
  | home => exact h.home
  | toEnd => exact h.toEnd
  | delete => exact h.delete

theorem EditKey.code_ne_zero (key : EditKey) : key.code ≠ 0 := by
  cases key <;> decide

theorem Session.EditsTo.map_snd {r : Option (Bool × Session)} {e' : LineEditor UInt8 255}
    (h : s.EditsTo r e') : ∃ s', r.map Prod.snd = some s' ∧ s'.Valid e' := by
  obtain ⟨handled, s', hr, hvalid, -⟩ := h
  exact ⟨s', by rw [hr]; rfl, hvalid⟩

/-- One step. -/
theorem Session.Valid.perform (env : Env) (h : s.Valid e) (step : EditStep) :
    ∃ s', step.perform env s = some s' ∧ s'.Valid (step.reference e) := by
  cases step with
  | insert ch printable =>
      obtain ⟨line, hinsert, hline⟩ := h.line.insertChar printable.ne_zero
      refine ⟨_, ?_, h.withLine hline⟩
      rw [EditStep.perform, commandChar_printable env printable, hinsert]
      rfl
  | backspace =>
      obtain ⟨line, hback, hline⟩ := h.line.backspace
      refine ⟨_, ?_, h.withLine hline⟩
      rw [EditStep.perform, commandChar_backspace, hback]
      rfl
  | key key queue rest queued =>
      have hvalid := h.withKeyboard { s.keyboard with queue }
      obtain ⟨queue', -, hescape⟩ := handleEscapeSequence_eq
        (s := { s with keyboard.queue := queue }) queued key.code_ne_zero
      rw [EditStep.perform, hescape]
      exact ((hvalid.withKeyboard { s.keyboard with queue := queue' }).editKey key).map_snd
  | ctrlC => exact h.ctrlC.map_snd
  | ctrlU => exact h.ctrlU.map_snd
  | ctrlK => exact h.ctrlK.map_snd

/-- A run of steps. -/
theorem Session.Valid.performAll (env : Env) (h : s.Valid e) (steps : List EditStep) :
    ∃ s', steps.foldlM (EditStep.perform env) s = some s' ∧
      s'.Valid (steps.foldl EditStep.reference e) := by
  induction steps generalizing s e with
  | nil => exact ⟨s, rfl, h⟩
  | cons step steps ih =>
      obtain ⟨s₁, hstep, h₁⟩ := h.perform env step
      obtain ⟨s₂, hrest, h₂⟩ := ih h₁
      refine ⟨s₂, ?_, h₂⟩
      rw [List.foldlM_cons, hstep]
      exact hrest

end steps

/-- The buffer holds the text of the editor, and the indices are in order and in range. -/
structure Line.Refines (l : Line) (e : LineEditor UInt8 255) : Prop where
  cursor_nonneg : 0 ≤ l.cursorPos
  cursor_le : l.cursorPos ≤ l.bufferIndex
  index_le : l.bufferIndex ≤ 255
  terminated : read l.input l.bufferIndex = some 0
  text : l.input.take l.bufferIndex.toNat = e.text
  cursor : l.cursorPos = e.cursor

theorem Line.Shows.refines {l : Line} {e : LineEditor UInt8 255} (h : l.Shows e) :
    l.Refines e := by
  have hle := e.le
  have hindex := h.bufferIndex
  have hcursor := h.cursorPos
  obtain ⟨rest, hinput⟩ := h.input_eq
  refine ⟨by omega, by omega, by omega, ?_, ?_, hcursor⟩
  · exact read_at hinput (by rw [h.bufferIndex_eq])
  · rw [h.bufferIndex_eq, hinput]
    exact List.take_left

/-- **The line editor refines the reference editor**, over every sequence of editing steps from the
first prompt. The run has a result, so it touches cells of the buffer only. -/
theorem editing_refines (env : Env) {keyboard : Keyboard} {drive : CurrentDrive}
    {block : Option (Vector UInt8 256)} {s₀ : Session}
    (hstart : commandLoopStart keyboard drive block = some s₀) (steps : List EditStep) :
    ∃ s, steps.foldlM (EditStep.perform env) s₀ = some s ∧ s.line.input.length = 256 ∧
      s.line.Refines (steps.foldl EditStep.reference LineEditor.empty) := by
  obtain ⟨hvalid, -⟩ := commandLoopStart_valid hstart
  obtain ⟨s, hrun, h⟩ := hvalid.performAll env steps
  exact ⟨s, hrun, h.line.length, h.line.refines⟩

theorem editing_refines_firstPrompt :
    ∃ s, List.foldlM (EditStep.perform quietEnv) firstPrompt [.insert 0x61 (by decide), .ctrlK]
        = some s ∧ s.line.input.length = 256 ∧
      s.line.Refines (List.foldl EditStep.reference LineEditor.empty
        [.insert 0x61 (by decide), .ctrlK]) :=
  editing_refines quietEnv commandLoopStart_firstPrompt [.insert 0x61 (by decide), .ctrlK]

end MicroKernel.Shell
