import MicroKernel.Shell.CommandLoop

set_option autoImplicit false

/-! # Special keys in `command_loop`

`kb_handler` sends a special key as three bytes. `command_loop` tests for ESC only behind the test
that the character is not `'\0'`, and with `'\0'`: ESC goes to `handle_ctrl_key`, which ignores it, and
the other two bytes are printable characters.
-/

namespace MicroKernel.Shell

open MicroKernel.Lib CArray LineEditor

/-- The text of the line. -/
def Line.text (l : Line) : List UInt8 := l.input.take l.bufferIndex.toNat

/-- The same text, cursor and history. -/
def Session.SameLine (s s' : Session) : Prop :=
  s.line.text = s'.line.text ∧ s.line.cursorPos = s'.line.cursorPos ∧ s.history = s'.history

/-- The turn from `s` to `s'` read a printable character, and the line grew by one. -/
def Inserts (s s' : Session) : Prop :=
  Printable (getcharNonblocking s.keyboard 0).1 ∧ s'.line.bufferIndex = s.line.bufferIndex + 1

/-- The three turns that read a special key insert nothing, and do what `handle_escape_sequence` does
behind the ESC. -/
def PerformsKey (env : Env) (s : Session) : Prop :=
  ∃ s₁ s₂ s₃, commandTurn env s 0 = some s₁ ∧ commandTurn env s₁ 0 = some s₂ ∧
    commandTurn env s₂ 0 = some s₃ ∧ ¬ Inserts s s₁ ∧ ¬ Inserts s₁ s₂ ∧ ¬ Inserts s₂ s₃ ∧
    ∃ handled s', handleEscapeSequence s.pop.2 = some (handled, s') ∧ s₃.SameLine s'

/-- `handle_escape_sequence` has nothing to do for the key: no command to recall, the cursor at the end
that the key moves it to, or no character to delete. -/
def NothingToDo (s : Session) (code : UInt8) : Prop :=
  (code = keyUp → s.history.count = 0 ∨ s.history.current = some s.history.oldest) ∧
  (code = keyDown → s.history.count = 0 ∨ s.history.current = none) ∧
  (code = keyLeft ∨ code = keyHome → s.line.cursorPos = 0) ∧
  (code = keyRight ∨ code = keyEnd ∨ code = keyDelete → s.line.cursorPos = s.line.bufferIndex)

section keys

variable {s : Session} {e : LineEditor UInt8 255}

theorem Line.Shows.text_eq {l : Line} (h : l.Shows e) : l.text = e.text := by
  obtain ⟨rest, hinput⟩ := h.input_eq
  rw [Line.text, h.bufferIndex_eq, hinput]
  exact List.take_left

/-- Lines with the same text and cursor show the same editor. -/
theorem Line.Shows.eq_iff {l l' : Line} {e' : LineEditor UInt8 255} (h : l.Shows e)
    (h' : l'.Shows e') : l.text = l'.text ∧ l.cursorPos = l'.cursorPos ↔ e = e' := by
  constructor
  · rintro ⟨htext, hcursor⟩
    rw [h.text_eq, h'.text_eq] at htext
    rw [h.cursorPos, h'.cursorPos] at hcursor
    exact LineEditor.eq_of_text htext (by exact_mod_cast hcursor)
  · rintro rfl
    exact ⟨h.text_eq.trans h'.text_eq.symm, h.cursorPos.trans h'.cursorPos.symm⟩

/-! ## What `handle_escape_sequence` does on a full line -/

/-- The key on a full line: it changes nothing exactly when there is nothing to do. -/
def Unchanged (s : Session) (e : LineEditor UInt8 255) (code : UInt8) : Prop :=
  ∃ handled s' e', handleKeyCode s code = some (handled, s') ∧ s'.Valid e' ∧
    (e = e' ∧ s.history = s'.history ↔ NothingToDo s code)

theorem Session.Valid.length_of_full (h : s.Valid e) (hfull : s.line.bufferIndex = 255) :
    e.text.length = 255 := by
  rw [h.line.bufferIndex_eq] at hfull
  exact_mod_cast hfull

/-- A command from the history is shorter than a full line. -/
theorem Session.Valid.browse_unchanged (h : s.Valid e) (hfull : s.line.bufferIndex = 255)
    {r : Option (List UInt8)} {history : History} (hr : s.history.Browsed r history) :
    ∃ handled s' e', (Session.recallLine { s with history } r).map (true, ·) = some (handled, s') ∧
      s'.Valid e' ∧ (e = e' ∧ s.history = s'.history ↔ r = none) := by
  obtain ⟨hvalid, -⟩ := h.withHistory hr
  cases r with
  | none => exact ⟨true, _, e, rfl, hvalid, by simp [hr.null rfl]⟩
  | some str =>
      obtain ⟨m, rest, rfl, hm⟩ := hr.str str rfl
      obtain ⟨e', ⟨handled, s', hs', hv, -⟩, htext, -⟩ := hvalid.recallLine hm rest
      refine ⟨handled, s', e', hs', hv, ?_⟩
      have hne : e ≠ e' := by
        rintro rfl
        have hlen := h.length_of_full hfull
        rw [htext, List.length_take] at hlen
        omega
      simp [hne]

theorem unchanged_of_line {line : Line} {handled : Bool} {e' : LineEditor UInt8 255} {code : UInt8}
    (h : s.Valid e) (hcode : handleKeyCode s code = some (handled, { s with line }))
    (hline : line.Shows e') (hiff : e = e' ↔ NothingToDo s code) : Unchanged s e code :=
  ⟨handled, _, e', hcode, h.withLine hline, by simpa using hiff⟩

theorem nothingToDo_up : NothingToDo s keyUp ↔
    s.history.count = 0 ∨ s.history.current = some s.history.oldest := by
  simp [NothingToDo, keyUp, keyDown, keyLeft, keyRight, keyHome, keyEnd, keyDelete]

theorem nothingToDo_down :
    NothingToDo s keyDown ↔ s.history.count = 0 ∨ s.history.current = none := by
  simp [NothingToDo, keyUp, keyDown, keyLeft, keyRight, keyHome, keyEnd, keyDelete]

/-- LEFT and HOME move towards the start, the next three work towards the end, and the last three keys
have no operation. -/
theorem nothingToDo_start : ∀ code ∈ [keyLeft, keyHome],
    NothingToDo s code ↔ s.line.cursorPos = 0 := by
  simp [NothingToDo, keyUp, keyDown, keyLeft, keyRight, keyHome, keyEnd, keyDelete]

theorem nothingToDo_end : ∀ code ∈ [keyRight, keyEnd, keyDelete],
    NothingToDo s code ↔ s.line.cursorPos = s.line.bufferIndex := by
  simp [NothingToDo, keyUp, keyDown, keyLeft, keyRight, keyHome, keyEnd, keyDelete]

theorem nothingToDo_other : ∀ code ∈ [keyPageUp, keyPageDown, keyInsert], NothingToDo s code := by
  simp [NothingToDo, keyUp, keyDown, keyLeft, keyRight, keyHome, keyEnd, keyDelete, keyPageUp,
    keyPageDown, keyInsert]

theorem handleKeyCode_other : ∀ code ∈ [keyPageUp, keyPageDown, keyInsert],
    handleKeyCode s code = some (false, s) := by
  simp [handleKeyCode, keyUp, keyDown, keyLeft, keyRight, keyHome, keyEnd, keyDelete, keyPageUp,
    keyPageDown, keyInsert]

/-- **A key on a full line.** -/
theorem Session.Valid.unchanged (h : s.Valid e) (hfull : s.line.bufferIndex = 255) {code : UInt8}
    (hcode : code ∈ specialKeys) : Unchanged s e code := by
  have hstart : ∀ code ∈ [keyLeft, keyHome], e.before = [] ↔ NothingToDo s code := by
    intro code hcode
    rw [nothingToDo_start code hcode, h.line.cursorPos, ← List.length_eq_zero_iff]
    exact_mod_cast Iff.rfl
  have hend : ∀ code ∈ [keyRight, keyEnd, keyDelete], e.after = [] ↔ NothingToDo s code := by
    intro code hcode
    rw [nothingToDo_end code hcode, h.line.cursorPos, h.line.bufferIndex,
      ← List.length_eq_zero_iff]
    omega
  have hother : ∀ code ∈ [keyPageUp, keyPageDown, keyInsert], Unchanged s e code := by
    intro code hcode
    exact unchanged_of_line h (handleKeyCode_other code hcode) h.line
      (iff_of_true rfl (nothingToDo_other code hcode))
  simp only [specialKeys, List.mem_cons, List.not_mem_nil, or_false] at hcode
  rcases hcode with rfl | rfl | rfl | rfl | rfl | rfl | rfl | rfl | rfl | rfl
  · obtain ⟨r, history, hget, hr, hnull, -⟩ := h.history.getPrev
    obtain ⟨handled, s', e', hs', hv, hiff⟩ := h.browse_unchanged hfull hr
    exact ⟨handled, s', e', (handleKeyCode_up hget).trans hs', hv,
      (hiff.trans hnull).trans nothingToDo_up.symm⟩
  · obtain ⟨r, history, hget, hr, hnull⟩ := h.history.getNext
    obtain ⟨handled, s', e', hs', hv, hiff⟩ := h.browse_unchanged hfull hr
    exact ⟨handled, s', e', (handleKeyCode_down hget).trans hs', hv,
      (hiff.trans hnull).trans nothingToDo_down.symm⟩
  · exact unchanged_of_line h rfl h.line.left (eq_left_iff.trans (hstart _ (by simp)))
  · exact unchanged_of_line h rfl h.line.right (eq_right_iff.trans (hend _ (by simp)))
  · exact unchanged_of_line h rfl h.line.home (eq_home_iff.trans (hstart _ (by simp)))
  · exact unchanged_of_line h rfl h.line.toEnd (eq_toEnd_iff.trans (hend _ (by simp)))
  · exact hother _ (by simp)
  · exact hother _ (by simp)
  · exact hother _ (by simp)
  · obtain ⟨line, hdelete, hline⟩ := h.line.delete
    exact unchanged_of_line h (handleKeyCode_delete hdelete) hline
      (eq_delete_iff.trans (hend _ (by simp)))

/-! ## What `command_loop` does -/

/-- ESC is ignored. -/
theorem commandChar_esc (env : Env) (s : Session) : commandChar env s 0x1B = some s := by
  unfold commandChar
  rw [if_pos (by decide), if_neg (by decide), if_pos (by decide)]
  rfl

theorem printable_of_special {code : UInt8} (h : code ∈ specialKeys) : Printable code := by
  revert h
  revert code
  decide +kernel

/-- A printable character on a full line is ignored. -/
theorem commandChar_full (env : Env) {ch : UInt8} (hch : Printable ch)
    (hfull : s.line.bufferIndex = 255) : commandChar env s ch = some s := by
  rw [commandChar_printable env hch, Line.insertChar, if_neg (by omega)]
  rfl

/-- A printable character on any other line is inserted. -/
theorem Session.Valid.commandChar_room (env : Env) (h : s.Valid e) {ch : UInt8} (hch : Printable ch)
    (hroom : s.line.bufferIndex < 255) :
    ∃ s', Shell.commandChar env s ch = some s' ∧ s'.line.bufferIndex = s.line.bufferIndex + 1 := by
  obtain ⟨line, hinsert, hline⟩ := h.line.insertChar hch.ne_zero
  refine ⟨_, by rw [commandChar_printable env hch, hinsert]; rfl, ?_⟩
  have hlt : e.before.length + e.after.length < 255 := by
    have := h.line.bufferIndex
    omega
  show line.bufferIndex = _
  rw [hline.bufferIndex, h.line.bufferIndex, LineEditor.insert, dif_pos hlt]
  simp only [List.length_cons]
  omega

/-- With the ESC read, the `'['` is inserted into a line that is not full. -/
theorem Session.Valid.not_performsKey (env : Env) (h : s.Valid e) {code : UInt8} {rest : List UInt8}
    (hq : s.keyboard.queue.toList = specialSequence code ++ rest)
    (hroom : s.line.bufferIndex < 255) : ¬ PerformsKey env s := by
  rintro ⟨s₁, s₂, s₃, hturn₁, hturn₂, -, -, hinserts, -⟩
  obtain ⟨-, q₁, hq₁, -, hesc⟩ := commandTurn_eq env s hq
  rw [commandChar_esc] at hesc
  obtain rfl : _ = s₁ := Option.some.inj (hesc.symm.trans hturn₁)
  obtain ⟨hread, q₂, -, -, hbracket⟩ :=
    commandTurn_eq env { s with keyboard.queue := q₁ } hq₁
  have hprint : Printable 0x5B := by decide
  obtain ⟨s₂', hinsert, hindex⟩ :=
    (h.withKeyboard { s.keyboard with queue := q₂ }).commandChar_room env hprint hroom
  obtain rfl : s₂' = s₂ := Option.some.inj ((hbracket.trans hinsert).symm.trans hturn₂)
  exact hinserts ⟨by rw [hread]; exact hprint, hindex⟩

/-- On a full line the three turns only take the bytes from the queue. -/
theorem full_turns (env : Env) {code : UInt8} {rest : List UInt8}
    (hq : s.keyboard.queue.toList = specialSequence code ++ rest) (hcode : Printable code)
    (hfull : s.line.bufferIndex = 255) :
    ∃ q₁ q₂ q₃ : InputQueue, q₁.toList = 0x5B :: code :: rest ∧
      s.pop.2 = { s with keyboard.queue := q₁ } ∧
      commandTurn env s 0 = some { s with keyboard.queue := q₁ } ∧
      commandTurn env { s with keyboard.queue := q₁ } 0 = some { s with keyboard.queue := q₂ } ∧
      commandTurn env { s with keyboard.queue := q₂ } 0 = some { s with keyboard.queue := q₃ } := by
  obtain ⟨-, q₁, hq₁, hpop, hturn₁⟩ := commandTurn_eq env s hq
  obtain ⟨-, q₂, hq₂, -, hturn₂⟩ :=
    commandTurn_eq env { s with keyboard.queue := q₁ } hq₁
  obtain ⟨-, q₃, -, -, hturn₃⟩ :=
    commandTurn_eq env { s with keyboard.queue := q₂ } hq₂
  refine ⟨q₁, q₂, q₃, hq₁, hpop, ?_, ?_, ?_⟩
  · rw [hturn₁, commandChar_esc]
  · rw [hturn₂]
    exact commandChar_full env (by decide) hfull
  · rw [hturn₃]
    exact commandChar_full env hcode hfull

/-- On a full line the key works when `handle_escape_sequence` has nothing to do. -/
theorem Session.Valid.performsKey_full (env : Env) (h : s.Valid e) {code : UInt8} {rest : List UInt8}
    (hq : s.keyboard.queue.toList = specialSequence code ++ rest) (hcode : code ∈ specialKeys)
    (hfull : s.line.bufferIndex = 255) : PerformsKey env s ↔ NothingToDo s code := by
  obtain ⟨q₁, q₂, q₃, hq₁, hpop, hturn₁, hturn₂, hturn₃⟩ :=
    full_turns env hq (printable_of_special hcode) hfull
  obtain ⟨q', -, hescape⟩ := handleEscapeSequence_eq (s := { s with keyboard.queue := q₁ }) hq₁
    (special_scancode hcode).1
  obtain ⟨handled, s', e', hkey, hvalid, hiff⟩ :=
    (h.withKeyboard { s.keyboard with queue := q' }).unchanged hfull hcode
  have hs' : handleEscapeSequence s.pop.2 = some (handled, s') := by rw [hpop, hescape, hkey]
  have hnot : ∀ q q' : InputQueue,
      ¬ Inserts { s with keyboard.queue := q } { s with keyboard.queue := q' } := by
    rintro q q' ⟨-, hindex⟩
    exact absurd hindex (by simp)
  have hsame : Session.SameLine { s with keyboard.queue := q₃ } s' ↔ NothingToDo s code := by
    rw [Session.SameLine, ← and_assoc, h.line.eq_iff hvalid.line]
    exact hiff
  constructor
  · rintro ⟨s₁, s₂, s₃, h₁, h₂, h₃, -, -, -, handled', s'', hs'', hline⟩
    obtain rfl := Option.some.inj (hturn₁.symm.trans h₁)
    obtain rfl := Option.some.inj (hturn₂.symm.trans h₂)
    obtain rfl := Option.some.inj (hturn₃.symm.trans h₃)
    obtain ⟨-, rfl⟩ := Prod.mk.inj (Option.some.inj (hs'.symm.trans hs''))
    exact hsame.mp hline
  · intro hnothing
    refine ⟨_, _, _, hturn₁, hturn₂, hturn₃, ?_, hnot _ _, hnot _ _, handled, s', hs',
      hsame.mpr hnothing⟩
    exact hnot s.keyboard.queue q₁

theorem contribution_room {k : Keyboard} {scancode code : UInt8}
    (hkey : specialKey k scancode = some code) (hroom : k.queue.toList.length ≤ 252) :
    contribution k scancode = specialSequence code ∧ code ∈ specialKeys := by
  refine ⟨?_, ?_⟩
  · rw [contribution_special hkey]
    apply List.take_of_length_le
    simp only [specialSequence, List.length_cons, List.length_nil]
    omega
  · unfold specialKey at hkey
    split at hkey
    · next hmem =>
      cases hkey
      exact hmem.2
    · cases hkey

/-- **When a special key works**: on a full line, when `handle_escape_sequence` has nothing to do. -/
theorem special_key_performed_iff (env : Env) {s : Session} {e : LineEditor UInt8 255}
    (h : s.Valid e) {k : Keyboard} {scancode code : UInt8} (hkey : specialKey k scancode = some code)
    (hroom : k.queue.toList.length ≤ 252) {rest : List UInt8}
    (hq : s.keyboard.queue.toList = contribution k scancode ++ rest) :
    PerformsKey env s ↔ s.line.bufferIndex = 255 ∧ NothingToDo s code := by
  obtain ⟨hseq, hmem⟩ := contribution_room hkey hroom
  rw [hseq] at hq
  by_cases hfull : s.line.bufferIndex = 255
  · rw [h.performsKey_full env hq hmem hfull]
    simp [hfull]
  · have hlt : s.line.bufferIndex < 255 := by
      have hle := e.le
      have hindex := h.line.bufferIndex
      omega
    simp [hfull, h.not_performsKey env hq hlt]

end keys

/-- The first prompt, after a press of LEFT. -/
def leftPressed : Session :=
  { firstPrompt with keyboard := kbHandler (kbHandler Keyboard.initial scExtendedPrefix) keyLeft }

theorem leftPressed_key :
    specialKey (kbHandler Keyboard.initial scExtendedPrefix) keyLeft = some keyLeft ∧
    (kbHandler Keyboard.initial scExtendedPrefix).queue.toList = [] := by
  decide

theorem leftPressed_queue : leftPressed.keyboard.queue.toList
    = contribution (kbHandler Keyboard.initial scExtendedPrefix) keyLeft ++ [] := by
  rw [List.append_nil, leftPressed, toList_kbHandler, leftPressed_key.2, List.nil_append]

theorem leftPressed_valid : leftPressed.Valid LineEditor.empty :=
  (commandLoopStart_valid commandLoopStart_firstPrompt).1.withKeyboard _

theorem special_key_performed_iff_leftPressed :
    PerformsKey quietEnv leftPressed ↔
      leftPressed.line.bufferIndex = 255 ∧ NothingToDo leftPressed keyLeft :=
  special_key_performed_iff quietEnv leftPressed_valid leftPressed_key.1
    (by rw [leftPressed_key.2]; decide) leftPressed_queue

/-- `command_loop` inserts the two printable bytes of LEFT into an empty line. -/
theorem not_special_key_performed :
    specialKey (kbHandler Keyboard.initial scExtendedPrefix) keyLeft = some keyLeft ∧
    (kbHandler Keyboard.initial scExtendedPrefix).queue.toList.length ≤ 252 ∧
    leftPressed.Valid LineEditor.empty ∧ ¬ PerformsKey quietEnv leftPressed := by
  have hroom : (kbHandler Keyboard.initial scExtendedPrefix).queue.toList.length ≤ 252 := by
    rw [leftPressed_key.2]
    decide
  have hq := leftPressed_queue
  rw [(contribution_room leftPressed_key.1 hroom).1] at hq
  exact ⟨leftPressed_key.1, hroom, leftPressed_valid,
    leftPressed_valid.not_performsKey _ hq (by decide)⟩

end MicroKernel.Shell
