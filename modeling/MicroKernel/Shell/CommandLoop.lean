import MicroKernel.Shell.History
import MicroKernel.Shell.Line

set_option autoImplicit false

/-! # The shell (`kernel/shell/command.c`)

`handle_escape_sequence`, `handle_ctrl_key` and the turns of `command_loop`. What a command does is a
parameter. A turn has no result when it touches a cell outside of an array, when `show_prompt` calls
itself for ever, or when the command does not return.
-/

namespace MicroKernel.Shell

open MicroKernel.Lib CArray

/-- The keyboard driver, the locals of `command_loop`, the history, the current drive, and the texts
that `process_command` was called on. -/
structure Session where
  keyboard : Keyboard
  line : Line
  history : History
  drive : CurrentDrive
  ran : List (List UInt8)

/-- What a command leaves to the shell: it may have taken input and interrupts, changed the drive
and written to the screen. -/
structure Outcome where
  keyboard : Keyboard
  drive : CurrentDrive
  output : List Output

/-- `process_command` on the line of the shell, with no outcome when it does not return. -/
structure Env where
  processCommand : Session → Option Outcome

/-- The value of a `char`. -/
def signed (ch : UInt8) : Int := if ch.toNat < 128 then ch.toNat else ch.toNat - 256

/-- `ch >= 0x20 && ch < 0x7F`. -/
def Printable (ch : UInt8) : Prop := 0x20 ≤ signed ch ∧ signed ch < 0x7F

instance (ch : UInt8) : Decidable (Printable ch) := inferInstanceAs (Decidable (_ ∧ _))

namespace Session

/-- `input_queue_pop`. -/
def pop (s : Session) : UInt8 × Session :=
  let (ch, queue) := inputQueuePop s.keyboard.queue
  (ch, { s with keyboard.queue := queue })

/-- `show_prompt`. -/
def prompt (s : Session) : Option Session := do
  let shown ← showPrompt s.drive
  some { s with line := s.line.out shown }

/-- Replace the line by what the history returned, unless that is `NULL`. -/
def recallLine (s : Session) : Option (List UInt8) → Option Session
  | none => some s
  | some content => do
      let line ← s.line.replaceCurrentLine s.drive content
      some { s with line }

end Session

/-- The `switch` of `handle_escape_sequence`. -/
def handleKeyCode (s : Session) (keyCode : UInt8) : Option (Bool × Session) :=
  if keyCode = keyUp then do
    let (prev, history) ← s.history.getPrev
    let s ← Session.recallLine { s with history } prev
    some (true, s)
  else if keyCode = keyDown then do
    let (next, history) ← s.history.getNext
    let s ← Session.recallLine { s with history } next
    some (true, s)
  else if keyCode = keyLeft then some (true, { s with line := s.line.left })
  else if keyCode = keyRight then some (true, { s with line := s.line.right })
  else if keyCode = keyHome then some (true, { s with line := s.line.home })
  else if keyCode = keyEnd then some (true, { s with line := s.line.toEnd })
  else if keyCode = keyDelete then do
    let line ← s.line.delete
    some (true, { s with line })
  else some (false, s)

/-- `handle_escape_sequence`. -/
def handleEscapeSequence (s : Session) : Option (Bool × Session) :=
  let (seq1, s) := s.pop
  if seq1 = 0 then some (false, s)
  else if seq1 ≠ 0x5B then some (false, s)
  else
    let (keyCode, s) := s.pop
    if keyCode = 0 then some (false, s) else handleKeyCode s keyCode

/-- `handle_ctrl_key`. -/
def handleCtrlKey (s : Session) (ch : UInt8) : Option (Bool × Session) :=
  if ch = 0x03 then do
    let line ← (s.line.out [.printf "^C\n"]).clear
    let s ← Session.prompt { s with line, history := s.history.reset }
    some (true, s)
  else if ch = 0x04 then
    if s.line.bufferIndex = 0 then do
      let s ← Session.prompt { s with
        line := s.line.out [.printf "^D\n(Ctrl+D pressed - use 'exit' to quit)\n"] }
      some (true, s)
    else some (false, s)
  else if ch = 0x0C then do
    let s ← Session.prompt { s with line := s.line.out [.clearScreen] }
    let line ← s.line.redisplay
    some (true, { s with line })
  else if ch = 0x15 then do
    let s ← Session.prompt { s with line := s.line.out [.clearLine] }
    let line ← s.line.clear
    some (true, { s with line })
  else if ch = 0x0B then do
    let line ← s.line.killToEnd
    some (true, { s with line })
  else some (false, s)

/-- Enter in `command_loop` up to the call of `process_command`, which a line that is not empty gets
to. -/
def enterLine (s : Session) : Option Session := do
  let input ← write s.line.input s.line.bufferIndex 0
  let line := Line.out { s.line with input } [.printf "\n"]
  if 0 < s.line.bufferIndex then do
    let history ← s.history.add input
    some { s with line, history, ran := s.ran ++ [Libc.text input] }
  else some { s with line }

/-- The call of `process_command`. -/
def runCommand (env : Env) (s : Session) : Option Session :=
  if 0 < s.line.bufferIndex then do
    let outcome ← env.processCommand s
    some { s with
      keyboard := outcome.keyboard
      drive := outcome.drive
      line := s.line.out outcome.output }
  else some s

/-- Enter in `command_loop`. -/
def enter (env : Env) (s : Session) : Option Session := do
  let s ← enterLine s
  let s ← runCommand env s
  let line ← s.line.clear
  Session.prompt { s with line, history := s.history.reset }

/-- What `command_loop` does with a character. -/
def commandChar (env : Env) (s : Session) (ch : UInt8) : Option Session :=
  if ch ≠ 0 then
    -- the test for ESC compares with the character that is excluded here
    if ch = 0 then do
      let (_, s) ← handleEscapeSequence s
      some s
    else if signed ch < 0x20 ∧ ch ≠ 0x0A ∧ ch ≠ 0x09 ∧ ch ≠ 0x08 then do
      let (_, s) ← handleCtrlKey s ch
      some s
    else if ch = 0x0A then enter env s
    else if ch = 0x08 then do
      let line ← s.line.backspace
      some { s with line }
    else if ch = 0x09 then some s
    else if 0x20 ≤ signed ch ∧ signed ch < 0x7F then do
      let line ← s.line.insertChar ch
      some { s with line }
    else some s
  else some s

/-- `getchar_nonblocking`, with the character that the serial port returns, `0` for none. -/
def getcharNonblocking (k : Keyboard) (serialCh : UInt8) : UInt8 × Keyboard :=
  if serialCh ≠ 0 then (if serialCh = 0x0D then 0x0A else serialCh, k)
  else if ¬ inputQueueEmpty k.queue then
    let (ch, queue) := inputQueuePop k.queue
    (ch, { k with queue })
  else (0, k)

/-- A turn of `command_loop`. -/
def commandTurn (env : Env) (s : Session) (serialCh : UInt8) : Option Session :=
  let (ch, keyboard) := getcharNonblocking s.keyboard serialCh
  commandChar env { s with keyboard } ch

/-- The start of `command_loop`, with the result of `k_malloc`. -/
def commandLoopStart (keyboard : Keyboard) (drive : CurrentDrive)
    (block : Option (Vector UInt8 256)) : Option Session := do
  let shown ← showPrompt drive
  let block ← block
  let input ← write block.toList 0 0
  some {
    keyboard
    line := {
      input
      bufferIndex := 0
      cursorPos := 0
      screen := .printf "+++Enhanced shell with line editing and history started\n" :: shown }
    history := History.initial
    drive
    ran := [] }

/-! ## The invariant -/

/-- What holds at every turn: the line shows an editor, the history is valid, the drive is named. -/
structure Session.Valid (s : Session) (e : LineEditor UInt8 255) : Prop where
  line : s.line.Shows e
  history : s.history.Valid
  drive : named s.drive

section rules

variable {env : Env} {s : Session} {e : LineEditor UInt8 255}

theorem Session.Valid.withLine (h : s.Valid e) {line : Line} {e' : LineEditor UInt8 255}
    (hline : line.Shows e') : Session.Valid { s with line } e' :=
  ⟨hline, h.history, h.drive⟩

theorem Session.Valid.withKeyboard (h : s.Valid e) (keyboard : Keyboard) :
    Session.Valid { s with keyboard } e :=
  ⟨h.line, h.history, h.drive⟩

theorem Session.Valid.prompt (h : s.Valid e) :
    ∃ os, s.prompt = some { s with line := s.line.out os } := by
  unfold Session.prompt showPrompt
  rw [if_pos h.drive]
  exact ⟨_, rfl⟩

theorem Printable.ne_zero {ch : UInt8} (h : Printable ch) : ch ≠ 0 := by
  rintro rfl
  exact absurd h.1 (by decide)

/-- A turn without serial input reads the first character of the queue. -/
theorem commandTurn_eq (env : Env) (s : Session) {ch : UInt8} {rest : List UInt8}
    (hq : s.keyboard.queue.toList = ch :: rest) :
    (getcharNonblocking s.keyboard 0).1 = ch ∧
    ∃ queue, queue.toList = rest ∧
      s.pop.2 = { s with keyboard.queue := queue } ∧
      commandTurn env s 0 = commandChar env { s with keyboard.queue := queue } ch := by
  obtain ⟨queue, hpop, hlist⟩ := inputQueuePop_cons hq
  have hget : getcharNonblocking s.keyboard 0 = (ch, { s.keyboard with queue }) := by
    simp [getcharNonblocking, inputQueueEmpty_cons hq, hpop]
  exact ⟨by rw [hget], queue, hlist, by rw [Session.pop, hpop], by rw [commandTurn, hget]⟩

/-- A printable character is inserted. -/
theorem commandChar_printable (env : Env) {ch : UInt8} (hch : Printable ch) :
    commandChar env s ch = (s.line.insertChar ch).map fun line => { s with line } := by
  have hlow : ¬ signed ch < 0x20 := not_lt.mpr hch.1
  have hne : ch ≠ 0x0A ∧ ch ≠ 0x08 ∧ ch ≠ 0x09 := by
    refine ⟨?_, ?_, ?_⟩ <;>
    · rintro rfl
      exact absurd hch.1 (by decide)
  unfold commandChar
  rw [if_pos hch.ne_zero, if_neg hch.ne_zero, if_neg (fun h => hlow h.1), if_neg hne.1,
    if_neg hne.2.1, if_neg hne.2.2, if_pos (show 0x20 ≤ signed ch ∧ signed ch < 0x7F from hch)]
  cases s.line.insertChar ch <;> rfl

theorem commandChar_backspace (env : Env) (s : Session) :
    commandChar env s 0x08 = s.line.backspace.map fun line => { s with line } := by
  unfold commandChar
  rw [if_pos (by decide), if_neg (by decide), if_neg (by decide), if_neg (by decide), if_pos rfl]
  cases s.line.backspace <;> rfl

theorem commandChar_enter (env : Env) (s : Session) : commandChar env s 0x0A = enter env s := by
  unfold commandChar
  rw [if_pos (by decide), if_neg (by decide), if_neg (by decide), if_pos rfl]

theorem commandChar_tab (env : Env) (s : Session) : commandChar env s 0x09 = some s := by
  unfold commandChar
  rw [if_pos (by decide), if_neg (by decide), if_neg (by decide), if_neg (by decide),
    if_neg (by decide), if_pos rfl]

/-- Every other character goes to `handle_ctrl_key`, or is ignored. -/
theorem commandChar_other (env : Env) (s : Session) {ch : UInt8} (hprint : ¬ Printable ch)
    (hnl : ch ≠ 0x0A) (hbs : ch ≠ 0x08) :
    commandChar env s ch = some s ∨
      commandChar env s ch = (handleCtrlKey s ch).map Prod.snd := by
  unfold commandChar
  by_cases h0 : ch = 0
  · exact Or.inl (if_neg (not_not.mpr h0))
  by_cases hctrl : signed ch < 0x20 ∧ ch ≠ 0x0A ∧ ch ≠ 0x09 ∧ ch ≠ 0x08
  · right
    rw [if_pos h0, if_neg h0, if_pos hctrl]
    cases handleCtrlKey s ch <;> rfl
  · left
    rw [if_pos h0, if_neg h0, if_neg hctrl, if_neg hnl, if_neg hbs]
    by_cases htab : ch = 0x09
    · exact if_pos htab
    · rw [if_neg htab]
      exact if_neg hprint

/-! ## Editing -/

/-- Nothing changed but the driver, the line and the browsing position. -/
def Session.Edits (s s' : Session) : Prop :=
  s' = { s with
    keyboard := s'.keyboard
    line := s'.line
    history.current := s'.history.current }

theorem Session.Edits.ran {s' : Session} (h : s.Edits s') : s'.ran = s.ran := by rw [h]

theorem Session.Edits.newest {s' : Session} (h : s.Edits s') {m : List UInt8}
    (hm : s.history.Newest m) : s'.history.Newest m := by
  rw [h]
  exact hm

theorem Session.Edits.trans {s₁ s₂ : Session} (h₁ : s.Edits s₁) (h₂ : s₁.Edits s₂) :
    s.Edits s₂ := by
  calc s₂ = { s₁ with
        keyboard := s₂.keyboard
        line := s₂.line
        history.current := s₂.history.current } := h₂
    _ = { s with
        keyboard := s₂.keyboard
        line := s₂.line
        history.current := s₂.history.current } := by rw [h₁]

/-- The result of a handler: a session with the given line, and nothing else changed. -/
def Session.EditsTo (s : Session) (r : Option (Bool × Session)) (e' : LineEditor UInt8 255) :
    Prop :=
  ∃ handled s', r = some (handled, s') ∧ s'.Valid e' ∧ s.Edits s' ∧ s'.keyboard = s.keyboard

theorem Session.Valid.editsTo (h : s.Valid e) (handled : Bool) :
    s.EditsTo (some (handled, s)) e :=
  ⟨handled, s, rfl, h, rfl, rfl⟩

theorem Session.Valid.editsTo_line (h : s.Valid e) (handled : Bool) {line : Line}
    {e' : LineEditor UInt8 255} (hline : line.Shows e') :
    s.EditsTo (some (handled, { s with line })) e' :=
  ⟨handled, _, rfl, h.withLine hline, rfl, rfl⟩

theorem Session.Valid.ctrlC (h : s.Valid e) :
    s.EditsTo (handleCtrlKey s 0x03) LineEditor.empty := by
  obtain ⟨line, hclear, hline⟩ := (h.line.out [.printf "^C\n"]).clear
  have hvalid : Session.Valid { s with line, history := s.history.reset } LineEditor.empty :=
    ⟨hline, h.history.reset, h.drive⟩
  obtain ⟨os, hprompt⟩ := hvalid.prompt
  rw [handleCtrlKey, if_pos rfl]
  simp only [Option.bind_eq_bind, Option.bind_some, hclear, hprompt]
  exact ⟨true, _, rfl, hvalid.withLine (hline.out os), rfl, rfl⟩

theorem Session.Valid.ctrlD (h : s.Valid e) : s.EditsTo (handleCtrlKey s 0x04) e := by
  rw [handleCtrlKey, if_neg (by decide), if_pos rfl]
  split
  · have hvalid := h.withLine
      (h.line.out [.printf "^D\n(Ctrl+D pressed - use 'exit' to quit)\n"])
    obtain ⟨os, hprompt⟩ := hvalid.prompt
    simp only [Option.bind_eq_bind, Option.bind_some, hprompt]
    exact h.editsTo_line true (hvalid.line.out os)
  · exact h.editsTo false

theorem Session.Valid.ctrlL (h : s.Valid e) : s.EditsTo (handleCtrlKey s 0x0C) e := by
  have hvalid := h.withLine (h.line.out [.clearScreen])
  obtain ⟨os, hprompt⟩ := hvalid.prompt
  obtain ⟨line, hshown, hline⟩ := (hvalid.line.out os).redisplay
  rw [handleCtrlKey, if_neg (by decide), if_neg (by decide), if_pos rfl]
  simp only [Option.bind_eq_bind, Option.bind_some, hprompt, hshown]
  exact h.editsTo_line true hline

theorem Session.Valid.ctrlU (h : s.Valid e) :
    s.EditsTo (handleCtrlKey s 0x15) LineEditor.empty := by
  have hvalid := h.withLine (h.line.out [.clearLine])
  obtain ⟨os, hprompt⟩ := hvalid.prompt
  obtain ⟨line, hclear, hline⟩ := (hvalid.line.out os).clear
  rw [handleCtrlKey, if_neg (by decide), if_neg (by decide), if_neg (by decide), if_pos rfl]
  simp only [Option.bind_eq_bind, Option.bind_some, hprompt, hclear]
  exact h.editsTo_line true hline

theorem Session.Valid.ctrlK (h : s.Valid e) : s.EditsTo (handleCtrlKey s 0x0B) e.kill := by
  obtain ⟨line, hkill, hline⟩ := h.line.killToEnd
  rw [handleCtrlKey, if_neg (by decide), if_neg (by decide), if_neg (by decide),
    if_neg (by decide), if_pos rfl]
  simp only [Option.bind_eq_bind, Option.bind_some, hkill]
  exact h.editsTo_line true hline

/-- **`handle_ctrl_key`** always has a result. -/
theorem Session.Valid.handleCtrlKey (h : s.Valid e) (ch : UInt8) :
    ∃ e', s.EditsTo (handleCtrlKey s ch) e' := by
  by_cases hC : ch = 0x03
  · exact ⟨_, hC ▸ h.ctrlC⟩
  by_cases hD : ch = 0x04
  · exact ⟨_, hD ▸ h.ctrlD⟩
  by_cases hL : ch = 0x0C
  · exact ⟨_, hL ▸ h.ctrlL⟩
  by_cases hU : ch = 0x15
  · exact ⟨_, hU ▸ h.ctrlU⟩
  by_cases hK : ch = 0x0B
  · exact ⟨_, hK ▸ h.ctrlK⟩
  rw [Shell.handleCtrlKey, if_neg hC, if_neg hD, if_neg hL, if_neg hU, if_neg hK]
  exact ⟨e, h.editsTo false⟩

/-- A command from the history replaces the line. -/
theorem Session.Valid.recallLine (h : s.Valid e) {m : List UInt8} (hm : 0 ∉ m)
    (rest : List UInt8) :
    ∃ e', s.EditsTo ((s.recallLine (some (m ++ 0 :: rest))).map (true, ·)) e' ∧
      e'.text = m.take 127 ∧ e'.after = [] := by
  obtain ⟨line, hline, e', hshows, htext⟩ := h.line.replaceCurrentLine h.drive hm rest
  refine ⟨e', ?_, htext⟩
  rw [Session.recallLine, hline]
  exact h.editsTo_line true hshows

theorem Session.Valid.withHistory (h : s.Valid e) {r : Option (List UInt8)} {history : History}
    (hr : s.history.Browsed r history) :
    Session.Valid { s with history } e ∧ s.Edits { s with history } :=
  ⟨⟨h.line, hr.valid, h.drive⟩, by
    unfold Session.Edits
    dsimp only
    rw [← hr.position]⟩

/-- What UP and DOWN do with the answer of the history. -/
theorem Session.Valid.browse (h : s.Valid e) {r : Option (List UInt8)} {history : History}
    (hr : s.history.Browsed r history) :
    ∃ e', s.EditsTo ((Session.recallLine { s with history } r).map (true, ·)) e' := by
  obtain ⟨hvalid, hedits⟩ := h.withHistory hr
  cases r with
  | none => exact ⟨e, true, _, rfl, hvalid, hedits, rfl⟩
  | some str =>
      obtain ⟨m, rest, rfl, hm⟩ := hr.str str rfl
      obtain ⟨e', ⟨handled, s', hs', hv, hedits', hkb⟩, -⟩ := hvalid.recallLine hm rest
      exact ⟨e', handled, s', hs', hv, hedits.trans hedits', hkb⟩

theorem handleKeyCode_up {r : Option (List UInt8)} {history : History}
    (hr : s.history.getPrev = some (r, history)) :
    handleKeyCode s keyUp = (Session.recallLine { s with history } r).map (true, ·) := by
  rw [handleKeyCode, if_pos rfl, hr]
  simp only [Option.bind_eq_bind, Option.bind_some]
  cases Session.recallLine { s with history } r <;> rfl

theorem handleKeyCode_down {r : Option (List UInt8)} {history : History}
    (hr : s.history.getNext = some (r, history)) :
    handleKeyCode s keyDown = (Session.recallLine { s with history } r).map (true, ·) := by
  rw [handleKeyCode, if_neg (by decide), if_pos rfl, hr]
  simp only [Option.bind_eq_bind, Option.bind_some]
  cases Session.recallLine { s with history } r <;> rfl

theorem Session.Valid.left (h : s.Valid e) : s.EditsTo (handleKeyCode s keyLeft) e.left :=
  h.editsTo_line true h.line.left

theorem Session.Valid.right (h : s.Valid e) : s.EditsTo (handleKeyCode s keyRight) e.right :=
  h.editsTo_line true h.line.right

theorem Session.Valid.home (h : s.Valid e) : s.EditsTo (handleKeyCode s keyHome) e.home :=
  h.editsTo_line true h.line.home

theorem Session.Valid.toEnd (h : s.Valid e) : s.EditsTo (handleKeyCode s keyEnd) e.toEnd :=
  h.editsTo_line true h.line.toEnd

theorem handleKeyCode_delete {line : Line} (hdelete : s.line.delete = some line) :
    handleKeyCode s keyDelete = some (true, { s with line }) := by
  simp [handleKeyCode, keyDelete, keyUp, keyDown, keyLeft, keyRight, keyHome, keyEnd, hdelete]

theorem Session.Valid.delete (h : s.Valid e) :
    s.EditsTo (handleKeyCode s keyDelete) e.delete := by
  obtain ⟨line, hdelete, hline⟩ := h.line.delete
  rw [handleKeyCode_delete hdelete]
  exact h.editsTo_line true hline

/-- **`handle_escape_sequence`** always has a result for the code of a key. -/
theorem Session.Valid.handleKeyCode (h : s.Valid e) (code : UInt8) :
    ∃ e', s.EditsTo (handleKeyCode s code) e' := by
  by_cases hU : code = keyUp
  · obtain ⟨r, history, hget, hr, -⟩ := h.history.getPrev
    rw [hU, handleKeyCode_up hget]
    exact h.browse hr
  by_cases hD : code = keyDown
  · obtain ⟨r, history, hget, hr, -⟩ := h.history.getNext
    rw [hD, handleKeyCode_down hget]
    exact h.browse hr
  by_cases hL : code = keyLeft
  · exact ⟨_, hL ▸ h.left⟩
  by_cases hR : code = keyRight
  · exact ⟨_, hR ▸ h.right⟩
  by_cases hH : code = keyHome
  · exact ⟨_, hH ▸ h.home⟩
  by_cases hE : code = keyEnd
  · exact ⟨_, hE ▸ h.toEnd⟩
  by_cases hX : code = keyDelete
  · exact ⟨_, hX ▸ h.delete⟩
  rw [Shell.handleKeyCode, if_neg hU, if_neg hD, if_neg hL, if_neg hR, if_neg hH, if_neg hE,
    if_neg hX]
  exact ⟨e, h.editsTo false⟩

/-- `handle_escape_sequence` takes two characters from the queue. -/
theorem handleEscapeSequence_eq {code : UInt8} {rest : List UInt8}
    (hq : s.keyboard.queue.toList = 0x5B :: code :: rest) (hcode : code ≠ 0) :
    ∃ queue, queue.toList = rest ∧
      handleEscapeSequence s = handleKeyCode { s with keyboard.queue := queue } code := by
  obtain ⟨q₁, hpop₁, hlist₁⟩ := inputQueuePop_cons hq
  obtain ⟨q₂, hpop₂, hlist₂⟩ := inputQueuePop_cons hlist₁
  refine ⟨q₂, hlist₂, ?_⟩
  simp [handleEscapeSequence, Session.pop, hpop₁, hpop₂, hcode]

/-- **Enter** up to the call of `process_command`: a line that is not empty becomes the newest
command. -/
theorem Session.Valid.enterLine (h : s.Valid e) :
    ∃ s', enterLine s = some s' ∧ s'.Valid e ∧ s'.keyboard = s.keyboard ∧ s'.drive = s.drive ∧
      (e.text = [] → s'.ran = s.ran ∧ s'.history = s.history) ∧
      (e.text ≠ [] → s'.ran = s.ran ++ [e.text] ∧ s'.history.Newest e.text) := by
  obtain ⟨rest, hinput⟩ := h.line.input_eq
  have hwrite : write s.line.input s.line.bufferIndex 0 = some s.line.input := by
    rw [write_at hinput (by rw [h.line.bufferIndex_eq]) 0, hinput]
  have hline : (Line.out s.line [.printf "\n"]).Shows e := h.line.out _
  rw [Shell.enterLine, hwrite]
  simp only [Option.bind_eq_bind, Option.bind_some]
  by_cases hempty : e.text = []
  · have hzero : ¬ 0 < s.line.bufferIndex := by
      rw [h.line.bufferIndex_eq, hempty]
      simp
    rw [if_neg hzero]
    exact ⟨_, rfl, h.withLine hline, rfl, rfl, fun _ => ⟨rfl, rfl⟩, fun hne => absurd hempty hne⟩
  · have hpos : 0 < s.line.bufferIndex := by
      rw [h.line.bufferIndex_eq]
      exact_mod_cast List.length_pos_iff.mpr hempty
    have hle : e.text.length ≤ 255 := by
      rw [LineEditor.length_text]
      exact e.le
    obtain ⟨history, hadd, hvalid, hnew⟩ := h.history.add h.line.ne_zero hempty hle rest
    rw [if_pos hpos, hinput, hadd]
    refine ⟨_, rfl, ⟨?_, hvalid, h.drive⟩, rfl, rfl, fun hnil => absurd hnil hempty,
      fun _ => ⟨?_, hnew⟩⟩
    · rw [← hinput]
      exact hline
    · rw [Libc.text_eq h.line.ne_zero]

theorem named_of_prompt {s' : Session} (h : s.prompt = some s') :
    named s.drive ∧ ∃ os, s' = { s with line := s.line.out os } := by
  unfold Session.prompt showPrompt at h
  by_cases hdrive : named s.drive
  · rw [if_pos hdrive] at h
    exact ⟨hdrive, _, (Option.some.inj h).symm⟩
  · rw [if_neg hdrive] at h
    cases h

/-- **Enter**: the prompt is empty afterwards, and no command is browsed. -/
theorem Session.Valid.enter (h : s.Valid e) {s' : Session} (henter : Shell.enter env s = some s') :
    s'.Valid LineEditor.empty ∧ s'.history.current = none ∧
      ∃ s₁, Shell.enterLine s = some s₁ ∧ s'.ran = s₁.ran ∧ s'.history = s₁.history.reset := by
  obtain ⟨s₁, hs₁, hvalid, -⟩ := h.enterLine
  rw [Shell.enter, hs₁] at henter
  simp only [Option.bind_eq_bind, Option.bind_some] at henter
  have hcommand : ∀ s₂, runCommand env s₁ = some s₂ → s₂.line.Shows e ∧ s₂.ran = s₁.ran ∧
      s₂.history = s₁.history := by
    intro s₂ hs₂
    unfold runCommand at hs₂
    split at hs₂
    · cases ho : env.processCommand s₁ with
      | none => simp [ho] at hs₂
      | some outcome =>
          simp only [ho, Option.bind_eq_bind, Option.bind_some, Option.some.injEq] at hs₂
          rw [← hs₂]
          exact ⟨hvalid.line.out _, rfl, rfl⟩
    · cases hs₂
      exact ⟨hvalid.line, rfl, rfl⟩
  cases hs₂ : runCommand env s₁ with
  | none => simp [hs₂] at henter
  | some s₂ =>
      obtain ⟨hline, hran, hhistory⟩ := hcommand s₂ hs₂
      obtain ⟨line, hclear, hline'⟩ := hline.clear
      simp only [hs₂, hclear, Option.bind_some] at henter
      obtain ⟨hdrive, os, rfl⟩ := named_of_prompt henter
      refine ⟨⟨hline'.out os, ?_, hdrive⟩, rfl, s₁, hs₁, hran, ?_⟩
      · exact (hhistory ▸ hvalid.history).reset
      · exact congrArg History.reset hhistory

/-- **Every other character** edits the line. -/
theorem Session.Valid.commandChar (env : Env) (h : s.Valid e) {ch : UInt8} (hne : ch ≠ 0x0A) :
    ∃ s' e', commandChar env s ch = some s' ∧ s'.Valid e' ∧ s.Edits s' ∧
      s'.keyboard = s.keyboard := by
  by_cases hprint : Printable ch
  · obtain ⟨line, hinsert, hline⟩ := h.line.insertChar hprint.ne_zero
    exact ⟨_, _, by rw [commandChar_printable env hprint, hinsert]; rfl, h.withLine hline, rfl, rfl⟩
  by_cases hbs : ch = 0x08
  · obtain ⟨line, hback, hline⟩ := h.line.backspace
    exact ⟨_, _, by rw [hbs, commandChar_backspace, hback]; rfl, h.withLine hline, rfl, rfl⟩
  rcases commandChar_other env s hprint hne hbs with hsame | hctrl
  · exact ⟨s, e, hsame, h, rfl, rfl⟩
  · obtain ⟨e', handled, s', hs', hvalid, hedits, hkb⟩ := h.handleCtrlKey ch
    exact ⟨s', e', by rw [hctrl, hs']; rfl, hvalid, hedits, hkb⟩

end rules

/-! ## Runs -/

/-- A keyboard interrupt between two turns, or a turn with what the serial port returns. -/
inductive ShellEvent
  | scancode (scancode : UInt8)
  | turn (serialCh : UInt8)

/-- The effect of an event. -/
def shellEvent (env : Env) (s : Session) : ShellEvent → Option Session
  | .scancode scancode => some { s with keyboard := kbHandler s.keyboard scancode }
  | .turn serialCh => commandTurn env s serialCh

/-- A run of the shell. -/
def runShell (env : Env) (s : Session) (events : List ShellEvent) : Option Session :=
  events.foldlM (shellEvent env) s

/-- The last text that `process_command` was called on is the newest command. -/
def Session.Recorded (s : Session) : Prop :=
  ∀ earlier l, s.ran = earlier ++ [l] →
    s.history.Newest l ∧ 0 ∉ l ∧ l ≠ []

/-- A machine on which commands return and change nothing. -/
def quietEnv : Env := ⟨fun s => some ⟨s.keyboard, s.drive, []⟩⟩

/-- A session at its first prompt. -/
def firstPrompt : Session where
  keyboard := Keyboard.initial
  line := {
    input := 0 :: List.replicate 255 0
    bufferIndex := 0
    cursorPos := 0
    screen := [.printf "+++Enhanced shell with line editing and history started\n", .prompt [0x68]] }
  history := History.initial
  drive := some [0x68]
  ran := []

theorem commandLoopStart_firstPrompt :
    commandLoopStart Keyboard.initial (some [0x68]) (some (Vector.replicate 256 0))
      = some firstPrompt := by
  have hblock : (Vector.replicate 256 (0 : UInt8)).toList = 0 :: List.replicate 255 0 := by
    rw [Vector.toList_replicate, List.replicate_succ]
  have hwrite : write (Vector.replicate 256 (0 : UInt8)).toList 0 0
      = some (0 :: List.replicate 255 0) := write_at (p := []) hblock rfl 0
  rw [commandLoopStart, showPrompt, if_pos (by decide)]
  simp only [Option.bind_eq_bind, Option.bind_some, hwrite]
  rfl

section runs

variable {env : Env} {s s' : Session} {e : LineEditor UInt8 255}

/-- The start of `command_loop`, when it gets to its first turn. -/
theorem commandLoopStart_valid {keyboard : Keyboard} {drive : CurrentDrive}
    {block : Option (Vector UInt8 256)} (h : commandLoopStart keyboard drive block = some s) :
    s.Valid LineEditor.empty ∧ s.Recorded ∧ s.keyboard = keyboard ∧ s.history.current = none := by
  unfold commandLoopStart showPrompt at h
  by_cases hdrive : named drive
  · cases block with
    | none => simp [hdrive] at h
    | some block =>
        obtain ⟨x, rest, hblock⟩ : ∃ x rest, block.toList = x :: rest := by
          apply List.exists_cons_of_length_pos
          simp
        have hlength : (x :: rest).length = 256 := by
          rw [← hblock]
          exact block.length_toList
        have hwrite : write block.toList 0 0 = some (0 :: rest) := write_at (p := []) hblock rfl 0
        simp only [hdrive, if_true, Option.bind_eq_bind, Option.bind_some, hwrite,
          Option.some.injEq] at h
        subst h
        refine ⟨⟨?_, History.valid_initial, hdrive⟩, ?_, rfl, rfl⟩
        · exact ⟨hlength, ⟨rest, rfl⟩, rfl, rfl, List.not_mem_nil⟩
        intro earlier l hran
        exact absurd hran.symm (List.append_ne_nil_of_right_ne_nil _ (List.cons_ne_nil l []))
  · simp [hdrive] at h

theorem Session.Recorded.edits (h : s.Recorded) (hedits : s.Edits s') : s'.Recorded := by
  intro earlier l hran
  obtain ⟨hnew, hl⟩ := h earlier l (hedits.ran ▸ hran)
  exact ⟨hedits.newest hnew, hl⟩

/-- Enter records the command that it runs. -/
theorem Session.Recorded.enter (h : s.Recorded) (hv : s.Valid e)
    (henter : Shell.enter env s = some s') : s'.Recorded := by
  obtain ⟨-, -, s₁, hs₁, hran, hhistory⟩ := hv.enter henter
  obtain ⟨s₂, hs₂, -, -, -, hempty, hline⟩ := hv.enterLine
  obtain rfl : s₁ = s₂ := Option.some.inj (hs₁.symm.trans hs₂)
  intro earlier l hlast
  rw [hran] at hlast
  rw [hhistory]
  by_cases htext : e.text = []
  · obtain ⟨hran₁, hhist₁⟩ := hempty htext
    rw [hran₁] at hlast
    rw [hhist₁]
    exact h earlier l hlast
  · obtain ⟨hran₁, hnew⟩ := hline htext
    rw [hran₁] at hlast
    obtain ⟨-, heq⟩ := List.append_inj' hlast rfl
    cases heq
    exact ⟨hnew, hv.line.ne_zero, htext⟩

/-- **A turn** keeps the invariant. -/
theorem Session.Valid.commandTurn (h : s.Valid e) (hrec : s.Recorded) {serialCh : UInt8}
    (hturn : commandTurn env s serialCh = some s') : (∃ e', s'.Valid e') ∧ s'.Recorded := by
  unfold Shell.commandTurn at hturn
  generalize getcharNonblocking s.keyboard serialCh = input at hturn
  obtain ⟨ch, keyboard⟩ := input
  have hvalid := h.withKeyboard keyboard
  have hrec' : Session.Recorded { s with keyboard } := hrec
  by_cases hnl : ch = 0x0A
  · rw [hnl] at hturn
    have henter := (commandChar_enter env { s with keyboard }).symm.trans hturn
    exact ⟨⟨_, (hvalid.enter henter).1⟩, hrec'.enter hvalid henter⟩
  · obtain ⟨s'', e', hchar, hv, hedits, -⟩ := hvalid.commandChar env hnl
    obtain rfl : s'' = s' := Option.some.inj (hchar.symm.trans hturn)
    exact ⟨⟨e', hv⟩, hrec'.edits hedits⟩

/-- **A run** keeps the invariant. -/
theorem runShell_valid {events : List ShellEvent} (h : s.Valid e) (hrec : s.Recorded)
    (hrun : runShell env s events = some s') : (∃ e', s'.Valid e') ∧ s'.Recorded := by
  induction events generalizing s e with
  | nil =>
      cases hrun
      exact ⟨⟨e, h⟩, hrec⟩
  | cons event events ih =>
      rw [runShell, List.foldlM_cons] at hrun
      cases hev : shellEvent env s event with
      | none => simp [hev] at hrun
      | some s₁ =>
          simp only [hev, Option.bind_eq_bind, Option.bind_some] at hrun
          cases event with
          | scancode scancode =>
              cases hev
              exact ih (h.withKeyboard (kbHandler s.keyboard scancode)) hrec hrun
          | turn serialCh =>
              obtain ⟨⟨e₁, h₁⟩, hrec₁⟩ := h.commandTurn hrec hev
              exact ih h₁ hrec₁ hrun

end runs

end MicroKernel.Shell
