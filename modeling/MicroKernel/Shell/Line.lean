import MicroKernel.Lib.CArray
import MicroKernel.Lib.LineEditor
import MicroKernel.Libc.String
import MicroKernel.Shell.Keyboard

set_option autoImplicit false

/-! # The edited line (`kernel/shell/command.c`)

The input buffer of `command_loop` with its two indices, and each branch of `command_loop`,
`handle_escape_sequence` and `handle_ctrl_key` that edits it, with what the branch sends to the screen.
A branch has no result when it touches a cell outside of the 256 of the buffer. `Line.Shows` relates a
line to the reference editor; there is one rule for each branch.
-/

namespace MicroKernel.Shell

open MicroKernel.Lib CArray LineEditor

/-- What the shell sends to the screen. -/
inductive Output
  | putchar (ch : UInt8)
  | printf (s : String)
  | prompt (drive : List UInt8)
  | moveCursorLeft
  | moveCursorRight
  | backspace
  | saveCursor
  | clearLine
  | clearFromCursor
  | clearScreen

/-- `input`, `buffer_index` and `cursor_pos`, and the screen. -/
structure Line where
  input : List UInt8
  bufferIndex : Int
  cursorPos : Int
  screen : List Output

/-- `current_drive`: its name, for a drive. -/
abbrev CurrentDrive := Option (List UInt8)

/-- `current_drive && current_drive->name[0]`. -/
def named : CurrentDrive → Bool
  | some (c :: _) => c ≠ 0
  | _ => false

/-- `show_prompt`. Without a named drive it calls itself for ever. -/
def showPrompt (drive : CurrentDrive) : Option (List Output) :=
  if named drive then some [.prompt (drive.getD [])] else none

namespace Line

/-- Send to the screen. -/
def out (l : Line) (os : List Output) : Line := { l with screen := l.screen ++ os }

/-- `vga_move_cursor_left` in a loop. -/
def movesLeft (n : Int) : List Output := List.replicate n.toNat .moveCursorLeft

/-- A printable character in `command_loop`. -/
def insertChar (l : Line) (ch : UInt8) : Option Line :=
  if l.bufferIndex < 255 then do
    let input ← (if l.cursorPos < l.bufferIndex then
        shiftRight l.input l.bufferIndex (l.bufferIndex - l.cursorPos).toNat
      else some l.input)
    let input ← write input l.cursorPos ch
    let bufferIndex := l.bufferIndex + 1
    let cursorPos := l.cursorPos + 1
    let input ← write input bufferIndex 0
    let l : Line := { l with input, bufferIndex, cursorPos }
    if cursorPos = bufferIndex then some (l.out [.putchar ch])
    else do
      let shown ← readRange input (cursorPos - 1) (bufferIndex - (cursorPos - 1)).toNat
      some (l.out (shown.map .putchar ++ movesLeft (bufferIndex - cursorPos)))
  else some l

/-- Backspace in `command_loop`. -/
def backspace (l : Line) : Option Line :=
  if 0 < l.cursorPos then do
    let input ← shiftLeft l.input (l.cursorPos - 1) (l.bufferIndex - (l.cursorPos - 1)).toNat
    let bufferIndex := l.bufferIndex - 1
    let cursorPos := l.cursorPos - 1
    let input ← write input bufferIndex 0
    let shown ← readRange input cursorPos (bufferIndex - cursorPos).toNat
    let l : Line := { l with input, bufferIndex, cursorPos }
    some (l.out (.backspace :: shown.map .putchar
      ++ .putchar 0x20 :: movesLeft (bufferIndex - cursorPos + 1)))
  else some l

/-- `KEY_DELETE` in `handle_escape_sequence`. -/
def delete (l : Line) : Option Line :=
  if l.cursorPos < l.bufferIndex then do
    let input ← shiftLeft l.input l.cursorPos (l.bufferIndex - 1 - l.cursorPos).toNat
    let bufferIndex := l.bufferIndex - 1
    let input ← write input bufferIndex 0
    let shown ← readRange input l.cursorPos (bufferIndex - l.cursorPos).toNat
    let l : Line := { l with input, bufferIndex }
    some (l.out (shown.map .putchar ++ .putchar 0x20 :: movesLeft (bufferIndex - l.cursorPos + 1)))
  else some l

/-- `KEY_LEFT`. -/
def left (l : Line) : Line :=
  if 0 < l.cursorPos then { l with cursorPos := l.cursorPos - 1 }.out [.moveCursorLeft] else l

/-- `KEY_RIGHT`. -/
def right (l : Line) : Line :=
  if l.cursorPos < l.bufferIndex then
    { l with cursorPos := l.cursorPos + 1 }.out [.moveCursorRight]
  else l

/-- `KEY_HOME`: the step of `KEY_LEFT` while `cursor_pos` is above 0. -/
def home (l : Line) : Line := Nat.iterate left l.cursorPos.toNat l

/-- `KEY_END`: the step of `KEY_RIGHT` while `cursor_pos` is below `buffer_index`. -/
def toEnd (l : Line) : Line := Nat.iterate right (l.bufferIndex - l.cursorPos).toNat l

/-- The empty line of Ctrl+C, Ctrl+U and Enter. -/
def clear (l : Line) : Option Line := do
  let input ← write l.input 0 0
  some { l with input, bufferIndex := 0, cursorPos := 0 }

/-- Ctrl+K in `handle_ctrl_key`. -/
def killToEnd (l : Line) : Option Line := do
  let input ← write l.input l.cursorPos 0
  some ({ l with input, bufferIndex := l.cursorPos }.out [.clearFromCursor])

/-- The redisplay of Ctrl+L in `handle_ctrl_key`, after the prompt. -/
def redisplay (l : Line) : Option Line := do
  let shown ← readRange l.input 0 l.bufferIndex.toNat
  some (l.out (shown.map .putchar ++ movesLeft (l.bufferIndex - l.cursorPos)))

/-- `replace_current_line`. -/
def replaceCurrentLine (l : Line) (drive : CurrentDrive) (newContent : List UInt8) :
    Option Line := do
  let prompt ← showPrompt drive
  let len ← Libc.strlen newContent
  let len := if 127 ≤ len then 127 else len
  let input ← Libc.strncpy l.input newContent len
  let input ← write input len 0
  let shown ← readRange input 0 len
  let l : Line := { l with input, bufferIndex := len, cursorPos := len }
  some (l.out ([.saveCursor, .clearLine] ++ prompt ++ shown.map .putchar))

/-! ## The reference editor -/

/-- The line shows the reference editor: the text, a `'\0'` behind it and the two indices. -/
structure Shows (l : Line) (e : LineEditor UInt8 255) : Prop where
  length : l.input.length = 256
  cells : ∃ rest, l.input = e.before.reverse ++ (e.after ++ 0 :: rest)
  bufferIndex : l.bufferIndex = e.before.length + e.after.length
  cursorPos : l.cursorPos = e.before.length
  ne_zero : 0 ∉ e.text

section rules

variable {l : Line} {e : LineEditor UInt8 255}

/-- The screen shows whatever it shows. -/
theorem Shows.out (h : l.Shows e) (os : List Output) : (l.out os).Shows e :=
  ⟨h.length, h.cells, h.bufferIndex, h.cursorPos, h.ne_zero⟩

/-- A line shows at most one editor. -/
theorem Shows.unique {e' : LineEditor UInt8 255} (h : l.Shows e) (h' : l.Shows e') : e = e' := by
  obtain ⟨rest, hcells⟩ := h.cells
  obtain ⟨rest', hcells'⟩ := h'.cells
  have hcursor : e.cursor = e'.cursor := by
    have := h.cursorPos.symm.trans h'.cursorPos
    exact_mod_cast this
  have hlen : e.text.length = e'.text.length := by
    have := h.bufferIndex.symm.trans h'.bufferIndex
    rw [length_text, length_text]
    exact_mod_cast this
  have htext : e.text ++ 0 :: rest = e'.text ++ 0 :: rest' := by
    rw [LineEditor.text, LineEditor.text, List.append_assoc, List.append_assoc, ← hcells, ← hcells']
  exact eq_of_text (List.append_inj htext hlen).1 hcursor

/-- The buffer as the text and a `'\0'`. -/
theorem Shows.input_eq (h : l.Shows e) : ∃ rest, l.input = e.text ++ 0 :: rest := by
  obtain ⟨rest, hcells⟩ := h.cells
  exact ⟨rest, by rw [hcells, LineEditor.text, List.append_assoc]⟩

theorem Shows.bufferIndex_eq (h : l.Shows e) : l.bufferIndex = e.text.length := by
  rw [h.bufferIndex, length_text]
  rfl

/-- A line that is not full has a cell behind the `'\0'`. -/
theorem Shows.room (h : l.Shows e) (hroom : e.before.length + e.after.length < 255) :
    ∃ r rest, l.input = e.before.reverse ++ (e.after ++ 0 :: (r :: rest)) := by
  obtain ⟨rest, hcells⟩ := h.cells
  have hlength := h.length
  rw [hcells] at hlength
  cases rest with
  | nil =>
      simp at hlength
      omega
  | cons r rest => exact ⟨r, rest, hcells⟩

/-- The loop of an insertion frees the cell at the cursor. Before the end it is not run. -/
theorem Shows.shift (h : l.Shows e) {rest : List UInt8}
    (hcells : l.input = e.before.reverse ++ (e.after ++ 0 :: rest)) :
    ∃ x, (if l.cursorPos < l.bufferIndex then
        shiftRight l.input l.bufferIndex (l.bufferIndex - l.cursorPos).toNat
      else some l.input) = some (e.before.reverse ++ x :: (e.after ++ rest)) := by
  have hcount : (l.bufferIndex - l.cursorPos).toNat = e.after.length := by
    rw [h.bufferIndex, h.cursorPos]
    omega
  split
  · refine ⟨(e.after ++ [0]).head (by simp), ?_⟩
    rw [hcount, hcells]
    exact shiftRight_eq e.after (by simp [h.bufferIndex])
  · next hend =>
    have hnil : e.after = [] := by
      rw [h.bufferIndex, h.cursorPos] at hend
      exact List.length_eq_zero_iff.mp (by omega)
    exact ⟨0, by simp [hcells, hnil]⟩

/-- **Insertion.** -/
theorem Shows.insertChar (h : l.Shows e) {ch : UInt8} (hch : ch ≠ 0) :
    ∃ l', l.insertChar ch = some l' ∧ l'.Shows (e.insert ch) := by
  have hindex := h.bufferIndex
  have hcursor := h.cursorPos
  by_cases hroom : e.before.length + e.after.length < 255
  case neg =>
    have hle := e.le
    have hfull : ¬ l.bufferIndex < 255 := by omega
    exact ⟨l, by rw [Line.insertChar, if_neg hfull], by rwa [LineEditor.insert, dif_neg hroom]⟩
  have hlt : l.bufferIndex < 255 := by omega
  obtain ⟨r, rest, hcells⟩ := h.room hroom
  obtain ⟨x, hshift⟩ := h.shift hcells
  have hlength := h.length
  rw [hcells] at hlength
  have hwrite : write (e.before.reverse ++ x :: (e.after ++ r :: rest)) l.cursorPos ch
      = some (e.before.reverse ++ (ch :: e.after ++ r :: rest)) :=
    write_at rfl (by simp [hcursor]) ch
  have hend : write (e.before.reverse ++ (ch :: e.after ++ r :: rest)) (l.bufferIndex + 1) 0
      = some (e.before.reverse ++ (ch :: e.after ++ 0 :: rest)) :=
    write_behind (ch :: e.after) (by simp [hindex]; omega) 0
  have hshown : readRange (e.before.reverse ++ (ch :: e.after ++ 0 :: rest)) (l.cursorPos + 1 - 1)
      (l.bufferIndex + 1 - (l.cursorPos + 1 - 1)).toNat = some (ch :: e.after) :=
    readRange_eq (ch :: e.after) rfl (by simp [hcursor]) (by simp [hindex, hcursor]; omega)
  have hshows : ∀ os, (Line.out { l with
      input := e.before.reverse ++ (ch :: e.after ++ 0 :: rest)
      bufferIndex := l.bufferIndex + 1
      cursorPos := l.cursorPos + 1 } os).Shows (e.insert ch) := by
    intro os
    refine Shows.out ?_ os
    rw [LineEditor.insert, dif_pos hroom]
    refine ⟨?_, ⟨rest, by simp⟩, ?_, by simp [hcursor], ?_⟩
    · simp at hlength ⊢
      omega
    · simp [hindex]
      omega
    · intro hmem
      rcases mem_text_insert (x := ch) (e := e) (by rwa [LineEditor.insert, dif_pos hroom])
        with hzero | hmem
      · exact hch hzero.symm
      · exact h.ne_zero hmem
  rw [Line.insertChar, if_pos hlt, hshift]
  simp only [Option.bind_eq_bind, Option.bind_some, hwrite, hend, hshown]
  split
  · exact ⟨_, rfl, hshows _⟩
  · exact ⟨_, rfl, hshows _⟩

/-- **Backspace.** -/
theorem Shows.backspace (h : l.Shows e) :
    ∃ l', l.backspace = some l' ∧ l'.Shows e.backspace := by
  cases hb : e.before with
  | nil =>
      have hstart : ¬ 0 < l.cursorPos := by simp [h.cursorPos, hb]
      have hsame : e.backspace = e := LineEditor.ext (by simp [LineEditor.backspace, hb]) rfl
      exact ⟨l, by rw [Line.backspace, if_neg hstart], by rwa [hsame]⟩
  | cons c b =>
  obtain ⟨rest, hcells⟩ := h.cells
  have hlength := h.length
  have hcursor : l.cursorPos = b.length + 1 := by simp [h.cursorPos, hb]
  have hindex : l.bufferIndex = b.length + 1 + e.after.length := by simp [h.bufferIndex, hb]
  rw [hcells, hb] at hlength
  have hinput : l.input = b.reverse ++ c :: ((e.after ++ [0]) ++ rest) := by simp [hcells, hb]
  -- the loop copies the `'\0'`, too
  have hshift : shiftLeft l.input (l.cursorPos - 1) (l.bufferIndex - (l.cursorPos - 1)).toNat
      = some (b.reverse ++ (e.after ++ 0 :: (0 :: rest))) := by
    have hcount : (l.bufferIndex - (l.cursorPos - 1)).toNat = (e.after ++ [0]).length := by
      simp [hcursor, hindex]
      omega
    rw [hcount, hinput, shiftLeft_eq (e.after ++ [0]) (by simp [hcursor])]
    simp
  have hend : write (b.reverse ++ (e.after ++ 0 :: (0 :: rest))) (l.bufferIndex - 1) 0
      = some (b.reverse ++ (e.after ++ 0 :: (0 :: rest))) :=
    write_behind e.after (by simp [hindex]; omega) 0
  have hshown : readRange (b.reverse ++ (e.after ++ 0 :: (0 :: rest))) (l.cursorPos - 1)
      (l.bufferIndex - 1 - (l.cursorPos - 1)).toNat = some e.after :=
    readRange_eq e.after rfl (by simp [hcursor]) (by simp [hcursor, hindex]; omega)
  have hpos : 0 < l.cursorPos := by omega
  rw [Line.backspace, if_pos hpos, hshift]
  simp only [Option.bind_eq_bind, Option.bind_some, hend, hshown]
  refine ⟨_, rfl, Shows.out ?_ _⟩
  refine ⟨?_, ⟨0 :: rest, ?_⟩, ?_, ?_, fun hmem => h.ne_zero (mem_text_backspace hmem)⟩
  · simp at hlength ⊢
    omega
  · simp [LineEditor.backspace, hb]
  · simp [LineEditor.backspace, hb, hindex]
    omega
  · simp [LineEditor.backspace, hb, hcursor]

/-- **Deletion at the cursor.** -/
theorem Shows.delete (h : l.Shows e) : ∃ l', l.delete = some l' ∧ l'.Shows e.delete := by
  cases ha : e.after with
  | nil =>
      have hend : ¬ l.cursorPos < l.bufferIndex := by simp [h.cursorPos, h.bufferIndex, ha]
      have hsame : e.delete = e := LineEditor.ext rfl (by simp [LineEditor.delete, ha])
      exact ⟨l, by rw [Line.delete, if_neg hend], by rwa [hsame]⟩
  | cons c a =>
  obtain ⟨rest, hcells⟩ := h.cells
  have hlength := h.length
  have hcursor := h.cursorPos
  have hindex : l.bufferIndex = e.before.length + (a.length + 1) := by simp [h.bufferIndex, ha]
  rw [hcells, ha] at hlength
  have hinput : l.input = e.before.reverse ++ c :: (a ++ 0 :: rest) := by simp [hcells, ha]
  have hcount : (l.bufferIndex - 1 - l.cursorPos).toNat = a.length := by omega
  -- the loop leaves the last character of the text twice
  have hshift : ∃ x, shiftLeft l.input l.cursorPos (l.bufferIndex - 1 - l.cursorPos).toNat
      = some (e.before.reverse ++ (a ++ x :: (0 :: rest))) := by
    rw [hcount, hinput]
    exact ⟨_, shiftLeft_eq a (by simp [hcursor])⟩
  obtain ⟨x, hshift⟩ := hshift
  have hend : write (e.before.reverse ++ (a ++ x :: (0 :: rest))) (l.bufferIndex - 1) 0
      = some (e.before.reverse ++ (a ++ 0 :: (0 :: rest))) :=
    write_behind a (by simp [hindex]; omega) 0
  have hshown : readRange (e.before.reverse ++ (a ++ 0 :: (0 :: rest))) l.cursorPos
      (l.bufferIndex - 1 - l.cursorPos).toNat = some a :=
    readRange_eq a rfl (by simp [hcursor]) hcount
  have hlt : l.cursorPos < l.bufferIndex := by omega
  rw [Line.delete, if_pos hlt, hshift]
  simp only [Option.bind_eq_bind, Option.bind_some, hend, hshown]
  refine ⟨_, rfl, Shows.out ?_ _⟩
  refine ⟨?_, ⟨0 :: rest, ?_⟩, ?_, hcursor, fun hmem => h.ne_zero (mem_text_delete hmem)⟩
  · simp at hlength ⊢
    omega
  · simp [LineEditor.delete, ha]
  · simp [LineEditor.delete, ha, hindex]
    omega

/-- A move of the cursor shows the same text. -/
theorem Shows.move (h : l.Shows e) {e' : LineEditor UInt8 255} (htext : e'.text = e.text) {c : Int}
    (hc : c = e'.before.length) : Line.Shows { l with cursorPos := c } e' := by
  obtain ⟨rest, hinput⟩ := h.input_eq
  refine ⟨h.length, ⟨rest, ?_⟩, ?_, hc, htext ▸ h.ne_zero⟩
  · show l.input = _
    rw [hinput, ← htext, LineEditor.text, List.append_assoc]
  · show l.bufferIndex = _
    rw [h.bufferIndex_eq, ← htext, length_text]
    rfl

theorem Shows.left (h : l.Shows e) : l.left.Shows e.left := by
  cases hb : e.before with
  | nil =>
      have hstart : ¬ 0 < l.cursorPos := by simp [h.cursorPos, hb]
      have hsame : e.left = e :=
        LineEditor.ext (by simp [LineEditor.left, hb]) (by simp [LineEditor.left, hb])
      rwa [Line.left, if_neg hstart, hsame]
  | cons c b =>
      have hpos : 0 < l.cursorPos := by simp [h.cursorPos, hb]
      rw [Line.left, if_pos hpos]
      exact (h.move e.text_left (by simp [h.cursorPos, LineEditor.left, hb])).out _

theorem Shows.right (h : l.Shows e) : l.right.Shows e.right := by
  cases ha : e.after with
  | nil =>
      have hend : ¬ l.cursorPos < l.bufferIndex := by simp [h.cursorPos, h.bufferIndex, ha]
      have hsame : e.right = e :=
        LineEditor.ext (by simp [LineEditor.right, ha]) (by simp [LineEditor.right, ha])
      rwa [Line.right, if_neg hend, hsame]
  | cons c a =>
      have hlt : l.cursorPos < l.bufferIndex := by
        simp [h.cursorPos, h.bufferIndex, ha]
      rw [Line.right, if_pos hlt]
      exact (h.move e.text_right (by simp [h.cursorPos, LineEditor.right, ha])).out _

/-- The loop of HOME is a run of moves to the left. -/
theorem Shows.iterate_left (n : Nat) (h : l.Shows e) :
    (Nat.iterate Line.left n l).Shows (Nat.iterate LineEditor.left n e) := by
  induction n generalizing l e with
  | zero => exact h
  | succ n ih => exact ih h.left

theorem Shows.iterate_right (n : Nat) (h : l.Shows e) :
    (Nat.iterate Line.right n l).Shows (Nat.iterate LineEditor.right n e) := by
  induction n generalizing l e with
  | zero => exact h
  | succ n ih => exact ih h.right

theorem Shows.home (h : l.Shows e) : l.home.Shows e.home := by
  have hcount : l.cursorPos.toNat = e.before.length := by
    rw [h.cursorPos]
    rfl
  rw [Line.home, hcount, ← iterate_left_length]
  exact h.iterate_left _

theorem Shows.toEnd (h : l.Shows e) : l.toEnd.Shows e.toEnd := by
  have hcount : (l.bufferIndex - l.cursorPos).toNat = e.after.length := by
    rw [h.bufferIndex, h.cursorPos]
    omega
  rw [Line.toEnd, hcount, ← iterate_right_length]
  exact h.iterate_right _

/-- Ctrl+C, Ctrl+U and Enter empty the line. -/
theorem Shows.clear (h : l.Shows e) : ∃ l', l.clear = some l' ∧ l'.Shows LineEditor.empty := by
  have hlength := h.length
  obtain ⟨x, rest, hinput⟩ : ∃ x rest, l.input = x :: rest := by
    cases hinput : l.input with
    | nil => simp [hinput] at hlength
    | cons x rest => exact ⟨x, rest, rfl⟩
  have hwrite : write l.input 0 0 = some (0 :: rest) := write_at (p := []) hinput rfl 0
  rw [hinput] at hlength
  rw [Line.clear, hwrite]
  refine ⟨_, rfl, ?_⟩
  exact ⟨hlength, ⟨rest, rfl⟩, rfl, rfl, List.not_mem_nil⟩

/-- **Ctrl+K.** -/
theorem Shows.killToEnd (h : l.Shows e) :
    ∃ l', l.killToEnd = some l' ∧ l'.Shows e.kill := by
  obtain ⟨rest, hcells⟩ := h.cells
  obtain ⟨x, rest', hinput⟩ : ∃ x rest', e.after ++ 0 :: rest = x :: rest' := by
    cases ha : e.after with
    | nil => exact ⟨0, rest, rfl⟩
    | cons c a => exact ⟨c, a ++ 0 :: rest, rfl⟩
  rw [hinput] at hcells
  have hlength := h.length
  rw [hcells] at hlength
  have hwrite : write l.input l.cursorPos 0 = some (e.before.reverse ++ 0 :: rest') :=
    write_at hcells (by simp [h.cursorPos]) 0
  rw [Line.killToEnd, hwrite]
  refine ⟨_, rfl, Shows.out ?_ _⟩
  refine ⟨?_, ⟨rest', ?_⟩, ?_, h.cursorPos, fun hmem => h.ne_zero (mem_text_kill hmem)⟩
  · simpa using hlength
  · rfl
  · simp [LineEditor.kill, h.cursorPos]

/-- The redisplay reads the text. -/
theorem Shows.redisplay (h : l.Shows e) : ∃ l', l.redisplay = some l' ∧ l'.Shows e := by
  obtain ⟨rest, hinput⟩ := h.input_eq
  have hshown : readRange l.input 0 l.bufferIndex.toNat = some e.text :=
    readRange_eq e.text (p := []) hinput rfl (by rw [h.bufferIndex_eq]; rfl)
  rw [Line.redisplay, hshown]
  exact ⟨_, rfl, h.out _⟩

/-- **`replace_current_line`** leaves the first 127 characters, with the cursor behind them. -/
theorem Shows.replaceCurrentLine (h : l.Shows e) {drive : CurrentDrive} (hdrive : named drive)
    {m : List UInt8} (hm : 0 ∉ m) (rest : List UInt8) :
    ∃ l', l.replaceCurrentLine drive (m ++ 0 :: rest) = some l' ∧
      ∃ e', l'.Shows e' ∧ e'.text = m.take 127 ∧ e'.after = [] := by
  have hlength := h.length
  have hlen : (if 127 ≤ m.length then 127 else m.length) = min m.length 127 := by
    split <;> omega
  obtain ⟨len, hmin⟩ : ∃ len, len = min m.length 127 := ⟨_, rfl⟩
  have htake : (m.take 127).length = len := by
    rw [List.length_take, hmin]
    omega
  have hcopy : Libc.strncpy l.input (m ++ 0 :: rest) len
      = some (m.take 127 ++ l.input.drop len) := by
    rw [Libc.strncpy_eq hm _ _ (by omega)]
    have hpad : len - m.length = 0 := by omega
    have hcut : m.take len = m.take 127 := by
      rw [hmin, Nat.min_comm, ← List.take_take, List.take_length]
    simp [hpad, hcut]
  obtain ⟨x, tail, hdrop⟩ : ∃ x tail, l.input.drop len = x :: tail := by
    cases hdrop : l.input.drop len with
    | nil =>
        rw [List.drop_eq_nil_iff] at hdrop
        omega
    | cons x tail => exact ⟨x, tail, rfl⟩
  have htail : tail.length + 1 + len = 256 := by
    have := congrArg List.length hdrop
    rw [List.length_drop, List.length_cons] at this
    omega
  have hend : write (m.take 127 ++ x :: tail) len 0 = some (m.take 127 ++ 0 :: tail) :=
    write_at rfl (by rw [htake]) 0
  have hshown : readRange (m.take 127 ++ 0 :: tail) 0 len = some (m.take 127) :=
    readRange_eq (m.take 127) (p := []) rfl rfl htake.symm
  rw [Line.replaceCurrentLine, showPrompt, if_pos hdrive, Libc.strlen_eq hm]
  simp only [Option.bind_eq_bind, Option.bind_some, hlen, ← hmin, hcopy, hdrop, hend, hshown]
  refine ⟨_, rfl, ⟨(m.take 127).reverse, [], by simp⟩, Shows.out ?_ _, ?_, rfl⟩
  · refine ⟨?_, ⟨tail, ?_⟩, ?_, ?_, ?_⟩
    · rw [List.length_append, htake, List.length_cons]
      omega
    · simp
    · simp [hmin, Nat.min_comm]
    · simp [hmin, Nat.min_comm]
    · rw [mem_text]
      rintro (hmem | hmem)
      · exact hm (List.mem_of_mem_take (List.mem_reverse.mp hmem))
      · exact List.not_mem_nil hmem
  · simp [LineEditor.text]

end rules

end Line

end MicroKernel.Shell
