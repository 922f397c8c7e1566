import MicroKernel.Shell.Queue

set_option autoImplicit false

/-! # The keyboard interrupt (`drivers/char/kb.c`)

`kb_handler` with the scancode tables, the modifier state and the driver's own count of the
characters of a line. Characters are bytes. A press of an extended key is three separate pushes, and a
push on a full queue is dropped, so the sequence is cut where the queue fills up
(`contribution_special`).
-/

namespace MicroKernel.Shell

/-! ## Scancodes -/

/-- `SC_MAX`. -/
def scMax : Nat := 89

/-- `BUFFER_SIZE`. -/
def bufferSize : Nat := 128

/-- `SC_EXTENDED_PREFIX`. -/
def scExtendedPrefix : UInt8 := 0xE0

/-- `SC_PAUSE_PREFIX`. -/
def scPausePrefix : UInt8 := 0xE1

/-- `SC_RELEASE_MASK`. -/
def scReleaseMask : UInt8 := 0x80

/-- `SC_BACKSPACE`. -/
def scBackspace : UInt8 := 0x0E

/-- `SC_ENTER`. -/
def scEnter : UInt8 := 0x1C

/-- `KEY_UP`. -/
def keyUp : UInt8 := 0x48

/-- `KEY_DOWN`. -/
def keyDown : UInt8 := 0x50

/-- `KEY_LEFT`. -/
def keyLeft : UInt8 := 0x4B

/-- `KEY_RIGHT`. -/
def keyRight : UInt8 := 0x4D

/-- `KEY_HOME`. -/
def keyHome : UInt8 := 0x47

/-- `KEY_END`. -/
def keyEnd : UInt8 := 0x4F

/-- `KEY_PAGE_UP`. -/
def keyPageUp : UInt8 := 0x49

/-- `KEY_PAGE_DOWN`. -/
def keyPageDown : UInt8 := 0x51

/-- `KEY_INSERT`. -/
def keyInsert : UInt8 := 0x52

/-- `KEY_DELETE`. -/
def keyDelete : UInt8 := 0x53

/-- `scancode_to_char`. -/
def scancodeToChar : List UInt8 := [
  0x00, 0x00, 0x31, 0x32, 0x33, 0x34, 0x35, 0x36, 0x37, 0x38,
  -- 9 0 - = backspace tab q w e r
  0x39, 0x30, 0x2D, 0x3D, 0x08, 0x09, 0x71, 0x77, 0x65, 0x72,
  -- t y u i o p [ ] newline
  0x74, 0x79, 0x75, 0x69, 0x6F, 0x70, 0x5B, 0x5D, 0x0A, 0x00,
  0x61, 0x73, 0x64, 0x66, 0x67, 0x68, 0x6A, 0x6B, 0x6C, 0x3B,
  -- quote backquote 0 backslash z x c v b n
  0x27, 0x60, 0x00, 0x5C, 0x7A, 0x78, 0x63, 0x76, 0x62, 0x6E,
  -- m , . / 0 * 0 blank
  0x6D, 0x2C, 0x2E, 0x2F, 0x00, 0x2A, 0x00, 0x20, 0x00, 0x00,
  0x00, 0x00, 0x00, 0x00, 0x00, 0x00, 0x00, 0x00, 0x00, 0x00,
  -- the number pad
  0x00, 0x00, 0x37, 0x38, 0x39, 0x2D, 0x34, 0x35, 0x36, 0x2B,
  0x31, 0x32, 0x33, 0x30, 0x2E, 0x00, 0x00, 0x00, 0x00]

/-- `scancode_to_char_shift`. -/
def scancodeToCharShift : List UInt8 := [
  -- ! @ # $ % ^ & *
  0x00, 0x00, 0x21, 0x40, 0x23, 0x24, 0x25, 0x5E, 0x26, 0x2A,
  -- ( ) _ + backspace tab Q W E R
  0x28, 0x29, 0x5F, 0x2B, 0x08, 0x09, 0x51, 0x57, 0x45, 0x52,
  -- T Y U I O P and the two braces, newline
  0x54, 0x59, 0x55, 0x49, 0x4F, 0x50, 0x7B, 0x7D, 0x0A, 0x00,
  0x41, 0x53, 0x44, 0x46, 0x47, 0x48, 0x4A, 0x4B, 0x4C, 0x3A,
  -- double quote tilde 0 bar Z X C V B N
  0x22, 0x7E, 0x00, 0x7C, 0x5A, 0x58, 0x43, 0x56, 0x42, 0x4E,
  -- M < > ? 0 * 0 blank
  0x4D, 0x3C, 0x3E, 0x3F, 0x00, 0x2A, 0x00, 0x20, 0x00, 0x00,
  0x00, 0x00, 0x00, 0x00, 0x00, 0x00, 0x00, 0x00, 0x00, 0x00,
  0x00, 0x00, 0x37, 0x38, 0x39, 0x2D, 0x34, 0x35, 0x36, 0x2B,
  0x31, 0x32, 0x33, 0x30, 0x2E, 0x00, 0x00, 0x00, 0x00]

/-- `scancode_to_ascii`. -/
def scancodeToAscii (scancode : UInt8) (shift capsLock : Bool) : UInt8 :=
  if scMax ≤ scancode.toNat then 0
  else
    let table := if shift then scancodeToCharShift else scancodeToChar
    let key := table.getD scancode.toNat 0
    if capsLock ∧ 0x61 ≤ key ∧ key ≤ 0x7A then key - 32
    else if capsLock ∧ 0x41 ≤ key ∧ key ≤ 0x5A ∧ ¬ shift then key + 32
    else key

/-- `process_ctrl_combination`. -/
def processCtrlCombination (ch : UInt8) : UInt8 :=
  if 0x61 ≤ ch ∧ ch ≤ 0x7A then ch - 0x61 + 1
  else if 0x41 ≤ ch ∧ ch ≤ 0x5A then ch - 0x41 + 1
  else ch

/-! ## The driver -/

/-- `kbd_state_t`. -/
structure KbdState where
  shiftLeft : Bool
  shiftRight : Bool
  ctrlLeft : Bool
  ctrlRight : Bool
  altLeft : Bool
  altRight : Bool
  capsLock : Bool
  numLock : Bool
  scrollLock : Bool
  extended : Bool
  deriving DecidableEq

/-- The statics of the driver. `bufferIndex` is its count of the characters of the line. -/
structure Keyboard where
  kbdState : KbdState
  queue : InputQueue
  bufferIndex : Nat
  enterPressed : Bool

/-- The driver at the start. -/
def Keyboard.initial : Keyboard where
  kbdState := ⟨false, false, false, false, false, false, false, false, false, false⟩
  queue := emptyQueue
  bufferIndex := 0
  enterPressed := false

/-- `kb_is_ctrl_pressed`. -/
def kbIsCtrlPressed (k : Keyboard) : Bool := k.kbdState.ctrlLeft || k.kbdState.ctrlRight

/-- `kb_is_shift_pressed`. -/
def kbIsShiftPressed (k : Keyboard) : Bool := k.kbdState.shiftLeft || k.kbdState.shiftRight

/-- `input_queue_push` with its result ignored. -/
def Keyboard.push (k : Keyboard) (ch : UInt8) : Keyboard :=
  { k with queue := (inputQueuePush k.queue ch).2 }

/-- The special keys that `handle_extended_key` returns. -/
def specialKeys : List UInt8 :=
  [keyUp, keyDown, keyLeft, keyRight, keyHome, keyEnd, keyPageUp, keyPageDown, keyInsert, keyDelete]

/-- `handle_extended_key`. Each extended scancode that it knows is the code it returns. -/
def handleExtendedKey (s : KbdState) (scancode : UInt8) (released : Bool) : UInt8 × KbdState :=
  if scancode = 0x1D then (0, { s with ctrlRight := !released })
  else if scancode = 0x38 then (0, { s with altRight := !released })
  else if released then (0, s)
  else if scancode ∈ specialKeys then (scancode, s)
  else (0, s)

/-- The presses of `kb_handler` that only change `kbd_state`. -/
def pressModifier (s : KbdState) (scancode : UInt8) : Option KbdState :=
  if scancode = 0x2A then some { s with shiftLeft := true }
  else if scancode = 0x36 then some { s with shiftRight := true }
  else if scancode = 0x1D then some { s with ctrlLeft := true }
  else if scancode = 0x38 then some { s with altLeft := true }
  else if scancode = 0x3A then some { s with capsLock := !s.capsLock }
  else if scancode = 0x45 then some { s with numLock := !s.numLock }
  else if scancode = 0x46 then some { s with scrollLock := !s.scrollLock }
  else none

/-- The releases of `kb_handler`. -/
def releaseModifier (s : KbdState) (scancode : UInt8) : KbdState :=
  if scancode = 0x2A then { s with shiftLeft := false }
  else if scancode = 0x36 then { s with shiftRight := false }
  else if scancode = 0x1D then { s with ctrlLeft := false }
  else if scancode = 0x38 then { s with altLeft := false }
  else s

/-- The key presses of `kb_handler`. -/
def kbPress (k : Keyboard) (scancode : UInt8) : Keyboard :=
  match pressModifier k.kbdState scancode with
  | some s => { k with kbdState := s }
  | none =>
      if scancode = scBackspace then
        if 0 < k.bufferIndex then { k with bufferIndex := k.bufferIndex - 1 }.push 0x08 else k
      else if scancode = scEnter then
        { k.push 0x0A with bufferIndex := 0, enterPressed := true }
      else if k.bufferIndex < bufferSize - 1 then
        let key := scancodeToAscii scancode (kbIsShiftPressed k) k.kbdState.capsLock
        if key ≠ 0 then
          let key := if kbIsCtrlPressed k then processCtrlCombination key else key
          { k with bufferIndex := k.bufferIndex + 1 }.push key
        else k
      else k

/-- `kb_handler`, with the scancode that it reads from the port. -/
def kbHandler (k : Keyboard) (scancode : UInt8) : Keyboard :=
  if scancode = scExtendedPrefix then { k with kbdState.extended := true }
  else if scancode = scPausePrefix then { k with kbdState.extended := false }
  else
    let released : Bool := scancode &&& scReleaseMask ≠ 0
    let baseScancode := scancode &&& ~~~scReleaseMask
    if k.kbdState.extended then
      let s := { k.kbdState with extended := false }
      let (specialKey, s) := handleExtendedKey s baseScancode released
      let k := { k with kbdState := s }
      if specialKey ≠ 0 ∧ ¬ released then ((k.push 0x1B).push 0x5B).push specialKey
      else k
    else if released then { k with kbdState := releaseModifier k.kbdState baseScancode }
    else kbPress k baseScancode

/-- The code that a press of an extended key sends. -/
def specialKey (k : Keyboard) (scancode : UInt8) : Option UInt8 :=
  if k.kbdState.extended ∧ scancode ∈ specialKeys then some scancode else none

/-- What an interrupt adds to the queue. -/
def contribution (k : Keyboard) (scancode : UInt8) : List UInt8 :=
  (kbHandler k scancode).queue.toList.drop k.queue.toList.length

/-- The sequence of a special key. -/
def specialSequence (code : UInt8) : List UInt8 := [0x1B, 0x5B, code]

/-! ## One interrupt -/

section interrupt

variable {k : Keyboard}

/-- A push is cut off at 255 characters. -/
theorem toList_push (k : Keyboard) (ch : UInt8) :
    (k.push ch).queue.toList = (k.queue.toList ++ [ch]).take 255 := by
  have hle := length_pending_le k.queue
  by_cases hfull : k.queue.toList.length = 255
  · have htake : (k.queue.toList ++ [ch]).take 255 = k.queue.toList := by simp [← hfull]
    rw [htake, Keyboard.push, inputQueuePush_full hfull]
  · have hroom : k.queue.toList.length < 255 := by omega
    obtain ⟨q', hpush, hlist⟩ := inputQueuePush_room hroom ch
    have htake : (k.queue.toList ++ [ch]).take 255 = k.queue.toList ++ [ch] := by
      apply List.take_of_length_le
      simp only [List.length_append, List.length_singleton]
      omega
    rw [htake, Keyboard.push, hpush, hlist]

theorem take_toList_append (k : Keyboard) (l : List UInt8) :
    (k.queue.toList ++ l).take 255 = k.queue.toList ++ l.take (255 - k.queue.toList.length) := by
  rw [List.take_append, List.take_of_length_le (length_pending_le k.queue)]

theorem isPrefix_push (k : Keyboard) (ch : UInt8) :
    k.queue.toList <+: (k.push ch).queue.toList := by
  rw [toList_push, take_toList_append]
  exact List.prefix_append _ _

theorem isPrefix_kbPress (k : Keyboard) (scancode : UInt8) :
    k.queue.toList <+: (kbPress k scancode).queue.toList := by
  unfold kbPress
  dsimp only
  repeat' split
  all_goals first
    | exact List.prefix_rfl
    | exact isPrefix_push _ _

/-- An interrupt only adds to the queue. -/
theorem isPrefix_kbHandler (k : Keyboard) (scancode : UInt8) :
    k.queue.toList <+: (kbHandler k scancode).queue.toList := by
  have hpushes : ∀ (s : KbdState) (a b c : UInt8),
      k.queue.toList <+: ((({ k with kbdState := s }.push a).push b).push c).queue.toList :=
    fun s a b c => (isPrefix_push { k with kbdState := s } a).trans
      ((isPrefix_push _ b).trans (isPrefix_push _ c))
  unfold kbHandler
  split
  · exact List.prefix_rfl
  split
  · exact List.prefix_rfl
  dsimp only
  split
  · split
    · exact hpushes _ _ _ _
    · exact List.prefix_rfl
  split
  · exact List.prefix_rfl
  · exact isPrefix_kbPress _ _

theorem toList_kbHandler (k : Keyboard) (scancode : UInt8) :
    (kbHandler k scancode).queue.toList = k.queue.toList ++ contribution k scancode :=
  (List.prefix_iff_eq_append.mp (isPrefix_kbHandler k scancode)).symm

/-- The codes of the special keys are neither prefixes nor releases nor modifiers. -/
theorem special_scancode {code : UInt8} (h : code ∈ specialKeys) :
    code ≠ 0 ∧ code ≠ scExtendedPrefix ∧ code ≠ scPausePrefix ∧ code &&& scReleaseMask = 0 ∧
    code &&& ~~~scReleaseMask = code ∧ code ≠ 0x1D ∧ code ≠ 0x38 := by
  revert h
  revert code
  decide +kernel

/-- A press of a special key is its three pushes. -/
theorem kbHandler_special {scancode code : UInt8} (h : specialKey k scancode = some code) :
    kbHandler k scancode
      = ((({ k with kbdState.extended := false }.push 0x1B).push 0x5B).push code) := by
  unfold specialKey at h
  split at h
  case isFalse => cases h
  case isTrue hkey =>
  obtain ⟨hext, hmem⟩ := hkey
  cases h
  obtain ⟨h0, h1, h2, h3, h4, h5, h6⟩ := special_scancode hmem
  simp [kbHandler, handleExtendedKey, *]

/-- **What a press of a special key adds to the queue**: as much of its sequence as there is room
for. -/
theorem contribution_special {scancode code : UInt8} (h : specialKey k scancode = some code) :
    contribution k scancode = (specialSequence code).take (255 - k.queue.toList.length) := by
  -- cutting off before each push is cutting off once
  have htake : ∀ l m : List UInt8, (l.take 255 ++ m).take 255 = (l ++ m).take 255 := by
    intro l m
    by_cases hl : l.length ≤ 255
    · rw [List.take_of_length_le hl]
    · simp only [List.take_append, List.take_take, List.length_take]
      congr 2
      omega
  have hlist : (kbHandler k scancode).queue.toList
      = k.queue.toList ++ (specialSequence code).take (255 - k.queue.toList.length) := by
    calc (kbHandler k scancode).queue.toList
        = (((k.queue.toList ++ [0x1B]).take 255 ++ [0x5B]).take 255 ++ [code]).take 255 := by
          rw [kbHandler_special h, toList_push, toList_push, toList_push]
      _ = (k.queue.toList ++ specialSequence code).take 255 := by
          rw [htake, List.append_assoc, htake, List.append_assoc]
          rfl
      _ = _ := take_toList_append k _
  rw [toList_kbHandler] at hlist
  exact List.append_cancel_left hlist

/-- The sequence is queued whole or not at all, unless the queue fills up within it. -/
theorem contribution_whole_iff {scancode code : UInt8} (h : specialKey k scancode = some code) :
    (contribution k scancode = [] ∨ contribution k scancode = specialSequence code)
      ↔ k.queue.toList.length ≤ 252 ∨ k.queue.toList.length = 255 := by
  have hle := length_pending_le k.queue
  have hnil : (specialSequence code).take (255 - k.queue.toList.length) = []
      ↔ k.queue.toList.length = 255 := by
    rw [List.take_eq_nil_iff]
    simp only [specialSequence, reduceCtorEq, or_false]
    omega
  have hwhole : (specialSequence code).take (255 - k.queue.toList.length) = specialSequence code
      ↔ k.queue.toList.length ≤ 252 := by
    rw [List.take_eq_self_iff]
    simp only [specialSequence, List.length_cons, List.length_nil]
    omega
  rw [contribution_special h, hnil, hwhole]
  exact or_comm

end interrupt

/-! ## Runs -/

/-- A scancode that `kb_handler` reads, or a call of `input_queue_pop`. -/
inductive KeyEvent
  | scancode (scancode : UInt8)
  | pop

/-- The driver, and what was popped while the queue was not empty. -/
structure KeyRun where
  keyboard : Keyboard
  popped : List UInt8

/-- The effect of an event. -/
def KeyRun.event (r : KeyRun) : KeyEvent → KeyRun
  | .scancode scancode => { r with keyboard := kbHandler r.keyboard scancode }
  | .pop =>
      let (ch, q) := inputQueuePop r.keyboard.queue
      { keyboard := { r.keyboard with queue := q }
        popped := if inputQueueEmpty r.keyboard.queue then r.popped else r.popped ++ [ch] }

/-- The driver after any sequence of events from the start. -/
def runKeys (events : List KeyEvent) : KeyRun :=
  events.foldl KeyRun.event ⟨Keyboard.initial, []⟩

/-- What an event adds to the queue. -/
def KeyRun.adds (r : KeyRun) : KeyEvent → List UInt8
  | .scancode scancode => contribution r.keyboard scancode
  | .pop => []

/-- What each event of a run adds to the queue, in order. -/
def addsFrom (r : KeyRun) : List KeyEvent → List (List UInt8)
  | [] => []
  | e :: events => r.adds e :: addsFrom (r.event e) events

/-- The characters that were popped and those still to pop. -/
def KeyRun.stream (r : KeyRun) : List UInt8 := r.popped ++ r.keyboard.queue.toList

theorem KeyRun.stream_event (r : KeyRun) (e : KeyEvent) :
    (r.event e).stream = r.stream ++ r.adds e := by
  cases e with
  | scancode scancode => simp [event, adds, stream, toList_kbHandler]
  | pop =>
      cases hq : r.keyboard.queue.toList with
      | nil =>
          have hempty := inputQueueEmpty_iff.mpr hq
          simp [event, adds, stream, inputQueuePop_nil hq, hempty]
      | cons ch l =>
          obtain ⟨q', hpop, hlist⟩ := inputQueuePop_cons hq
          simp [event, adds, stream, hpop, inputQueueEmpty_cons hq, hlist, hq]

/-- The stream of a run is what its events add, in order. -/
theorem stream_foldl (events : List KeyEvent) (r : KeyRun) :
    (events.foldl KeyRun.event r).stream = r.stream ++ (addsFrom r events).flatten := by
  induction events generalizing r with
  | nil => simp [addsFrom]
  | cons e events ih =>
      rw [List.foldl_cons, ih, r.stream_event, addsFrom, List.flatten_cons, List.append_assoc]

/-- Every press of a special key in the run adds its whole sequence or nothing. -/
def SpecialKeysWhole (events : List KeyEvent) : Prop :=
  ∀ before scancode after code, events = before ++ .scancode scancode :: after →
    specialKey (runKeys before).keyboard scancode = some code →
    contribution (runKeys before).keyboard scancode = [] ∨
      contribution (runKeys before).keyboard scancode = specialSequence code

/-- At every press of a special key there is room for the sequence, or for no character at all. -/
def SpecialKeysFit (events : List KeyEvent) : Prop :=
  ∀ before scancode after code, events = before ++ .scancode scancode :: after →
    specialKey (runKeys before).keyboard scancode = some code →
    (runKeys before).keyboard.queue.toList.length ≤ 252 ∨
      (runKeys before).keyboard.queue.toList.length = 255

/-- **When special keys are queued whole**: exactly in the runs that never press one with 253 or 254
characters pending. The characters popped and pending are the contributions in order. -/
theorem special_keys_whole_iff (events : List KeyEvent) :
    (runKeys events).stream = (addsFrom ⟨Keyboard.initial, []⟩ events).flatten ∧
    (SpecialKeysWhole events ↔ SpecialKeysFit events) := by
  refine ⟨?_, ?_⟩
  · rw [runKeys, stream_foldl]
    simp [KeyRun.stream, Keyboard.initial, toList_emptyQueue]
  · constructor
    · intro h before scancode after code hsplit hkey
      exact (contribution_whole_iff hkey).mp (h before scancode after code hsplit hkey)
    · intro h before scancode after code hsplit hkey
      exact (contribution_whole_iff hkey).mpr (h before scancode after code hsplit hkey)

/-- 84 presses of UP and one of `a`: 253 characters, and the prefix of the next special key. -/
def almostFull : List KeyEvent :=
  (List.replicate 84 [.scancode scExtendedPrefix, .scancode keyUp]).flatten
    ++ [.scancode 0x1E, .scancode scExtendedPrefix]

theorem almostFull_pending :
    (runKeys almostFull).keyboard.queue.count = 253 ∧
    specialKey (runKeys almostFull).keyboard keyUp = some keyUp := by
  decide +kernel

/-- The sequence of the next special key is torn. -/
theorem not_special_keys_whole : ¬ SpecialKeysWhole (almostFull ++ [.scancode keyUp]) := by
  intro h
  obtain ⟨hcount, hkey⟩ := almostFull_pending
  have hwhole := (contribution_whole_iff hkey).mp (h almostFull keyUp [] keyUp rfl hkey)
  rw [Lib.RingQueue.length_toList, hcount] at hwhole
  omega

end MicroKernel.Shell
