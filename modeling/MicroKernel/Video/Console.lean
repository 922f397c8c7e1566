import MicroKernel.Lib.Decimal
import MicroKernel.Lib.Paper
import MicroKernel.Lib.Word

set_option autoImplicit false

/-! # The text console (`drivers/video/video.c`)

`vga_write_char`, with its state machine for escape sequences, the cursor in the registers of the
display controller and the scrolling. The cells of the display are an array with checked indices, so
that a character that is written has used cells of the display only.

A `char` has a sign, and as an `unsigned short` one from 0x80 on has ones in the high byte
(`toShort`). An operation on `int` wraps; `overflow` says whether one has. What goes to the serial
port is not modelled.
-/

namespace MicroKernel.Video

open MicroKernel.Lib CArray

/-! ## The display controller -/

/-- The registers behind the ports 0x3D4 and 0x3D5. -/
structure Crtc where
  index : UInt8
  register : UInt8 → UInt8

/-- `outb`. -/
def Crtc.outb (c : Crtc) (port : UInt16) (value : UInt8) : Crtc :=
  if port = 0x3D4 then { c with index := value }
  else if port = 0x3D5 then { c with register := Function.update c.register c.index value }
  else c

/-- `inb`. -/
def Crtc.inb (c : Crtc) (port : UInt16) : UInt8 := if port = 0x3D5 then c.register c.index else 0

/-- `get_cursor_position`: the controller afterwards and the position. -/
def getCursorPosition (c : Crtc) : Crtc × Nat × Nat :=
  let c := c.outb 0x3D4 0x0E
  let position : UInt16 := (c.inb 0x3D5).toUInt16 <<< 8
  let c := c.outb 0x3D4 0x0F
  let position := position + (c.inb 0x3D5).toUInt16
  (c, position.toNat % 80, position.toNat / 80)

/-- `set_cursor_position`. -/
def setCursorPosition (c : Crtc) (x y : Nat) : Crtc :=
  let position := UInt16.ofNat (y * 80 + x)
  let c := c.outb 0x3D4 0x0F
  let c := c.outb 0x3D5 (position &&& 0xFF).toUInt8
  let c := c.outb 0x3D4 0x0E
  c.outb 0x3D5 ((position >>> 8) &&& 0xFF).toUInt8

/-- Where the cursor is, in the registers 0x0E and 0x0F. -/
def Crtc.position (c : Crtc) : Nat := (c.register 0x0E).toNat * 256 + (c.register 0x0F).toNat

theorem getCursorPosition_eq (c : Crtc) : getCursorPosition c
    = ({ c with index := 0x0F }, c.position % 80, c.position / 80) := by
  have hposition :
      ((c.register 0x0E).toUInt16 <<< 8 + (c.register 0x0F).toUInt16).toNat = c.position := by
    have hhigh := (c.register 0x0E).toNat_lt
    have hlow := (c.register 0x0F).toNat_lt
    rw [UInt16.toNat_add, UInt16.toNat_shiftLeft, UInt8.toNat_toUInt16, UInt8.toNat_toUInt16]
    change ((_ <<< 8) % 65536 + _) % 65536 = _
    rw [Nat.shiftLeft_eq, Crtc.position]
    omega
  rw [← hposition]
  rfl

theorem setCursorPosition_position (c : Crtc) {x y : Nat} (h : y * 80 + x < 65536) :
    (setCursorPosition c x y).position = y * 80 + x := by
  generalize hp : y * 80 + x = p at h
  have hlow : (UInt16.ofNat p &&& 0xFF).toUInt8.toNat = p % 256 := by
    have hand := Nat.and_two_pow_sub_one_eq_mod p 8
    rw [UInt16.toNat_toUInt8, UInt16.toNat_and, UInt16.toNat_ofNat', Nat.mod_eq_of_lt h]
    change (p &&& 255) % 256 = _
    rw [hand, Nat.mod_mod]
  have hhigh : ((UInt16.ofNat p >>> 8) &&& 0xFF).toUInt8.toNat = p / 256 := by
    have hand := Nat.and_two_pow_sub_one_eq_mod (p >>> 8) 8
    rw [UInt16.toNat_toUInt8, UInt16.toNat_and, UInt16.toNat_shiftRight, UInt16.toNat_ofNat',
      Nat.mod_eq_of_lt h]
    change (p >>> 8 &&& 255) % 256 = _
    rw [hand, Nat.shiftRight_eq_div_pow]
    omega
  calc (setCursorPosition c x y).position
      = ((UInt16.ofNat p >>> 8) &&& 0xFF).toUInt8.toNat * 256
        + (UInt16.ofNat p &&& 0xFF).toUInt8.toNat := by
        rw [← hp]
        rfl
    _ = p / 256 * 256 + p % 256 := by rw [hlow, hhigh]
    _ = p := by omega

/-! ## The cells -/

/-- `(unsigned short)c`. -/
def toShort (c : UInt8) : UInt16 := if c < 0x80 then c.toUInt16 else c.toUInt16 ||| 0xFF00

/-- The cell of a character. -/
def cell (ch color : UInt8) : UInt16 := toShort ch ||| (toShort color <<< 8)

/-- A cell of an empty line. -/
def blank (color : UInt8) : UInt16 := (0x20 : UInt16) ||| (toShort color <<< 8)

theorem cell_low (ch color : UInt8) : (cell ch color).toUInt8 = ch := by
  rw [← UInt8.toBitVec_inj]
  ext i hi
  have hones : (0xFF00#16).getLsbD i = false := by interval_cases i <;> rfl
  unfold cell toShort
  split <;> split <;> simp

theorem cell_high {ch : UInt8} (h : ch < 0x80) (color : UInt8) :
    (cell ch color >>> 8).toUInt8 = color := by
  rw [← UInt8.toBitVec_inj]
  ext i hi
  have hlt : i < 16 := by omega
  have hlt' : 8 + i < 16 := by omega
  have hones : (0xFF00#16)[i] = false := by
    rw [← BitVec.getLsbD_eq_getElem]
    interval_cases i <;> rfl
  unfold cell
  rw [toShort, if_pos h]
  unfold toShort
  split
  · simp [hi, hlt, hlt']
  · simp [hi, hlt, hlt', hones]

/-! ## Colours -/

/-- `ansi_to_vga_color`. -/
def ansiToVgaColor (currentColor : UInt8) : Int → UInt8
  | 30 => 0x00
  | 31 => 0x04
  | 32 => 0x02
  | 33 => 0x06
  | 34 => 0x01
  | 35 => 0x05
  | 36 => 0x03
  | 37 => 0x07
  | 90 => 0x08
  | 91 => 0x0C
  | 92 => 0x0A
  | 93 => 0x0E
  | 94 => 0x09
  | 95 => 0x0D
  | 96 => 0x0B
  | 97 => 0x0F
  | _ => currentColor &&& 0x0F

/-- What `m` does with its number. -/
def changeColor (currentColor : UInt8) (code : Int) : UInt8 :=
  if code = 0 then 0x0F
  else if 30 ≤ code ∧ code ≤ 37 then
    (currentColor &&& 0xF0) ||| ansiToVgaColor currentColor code
  else if 90 ≤ code ∧ code ≤ 97 then
    (currentColor &&& 0xF0) ||| ansiToVgaColor currentColor code
  else currentColor

/-- The result `i` of an operation on `int`, and whether one has left the range. -/
def intResult (i : Int) (overflow : Bool) : Int × Bool :=
  (asInt (asWord i), overflow || !decide (-2 ^ 31 ≤ i ∧ i < 2 ^ 31))

/-- The loop over the digits in `ansi_params`. -/
def codeLoop (ansiParams : List UInt8) : Nat → Nat → Int × Bool → Option (Int × Bool)
  | 0, _, r => some r
  | n + 1, i, (code, overflow) => do
      let c ← read ansiParams i
      let (tens, overflow) := intResult (code * 10) overflow
      codeLoop ansiParams n (i + 1) (intResult (tens + (c.toNat - 0x30)) overflow)

/-! ## The function -/

/-- `ansi_state`. -/
inductive AnsiState
  | normal
  | sawEsc
  | sawBracket
  deriving DecidableEq

/-- The variables of the console and the display. -/
structure Console where
  vgaBuffer : List UInt16
  currentColor : UInt8
  ansiState : AnsiState
  ansiParams : List UInt8
  ansiParamIdx : Nat
  crtc : Crtc
  overflow : Bool

/-- A character at the cursor: the display, and the cursor behind the character. -/
def place (color ch : UInt8) (b : List UInt16) (x y : Nat) : Option (List UInt16 × Nat × Nat) :=
  if ch = 0x0A then some (b, 0, y + 1)
  else if ch = 0x0D then some (b, 0, y)
  else do
    let b ← write b (y * 80 + x : Nat) (cell ch color)
    if 80 ≤ x + 1 then some (b, 0, y + 1) else some (b, x + 1, y)

/-- The loop over `x` that moves a line up. -/
def scrollLine (y : Nat) : Nat → Nat → List UInt16 → Option (List UInt16)
  | 0, _, b => some b
  | n + 1, x, b => do
      let c ← read b ((y + 1) * 80 + x : Nat)
      let b ← write b (y * 80 + x : Nat) c
      scrollLine y n (x + 1) b

/-- The loop over `y`. -/
def scrollLines : Nat → Nat → List UInt16 → Option (List UInt16)
  | 0, _, b => some b
  | n + 1, y, b => do
      let b ← scrollLine y 80 0 b
      scrollLines n (y + 1) b

/-- The loop that clears the last line. -/
def clearLastLine (color : UInt8) : Nat → Nat → List UInt16 → Option (List UInt16)
  | 0, _, b => some b
  | n + 1, x, b => do
      let b ← write b (24 * 80 + x : Nat) (blank color)
      clearLastLine color n (x + 1) b

/-- Behind the last line. -/
def scroll (color : UInt8) (b : List UInt16) (y : Nat) : Option (List UInt16 × Nat) :=
  if 25 ≤ y then do
    let b ← scrollLines 24 0 b
    let b ← clearLastLine color 80 0 b
    some (b, 24)
  else some (b, y)

/-- What `vga_write_char` does with a character outside of a sequence. -/
def showChar (s : Console) (ch : UInt8) : Option Console := do
  let (crtc, x, y) := getCursorPosition s.crtc
  let (b, x, y) ← place s.currentColor ch s.vgaBuffer x y
  let (b, y) ← scroll s.currentColor b y
  some { s with vgaBuffer := b, crtc := setCursorPosition crtc x y }

/-- `vga_write_char`. -/
def vgaWriteChar (s : Console) (ch : UInt8) : Option Console :=
  if s.ansiState = .normal ∧ ch = 0x1B then some { s with ansiState := .sawEsc }
  else
    match s.ansiState with
    | .normal => showChar s ch
    | .sawEsc =>
        if ch = 0x5B then do
          let ansiParams ← write s.ansiParams 0 0
          some { s with ansiState := .sawBracket, ansiParamIdx := 0, ansiParams := ansiParams }
        else
          -- no sequence, and the character is shown
          showChar { s with ansiState := .normal } ch
    | .sawBracket =>
        if IsDigit ch then
          if s.ansiParamIdx < 15 then do
            let ansiParams ← write s.ansiParams s.ansiParamIdx ch
            let ansiParams ← write ansiParams (s.ansiParamIdx + 1) 0
            some { s with ansiParams := ansiParams, ansiParamIdx := s.ansiParamIdx + 1 }
          else
            -- the digits from the sixteenth on are dropped
            some s
        else if ch = 0x3B then some s
        else if ch = 0x6D then do
          let (code, overflow) ← codeLoop s.ansiParams s.ansiParamIdx 0 (0, s.overflow)
          some { s with
            ansiState := .normal
            currentColor := changeColor s.currentColor code
            overflow := overflow }
        else some { s with ansiState := .normal }

/-- The characters of a string, one by one. -/
def vgaWrite (s : Console) : List UInt8 → Option Console
  | [] => some s
  | ch :: l => do
      let s ← vgaWriteChar s ch
      vgaWrite s l

/-! ## A character on the screen -/

section screen

variable {s : Console} {sc : Screen UInt16 25 80}

/-- The display has the cells of a screen, and the cursor its position. -/
structure Console.Shows (s : Console) (sc : Screen UInt16 25 80) : Prop where
  vgaBuffer_eq : s.vgaBuffer = sc.cells
  position_eq : s.crtc.position = sc.pos

/-- The mark of a character. -/
def markOf (color ch : UInt8) : Mark UInt16 :=
  if ch = 0x0A then .newline
  else if ch = 0x0D then .carriageReturn
  else .cell (cell ch color)

/-- The character, and the cursor in the row and column of the next position. -/
theorem place_eq (color ch : UInt8) (b : List UInt16) {pos : Nat} (h : pos < b.length) :
    ∃ x y, place color ch b (pos % 80) (pos / 80) = some ((markOf color ch).put pos b, x, y) ∧
      x < 80 ∧ y * 80 + x = (markOf color ch).next 80 pos := by
  have hpos : pos / 80 * 80 + pos % 80 = pos := by omega
  unfold place markOf
  by_cases hnewline : ch = 0x0A
  · rw [if_pos hnewline, if_pos hnewline]
    exact ⟨0, pos / 80 + 1, rfl, by decide, rfl⟩
  rw [if_neg hnewline, if_neg hnewline]
  by_cases hreturn : ch = 0x0D
  · rw [if_pos hreturn, if_pos hreturn]
    exact ⟨0, pos / 80, rfl, by decide, rfl⟩
  rw [if_neg hreturn, if_neg hreturn, hpos, write_natCast h, Option.bind_eq_bind, Option.bind_some]
  by_cases hwrap : 80 ≤ pos % 80 + 1
  · rw [if_pos hwrap]
    refine ⟨0, pos / 80 + 1, rfl, by decide, ?_⟩
    rw [Mark.next]
    omega
  · rw [if_neg hwrap]
    refine ⟨pos % 80 + 1, pos / 80, rfl, by omega, ?_⟩
    rw [Mark.next]
    omega

theorem scrollLine_eq {cells : List UInt16} (y n x : Nat) (h : y * 80 + x + n + 80 ≤ cells.length) :
    scrollLine y n x (moved 80 (y * 80 + x) cells) = some (moved 80 (y * 80 + x + n) cells) := by
  induction n generalizing x with
  | zero => rfl
  | succ n ih =>
      have hindex : (((y + 1) * 80 + x : Nat) : Int) = ((y * 80 + x : Nat) : Int) + (80 : Nat) := by
        push_cast
        ring
      obtain ⟨hread, hwrite⟩ := @moved_succ _ 80 (y * 80 + x) cells (by omega)
      rw [scrollLine, hindex, hread, Option.bind_eq_bind, Option.bind_some, hwrite,
        Option.bind_eq_bind, Option.bind_some]
      have hrest := ih (x + 1) (by omega)
      rw [show y * 80 + x + 1 = y * 80 + (x + 1) by omega, hrest]
      congr 2
      omega

theorem scrollLines_eq {cells : List UInt16} (n y : Nat) (h : (y + n) * 80 + 80 ≤ cells.length) :
    scrollLines n y (moved 80 (y * 80) cells) = some (moved 80 ((y + n) * 80) cells) := by
  induction n generalizing y with
  | zero => rfl
  | succ n ih =>
      have hline := @scrollLine_eq cells y 80 0 (by omega)
      rw [Nat.add_zero] at hline
      rw [scrollLines, hline, Option.bind_eq_bind, Option.bind_some,
        show y * 80 + 80 = (y + 1) * 80 by omega, ih (y + 1) (by omega)]
      congr 2
      omega

theorem clearLastLine_eq (color : UInt8) {above : List UInt16} (h : above.length = 24 * 80)
    (line : List UInt16) (x : Nat) :
    clearLastLine color line.length x (above ++ (List.replicate x (blank color) ++ line))
      = some (above ++ List.replicate (x + line.length) (blank color)) := by
  induction line generalizing x with
  | nil => rw [List.append_nil]; rfl
  | cons c line ih =>
      have hwrite : write (above ++ (List.replicate x (blank color) ++ c :: line)) (24 * 80 + x : Nat)
          (blank color) = some (above ++ (List.replicate x (blank color) ++ blank color :: line)) :=
        write_behind _ (by rw [h, List.length_replicate]; push_cast; ring) _
      have hcells : List.replicate x (blank color) ++ blank color :: line
          = List.replicate (x + 1) (blank color) ++ line := by
        rw [List.replicate_succ', List.append_assoc]
        rfl
      rw [List.length_cons, clearLastLine, hwrite, Option.bind_eq_bind, Option.bind_some, hcells,
        ih (x + 1)]
      congr 3
      omega

/-- A screen that is scrolled loses its first line. -/
theorem scroll_eq (color : UInt8) {b : List UInt16} (h : b.length = 25 * 80) {y : Nat} (hy : 25 ≤ y) :
    scroll color b y = some (b.drop 80 ++ List.replicate 80 (blank color), 24) := by
  have hlines := @scrollLines_eq b 24 0 (by rw [h])
  rw [Nat.zero_mul, moved_zero, Nat.zero_add, moved_end (by rw [h])] at hlines
  have hlast : (b.drop (24 * 80)).length = 80 := by rw [List.length_drop, h]
  have habove : (b.drop 80).length = 24 * 80 := by rw [List.length_drop, h]
  have hclear := clearLastLine_eq color habove (b.drop (24 * 80)) 0
  rw [List.replicate_zero, List.nil_append, hlast] at hclear
  rw [scroll, if_pos hy, hlines, Option.bind_eq_bind, Option.bind_some, hclear]
  rfl

/-- **A character on the screen**: its mark, at the cursor. -/
theorem showChar_eq (hs : s.Shows sc) (ch : UInt8) :
    ∃ b crtc, showChar s ch = some { s with vgaBuffer := b, crtc := crtc } ∧
      Console.Shows { s with vgaBuffer := b, crtc := crtc }
        (sc.print (blank s.currentColor) (markOf s.currentColor ch)) := by
  have hlen := sc.length_eq
  have hpos := sc.pos_lt
  obtain ⟨x, y, hplace, hx, hnext⟩ := place_eq s.currentColor ch sc.cells (by omega : sc.pos < _)
  have hget : getCursorPosition s.crtc
      = ({ s.crtc with index := 0x0F }, sc.pos % 80, sc.pos / 80) := by
    rw [getCursorPosition_eq, hs.position_eq]
  have hput : ((markOf s.currentColor ch).put sc.pos sc.cells).length = 25 * 80 := by
    rw [Mark.length_put, hlen]
  have hle := (markOf s.currentColor ch).next_le (Nat.dvd_mul_left 80 25) hpos
  rw [showChar, hget]
  dsimp only
  rw [hs.vgaBuffer_eq, hplace, Option.bind_eq_bind, Option.bind_some]
  dsimp only
  by_cases hy : 25 ≤ y
  · -- the next position is the first behind the screen
    rw [scroll_eq _ hput hy, Option.bind_eq_bind, Option.bind_some]
    have hfull : ¬ (markOf s.currentColor ch).next 80 sc.pos < 25 * 80 := by omega
    refine ⟨_, _, rfl, ?_, ?_⟩
    · rw [Screen.print]
      dsimp only
      rw [if_neg hfull]
    · rw [Screen.print]
      dsimp only
      rw [if_neg hfull, setCursorPosition_position _ (by omega)]
      omega
  · rw [scroll, if_neg hy, Option.bind_eq_bind, Option.bind_some]
    have hroom : (markOf s.currentColor ch).next 80 sc.pos < 25 * 80 := by omega
    refine ⟨_, _, rfl, ?_, ?_⟩
    · rw [Screen.print]
      dsimp only
      rw [if_pos hroom]
    · rw [Screen.print]
      dsimp only
      rw [if_pos hroom, setCursorPosition_position _ (by omega), hnext]

end screen

end MicroKernel.Video
