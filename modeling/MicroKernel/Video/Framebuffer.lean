import MicroKernel.Lib.Bytes
import MicroKernel.Lib.Paper
import MicroKernel.Lib.Raster
import MicroKernel.Lib.Word

set_option autoImplicit false

/-! # The graphics terminal (`drivers/video/framebuffer.c`)

Text of 48 rows with 128 characters, drawn pixel by pixel into the memory of a framebuffer. The font is
an argument, as the table `font_8x16` of the driver.

When the framebuffer is as large as the terminal (`Mode.Fits`), its pixels are those of a `Terminal`
after any operations, and no other byte changes (`run_shows`). What is written is laid out as on a paper,
of which the pixels show the last 48 rows (`writeString_shows_paper`).
-/

namespace MicroKernel.Video.Graphics

open MicroKernel.Lib Bytes

/-- `font_8x16`. -/
abbrev Font := Nat → UInt8

/-- The variables that `framebuffer_init` takes from the boot loader. -/
structure Mode where
  fbAddress : Nat
  fbWidth : Nat
  fbHeight : Nat
  fbPitch : Nat
  fbBpp : Nat

/-- The variables of the driver, and the memory. -/
structure Framebuffer where
  mode : Mode
  mem : Bytes
  cursorX : Int
  cursorY : Int
  fgColor : UInt32
  bgColor : UInt32

/-! ## Pixels -/

/-- The address of a pixel. -/
def Mode.address (m : Mode) (x y : Int) : Nat :=
  u32 (m.fbAddress + u32 (asWord y * m.fbPitch) + asWord (x * (m.fbBpp / 8 : Nat)))

/-- `fb_set_pixel`. -/
def Mode.setPixel (m : Mode) (mem : Bytes) (x y : Int) (color : UInt32) : Bytes :=
  if x < 0 ∨ asInt m.fbWidth ≤ x ∨ y < 0 ∨ asInt m.fbHeight ≤ y then mem
  else store32 mem (m.address x y) color.toNat

/-- Whether the glyph of a character has a dot: `line & (0x80 >> col)`. -/
def lit (font : Font) (c : UInt8) (row col : Nat) : Bool :=
  font (c.toNat * 16 + row) &&& (0x80 >>> UInt8.ofNat col) ≠ 0

/-- `fb_draw_char`. -/
def Mode.drawChar (m : Mode) (font : Font) (mem : Bytes) (c : UInt8) (x y : Int) (fg bg : UInt32) :
    Bytes :=
  (List.range 16).foldl (fun mem (row : Nat) =>
    (List.range 8).foldl (fun mem (col : Nat) =>
      m.setPixel mem (x * 8 + col) (y * 16 + row) (if lit font c row col then fg else bg)) mem) mem

/-! ## The terminal -/

/-- `framebuffer_clear`. -/
def framebufferClear (fb : Framebuffer) : Framebuffer :=
  if fb.mode.fbAddress = 0 then fb
  else
    { fb with
      mem := (List.range fb.mode.fbHeight).foldl (fun mem y =>
        (List.range fb.mode.fbWidth).foldl (fun mem x =>
          fb.mode.setPixel mem (asInt x) (asInt y) fb.bgColor) mem) fb.mem
      cursorX := 0
      cursorY := 0 }

/-- `framebuffer_init`. -/
def framebufferInit (fb : Framebuffer) (fbInfo : Mode) : Framebuffer :=
  framebufferClear { fb with mode := fbInfo, cursorX := 0, cursorY := 0 }

/-- The pixels of `framebuffer_scroll`, which moves each one up from the row of text below. -/
def Mode.moveUp (m : Mode) (mem : Bytes) : Bytes :=
  (List.range 47).foldl (fun mem y =>
    (List.range 128).foldl (fun mem x =>
      (List.range 16).foldl (fun mem row =>
        (List.range 8).foldl (fun mem col =>
          store32 mem (m.address (x * 8 + col : Nat) (y * 16 + row : Nat))
            (load32 mem (m.address (x * 8 + col : Nat) ((y + 1) * 16 + row : Nat)))) mem) mem) mem) mem

/-- `framebuffer_scroll`. -/
def framebufferScroll (font : Font) (fb : Framebuffer) : Framebuffer :=
  if fb.mode.fbAddress = 0 then fb
  else
    { fb with
      mem := (List.range 128).foldl (fun mem (x : Nat) =>
        fb.mode.drawChar font mem 0x20 x 47 fb.fgColor fb.bgColor) (fb.mode.moveUp fb.mem) }

/-- What `framebuffer_putchar` does with the character. -/
def place (font : Font) (fb : Framebuffer) (c : UInt8) : Framebuffer :=
  if c = 0x0A then { fb with cursorX := 0, cursorY := fb.cursorY + 1 }
  else if c = 0x0D then { fb with cursorX := 0 }
  else if c = 0x09 then { fb with cursorX := (fb.cursorX + 8) / 8 * 8 }
  else if c = 0x08 then
    if 0 < fb.cursorX then
      { fb with
        cursorX := fb.cursorX - 1
        mem := fb.mode.drawChar font fb.mem 0x20 (fb.cursorX - 1) fb.cursorY fb.fgColor fb.bgColor }
    else fb
  else
    { fb with
      cursorX := fb.cursorX + 1
      mem := fb.mode.drawChar font fb.mem c fb.cursorX fb.cursorY fb.fgColor fb.bgColor }

/-- The end of a row. -/
def wrap (fb : Framebuffer) : Framebuffer :=
  if 128 ≤ fb.cursorX then { fb with cursorX := 0, cursorY := fb.cursorY + 1 } else fb

/-- The end of the screen. -/
def scrollAtEnd (font : Font) (fb : Framebuffer) : Framebuffer :=
  if 48 ≤ fb.cursorY then { framebufferScroll font fb with cursorY := 47 } else fb

/-- `framebuffer_putchar`. -/
def framebufferPutchar (font : Font) (fb : Framebuffer) (c : UInt8) : Framebuffer :=
  if fb.mode.fbAddress = 0 then fb else scrollAtEnd font (wrap (place font fb c))

/-- `framebuffer_write_string`. -/
def framebufferWriteString (font : Font) (fb : Framebuffer) (str : List UInt8) : Framebuffer :=
  str.foldl (framebufferPutchar font) fb

/-- `framebuffer_set_color`. -/
def framebufferSetColor (fb : Framebuffer) (fg bg : UInt32) : Framebuffer :=
  { fb with fgColor := fg, bgColor := bg }

/-- `framebuffer_set_cursor`. -/
def framebufferSetCursor (fb : Framebuffer) (x y : Int) : Framebuffer :=
  let fb := if 0 ≤ x ∧ x < 128 then { fb with cursorX := x } else fb
  if 0 ≤ y ∧ y < 48 then { fb with cursorY := y } else fb

/-- A call of the driver. -/
inductive Call
  | clear
  | putchar (c : UInt8)
  | scroll
  | setColor (fg bg : UInt32)
  | setCursor (x y : Int)

/-- The call on the framebuffer. -/
def Call.run (font : Font) (fb : Framebuffer) : Call → Framebuffer
  | clear => framebufferClear fb
  | putchar c => framebufferPutchar font fb c
  | scroll => framebufferScroll font fb
  | setColor fg bg => framebufferSetColor fb fg bg
  | setCursor x y => framebufferSetCursor fb x y

/-! ## The pixels in the memory -/

/-- The framebuffer has a row of memory for each line and is as large as the terminal. -/
structure Mode.Fits (m : Mode) : Prop where
  address_ne : m.fbAddress ≠ 0
  bpp : m.fbBpp = 32
  width : 1024 ≤ m.fbWidth
  height : 768 ≤ m.fbHeight
  pitch : 4 * m.fbWidth ≤ m.fbPitch
  room : m.fbAddress + m.fbHeight * m.fbPitch ≤ 2 ^ 32

/-- The colour of a pixel. -/
def Mode.pixel (m : Mode) (mem : Bytes) (p : Nat × Nat) : UInt32 :=
  UInt32.ofNat (load32 mem (m.address p.1 p.2))

section pixels

variable {m : Mode} {font : Font} {mem mem' : Bytes}

/-- A line ends before the next one begins. -/
theorem Mode.line_le (m : Mode) {y y' : Nat} (h : y < y') :
    y * m.fbPitch + m.fbPitch ≤ y' * m.fbPitch := by
  have hmul := Nat.mul_le_mul_right m.fbPitch (Nat.succ_le_of_lt h)
  rwa [Nat.succ_mul] at hmul

theorem Mode.Fits.sizes (h : m.Fits) : m.fbWidth < 2 ^ 31 ∧ m.fbHeight < 2 ^ 31 := by
  have hheight := Nat.mul_le_mul h.height (le_refl m.fbPitch)
  have hpitch := Nat.mul_le_mul (le_refl m.fbHeight) (le_trans (Nat.mul_le_mul_left 4 h.width) h.pitch)
  have hroom := h.room
  have hline := h.pitch
  omega

theorem Mode.Fits.address_eq (h : m.Fits) {x y : Nat} (hx : x < m.fbWidth) (hy : y < m.fbHeight) :
    m.address x y = m.fbAddress + y * m.fbPitch + 4 * x := by
  have hline := m.line_le hy
  have hroom := h.room
  have hpitch := h.pitch
  have hsizes := h.sizes
  have hcol : ((x : Int) * ((m.fbBpp / 8 : Nat) : Int)) = ((4 * x : Nat) : Int) := by
    rw [h.bpp]
    push_cast
    ring
  have hrow : u32 (y * m.fbPitch) = y * m.fbPitch := u32_eq_self (by omega)
  rw [Mode.address, hcol, asWord_natCast (by omega), asWord_natCast (by omega), hrow,
    u32_eq_self (by omega)]

/-- The pixels of a framebuffer that fits are cells of their own. -/
def Mode.pixels (m : Mode) (h : m.Fits) : CellStore Bytes (Nat × Nat) UInt32 where
  get := m.pixel
  set mem p color := store32 mem (m.address p.1 p.2) color.toNat
  Valid p := p.1 < m.fbWidth ∧ p.2 < m.fbHeight
  get_set_self mem p color _ := by
    rw [Mode.pixel, load32_store32_same, Nat.mod_eq_of_lt color.toNat_lt, UInt32.ofNat_toNat]
  get_set_ne mem p q color hp hq hne := by
    have hpitch := h.pitch
    rw [Mode.pixel, Mode.pixel, load32_store32_ne]
    rw [h.address_eq hp.1 hp.2, h.address_eq hq.1 hq.2]
    rcases Nat.lt_trichotomy p.2 q.2 with hlt | heq | hgt
    · have hline := m.line_le hlt
      omega
    · have hcol : p.1 ≠ q.1 := fun hcol => hne (Prod.ext hcol.symm heq.symm)
      rw [heq]
      omega
    · have hline := m.line_le hgt
      omega

/-- No byte outside of the framebuffer changes. -/
def Mode.Inside (m : Mode) (mem mem' : Bytes) : Prop :=
  ∀ a, a < m.fbAddress ∨ m.fbAddress + m.fbHeight * m.fbPitch ≤ a → mem' a = mem a

theorem Mode.Inside.trans {mem'' : Bytes} (h : m.Inside mem mem') (h' : m.Inside mem' mem'') :
    m.Inside mem mem'' := fun a ha => (h' a ha).trans (h a ha)

theorem Mode.Fits.inside_set (h : m.Fits) {p : Nat × Nat} (hp : (m.pixels h).Valid p) (color : UInt32)
    (hmem : m.Inside mem mem') : m.Inside mem ((m.pixels h).set mem' p color) := by
  intro a ha
  have hline := m.line_le hp.2
  have hpitch := h.pitch
  have hp1 : p.1 < m.fbWidth := hp.1
  refine (store32_outside mem' _ ?_).trans (hmem a ha)
  rw [h.address_eq hp.1 hp.2]
  omega

theorem Mode.Fits.setPixel_eq (h : m.Fits) {p : Nat × Nat} (hp : (m.pixels h).Valid p) (mem : Bytes)
    (color : UInt32) : m.setPixel mem p.1 p.2 color = (m.pixels h).set mem p color := by
  have hsizes := h.sizes
  have hx : p.1 < m.fbWidth := hp.1
  have hy : p.2 < m.fbHeight := hp.2
  rw [Mode.setPixel, asInt, asInt, if_pos hsizes.1, if_pos hsizes.2, if_neg (by omega)]
  rfl

end pixels

/-! ## Characters in cells -/

/-- What is drawn in a cell of the terminal. -/
structure Glyph where
  ch : UInt8
  fg : UInt32
  bg : UInt32
  deriving DecidableEq

/-- The colour of a pixel in the cell. -/
def Glyph.color (font : Font) (g : Glyph) (p : Nat × Nat) : UInt32 :=
  if lit font g.ch (p.2 % 16) (p.1 % 8) then g.fg else g.bg

/-- The pixels of the cell in column `x` and row `y`, as they are drawn. -/
def cellPixels (x y : Nat) : List (Nat × Nat) :=
  (List.range 16).flatMap fun row => (List.range 8).map fun col => (x * 8 + col, y * 16 + row)

theorem mem_cellPixels {x y : Nat} {p : Nat × Nat} :
    p ∈ cellPixels x y ↔ p.1 / 8 = x ∧ p.2 / 16 = y := by
  simp only [cellPixels, List.mem_flatMap, List.mem_map, List.mem_range]
  constructor
  · rintro ⟨row, hrow, col, hcol, rfl⟩
    dsimp only
    omega
  · rintro ⟨hx, hy⟩
    exact ⟨p.2 % 16, by omega, p.1 % 8, by omega, Prod.ext (by dsimp only; omega) (by dsimp only; omega)⟩

/-- The cells of the terminal, as the pixels of the framebuffer show them. -/
structure ShowsCells (font : Font) (m : Mode) (mem : Bytes) (cells : List Glyph) : Prop where
  length_eq : cells.length = 48 * 128
  pixel : ∀ p : Nat × Nat, p.1 < 1024 → p.2 < 768 →
    cells[p.2 / 16 * 128 + p.1 / 8]?.map (Glyph.color font · p) = some (m.pixel mem p)

section cells

variable {m : Mode} {font : Font} {mem : Bytes} {cells : List Glyph}

theorem Mode.Fits.valid_cellPixels (h : m.Fits) {x y : Nat} (hx : x < 128) (hy : y < 48) :
    ∀ p ∈ cellPixels x y, (m.pixels h).Valid p := by
  intro p hp
  obtain ⟨hx', hy'⟩ := mem_cellPixels.mp hp
  have hwidth := h.width
  have hheight := h.height
  exact ⟨by omega, by omega⟩

/-- A character is drawn pixel by pixel. -/
theorem Mode.Fits.drawChar_eq (h : m.Fits) (font : Font) (mem : Bytes) (g : Glyph) {x y : Nat}
    (hx : x < 128) (hy : y < 48) :
    m.drawChar font mem g.ch x y g.fg g.bg
      = (m.pixels h).writeAll (g.color font) (cellPixels x y) mem := by
  unfold Mode.drawChar CellStore.writeAll cellPixels
  rw [List.foldl_flatMap]
  refine List.foldl_ext _ _ _ fun mem row hrow => ?_
  rw [List.foldl_map]
  refine List.foldl_ext _ _ _ fun mem col hcol => ?_
  have hrow' := List.mem_range.mp hrow
  have hcol' := List.mem_range.mp hcol
  have hwidth := h.width
  have hheight := h.height
  have hcolor : g.color font (x * 8 + col, y * 16 + row)
      = if lit font g.ch row col then g.fg else g.bg := by
    have hr : (y * 16 + row) % 16 = row := by omega
    have hc : (x * 8 + col) % 8 = col := by omega
    rw [Glyph.color, hr, hc]
  have hset := h.setPixel_eq (p := (x * 8 + col, y * 16 + row))
    ⟨by dsimp only; omega, by dsimp only; omega⟩
    mem (g.color font (x * 8 + col, y * 16 + row))
  rw [← hset, hcolor]
  push_cast
  rfl

/-- **A character that is drawn** takes the place of what was in the cell. -/
theorem ShowsCells.drawChar (hs : ShowsCells font m mem cells) (h : m.Fits) (g : Glyph) {x y : Nat}
    (hx : x < 128) (hy : y < 48) :
    ShowsCells font m (m.drawChar font mem g.ch x y g.fg g.bg) (cells.set (y * 128 + x) g) where
  length_eq := List.length_set.trans hs.length_eq
  pixel p hp1 hp2 := by
    have hwidth := h.width
    have hheight := h.height
    have hvalid : (m.pixels h).Valid p := ⟨by omega, by omega⟩
    have hget := (m.pixels h).get_writeAll (g.color font) (h.valid_cellPixels hx hy) hvalid mem
    have hlen := hs.length_eq
    rw [h.drawChar_eq font mem g hx hy]
    change _ = some ((m.pixels h).get _ p)
    rw [hget]
    by_cases hcell : p ∈ cellPixels x y
    · obtain ⟨rfl, rfl⟩ := mem_cellPixels.mp hcell
      rw [if_pos hcell, List.getElem?_set_self (by omega)]
      rfl
    · have hne : y * 128 + x ≠ p.2 / 16 * 128 + p.1 / 8 := by
        intro heq
        exact hcell (mem_cellPixels.mpr ⟨by omega, by omega⟩)
      rw [if_neg hcell, List.getElem?_set_ne hne]
      exact hs.pixel p hp1 hp2

/-- The glyph of the space has no dots. -/
def SpaceIsBlank (font : Font) : Prop := ∀ row, row < 16 → font (0x20 * 16 + row) = 0

theorem SpaceIsBlank.color (h : SpaceIsBlank font) (fg bg : UInt32) (p : Nat × Nat) :
    Glyph.color font ⟨0x20, fg, bg⟩ p = bg := by
  have hzero := h (p.2 % 16) (Nat.mod_lt _ (by decide))
  have hlit : lit font 0x20 (p.2 % 16) (p.1 % 8) = false := by
    unfold lit
    change decide (font (0x20 * 16 + p.2 % 16) &&& _ ≠ 0) = false
    rw [hzero]
    simp
  rw [Glyph.color, hlit]
  rfl

/-- The pixels of the whole framebuffer, line by line. -/
def allPixels (m : Mode) : List (Nat × Nat) :=
  (List.range m.fbHeight).flatMap fun y => (List.range m.fbWidth).map fun x => (x, y)

theorem mem_allPixels {p : Nat × Nat} : p ∈ allPixels m ↔ p.1 < m.fbWidth ∧ p.2 < m.fbHeight := by
  simp only [allPixels, List.mem_flatMap, List.mem_map, List.mem_range]
  constructor
  · rintro ⟨y, hy, x, hx, rfl⟩
    exact ⟨hx, hy⟩
  · rintro ⟨hx, hy⟩
    exact ⟨p.2, hy, p.1, hx, rfl⟩

theorem Mode.Fits.clear_eq (h : m.Fits) (mem : Bytes) (color : UInt32) :
    (List.range m.fbHeight).foldl (fun mem y =>
      (List.range m.fbWidth).foldl (fun mem x => m.setPixel mem (asInt x) (asInt y) color) mem) mem
      = (m.pixels h).writeAll (fun _ => color) (allPixels m) mem := by
  unfold CellStore.writeAll allPixels
  rw [List.foldl_flatMap]
  refine List.foldl_ext _ _ _ fun mem y hy => ?_
  rw [List.foldl_map]
  refine List.foldl_ext _ _ _ fun mem x hx => ?_
  have hsizes := h.sizes
  have hx' := List.mem_range.mp hx
  have hy' := List.mem_range.mp hy
  have hset := h.setPixel_eq (p := (x, y)) ⟨hx', hy'⟩ mem color
  rw [asInt, asInt, if_pos (by omega), if_pos (by omega)]
  exact hset

/-- **After clearing** every cell holds a space. -/
theorem Mode.Fits.showsCells_clear (h : m.Fits) (hfont : SpaceIsBlank font) (mem : Bytes)
    (fg bg : UInt32) :
    ShowsCells font m ((m.pixels h).writeAll (fun _ => bg) (allPixels m) mem)
      (List.replicate (48 * 128) ⟨0x20, fg, bg⟩) where
  length_eq := List.length_replicate
  pixel p hp1 hp2 := by
    have hwidth := h.width
    have hheight := h.height
    have hvalid : (m.pixels h).Valid p := ⟨by omega, by omega⟩
    have hget := (m.pixels h).get_writeAll (fun _ => bg) (fun q hq => mem_allPixels.mp hq) hvalid mem
    change _ = some ((m.pixels h).get _ p)
    rw [hget, if_pos (mem_allPixels.mpr hvalid), List.getElem?_replicate, if_pos (by omega)]
    exact congrArg some (hfont.color fg bg p)

/-! ## Scrolling -/

/-- The pixels of the rows of text but the last one, in the order in which they are moved. -/
def movedPixels : List (Nat × Nat) :=
  (List.range 47).flatMap fun y => (List.range 128).flatMap fun x => cellPixels x y

theorem mem_movedPixels {p : Nat × Nat} : p ∈ movedPixels ↔ p.1 < 1024 ∧ p.2 < 752 := by
  simp only [movedPixels, List.mem_flatMap, List.mem_range, mem_cellPixels]
  constructor
  · rintro ⟨y, hy, x, hx, hpx, hpy⟩
    omega
  · rintro ⟨hx, hy⟩
    exact ⟨p.2 / 16, by omega, p.1 / 8, by omega, rfl, rfl⟩

/-- No pixel is overwritten before it is moved. -/
theorem movedPixels_order :
    movedPixels.Pairwise fun p q => (q.1, q.2 + 16) ≠ p ∧ q ≠ p := by
  -- within a row of text the sources are below it, and later rows are below as well
  have hlater : ∀ {p q : Nat × Nat}, p.2 < q.2 → (q.1, q.2 + 16) ≠ p ∧ q ≠ p := by
    rintro p q hlt
    exact ⟨fun heq => by have := congrArg Prod.snd heq; dsimp only at this; omega, fun heq => by
      rw [heq] at hlt
      exact Nat.lt_irrefl _ hlt⟩
  have hbeside : ∀ {p q : Nat × Nat}, p.1 ≠ q.1 → (q.1, q.2 + 16) ≠ p ∧ q ≠ p := by
    rintro p q hne
    exact ⟨fun heq => hne (congrArg Prod.fst heq).symm, fun heq => hne (congrArg Prod.fst heq).symm⟩
  unfold movedPixels
  rw [List.pairwise_flatMap]
  refine ⟨fun y _ => ?_, ?_⟩
  · rw [List.pairwise_flatMap]
    refine ⟨fun x _ => ?_, ?_⟩
    · unfold cellPixels
      rw [List.pairwise_flatMap]
      refine ⟨fun row _ => ?_, ?_⟩
      · rw [List.pairwise_map]
        exact List.pairwise_lt_range.imp fun hlt => hbeside (by dsimp only; omega)
      · refine List.pairwise_lt_range.imp fun hlt p hp q hq => hlater ?_
        obtain ⟨col, -, rfl⟩ := List.mem_map.mp hp
        obtain ⟨col', -, rfl⟩ := List.mem_map.mp hq
        dsimp only
        omega
    · refine List.pairwise_lt_range.imp fun hlt p hp q hq => hbeside ?_
      have hp' := (mem_cellPixels.mp hp).1
      have hq' := (mem_cellPixels.mp hq).1
      omega
  · refine List.pairwise_lt_range.imp fun hlt p hp q hq => hlater ?_
    obtain ⟨x, -, hp⟩ := List.mem_flatMap.mp hp
    obtain ⟨x', -, hq⟩ := List.mem_flatMap.mp hq
    have hp' := (mem_cellPixels.mp hp).2
    have hq' := (mem_cellPixels.mp hq).2
    omega

theorem Mode.Fits.moveUp_eq (h : m.Fits) (mem : Bytes) :
    m.moveUp mem = (m.pixels h).copyAll (fun p => (p.1, p.2 + 16)) movedPixels mem := by
  unfold Mode.moveUp CellStore.copyAll movedPixels
  rw [List.foldl_flatMap]
  refine List.foldl_ext _ _ _ fun mem y _ => ?_
  rw [List.foldl_flatMap]
  refine List.foldl_ext _ _ _ fun mem x _ => ?_
  unfold cellPixels
  rw [List.foldl_flatMap]
  refine List.foldl_ext _ _ _ fun mem row _ => ?_
  rw [List.foldl_map]
  refine List.foldl_ext _ _ _ fun mem col _ => ?_
  have hrow : (y + 1) * 16 + row = y * 16 + row + 16 := by ring
  rw [hrow]
  change _ = store32 mem _ (m.pixel mem (x * 8 + col, y * 16 + row + 16)).toNat
  rw [Mode.pixel, UInt32.toNat_ofNat_of_lt' (load32_lt mem _)]

/-- The pixels of the last row of text. -/
def lastPixels : List (Nat × Nat) := (List.range 128).flatMap fun x => cellPixels x 47

theorem mem_lastPixels {p : Nat × Nat} : p ∈ lastPixels ↔ p.1 < 1024 ∧ p.2 / 16 = 47 := by
  simp only [lastPixels, List.mem_flatMap, List.mem_range, mem_cellPixels]
  constructor
  · rintro ⟨x, hx, hpx, hpy⟩
    omega
  · rintro ⟨hx, hy⟩
    exact ⟨p.1 / 8, by omega, rfl, hy⟩

theorem Mode.Fits.clearLast_eq (h : m.Fits) (font : Font) (mem : Bytes) (g : Glyph) :
    (List.range 128).foldl (fun mem (x : Nat) => m.drawChar font mem g.ch x 47 g.fg g.bg) mem
      = (m.pixels h).writeAll (g.color font) lastPixels mem := by
  unfold CellStore.writeAll lastPixels
  rw [List.foldl_flatMap]
  exact List.foldl_ext _ _ _ fun mem x hx =>
    h.drawChar_eq font mem g (List.mem_range.mp hx) (by decide)

/-- The memory after `framebuffer_scroll`. -/
def Mode.scrolled (m : Mode) (font : Font) (g : Glyph) (mem : Bytes) : Bytes :=
  (List.range 128).foldl (fun mem (x : Nat) => m.drawChar font mem g.ch x 47 g.fg g.bg) (m.moveUp mem)

/-- **After scrolling** each row shows what the next one showed. -/
theorem ShowsCells.scrolled (hs : ShowsCells font m mem cells) (h : m.Fits) (fg bg : UInt32) :
    ShowsCells font m (m.scrolled font ⟨0x20, fg, bg⟩ mem)
      (cells.drop 128 ++ List.replicate 128 ⟨0x20, fg, bg⟩) where
  length_eq := by
    rw [List.length_append, List.length_drop, hs.length_eq, List.length_replicate]
  pixel p hp1 hp2 := by
    have hwidth := h.width
    have hheight := h.height
    have hlen := hs.length_eq
    have hvalid : (m.pixels h).Valid p := ⟨by omega, by omega⟩
    have hlast := (m.pixels h).get_writeAll (Glyph.color font ⟨0x20, fg, bg⟩) (l := lastPixels)
      (fun q hq => by
        obtain ⟨hq1, hq2⟩ := mem_lastPixels.mp hq
        exact ⟨by omega, by omega⟩) hvalid (m.moveUp mem)
    have hmoved := (m.pixels h).get_copyAll (fun q => (q.1, q.2 + 16)) (l := movedPixels)
      (fun q hq => by
        obtain ⟨hq1, hq2⟩ := mem_movedPixels.mp hq
        exact ⟨⟨by omega, by omega⟩, by dsimp only; omega, by dsimp only; omega⟩)
      movedPixels_order hvalid mem
    rw [Mode.scrolled, h.clearLast_eq font (m.moveUp mem) ⟨0x20, fg, bg⟩]
    change _ = some ((m.pixels h).get _ p)
    rw [hlast]
    by_cases hrow : p.2 / 16 = 47
    · rw [if_pos (mem_lastPixels.mpr ⟨hp1, hrow⟩), List.getElem?_append_right (by
        rw [List.length_drop]; omega), List.getElem?_replicate, if_pos (by
        rw [List.length_drop]; omega)]
      rfl
    · have hbelow := hs.pixel (p.1, p.2 + 16) hp1 (by dsimp only; omega)
      have hidx : (p.2 + 16) / 16 * 128 + p.1 / 8 = 128 + (p.2 / 16 * 128 + p.1 / 8) := by omega
      have hcolor : ∀ g : Glyph, g.color font (p.1, p.2 + 16) = g.color font p := by
        intro g
        unfold Glyph.color
        rw [Nat.add_mod_right]
      dsimp only at hbelow
      rw [hidx] at hbelow
      rw [if_neg fun hmem => hrow (mem_lastPixels.mp hmem).2, h.moveUp_eq, hmoved,
        if_pos (mem_movedPixels.mpr ⟨hp1, by omega⟩), List.getElem?_append_left (by
        rw [List.length_drop]; omega), List.getElem?_drop]
      simp only [hcolor] at hbelow
      exact hbelow

/-! ## What is not written -/

theorem Mode.Fits.inside_drawChar (h : m.Fits) (font : Font) (mem : Bytes) (g : Glyph) {x y : Nat}
    (hx : x < 128) (hy : y < 48) : m.Inside mem (m.drawChar font mem g.ch x y g.fg g.bg) := by
  rw [h.drawChar_eq font mem g hx hy]
  exact CellStore.writeAll_keeps _ _
    (fun s p hp color hs => h.inside_set (h.valid_cellPixels hx hy p hp) color hs) fun _ _ => rfl

theorem Mode.Fits.inside_scrolled (h : m.Fits) (font : Font) (mem : Bytes) (g : Glyph) :
    m.Inside mem (m.scrolled font g mem) := by
  have hwidth := h.width
  have hheight := h.height
  rw [Mode.scrolled, h.clearLast_eq font (m.moveUp mem) g, h.moveUp_eq]
  refine CellStore.writeAll_keeps _ _ (fun s p hp color hs => h.inside_set ?_ color hs) ?_
  · obtain ⟨hp1, hp2⟩ := mem_lastPixels.mp hp
    exact ⟨by omega, by omega⟩
  · refine CellStore.copyAll_keeps _ _ (fun s p hp color hs => h.inside_set ?_ color hs) fun _ _ => rfl
    obtain ⟨hp1, hp2⟩ := mem_movedPixels.mp hp
    exact ⟨by omega, by omega⟩

theorem Mode.Fits.inside_clear (h : m.Fits) (mem : Bytes) (color : UInt32) :
    m.Inside mem ((m.pixels h).writeAll (fun _ => color) (allPixels m) mem) :=
  CellStore.writeAll_keeps _ _ (fun _ _ hp color hs => h.inside_set (mem_allPixels.mp hp) color hs)
    fun _ _ => rfl

end cells

/-! ## The terminal that is shown -/

/-- Rows of characters, and the colours of the next one. -/
structure Terminal where
  screen : Screen Glyph 48 128
  fg : UInt32
  bg : UInt32

namespace Terminal

/-- An empty cell. -/
def blank (t : Terminal) : Glyph := ⟨0x20, t.fg, t.bg⟩

/-- What a character does: there are line feed, carriage return, tab and backspace. -/
def stroke (g : Glyph) : Stroke Glyph :=
  if g.ch = 0x0A then .mark .newline
  else if g.ch = 0x0D then .mark .carriageReturn
  else if g.ch = 0x09 then .tab 8
  else if g.ch = 0x08 then .back
  else .mark (.cell g)

/-- All cells empty. -/
def cleared (fg bg : UInt32) : Terminal where
  screen := ⟨List.replicate (48 * 128) ⟨0x20, fg, bg⟩, 0, List.length_replicate, by decide⟩
  fg := fg
  bg := bg

/-- A character at the cursor. -/
def putchar (t : Terminal) (c : UInt8) : Terminal :=
  { t with screen := t.screen.strike t.blank (stroke ⟨c, t.fg, t.bg⟩) }

/-- All rows move up. -/
def scroll (t : Terminal) : Terminal :=
  { t with
    screen :=
      { t.screen with
        cells := t.screen.cells.drop 128 ++ List.replicate 128 t.blank
        length_eq := by
          rw [List.length_append, List.length_drop, t.screen.length_eq, List.length_replicate] } }

/-- The cursor goes to the column and to the row, as far as they exist. -/
def setCursor (t : Terminal) (x y : Int) : Terminal :=
  { t with
    screen :=
      { t.screen with
        pos := (if 0 ≤ y ∧ y < 48 then y.toNat else t.screen.pos / 128) * 128 +
          if 0 ≤ x ∧ x < 128 then x.toNat else t.screen.pos % 128
        pos_lt := by
          have hpos := t.screen.pos_lt
          split <;> split <;> omega } }

/-- A call of the driver. -/
def call (t : Terminal) : Call → Terminal
  | .clear => cleared t.fg t.bg
  | .putchar c => t.putchar c
  | .scroll => t.scroll
  | .setColor fg bg => { t with fg := fg, bg := bg }
  | .setCursor x y => t.setCursor x y

end Terminal

/-- **The framebuffer shows the terminal.** -/
structure Shows (font : Font) (fb : Framebuffer) (t : Terminal) : Prop where
  cells : ShowsCells font fb.mode fb.mem t.screen.cells
  cursorX : fb.cursorX = (t.screen.pos % 128 : Nat)
  cursorY : fb.cursorY = (t.screen.pos / 128 : Nat)
  fgColor : fb.fgColor = t.fg
  bgColor : fb.bgColor = t.bg

section run

variable {font : Font} {fb fb' : Framebuffer} {t : Terminal}

/-- Behind a character. The cursor may be behind its row or behind the last row. -/
structure Placed (font : Font) (fb : Framebuffer) (t : Terminal) (k : Stroke Glyph) (fb' : Framebuffer) :
    Prop where
  mode : fb'.mode = fb.mode
  cells : ShowsCells font fb.mode fb'.mem (k.put 128 t.blank t.screen.pos t.screen.cells)
  cursor : ∃ x y : Nat, fb'.cursorX = x ∧ fb'.cursorY = y ∧ x ≤ 128 ∧
    k.next 128 t.screen.pos = y * 128 + x
  fgColor : fb'.fgColor = t.fg
  bgColor : fb'.bgColor = t.bg
  inside : fb.mode.Inside fb.mem fb'.mem

theorem place_back (font : Font) (fb : Framebuffer) :
    place font fb 0x08 = if 0 < fb.cursorX then
      { fb with
        cursorX := fb.cursorX - 1
        mem := fb.mode.drawChar font fb.mem 0x20 (fb.cursorX - 1) fb.cursorY fb.fgColor fb.bgColor }
    else fb := by
  rw [place, if_neg (by decide), if_neg (by decide), if_neg (by decide), if_pos rfl]

/-- A step back empties the cell in front of the cursor. -/
theorem Shows.placed_back (hs : Shows font fb t) (h : fb.mode.Fits) :
    Placed font fb t .back (place font fb 0x08) := by
  obtain ⟨hcells, hx, hy, hfg, hbg⟩ := hs
  have hpos := t.screen.pos_lt
  by_cases hmod : t.screen.pos % 128 = 0
  · rw [place_back, if_neg (by omega)]
    refine ⟨rfl, ?_, ⟨0, t.screen.pos / 128, by omega, hy, by omega, ?_⟩, hfg, hbg, fun _ _ => rfl⟩
    · rw [Stroke.put, if_pos hmod]
      exact hcells
    · rw [Stroke.next, if_pos hmod]
      omega
  · have hcol : fb.cursorX - 1 = ((t.screen.pos % 128 - 1 : Nat) : Int) := by omega
    have hidx : t.screen.pos / 128 * 128 + (t.screen.pos % 128 - 1) = t.screen.pos - 1 := by omega
    have hdraw := hcells.drawChar h t.blank (x := t.screen.pos % 128 - 1) (y := t.screen.pos / 128)
      (by omega) (by omega)
    have hinside := h.inside_drawChar font fb.mem t.blank (x := t.screen.pos % 128 - 1)
      (y := t.screen.pos / 128) (by omega) (by omega)
    rw [hidx, ← hcol, ← hy] at hdraw
    rw [← hcol, ← hy] at hinside
    rw [place_back, if_pos (by omega), hfg, hbg]
    refine ⟨rfl, ?_, ⟨t.screen.pos % 128 - 1, t.screen.pos / 128, hcol, hy, by omega, ?_⟩, rfl, rfl,
      hinside⟩
    · rw [Stroke.put, if_neg hmod]
      exact hdraw
    · rw [Stroke.next, if_neg hmod]
      omega

/-- A character that is drawn. -/
theorem Shows.placed_cell (hs : Shows font fb t) (h : fb.mode.Fits) {c : UInt8} (hfeed : c ≠ 0x0A)
    (hreturn : c ≠ 0x0D) (htab : c ≠ 0x09) (hback : c ≠ 0x08) :
    Placed font fb t (.mark (.cell ⟨c, t.fg, t.bg⟩)) (place font fb c) := by
  obtain ⟨hcells, hx, hy, hfg, hbg⟩ := hs
  have hpos := t.screen.pos_lt
  have hidx : t.screen.pos / 128 * 128 + t.screen.pos % 128 = t.screen.pos := by omega
  have hdraw := hcells.drawChar h ⟨c, t.fg, t.bg⟩ (x := t.screen.pos % 128) (y := t.screen.pos / 128)
    (by omega) (by omega)
  have hinside := h.inside_drawChar font fb.mem ⟨c, t.fg, t.bg⟩ (x := t.screen.pos % 128)
    (y := t.screen.pos / 128) (by omega) (by omega)
  rw [hidx, ← hx, ← hy] at hdraw
  rw [← hx, ← hy] at hinside
  rw [place, if_neg hfeed, if_neg hreturn, if_neg htab, if_neg hback, hfg, hbg]
  refine ⟨rfl, hdraw, ⟨t.screen.pos % 128 + 1, t.screen.pos / 128, ?_, hy, by omega, ?_⟩, rfl, rfl,
    hinside⟩
  · dsimp only
    omega
  · dsimp only [Stroke.next, Mark.next]
    omega

/-- **One character.** -/
theorem Shows.placed (hs : Shows font fb t) (h : fb.mode.Fits) (c : UInt8) :
    Placed font fb t (Terminal.stroke ⟨c, t.fg, t.bg⟩) (place font fb c) := by
  have hy := hs.cursorY
  have hx := hs.cursorX
  have hsame : fb.mode.Inside fb.mem fb.mem := fun _ _ => rfl
  unfold Terminal.stroke
  dsimp only
  by_cases hfeed : c = 0x0A
  · rw [if_pos hfeed, place, if_pos hfeed]
    refine ⟨rfl, hs.cells, ⟨0, t.screen.pos / 128 + 1, rfl, ?_, by omega, ?_⟩, hs.fgColor,
      hs.bgColor, hsame⟩
    · dsimp only
      omega
    · exact (Nat.add_zero _).symm
  rw [if_neg hfeed]
  by_cases hreturn : c = 0x0D
  · rw [if_pos hreturn, place, if_neg hfeed, if_pos hreturn]
    refine ⟨rfl, hs.cells, ⟨0, t.screen.pos / 128, rfl, hy, by omega, ?_⟩, hs.fgColor, hs.bgColor, hsame⟩
    exact (Nat.add_zero _).symm
  rw [if_neg hreturn]
  by_cases htab : c = 0x09
  · rw [if_pos htab, place, if_neg hfeed, if_neg hreturn, if_pos htab]
    refine ⟨rfl, hs.cells, ⟨(t.screen.pos % 128 / 8 + 1) * 8, t.screen.pos / 128, ?_, hy, by omega, ?_⟩,
      hs.fgColor, hs.bgColor, hsame⟩
    · dsimp only
      omega
    · rw [Stroke.next, Nat.min_eq_right (by omega)]
  rw [if_neg htab]
  by_cases hback : c = 0x08
  · rw [if_pos hback, hback]
    exact hs.placed_back h
  · rw [if_neg hback]
    exact hs.placed_cell h hfeed hreturn htab hback

/-- Behind a row the cursor goes to the next one. -/
theorem Placed.wrap {k : Stroke Glyph} (hp : Placed font fb t k fb') :
    ∃ x y : Nat, wrap fb' = { fb' with cursorX := x, cursorY := y } ∧ x < 128 ∧
      k.next 128 t.screen.pos = y * 128 + x := by
  obtain ⟨x, y, hx, hy, hle, hnext⟩ := hp.cursor
  unfold Graphics.wrap
  by_cases hend : 128 ≤ fb'.cursorX
  · rw [if_pos hend, hy]
    exact ⟨0, y + 1, rfl, by decide, by omega⟩
  · rw [if_neg hend]
    exact ⟨x, y, by rw [← hx, ← hy], by omega, hnext⟩

/-- What a call does: the framebuffer shows another terminal, and nothing else changes. -/
structure Step (font : Font) (fb fb' : Framebuffer) (t' : Terminal) : Prop where
  mode : fb'.mode = fb.mode
  shows : Shows font fb' t'
  inside : fb.mode.Inside fb.mem fb'.mem

theorem framebufferScroll_eq (font : Font) (h : fb.mode.Fits) :
    framebufferScroll font fb
      = { fb with mem := fb.mode.scrolled font ⟨0x20, fb.fgColor, fb.bgColor⟩ fb.mem } := by
  unfold framebufferScroll Mode.scrolled
  rw [if_neg h.address_ne]

/-- **`framebuffer_putchar`** is a stroke on the terminal. -/
theorem Shows.putchar (hs : Shows font fb t) (h : fb.mode.Fits) (c : UInt8) :
    Step font fb (framebufferPutchar font fb c) (t.putchar c) := by
  have hp := hs.placed h c
  obtain ⟨x, y, hwrap, hx, hnext⟩ := hp.wrap
  have hmode := hp.mode
  have hcells := hp.cells
  have hle := (Terminal.stroke ⟨c, t.fg, t.bg⟩).next_le (Nat.dvd_mul_left 128 48) t.screen.pos_lt
  rw [framebufferPutchar, if_neg h.address_ne, hwrap]
  unfold scrollAtEnd
  dsimp only
  by_cases hroom : (Terminal.stroke ⟨c, t.fg, t.bg⟩).next 128 t.screen.pos < 48 * 128
  · rw [if_neg (by omega)]
    refine ⟨hmode, ⟨?_, ?_, ?_, hp.fgColor, hp.bgColor⟩, hp.inside⟩
    · change ShowsCells font (place font fb c).mode _ (if _ then _ else _)
      rw [if_pos hroom, hmode]
      exact hcells
    · change (x : Int) = ((if _ then _ else _ : Nat) % 128 : Nat)
      rw [if_pos hroom]
      omega
    · change (y : Int) = ((if _ then _ else _ : Nat) / 128 : Nat)
      rw [if_pos hroom]
      omega
  · have hfits : Mode.Fits (Framebuffer.mode { place font fb c with cursorX := x, cursorY := y }) := by
      rw [← hmode] at h
      exact h
    rw [if_pos (by omega), framebufferScroll_eq font hfits]
    dsimp only
    rw [hmode, hp.fgColor, hp.bgColor]
    refine ⟨rfl, ⟨?_, ?_, ?_, rfl, rfl⟩, ?_⟩
    · change ShowsCells font fb.mode _ (if _ then _ else _)
      rw [if_neg hroom]
      exact hcells.scrolled h t.fg t.bg
    · change (x : Int) = ((if _ then _ else _ : Nat) % 128 : Nat)
      rw [if_neg hroom]
      omega
    · change (47 : Int) = ((if _ then _ else _ : Nat) / 128 : Nat)
      rw [if_neg hroom]
      omega
    · have hscrolled := h.inside_scrolled font (place font fb c).mem ⟨0x20, t.fg, t.bg⟩
      exact hp.inside.trans hscrolled

/-! ## Runs -/

theorem Shows.scroll (hs : Shows font fb t) (h : fb.mode.Fits) :
    Step font fb (framebufferScroll font fb) t.scroll := by
  have hinside := h.inside_scrolled font fb.mem ⟨0x20, fb.fgColor, fb.bgColor⟩
  have hcells := hs.cells.scrolled h t.fg t.bg
  rw [← hs.fgColor, ← hs.bgColor] at hcells
  rw [framebufferScroll_eq font h]
  refine ⟨rfl, ⟨?_, hs.cursorX, hs.cursorY, hs.fgColor, hs.bgColor⟩, hinside⟩
  dsimp only [Terminal.scroll, Terminal.blank]
  rw [← hs.fgColor, ← hs.bgColor]
  exact hcells

/-- `framebuffer_clear` needs nothing to be shown before. -/
theorem clear_shows (h : fb.mode.Fits) (hfont : SpaceIsBlank font) :
    Step font fb (framebufferClear fb) (.cleared fb.fgColor fb.bgColor) := by
  have hcells := h.showsCells_clear hfont fb.mem fb.fgColor fb.bgColor
  have hinside := h.inside_clear fb.mem fb.bgColor
  rw [← h.clear_eq] at hcells hinside
  rw [framebufferClear, if_neg h.address_ne]
  have hzero : (0 : Int) = ((0 / 128 : Nat) : Int) := by decide
  exact ⟨rfl, ⟨hcells, rfl, hzero, rfl, rfl⟩, hinside⟩

theorem Shows.setCursor (hs : Shows font fb t) (x y : Int) :
    Step font fb (framebufferSetCursor fb x y) (t.setCursor x y) := by
  have hx := hs.cursorX
  have hy := hs.cursorY
  have hmode : (framebufferSetCursor fb x y).mode = fb.mode ∧
      (framebufferSetCursor fb x y).mem = fb.mem ∧
      (framebufferSetCursor fb x y).fgColor = fb.fgColor ∧
      (framebufferSetCursor fb x y).bgColor = fb.bgColor ∧
      (framebufferSetCursor fb x y).cursorX = (if 0 ≤ x ∧ x < 128 then x else fb.cursorX) ∧
      (framebufferSetCursor fb x y).cursorY = if 0 ≤ y ∧ y < 48 then y else fb.cursorY := by
    unfold framebufferSetCursor
    split <;> split <;> exact ⟨rfl, rfl, rfl, rfl, rfl, rfl⟩
  obtain ⟨hm, hmem, hfg, hbg, hcx, hcy⟩ := hmode
  refine ⟨hm, ⟨?_, ?_, ?_, hfg.trans hs.fgColor, hbg.trans hs.bgColor⟩, fun a _ => by rw [hmem]⟩
  · rw [hm, hmem]
    exact hs.cells
  · rw [hcx]
    dsimp only [Terminal.setCursor]
    split <;> split <;> omega
  · rw [hcy]
    dsimp only [Terminal.setCursor]
    split <;> split <;> omega

/-- **Every call** does to the pixels what it does to the terminal. -/
theorem Shows.call (hs : Shows font fb t) (h : fb.mode.Fits) (hfont : SpaceIsBlank font) (c : Call) :
    Step font fb (c.run font fb) (t.call c) := by
  cases c with
  | clear =>
      have hclear := clear_shows h hfont
      rw [hs.fgColor, hs.bgColor] at hclear
      exact hclear
  | putchar c => exact hs.putchar h c
  | scroll => exact hs.scroll h
  | setColor fg bg => exact ⟨rfl, ⟨hs.cells, hs.cursorX, hs.cursorY, rfl, rfl⟩, fun _ _ => rfl⟩
  | setCursor x y => exact hs.setCursor x y

/-- **The pixels show the terminal** after `framebuffer_init` and any calls, and no byte outside of the
framebuffer has changed. -/
theorem run_shows (fb : Framebuffer) {fbInfo : Mode} (h : fbInfo.Fits) (hfont : SpaceIsBlank font)
    (calls : List Call) :
    Shows font (calls.foldl (Call.run font) (framebufferInit fb fbInfo))
        (calls.foldl Terminal.call (.cleared fb.fgColor fb.bgColor)) ∧
      fbInfo.Inside fb.mem (calls.foldl (Call.run font) (framebufferInit fb fbInfo)).mem := by
  have hinit : Step font { fb with mode := fbInfo, cursorX := 0, cursorY := 0 }
      (framebufferInit fb fbInfo) (.cleared fb.fgColor fb.bgColor) := clear_shows h hfont
  have hrun : ∀ (calls : List Call) (fb' : Framebuffer) (t : Terminal), fb'.mode = fbInfo →
      Shows font fb' t → fbInfo.Inside fb.mem fb'.mem →
      Shows font (calls.foldl (Call.run font) fb') (calls.foldl Terminal.call t) ∧
        fbInfo.Inside fb.mem (calls.foldl (Call.run font) fb').mem := by
    intro calls
    induction calls with
    | nil => exact fun _ _ _ hs hinside => ⟨hs, hinside⟩
    | cons c calls ih =>
        intro fb' t hmode hs hinside
        obtain ⟨hmode', hs', hinside'⟩ := hs.call (hmode ▸ h) hfont c
        rw [hmode] at hmode' hinside'
        exact ih _ _ hmode' hs' (hinside.trans hinside')
  exact hrun calls _ _ hinit.mode hinit.shows hinit.inside

/-- The paper with the text typed on it. -/
def typed (t : Terminal) (p : Paper Glyph 128) (str : List UInt8) : Paper Glyph 128 :=
  str.foldl (fun p c => p.strike t.blank (Terminal.stroke ⟨c, t.fg, t.bg⟩)) p

/-- **A string is laid out as on a paper**, of which the pixels show the last 48 rows. -/
theorem writeString_shows_paper (hs : Shows font fb t) (h : fb.mode.Fits) (p : Paper Glyph 128)
    (hend : t.screen.EndOf p) (str : List UInt8) :
    ∃ t' : Terminal, Shows font (framebufferWriteString font fb str) t' ∧
      t'.screen.EndOf (typed t p str) ∧
      fb.mode.Inside fb.mem (framebufferWriteString font fb str).mem := by
  induction str generalizing fb t p with
  | nil => exact ⟨t, hs, hend, fun _ _ => rfl⟩
  | cons c str ih =>
      obtain ⟨hmode, hs', hinside⟩ := hs.putchar h c
      have h' : (framebufferPutchar font fb c).mode.Fits := hmode.symm ▸ h
      obtain ⟨t', hs'', hend', hinside'⟩ :=
        ih hs' h' (p.strike t.blank (Terminal.stroke ⟨c, t.fg, t.bg⟩)) (hend.strike _ _)
      rw [hmode] at hinside'
      exact ⟨t', hs'', hend', hinside.trans hinside'⟩

end run

/-- A mode with 1024 by 768 pixels. -/
def xga : Mode := ⟨0xFD000000, 1024, 768, 4096, 32⟩

theorem xga_fits : xga.Fits := ⟨by decide, rfl, by decide, by decide, by decide, by decide⟩

/-- The space and the letter `A`. -/
def letterA : Font := fun i =>
  if i / 16 = 0x41 then
    [0x00, 0x00, 0x10, 0x38, 0x6C, 0xC6, 0xC6, 0xFE, 0xC6, 0xC6, 0xC6, 0xC6, 0x00, 0x00, 0x00, 0x00].getD
      (i % 16) 0
  else 0

theorem letterA_space : SpaceIsBlank letterA := fun row hrow => if_neg (by omega)

/-- The variables before `framebuffer_init`. -/
def unset : Framebuffer := ⟨⟨0, 0, 0, 0, 0⟩, fun _ => 0, 0, 0, 0xFFFFFFFF, 0xFF000000⟩

/-- A letter and a line feed, then a new screen. -/
theorem run_shows_letter :
    Shows letterA
        ([.putchar 0x41, .putchar 0x0A, .clear].foldl (Call.run letterA) (framebufferInit unset xga))
        ([.putchar 0x41, .putchar 0x0A, .clear].foldl Terminal.call (.cleared 0xFFFFFFFF 0xFF000000)) ∧
      xga.Inside (fun _ => 0)
        ([.putchar 0x41, .putchar 0x0A, .clear].foldl (Call.run letterA) (framebufferInit unset xga)).mem :=
  run_shows unset xga_fits letterA_space _

/-- A letter and a backspace. -/
theorem writeString_shows_paper_letter :
    ∃ t' : Terminal,
      Shows letterA (framebufferWriteString letterA (framebufferInit unset xga) [0x41, 0x08]) t' ∧
      t'.screen.EndOf (typed (.cleared 0xFFFFFFFF 0xFF000000)
        (Terminal.cleared 0xFFFFFFFF 0xFF000000).screen.paper [0x41, 0x08]) := by
  have hshows := (run_shows unset xga_fits letterA_space []).1
  obtain ⟨t', ht', hend, -⟩ := writeString_shows_paper hshows xga_fits
    (Terminal.cleared 0xFFFFFFFF 0xFF000000).screen.paper (Screen.endOf_paper _) [0x41, 0x08]
  exact ⟨t', ht', hend⟩

end MicroKernel.Video.Graphics
