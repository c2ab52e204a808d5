import Aosis.Common.Word
import Aosis.Lib.Page

/-!
# The terminal

`kernel/terminal/tty.c` and `kernel/terminal/vga.c`.  The terminal writes into the buffer of the
VGA text mode, 25 rows of 80 entries; an entry is a character byte and a colour byte.  When the
cursor leaves the last row all rows move up by one.

`layout` is the text on a page with as many rows as it needs.  `Shows` says that the screen shows
the last 25 rows of a page, or the first 25; every function keeps it (`Shows.putc`), so the screen
shows the layout of what was written (`shows_layout`).
-/

namespace Aosis.Terminal

open Aosis.Lib

/-- The text buffer from `tty_buffer` on, the cursor and the colour of the terminal, and the
registers 0x0E and 0x0F of the VGA controller, which place the blinking cursor. -/
structure Tty where
  ypos : Nat
  xpos : Nat
  color : BitVec 8
  buffer : Nat → BitVec 16
  cursorHigh : BitVec 8
  cursorLow : BitVec 8

/-! ### The source -/

/-- `SCREEN_WIDTH`. -/
def screenWidth : Nat := 80

/-- `SCREEN_HEIGHT`. -/
def screenHeight : Nat := 25

/-- `VGA_COLOR_BLACK`. -/
def vgaColorBlack : BitVec 8 := 0

/-- `VGA_COLOR_WHITE`. -/
def vgaColorWhite : BitVec 8 := 15

/-- `vga_color_entry`. -/
def vgaColorEntry (fg bg : BitVec 8) : BitVec 8 := fg ||| (bg <<< 4)

/-- `vga_entry`. -/
def vgaEntry (uc color : BitVec 8) : BitVec 16 := uc.setWidth 16 ||| (color.setWidth 16 <<< 8)

/-- `' '`. -/
def blank : BitVec 8 := 32

/-- The static variables before `initialize_terminal`, with a blank screen. -/
def ttyStatic : Tty where
  ypos := 0
  xpos := 0
  color := 0
  buffer := fun _ => 0
  cursorHigh := 0
  cursorLow := 0

/-- `update_cursor`. -/
def updateCursor (x y : Nat) (tty : Tty) : Tty :=
  let pos := BitVec.ofNat 16 (y * screenWidth + x)
  { tty with
    xpos := x
    ypos := y
    cursorLow := (pos &&& 0xFF).setWidth 8
    cursorHigh := ((pos >>> 8) &&& 0xFF).setWidth 8 }

/-- The loops that store `entry` in row `y`, up to `n` turns. -/
def ttyFillRow (entry : BitVec 16) (y : Nat) : Nat → (Nat → BitVec 16) → Nat → BitVec 16
  | 0, buffer => buffer
  | x + 1, buffer =>
    let buffer := ttyFillRow entry y x buffer
    Function.update buffer (y * screenWidth + x) entry

/-- The outer loop of `tty_clear`. -/
def ttyFillRows (entry : BitVec 16) : Nat → (Nat → BitVec 16) → Nat → BitVec 16
  | 0, buffer => buffer
  | y + 1, buffer => ttyFillRow entry y screenWidth (ttyFillRows entry y buffer)

/-- `tty_clear`. -/
def ttyClear (tty : Tty) : Tty :=
  let color := vgaColorEntry vgaColorWhite vgaColorBlack
  let buffer := ttyFillRows (vgaEntry blank color) screenHeight tty.buffer
  updateCursor 0 0 { tty with color := color, buffer := buffer, xpos := 0, ypos := 0 }

/-- The inner loop of `tty_scroll` that moves row `y + 1` up. -/
def ttyMoveRow (y : Nat) : Nat → (Nat → BitVec 16) → Nat → BitVec 16
  | 0, buffer => buffer
  | x + 1, buffer =>
    let buffer := ttyMoveRow y x buffer
    let index := y * screenWidth + x
    let copy_index := (y + 1) * screenWidth + x
    Function.update buffer index (buffer copy_index)

/-- The outer loop of `tty_scroll`. -/
def ttyMoveRows : Nat → (Nat → BitVec 16) → Nat → BitVec 16
  | 0, buffer => buffer
  | y + 1, buffer => ttyMoveRow y screenWidth (ttyMoveRows y buffer)

/-- `tty_scroll`.  The entries of the last row are the character without a colour. -/
def ttyScroll (tty : Tty) : Tty :=
  let buffer := ttyMoveRows (screenHeight - 1) tty.buffer
  let buffer := ttyFillRow (blank.setWidth 16) (screenHeight - 1) screenWidth buffer
  { tty with buffer := buffer, ypos := sub32 tty.ypos 1 }

/-- `tty_putentryat`. -/
def ttyPutentryat (c color : BitVec 8) (x y : Nat) (tty : Tty) : Tty :=
  { tty with buffer := Function.update tty.buffer (y * screenWidth + x) (vgaEntry c color) }

/-- The step to the next row, which `tty_putc` makes in two places. -/
def ttyNextRow (tty : Tty) : Tty :=
  let tty := { tty with xpos := 0, ypos := u32 (tty.ypos + 1) }
  if tty.ypos = screenHeight then ttyScroll tty else tty

/-- The last part of `tty_putc`, for a character that takes a cell. -/
def ttyPutCell (c : BitVec 8) (tty : Tty) : Tty :=
  let tty := ttyPutentryat c tty.color tty.xpos tty.ypos tty
  let tty := { tty with xpos := u32 (tty.xpos + 1) }
  let tty := if tty.xpos = screenWidth then ttyNextRow tty else tty
  updateCursor tty.xpos tty.ypos tty

/-- `tty_putc`.  The calls that a tab makes are for a blank, which takes a cell. -/
def ttyPutc (c : BitVec 8) (tty : Tty) : Tty :=
  if c = 10 then
    let tty := ttyNextRow tty
    updateCursor tty.xpos tty.ypos tty
  else if c = 9 then (ttyPutCell blank)^[8 - tty.xpos % 8] tty
  else ttyPutCell c tty

/-- `tty_deleteprev`. -/
def ttyDeleteprev (tty : Tty) : Tty :=
  if tty.xpos = 0 ∧ tty.ypos = 0 then tty
  else
    let tty := if tty.xpos = 0 then { tty with xpos := screenWidth - 1, ypos := sub32 tty.ypos 1 }
      else { tty with xpos := sub32 tty.xpos 1 }
    let tty := ttyPutentryat blank tty.color tty.xpos tty.ypos tty
    updateCursor tty.xpos tty.ypos tty

/-- `tty_write`. -/
def ttyWrite (str : List (BitVec 8)) (tty : Tty) : Tty :=
  str.foldl (fun tty c => ttyPutc c tty) tty

/-! ### The layout of a text -/

/-- A byte of the text. -/
def typeByte (p : Page (BitVec 8)) (c : BitVec 8) : Page (BitVec 8) :=
  if c = 10 then p.newline
  else if c = 9 then p.tab 80 8 32
  else p.put 80 c

/-- The text on a page of 80 columns with as many rows as it needs. -/
def layout (str : List (BitVec 8)) : Page (BitVec 8) := str.foldl typeByte (Page.empty 32)

/-- The character byte of the entry at row `y` and column `x`. -/
def Tty.char (tty : Tty) (y x : Nat) : BitVec 8 := (tty.buffer (80 * y + x)).setWidth 8

/-- The place of the blinking cursor. -/
def Tty.cursor (tty : Tty) : Nat := 256 * tty.cursorHigh.toNat + tty.cursorLow.toNat

/-- The screen shows the page, with the cursor where the page has it. -/
structure Shows (tty : Tty) (p : Page (BitVec 8)) : Prop where
  char : ∀ y < 25, ∀ x < 80, tty.char y x = p.shown 25 y x
  xpos : tty.xpos = p.col
  ypos : p.top 25 + tty.ypos = p.row
  cursor : tty.cursor = 80 * tty.ypos + tty.xpos

/-! ### The loops -/

theorem ttyFillRow_apply (entry : BitVec 16) (buffer : Nat → BitVec 16) (y n i : Nat) :
    ttyFillRow entry y n buffer i = if 80 * y ≤ i ∧ i < 80 * y + n then entry else buffer i := by
  induction n with
  | zero => rw [ttyFillRow, if_neg (by omega)]
  | succ n ih =>
    rw [ttyFillRow, Function.update_apply, ih, screenWidth]
    by_cases hi : i = y * 80 + n
    · rw [if_pos hi, if_pos (by omega)]
    · rw [if_neg hi]
      exact if_congr (by omega) rfl rfl

theorem ttyFillRows_apply (entry : BitVec 16) (buffer : Nat → BitVec 16) (n i : Nat) :
    ttyFillRows entry n buffer i = if i < 80 * n then entry else buffer i := by
  induction n with
  | zero => rw [ttyFillRows, if_neg (by omega)]
  | succ n ih =>
    rw [ttyFillRows, ttyFillRow_apply, ih, screenWidth]
    split_ifs <;> first | rfl | omega

theorem ttyMoveRow_apply (buffer : Nat → BitVec 16) (y : Nat) {n : Nat} (hn : n ≤ 80) (i : Nat) :
    ttyMoveRow y n buffer i =
      if 80 * y ≤ i ∧ i < 80 * y + n then buffer (i + 80) else buffer i := by
  induction n generalizing i with
  | zero => rw [ttyMoveRow, if_neg (by omega)]
  | succ n ih =>
    rw [ttyMoveRow, Function.update_apply, ih (by omega), ih (by omega), screenWidth]
    by_cases hi : i = y * 80 + n
    · rw [if_pos hi, if_neg (by omega), if_pos (by omega)]
      exact congrArg buffer (by omega)
    · rw [if_neg hi]
      exact if_congr (by omega) rfl rfl

theorem ttyMoveRows_apply (buffer : Nat → BitVec 16) (n i : Nat) :
    ttyMoveRows n buffer i = if i < 80 * n then buffer (i + 80) else buffer i := by
  induction n generalizing i with
  | zero => rw [ttyMoveRows, if_neg (by omega)]
  | succ n ih =>
    rw [ttyMoveRows, screenWidth, ttyMoveRow_apply _ _ le_rfl, ih, ih]
    split_ifs <;> first | rfl | omega

/-! ### Entries and the cursor -/

theorem setWidth_vgaEntry (uc color : BitVec 8) : (vgaEntry uc color).setWidth 8 = uc := by
  ext i hi
  simp [vgaEntry]

theorem cursor_updateCursor (x y : Nat) (tty : Tty) :
    (updateCursor x y tty).cursor = (80 * y + x) % 65536 := by
  have hand : ∀ v : BitVec 16, (v &&& 0xFF).toNat = v.toNat % 256 := by
    intro v
    rw [BitVec.toNat_and]
    exact Nat.and_two_pow_sub_one_eq_mod _ 8
  simp only [Tty.cursor, updateCursor, BitVec.toNat_setWidth, hand, BitVec.toNat_ushiftRight,
    BitVec.toNat_ofNat, Nat.shiftRight_eq_div_pow, screenWidth]
  omega

/-! ### The screen shows the page -/

section Simulation

variable {t : Tty} {p : Page (BitVec 8)}

theorem Shows.updateCursor (hchar : ∀ y < 25, ∀ x < 80, t.char y x = p.shown 25 y x)
    (hx : t.xpos = p.col) (hy : p.top 25 + t.ypos = p.row) (hp : p.Fits blank 80) :
    Shows (Terminal.updateCursor t.xpos t.ypos t) p := by
  have hlt := hp.col_lt
  rw [Page.top] at hy
  refine ⟨hchar, hx, hy, ?_⟩
  rw [cursor_updateCursor]
  exact Nat.mod_eq_of_lt (by omega)

/-- **The next row**: the screen scrolls when the cursor was in the last one. -/
theorem nextRow_shows (hchar : ∀ y < 25, ∀ x < 80, t.char y x = p.shown 25 y x)
    (hy : p.top 25 + t.ypos = p.row) (hp : p.Fits blank 80) :
    (∀ y < 25, ∀ x < 80, (ttyNextRow t).char y x = p.newline.shown 25 y x) ∧
      (ttyNextRow t).xpos = 0 ∧ p.newline.top 25 + (ttyNextRow t).ypos = p.row + 1 := by
  have htop : p.newline.top 25 = p.row + 2 - 25 := rfl
  rw [Page.top] at hy
  have hu : u32 (t.ypos + 1) = t.ypos + 1 := u32_of_lt (by omega)
  simp only [ttyNextRow, hu, screenHeight]
  by_cases hlast : t.ypos + 1 = 25
  · simp only [if_pos hlast]
    refine ⟨?_, rfl, ?_⟩
    · intro y hy25 x hx
      rw [Page.shown_newline hp hy25, if_neg (by omega)]
      simp only [Tty.char, ttyScroll, screenHeight, screenWidth, ttyFillRow_apply,
        ttyMoveRows_apply]
      by_cases hlow : y + 1 < 25
      · rw [if_neg (by omega), if_pos (by omega), if_pos hlow, ← hchar (y + 1) hlow x hx, Tty.char]
        exact congrArg (fun i => (t.buffer i).setWidth 8) (by omega)
      · rw [if_pos (by omega), if_neg hlow]
        rfl
    · show p.newline.top 25 + sub32 (t.ypos + 1) 1 = p.row + 1
      rw [htop, sub32_of_le (by omega) (by omega)]
      omega
  · simp only [if_neg hlast]
    refine ⟨?_, trivial, ?_⟩
    · intro y hy25 x hx
      rw [Page.shown_newline hp hy25, if_pos (by omega)]
      exact hchar y hy25 x hx
    · rw [htop]
      omega

theorem char_ttyPutentryat (h : Shows t p) (hp : p.Fits blank 80) (c : BitVec 8) :
    ∀ y < 25, ∀ x < 80,
      (ttyPutentryat c t.color t.xpos t.ypos t).char y x = (p.setCell c).shown 25 y x := by
  intro y hy x hx
  have hlt := hp.col_lt
  have hypos := h.ypos
  have hxpos := h.xpos
  simp only [Page.shown_setCell, Tty.char, ttyPutentryat, Function.update_apply, screenWidth]
  by_cases hat : p.top 25 + y = p.row ∧ x = p.col
  · rw [if_pos hat, if_pos (by omega), setWidth_vgaEntry]
  · rw [if_neg hat, if_neg (by omega)]
    exact h.char y hy x hx

/-- **A character that takes a cell.** -/
theorem Shows.putCell (h : Shows t p) (hp : p.Fits blank 80) (c : BitVec 8) :
    Shows (ttyPutCell c t) (p.put 80 c) := by
  have hlt := hp.col_lt
  have hxpos := h.xpos
  have hchar := char_ttyPutentryat h hp c
  have hfits := hp.put c
  have hu : u32 (t.xpos + 1) = t.xpos + 1 := u32_of_lt (by omega)
  rw [Page.put] at hfits ⊢
  simp only [ttyPutCell, ttyPutentryat, hu, screenWidth] at hchar ⊢
  by_cases hend : p.col + 1 = 80
  · rw [if_pos hend] at hfits ⊢
    simp only [if_pos (show t.xpos + 1 = 80 by omega)]
    obtain ⟨hrow, hx, hy⟩ := nextRow_shows (t := { t with
      buffer := Function.update t.buffer (t.ypos * 80 + t.xpos) (vgaEntry c t.color)
      xpos := t.xpos + 1 }) (p := p.setCell c) hchar h.ypos (hp.setCell c)
    exact Shows.updateCursor hrow hx hy hfits
  · rw [if_neg hend] at hfits ⊢
    simp only [if_neg (show ¬ t.xpos + 1 = 80 by omega)]
    exact Shows.updateCursor (t := { t with
      buffer := Function.update t.buffer (t.ypos * 80 + t.xpos) (vgaEntry c t.color)
      xpos := t.xpos + 1 }) (p := { p.setCell c with col := p.col + 1 }) hchar
      (by dsimp only; omega) h.ypos hfits

theorem Shows.putCells (h : Shows t p) (hp : p.Fits blank 80) (c : BitVec 8) (n : Nat) :
    Shows ((ttyPutCell c)^[n] t) ((Page.put 80 c)^[n] p) ∧
      ((Page.put 80 c)^[n] p).Fits blank 80 := by
  induction n generalizing t p with
  | zero => exact ⟨h, hp⟩
  | succ n ih => exact ih (h.putCell hp c) (hp.put c)

/-- **`tty_putc` writes a byte of the text.** -/
theorem Shows.putc (h : Shows t p) (hp : p.Fits blank 80) (c : BitVec 8) :
    Shows (ttyPutc c t) (typeByte p c) ∧ (typeByte p c).Fits blank 80 := by
  rw [ttyPutc, typeByte]
  split
  · obtain ⟨hchar, hx, hy⟩ := nextRow_shows h.char h.ypos hp
    exact ⟨Shows.updateCursor hchar hx hy hp.newline, hp.newline⟩
  · split
    · have hstop : (p.col / 8 + 1) * 8 - p.col = 8 - t.xpos % 8 := by
        rw [h.xpos]
        omega
      rw [Page.tab, hstop]
      exact h.putCells hp blank _
    · exact ⟨h.putCell hp c, hp.put c⟩

theorem Shows.write (h : Shows t p) (hp : p.Fits blank 80) (str : List (BitVec 8)) :
    Shows (ttyWrite str t) (str.foldl typeByte p) := by
  induction str generalizing t p with
  | nil => exact h
  | cons c str ih =>
    obtain ⟨hc, hpc⟩ := h.putc hp c
    exact ih hc hpc

theorem Shows.clear (t : Tty) : Shows (ttyClear t) (Page.empty blank) := by
  refine Shows.updateCursor (t := { t with
    color := vgaColorEntry vgaColorWhite vgaColorBlack
    buffer := ttyFillRows (vgaEntry blank (vgaColorEntry vgaColorWhite vgaColorBlack))
      screenHeight t.buffer
    xpos := 0
    ypos := 0 }) ?_ rfl rfl (Page.Fits.empty (by decide))
  intro y hy x hx
  simp only [Tty.char, ttyFillRows_apply, screenHeight]
  rw [if_pos (by omega), setWidth_vgaEntry]
  rfl

end Simulation

/-- **The screen shows the layout of the text**: its last 25 rows, or the first 25 while the
cursor is in one of them. -/
theorem shows_layout (tty : Tty) (str : List (BitVec 8)) :
    Shows (ttyWrite str (ttyClear tty)) (layout str) :=
  (Shows.clear tty).write (Page.Fits.empty (by decide)) str

end Aosis.Terminal
