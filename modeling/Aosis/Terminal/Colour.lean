import Aosis.Terminal.Bounds

/-!
# The colour of the cells

`tty_clear` and `tty_putentryat` store entries with the colour of the terminal, but `tty_scroll` fills
the last row with entries that have none.  The last cell of that row keeps such an entry: the character
that would overwrite it makes the screen scroll again.

Whether the screen scrolls depends on the cursor only.  `Cursor` is the cursor by itself, with a note
that says whether the screen has scrolled since it was cleared.

* `Tracks.exec`: the terminal follows the cursor.
* `colourLaw_iff`: all cells have the colour of the terminal as long as the screen does not scroll.
-/

namespace Aosis.Terminal

/-! ### The cursor -/

/-- The place of the cursor, and whether the screen has scrolled since it was cleared. -/
structure Cursor where
  xpos : Nat
  ypos : Nat
  scrolled : Bool

namespace Cursor

/-- After `tty_clear`. -/
def start : Cursor := ⟨0, 0, false⟩

/-- The step to the next row. -/
def nextRow (k : Cursor) : Cursor :=
  if k.ypos + 1 = 25 then ⟨0, k.ypos, true⟩ else ⟨0, k.ypos + 1, k.scrolled⟩

/-- The step over a cell. -/
def putCell (k : Cursor) : Cursor :=
  if k.xpos + 1 = 80 then k.nextRow else { k with xpos := k.xpos + 1 }

/-- A character. -/
def putc (c : BitVec 8) (k : Cursor) : Cursor :=
  if c = 10 then k.nextRow else if c = 9 then putCell^[8 - k.xpos % 8] k else k.putCell

/-- The step back. -/
def deleteprev (k : Cursor) : Cursor :=
  if k.xpos = 0 ∧ k.ypos = 0 then k
  else if k.xpos = 0 then { k with xpos := 79, ypos := k.ypos - 1 }
  else { k with xpos := k.xpos - 1 }

end Cursor

/-- The cursor after a call. -/
def Screen.Call.move : Screen.Call → Cursor → Cursor
  | .ttyPutc c, k => Cursor.putc c k
  | .ttyPrintstr str, k => Print.ttyPrintstr Cursor.putc str k
  | .ttyWrite str, k => Print.ttyWrite Cursor.putc str k
  | .ttyPrintint num, k => Print.ttyPrintint Cursor.putc num k
  | .ttyPrinthex num, k => Print.ttyPrinthex Cursor.putc num k
  | .kprintf strAt format args, k => (Print.kprintf Cursor.putc strAt format args k).2
  | .ttyDeleteprev, k => k.deleteprev
  | .ttyClear, _ => Cursor.start

/-! ### The attributes -/

/-- The colour byte of a cell. -/
def Tty.attribute (t : Tty) (i : Nat) : BitVec 8 := (t.buffer i).extractLsb' 8 8

/-- Every cell of the screen has the colour of the terminal. -/
def Coloured (t : Tty) : Prop := ∀ i < 2000, t.attribute i = t.color

/-- After `initialize_terminal` and any of the calls every cell has the colour of the terminal. -/
def ColourLaw (t : Tty) (calls : List Screen.Call) : Prop :=
  ∀ p, p <+: calls →
    Coloured (p.foldl (fun s call => call.exec s) (Screen.initializeTerminal ⟨t, []⟩)).toTty

theorem attribute_vgaEntry (uc color : BitVec 8) : (vgaEntry uc color).extractLsb' 8 8 = color := by
  apply BitVec.eq_of_getLsbD_eq
  intro i hi
  simp [vgaEntry, hi, show 8 + i < 16 by omega]

/-- `VGA_COLOR_WHITE` on `VGA_COLOR_BLACK`, the only colour of the terminal. -/
def white : BitVec 8 := vgaColorEntry vgaColorWhite vgaColorBlack

/-- The cells after `tty_clear`: all of them have the colour until the screen scrolls, and then the last
one has none. -/
structure Cells (t : Tty) (scrolled : Bool) : Prop where
  color : t.color = white
  coloured : scrolled = false → Coloured t
  last : scrolled = true → t.attribute 1999 = 0

/-- The terminal follows the cursor. -/
structure Tracks (t : Tty) (k : Cursor) : Prop where
  xpos : t.xpos = k.xpos
  ypos : t.ypos = k.ypos
  xpos_lt : k.xpos < 80
  ypos_lt : k.ypos < 25
  cells : Cells t k.scrolled

section Cells

variable {t t' : Tty} {k : Cursor} {b : Bool}

theorem Cells.congr (h : Cells t b) (hcolor : t'.color = t.color) (hbuffer : t'.buffer = t.buffer) :
    Cells t' b := by
  have hattribute : t'.attribute = t.attribute := by
    funext i
    rw [Tty.attribute, Tty.attribute, hbuffer]
  refine ⟨hcolor.trans h.color, ?_, ?_⟩
  · intro hb i hi
    rw [hattribute, hcolor]
    exact h.coloured hb i hi
  · intro hb
    rw [hattribute]
    exact h.last hb

theorem Cells.putentryat (h : Cells t b) {x y : Nat} (hlast : b = true → y * 80 + x ≠ 1999)
    (c : BitVec 8) : Cells (ttyPutentryat c t.color x y t) b := by
  have hattribute : ∀ i, (ttyPutentryat c t.color x y t).attribute i =
      if i = y * 80 + x then t.color else t.attribute i := by
    intro i
    rw [Tty.attribute, ttyPutentryat, screenWidth]
    dsimp only
    rw [Function.update_apply]
    split
    · exact attribute_vgaEntry c t.color
    · rfl
  refine ⟨h.color, ?_, ?_⟩
  · intro hb i hi
    rw [hattribute]
    split
    · rfl
    · exact h.coloured hb i hi
  · intro hb
    rw [hattribute, if_neg (hlast hb).symm]
    exact h.last hb

/-- **Scrolling leaves a last row without colour.** -/
theorem Cells.scroll (hcolor : t.color = white) : Cells (ttyScroll t) true := by
  refine ⟨?_, ?_, ?_⟩
  · rw [ttyScroll]
    exact hcolor
  · intro hb
    cases hb
  · intro _
    rw [Tty.attribute, ttyScroll]
    dsimp only
    rw [ttyFillRow_apply, if_pos (by decide)]
    rfl

theorem Cells.clear (t : Tty) : Cells (ttyClear t) false := by
  refine ⟨rfl, ?_, ?_⟩
  · intro _ i hi
    rw [Tty.attribute, ttyClear, updateCursor]
    dsimp only
    rw [ttyFillRows_apply, if_pos (by rw [screenHeight]; omega), attribute_vgaEntry]
  · intro hb
    cases hb

end Cells

/-! ### Calls -/

section Tracks

variable {t : Tty} {k : Cursor}

theorem Tracks.updateCursor (h : Tracks t k) : Tracks (Terminal.updateCursor t.xpos t.ypos t) k :=
  ⟨h.xpos, h.ypos, h.xpos_lt, h.ypos_lt, h.cells.congr rfl rfl⟩

/-- The next row.  Of the cells nothing is assumed when the screen scrolls. -/
theorem Tracks.of_nextRow (hcolor : t.color = white) (hypos : t.ypos = k.ypos) (hlt : k.ypos < 25)
    (hcells : k.ypos + 1 ≠ 25 → Cells t k.scrolled) : Tracks (ttyNextRow t) k.nextRow := by
  have hu : u32 (t.ypos + 1) = k.ypos + 1 := by rw [hypos, u32_of_lt (by omega)]
  rw [ttyNextRow, Cursor.nextRow, hu, screenHeight]
  by_cases hend : k.ypos + 1 = 25
  · have hrow : sub32 (k.ypos + 1) 1 = k.ypos := sub32_of_le (by omega) (by omega)
    dsimp only
    rw [if_pos hend, if_pos hend]
    exact ⟨rfl, hrow, Nat.succ_pos 79, hlt, Cells.scroll hcolor⟩
  · dsimp only
    rw [if_neg hend, if_neg hend]
    exact ⟨rfl, rfl, Nat.succ_pos 79, by dsimp only; omega, (hcells hend).congr rfl rfl⟩

/-- **A character that takes a cell.**  In the last cell it makes the screen scroll. -/
theorem Tracks.putCell (h : Tracks t k) (c : BitVec 8) : Tracks (ttyPutCell c t) k.putCell := by
  have hx := h.xpos
  have hy := h.ypos
  have hxlt := h.xpos_lt
  have hylt := h.ypos_lt
  have hu : u32 (t.xpos + 1) = k.xpos + 1 := by rw [hx, u32_of_lt (by omega)]
  have hput : k.xpos + 1 ≠ 80 ∨ k.ypos + 1 ≠ 25 →
      Cells (ttyPutentryat c t.color t.xpos t.ypos t) k.scrolled := by
    intro hne
    exact h.cells.putentryat (fun _ => by omega) c
  rw [ttyPutCell, Cursor.putCell]
  generalize ht' : ttyPutentryat c t.color t.xpos t.ypos t = t' at hput
  have hx' : t'.xpos = t.xpos := by rw [← ht']; rfl
  have hy' : t'.ypos = k.ypos := by rw [← ht']; exact hy
  have hcolor : t'.color = white := by rw [← ht']; exact h.cells.color
  dsimp only
  rw [hx', hu, screenWidth]
  by_cases hend : k.xpos + 1 = 80
  · rw [if_pos hend, if_pos hend]
    exact (Tracks.of_nextRow (t := { t' with xpos := k.xpos + 1 }) hcolor hy' hylt
      fun hne => (hput (Or.inr hne)).congr rfl rfl).updateCursor
  · rw [if_neg hend, if_neg hend]
    have htracks : Tracks { t' with xpos := k.xpos + 1 } { k with xpos := k.xpos + 1 } :=
      ⟨rfl, hy', by dsimp only; omega, hylt, (hput (Or.inl hend)).congr rfl rfl⟩
    exact htracks.updateCursor

/-- **`tty_putc` follows the cursor.** -/
theorem Tracks.putc (h : Tracks t k) (c : BitVec 8) : Tracks (ttyPutc c t) (k.putc c) := by
  rw [ttyPutc, Cursor.putc]
  split
  · exact (Tracks.of_nextRow h.cells.color h.ypos h.ypos_lt fun _ => h.cells).updateCursor
  · split
    · rw [h.xpos]
      generalize 8 - k.xpos % 8 = n
      induction n generalizing t k with
      | zero => exact h
      | succ n ih => exact ih (h.putCell blank)
    · exact h.putCell c

/-- **`tty_deleteprev` follows the cursor.**  The cell before the cursor is not the last one. -/
theorem Tracks.deleteprev (h : Tracks t k) : Tracks (ttyDeleteprev t) k.deleteprev := by
  have hx := h.xpos
  have hy := h.ypos
  have hxlt := h.xpos_lt
  have hylt := h.ypos_lt
  by_cases hstart : k.xpos = 0 ∧ k.ypos = 0
  · rw [ttyDeleteprev, Cursor.deleteprev, hx, hy, if_pos hstart, if_pos hstart]
    exact h
  · rw [ttyDeleteprev_eq (by omega) (by omega) (by rw [hx, hy]; exact hstart), Cursor.deleteprev,
      if_neg hstart, Tty.prevCol, Tty.prevRow, hx, hy]
    by_cases hcol : k.xpos = 0
    · rw [if_pos hcol, if_pos hcol, if_pos hcol]
      have hcells := h.cells.putentryat (x := 79) (y := k.ypos - 1) (fun _ => by omega) blank
      exact ⟨rfl, rfl, Nat.lt_succ_self 79, by dsimp only; omega, hcells.congr rfl rfl⟩
    · rw [if_neg hcol, if_neg hcol, if_neg hcol]
      have hcells := h.cells.putentryat (x := k.xpos - 1) (y := k.ypos) (fun _ => by omega) blank
      exact ⟨rfl, rfl, by dsimp only; omega, hylt, hcells.congr rfl rfl⟩

theorem Tracks.clear (t : Tty) : Tracks (ttyClear t) Cursor.start :=
  ⟨rfl, rfl, by decide, by decide, Cells.clear t⟩

/-- The printing functions follow the cursor, because they only write characters. -/
theorem Tracks.ttyWrite {s : Screen} (h : Tracks s.toTty k) (str : List (BitVec 8)) :
    Tracks (Print.ttyWrite Screen.ttyPutc str s).toTty (Print.ttyWrite Cursor.putc str k) := by
  refine Print.ttyWrite_rel (R := fun (s : Screen) k => Tracks s.toTty k) ?_ str h
  intro c s k hs
  rw [Screen.toTty_ttyPutc]
  exact hs.putc c

/-- **A call follows the cursor.** -/
theorem Tracks.exec {s : Screen} (h : Tracks s.toTty k) (call : Screen.Call) :
    Tracks (call.exec s).toTty (call.move k) := by
  cases call with
  | ttyPutc c =>
    rw [Screen.Call.exec, Screen.toTty_ttyPutc]
    exact h.putc c
  | ttyPrintstr str =>
    rw [Screen.Call.exec, Screen.Call.move, Print.ttyPrintstr_eq, Print.ttyPrintstr_eq]
    exact h.ttyWrite _
  | ttyWrite str => exact h.ttyWrite str
  | ttyPrintint num =>
    rw [Screen.Call.exec, Screen.Call.move, Print.ttyPrintint_eq, Print.ttyPrintint_eq]
    exact h.ttyWrite _
  | ttyPrinthex num =>
    rw [Screen.Call.exec, Screen.Call.move, Print.ttyPrinthex_eq, Print.ttyPrinthex_eq]
    exact h.ttyWrite _
  | kprintf strAt format args =>
    rw [Screen.Call.exec, Screen.Call.move, Print.kprintf_eq, Print.kprintf_eq]
    exact h.ttyWrite _
  | ttyDeleteprev =>
    rw [Screen.Call.exec, Screen.toTty_ttyDeleteprev]
    exact h.deleteprev
  | ttyClear =>
    rw [Screen.Call.exec, Screen.toTty_ttyClear]
    exact Tracks.clear s.toTty

theorem tracks_initializeTerminal (s : Screen) :
    Tracks (Screen.initializeTerminal s).toTty Cursor.start := by
  have hclear := Tracks.clear s.toTty
  rw [← Screen.toTty_ttyClear] at hclear
  rw [Screen.initializeTerminal, Screen.toTty_updateCursor]
  generalize Screen.ttyClear s = s' at hclear
  exact ⟨rfl, rfl, hclear.xpos_lt, hclear.ypos_lt, hclear.cells.congr rfl rfl⟩

theorem tracks_of_calls (calls : List Screen.Call) {s : Screen} (h : Tracks s.toTty k) :
    Tracks (calls.foldl (fun s call => call.exec s) s).toTty
      (calls.foldl (fun k call => call.move k) k) := by
  induction calls generalizing s k with
  | nil => exact h
  | cons call calls ih => exact ih (h.exec call)

/-- After a scroll the last cell has another colour. -/
theorem Tracks.coloured_iff (h : Tracks t k) : Coloured t ↔ k.scrolled = false := by
  constructor
  · intro hcoloured
    by_contra hscrolled
    have hlast := h.cells.last (by simpa using hscrolled)
    rw [hcoloured 1999 (by decide), h.cells.color] at hlast
    exact absurd hlast (by decide)
  · exact h.cells.coloured

/-- **When every cell has the colour of the terminal.**  After `initialize_terminal` and any sequence of
calls this is so if and only if the screen has not scrolled since it was cleared. -/
theorem coloured_calls_iff (t : Tty) (calls : List Screen.Call) :
    Coloured (calls.foldl (fun s call => call.exec s) (Screen.initializeTerminal ⟨t, []⟩)).toTty ↔
      (calls.foldl (fun k call => call.move k) Cursor.start).scrolled = false :=
  (tracks_of_calls calls (tracks_initializeTerminal ⟨t, []⟩)).coloured_iff

/-- **When all cells keep the colour of the terminal**: in every run this is so after each call if and
only if the cursor never leaves the last row, which would make the screen scroll. -/
theorem colourLaw_iff (t : Tty) (calls : List Screen.Call) : ColourLaw t calls ↔
    ∀ p, p <+: calls → (p.foldl (fun k call => call.move k) Cursor.start).scrolled = false :=
  forall₂_congr fun p _ => coloured_calls_iff t p

end Tracks

/-- A screen full of newlines: the last row has lost its colour. -/
theorem not_colourLaw_newlines : ¬ ColourLaw ttyStatic (List.replicate 25 (.ttyPutc 10)) := by
  intro h
  have hscrolled := (coloured_calls_iff ttyStatic _).mp (h _ List.prefix_rfl)
  exact absurd hscrolled (by decide)

end Aosis.Terminal
