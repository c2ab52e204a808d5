import Aosis.Terminal.Print
import Aosis.Terminal.Tty

/-!
# The accesses to the screen

The functions of `kernel/terminal/tty.c` once more, on a screen that notes every access to
`tty_buffer` and every position that goes to the VGA controller.

* `toTty_ttyPutc` and the lemmas before it: apart from the notes these are the functions of `Tty`.
* `Good.ttyPutc` and the lemmas about the other functions: they leave the cursor on the screen, and
  every access is to one of its 2000 cells.
* `good_of_calls`: so it is after `initialize_terminal` and any calls.
-/

namespace Aosis.Terminal

/-! ### The cursor -/

/-- The cursor is on the screen, and the VGA controller knows its place. -/
structure Tty.OnScreen (t : Tty) : Prop where
  xpos : t.xpos < 80
  ypos : t.ypos < 25
  cursor : t.cursor = 80 * t.ypos + t.xpos

section Cursor

variable {t : Tty}

theorem Tty.OnScreen.updateCursor {x y : Nat} (hx : x < 80) (hy : y < 25) (t : Tty) :
    (Terminal.updateCursor x y t).OnScreen := by
  refine ⟨hx, hy, ?_⟩
  rw [cursor_updateCursor]
  exact Nat.mod_eq_of_lt (by omega)

/-- The next row is on the screen, because the screen scrolls after the last one. -/
theorem onScreen_nextRow (hy : t.ypos < 25) :
    (ttyNextRow t).xpos = 0 ∧ (ttyNextRow t).ypos < 25 := by
  have hu : u32 (t.ypos + 1) = t.ypos + 1 := u32_of_lt (by omega)
  simp only [ttyNextRow, hu, screenHeight]
  by_cases hlast : t.ypos + 1 = 25
  · simp only [if_pos hlast]
    refine ⟨rfl, ?_⟩
    show sub32 (t.ypos + 1) 1 < 25
    rw [sub32_of_le (by omega) (by omega)]
    omega
  · simp only [if_neg hlast]
    exact ⟨trivial, by omega⟩

theorem Tty.OnScreen.putCell (h : t.OnScreen) (c : BitVec 8) : (ttyPutCell c t).OnScreen := by
  have hx := h.xpos
  have hu : u32 (t.xpos + 1) = t.xpos + 1 := u32_of_lt (by omega)
  simp only [ttyPutCell, ttyPutentryat, hu, screenWidth]
  by_cases hend : t.xpos + 1 = 80
  · simp only [if_pos hend]
    generalize ht' : ({ t with
      buffer := Function.update t.buffer (t.ypos * 80 + t.xpos) (vgaEntry c t.color)
      xpos := t.xpos + 1 } : Tty) = t'
    have hy' : t'.ypos < 25 := by rw [← ht']; exact h.ypos
    obtain ⟨hcol, hrow⟩ := onScreen_nextRow hy'
    exact Tty.OnScreen.updateCursor (by rw [hcol]; decide) hrow _
  · simp only [if_neg hend]
    exact Tty.OnScreen.updateCursor (by omega) h.ypos _

theorem Tty.OnScreen.putc (h : t.OnScreen) (c : BitVec 8) : (ttyPutc c t).OnScreen := by
  rw [ttyPutc]
  split
  · obtain ⟨hcol, hrow⟩ := onScreen_nextRow h.ypos
    exact Tty.OnScreen.updateCursor (by rw [hcol]; decide) hrow _
  · split
    · generalize 8 - t.xpos % 8 = n
      induction n generalizing t with
      | zero => exact h
      | succ n ih => exact ih (h.putCell blank)
    · exact h.putCell c

/-- The column of the cell before the cursor. -/
def Tty.prevCol (t : Tty) : Nat := if t.xpos = 0 then 79 else t.xpos - 1

/-- The row of the cell before the cursor. -/
def Tty.prevRow (t : Tty) : Nat := if t.xpos = 0 then t.ypos - 1 else t.ypos

theorem ttyDeleteprev_eq (hx : t.xpos < 80) (hy : t.ypos < 25) (h : ¬ (t.xpos = 0 ∧ t.ypos = 0)) :
    ttyDeleteprev t = Terminal.updateCursor t.prevCol t.prevRow
      (ttyPutentryat blank t.color t.prevCol t.prevRow t) := by
  rw [ttyDeleteprev, if_neg h, Tty.prevCol, Tty.prevRow]
  by_cases hcol : t.xpos = 0
  · have hsub : sub32 t.ypos 1 = t.ypos - 1 := sub32_of_le (by omega) (by omega)
    simp only [if_pos hcol, hsub]
    rfl
  · have hsub : sub32 t.xpos 1 = t.xpos - 1 := sub32_of_le (by omega) (by omega)
    simp only [if_neg hcol, hsub]
    rfl

theorem Tty.OnScreen.prev_lt (h : t.OnScreen) : t.prevCol < 80 ∧ t.prevRow < 25 := by
  have hx := h.xpos
  have hy := h.ypos
  rw [Tty.prevCol, Tty.prevRow]
  constructor <;> split <;> omega

theorem Tty.OnScreen.deleteprev (h : t.OnScreen) : (ttyDeleteprev t).OnScreen := by
  by_cases hstart : t.xpos = 0 ∧ t.ypos = 0
  · rw [ttyDeleteprev, if_pos hstart]
    exact h
  · obtain ⟨hcol, hrow⟩ := h.prev_lt
    rw [ttyDeleteprev_eq h.xpos h.ypos hstart]
    exact Tty.OnScreen.updateCursor hcol hrow _

theorem Tty.OnScreen.clear (t : Tty) : (ttyClear t).OnScreen :=
  Tty.OnScreen.updateCursor (by decide) (by decide) _

end Cursor

/-! ### The source, with notes -/

/-- An access to the buffer, or a position that goes to the VGA controller, with the cursor at that
moment. -/
inductive Access where
  | read (index : Nat)
  | write (index : Nat)
  | cursor (pos : BitVec 16) (xpos ypos : Nat)

/-- The index of a cell of the screen, or the position of the cursor. -/
def Access.InBounds : Access → Prop
  | .read index => index < 2000
  | .write index => index < 2000
  | .cursor pos xpos ypos => pos.toNat = ypos * 80 + xpos

/-- The terminal with its accesses. -/
structure Screen extends Tty where
  log : List Access

namespace Screen

/-- `tty_buffer[index] = entry`. -/
def writeCell (index : Nat) (entry : BitVec 16) (s : Screen) : Screen :=
  { s with buffer := Function.update s.buffer index entry, log := s.log ++ [.write index] }

/-- `tty_buffer[index]`. -/
def readCell (index : Nat) (s : Screen) : BitVec 16 × Screen :=
  (s.buffer index, { s with log := s.log ++ [.read index] })

/-- `update_cursor`. -/
def updateCursor (x y : Nat) (s : Screen) : Screen :=
  let s := { s with xpos := x, ypos := y }
  let pos := BitVec.ofNat 16 (y * screenWidth + x)
  { s with
    cursorLow := (pos &&& 0xFF).setWidth 8
    cursorHigh := ((pos >>> 8) &&& 0xFF).setWidth 8
    log := s.log ++ [.cursor pos s.xpos s.ypos] }

/-- The loops that store `entry` in row `y`, up to `n` turns. -/
def ttyFillRow (entry : BitVec 16) (y : Nat) : Nat → Screen → Screen
  | 0, s => s
  | x + 1, s => writeCell (y * screenWidth + x) entry (ttyFillRow entry y x s)

/-- The outer loop of `tty_clear`. -/
def ttyFillRows (entry : BitVec 16) : Nat → Screen → Screen
  | 0, s => s
  | y + 1, s => ttyFillRow entry y screenWidth (ttyFillRows entry y s)

/-- `tty_clear`. -/
def ttyClear (s : Screen) : Screen :=
  let color := vgaColorEntry vgaColorWhite vgaColorBlack
  let s := ttyFillRows (vgaEntry blank color) screenHeight { s with color := color }
  updateCursor 0 0 { s with xpos := 0, ypos := 0 }

/-- `initialize_terminal`.  The shape of the cursor is not part of the terminal's state. -/
def initializeTerminal (s : Screen) : Screen :=
  updateCursor 0 0 { ttyClear s with xpos := 0, ypos := 0 }

/-- The inner loop of `tty_scroll` that moves row `y + 1` up. -/
def ttyMoveRow (y : Nat) : Nat → Screen → Screen
  | 0, s => s
  | x + 1, s =>
    let s := ttyMoveRow y x s
    let index := y * screenWidth + x
    let copy_index := (y + 1) * screenWidth + x
    let (entry, s) := readCell copy_index s
    writeCell index entry s

/-- The outer loop of `tty_scroll`. -/
def ttyMoveRows : Nat → Screen → Screen
  | 0, s => s
  | y + 1, s => ttyMoveRow y screenWidth (ttyMoveRows y s)

/-- `tty_scroll`. -/
def ttyScroll (s : Screen) : Screen :=
  let s := ttyMoveRows (screenHeight - 1) s
  let s := ttyFillRow (blank.setWidth 16) (screenHeight - 1) screenWidth s
  { s with ypos := sub32 s.ypos 1 }

/-- `tty_putentryat`. -/
def ttyPutentryat (c color : BitVec 8) (x y : Nat) (s : Screen) : Screen :=
  writeCell (y * screenWidth + x) (vgaEntry c color) s

/-- The step to the next row. -/
def ttyNextRow (s : Screen) : Screen :=
  let s := { s with xpos := 0, ypos := u32 (s.ypos + 1) }
  if s.ypos = screenHeight then ttyScroll s else s

/-- The last part of `tty_putc`. -/
def ttyPutCell (c : BitVec 8) (s : Screen) : Screen :=
  let s := ttyPutentryat c s.color s.xpos s.ypos s
  let s := { s with xpos := u32 (s.xpos + 1) }
  let s := if s.xpos = screenWidth then ttyNextRow s else s
  updateCursor s.xpos s.ypos s

/-- `tty_putc`. -/
def ttyPutc (c : BitVec 8) (s : Screen) : Screen :=
  if c = 10 then
    let s := ttyNextRow s
    updateCursor s.xpos s.ypos s
  else if c = 9 then (ttyPutCell blank)^[8 - s.xpos % 8] s
  else ttyPutCell c s

/-- `tty_deleteprev`. -/
def ttyDeleteprev (s : Screen) : Screen :=
  if s.xpos = 0 ∧ s.ypos = 0 then s
  else
    let s := if s.xpos = 0 then { s with xpos := screenWidth - 1, ypos := sub32 s.ypos 1 }
      else { s with xpos := sub32 s.xpos 1 }
    let s := ttyPutentryat blank s.color s.xpos s.ypos s
    updateCursor s.xpos s.ypos s

/-! ### The terminal without the notes -/

theorem toTty_writeCell (index : Nat) (entry : BitVec 16) (s : Screen) :
    (writeCell index entry s).toTty =
      { s.toTty with buffer := Function.update s.buffer index entry } := rfl

theorem toTty_ttyPutentryat (c color : BitVec 8) (x y : Nat) (s : Screen) :
    (ttyPutentryat c color x y s).toTty = Terminal.ttyPutentryat c color x y s.toTty := rfl

theorem toTty_updateCursor (x y : Nat) (s : Screen) :
    (updateCursor x y s).toTty = Terminal.updateCursor x y s.toTty := rfl

theorem toTty_ttyFillRow (entry : BitVec 16) (y n : Nat) (s : Screen) :
    (ttyFillRow entry y n s).toTty =
      { s.toTty with buffer := Terminal.ttyFillRow entry y n s.buffer } := by
  induction n with
  | zero => rfl
  | succ n ih =>
    rw [ttyFillRow, toTty_writeCell, ih]
    rfl

theorem toTty_ttyFillRows (entry : BitVec 16) (n : Nat) (s : Screen) :
    (ttyFillRows entry n s).toTty =
      { s.toTty with buffer := Terminal.ttyFillRows entry n s.buffer } := by
  induction n with
  | zero => rfl
  | succ n ih =>
    rw [ttyFillRows, toTty_ttyFillRow, ih]
    rfl

theorem toTty_ttyMoveRow (y n : Nat) (s : Screen) : (ttyMoveRow y n s).toTty =
    { s.toTty with buffer := Terminal.ttyMoveRow y n s.buffer } := by
  induction n with
  | zero => rfl
  | succ n ih =>
    rw [ttyMoveRow, readCell]
    dsimp only
    rw [toTty_writeCell, ih]
    rfl

theorem toTty_ttyMoveRows (n : Nat) (s : Screen) : (ttyMoveRows n s).toTty =
    { s.toTty with buffer := Terminal.ttyMoveRows n s.buffer } := by
  induction n with
  | zero => rfl
  | succ n ih =>
    rw [ttyMoveRows, toTty_ttyMoveRow, ih]
    rfl

theorem toTty_ttyScroll (s : Screen) : (ttyScroll s).toTty = Terminal.ttyScroll s.toTty := by
  rw [ttyScroll, Terminal.ttyScroll]
  generalize screenHeight - 1 = rows
  generalize screenWidth = width
  have hfill := toTty_ttyFillRow (blank.setWidth 16) rows width (ttyMoveRows rows s)
  rw [toTty_ttyMoveRows] at hfill
  generalize ttyFillRow (blank.setWidth 16) rows width (ttyMoveRows rows s) = s' at hfill
  dsimp only
  rw [hfill]

theorem toTty_ttyNextRow (s : Screen) : (ttyNextRow s).toTty = Terminal.ttyNextRow s.toTty := by
  rw [ttyNextRow, Terminal.ttyNextRow]
  dsimp only
  split
  · exact toTty_ttyScroll _
  · rfl

theorem toTty_advance (s : Screen) :
    (let s := if s.xpos = screenWidth then ttyNextRow s else s
    updateCursor s.xpos s.ypos s).toTty =
      let t := if s.xpos = screenWidth then Terminal.ttyNextRow s.toTty else s.toTty
      Terminal.updateCursor t.xpos t.ypos t := by
  dsimp only
  by_cases hend : s.xpos = screenWidth
  · rw [if_pos hend, if_pos hend, toTty_updateCursor, toTty_ttyNextRow]
  · rw [if_neg hend, if_neg hend, toTty_updateCursor]

theorem toTty_ttyPutCell (c : BitVec 8) (s : Screen) :
    (ttyPutCell c s).toTty = Terminal.ttyPutCell c s.toTty := by
  rw [ttyPutCell, Terminal.ttyPutCell]
  exact toTty_advance _

/-- **Apart from the notes** this is the `tty_putc` of the terminal. -/
theorem toTty_ttyPutc (c : BitVec 8) (s : Screen) :
    (ttyPutc c s).toTty = Terminal.ttyPutc c s.toTty := by
  rw [ttyPutc, Terminal.ttyPutc]
  split
  · dsimp only
    rw [toTty_updateCursor, toTty_ttyNextRow]
  · split
    · generalize 8 - s.xpos % 8 = n
      induction n generalizing s with
      | zero => rfl
      | succ n ih =>
        rw [Function.iterate_succ_apply, Function.iterate_succ_apply, ih, toTty_ttyPutCell]
    · exact toTty_ttyPutCell c s

theorem toTty_ttyDeleteprev (s : Screen) :
    (ttyDeleteprev s).toTty = Terminal.ttyDeleteprev s.toTty := by
  rw [ttyDeleteprev, Terminal.ttyDeleteprev]
  split
  · rfl
  · dsimp only
    rw [toTty_updateCursor, toTty_ttyPutentryat]
    by_cases hcol : s.xpos = 0
    · rw [if_pos hcol, if_pos hcol]
    · rw [if_neg hcol, if_neg hcol]

theorem toTty_ttyClear (s : Screen) : (ttyClear s).toTty = Terminal.ttyClear s.toTty := by
  rw [ttyClear, Terminal.ttyClear]
  generalize screenHeight = rows
  generalize vgaColorEntry vgaColorWhite vgaColorBlack = color
  have hfill := toTty_ttyFillRows (vgaEntry blank color) rows { s with color := color }
  generalize ttyFillRows (vgaEntry blank color) rows { s with color := color } = s' at hfill ⊢
  rw [toTty_updateCursor]
  show Terminal.updateCursor 0 0 { s'.toTty with xpos := 0, ypos := 0 } = _
  rw [hfill]

/-! ### In bounds -/

/-- All accesses were to cells of the screen, and all positions were those of the cursor. -/
def InBounds (s : Screen) : Prop := ∀ a ∈ s.log, a.InBounds

section InBounds

variable {s : Screen} {x y index : Nat}

theorem InBounds.append (h : s.InBounds) {a : Access} (ha : a.InBounds) :
    ∀ b ∈ s.log ++ [a], b.InBounds := by
  intro b hb
  rcases List.mem_append.mp hb with hb | hb
  · exact h b hb
  · rw [List.mem_singleton.mp hb]
    exact ha

theorem InBounds.writeCell (h : s.InBounds) (hi : index < 2000) (entry : BitVec 16) :
    (writeCell index entry s).InBounds := h.append hi

theorem InBounds.updateCursor (h : s.InBounds) (hx : x < 80) (hy : y < 25) :
    (updateCursor x y s).InBounds := by
  apply h.append
  show (BitVec.ofNat 16 (y * 80 + x)).toNat = y * 80 + x
  rw [BitVec.toNat_ofNat]
  exact Nat.mod_eq_of_lt (by omega)

theorem InBounds.ttyFillRow (h : s.InBounds) (entry : BitVec 16) (hy : y < 25) {n : Nat}
    (hn : n ≤ 80) : (ttyFillRow entry y n s).InBounds := by
  induction n with
  | zero => exact h
  | succ n ih =>
    refine (ih (by omega)).writeCell ?_ entry
    rw [screenWidth]
    omega

theorem InBounds.ttyFillRows (h : s.InBounds) (entry : BitVec 16) {n : Nat} (hn : n ≤ 25) :
    (ttyFillRows entry n s).InBounds := by
  induction n with
  | zero => exact h
  | succ n ih => exact (ih (by omega)).ttyFillRow entry (by omega) le_rfl

theorem InBounds.ttyMoveRow (h : s.InBounds) (hy : y < 24) {n : Nat} (hn : n ≤ 80) :
    (ttyMoveRow y n s).InBounds := by
  induction n with
  | zero => exact h
  | succ n ih =>
    have hread : (readCell ((y + 1) * screenWidth + n) (Screen.ttyMoveRow y n s)).2.InBounds := by
      apply (ih (by omega)).append
      show (y + 1) * 80 + n < 2000
      omega
    refine hread.writeCell ?_ _
    rw [screenWidth]
    omega

theorem InBounds.ttyMoveRows (h : s.InBounds) {n : Nat} (hn : n ≤ 24) :
    (ttyMoveRows n s).InBounds := by
  induction n with
  | zero => exact h
  | succ n ih => exact (ih (by omega)).ttyMoveRow (by omega) le_rfl

theorem InBounds.ttyScroll (h : s.InBounds) : (ttyScroll s).InBounds := by
  have hrows : screenHeight - 1 ≤ 24 := by decide
  have hlast : screenHeight - 1 < 25 := by decide
  have hwidth : screenWidth ≤ 80 := by decide
  rw [Screen.ttyScroll]
  generalize screenHeight - 1 = rows at hrows hlast ⊢
  generalize screenWidth = width at hwidth ⊢
  intro a ha
  exact (h.ttyMoveRows hrows).ttyFillRow (blank.setWidth 16) hlast hwidth a ha

theorem InBounds.ttyNextRow (h : s.InBounds) : (ttyNextRow s).InBounds := by
  rw [Screen.ttyNextRow]
  dsimp only
  split
  · exact InBounds.ttyScroll h
  · exact h

end InBounds

/-! ### Calls -/

/-- The cursor is on the screen, and so were all accesses. -/
structure Good (s : Screen) : Prop where
  onScreen : s.OnScreen
  inBounds : s.InBounds

section Good

variable {s : Screen}

theorem Good.of_cursor (h : s.InBounds) (hx : s.xpos < 80) (hy : s.ypos < 25) :
    Good (updateCursor s.xpos s.ypos s) :=
  ⟨Tty.OnScreen.updateCursor hx hy _, h.updateCursor hx hy⟩

theorem Good.of_nextRow (h : s.InBounds) (hy : s.ypos < 25) :
    Good (updateCursor (ttyNextRow s).xpos (ttyNextRow s).ypos (ttyNextRow s)) := by
  obtain ⟨hcol, hrow⟩ := onScreen_nextRow hy
  rw [← toTty_ttyNextRow] at hcol hrow
  exact Good.of_cursor h.ttyNextRow (by rw [hcol]; decide) hrow

theorem Good.ttyPutCell (h : s.Good) (c : BitVec 8) : (ttyPutCell c s).Good := by
  have hx := h.onScreen.xpos
  have hy := h.onScreen.ypos
  have hindex : s.ypos * screenWidth + s.xpos < 2000 := by
    rw [screenWidth]
    omega
  have hput : (ttyPutentryat c s.color s.xpos s.ypos s).InBounds :=
    h.inBounds.writeCell hindex _
  rw [Screen.ttyPutCell]
  generalize hs' : ttyPutentryat c s.color s.xpos s.ypos s = s' at hput
  have hx' : s'.xpos < 80 := by rw [← hs']; exact hx
  have hy' : s'.ypos < 25 := by rw [← hs']; exact hy
  have hu : u32 (s'.xpos + 1) = s'.xpos + 1 := u32_of_lt (by omega)
  dsimp only
  rw [hu, screenWidth]
  by_cases hend : s'.xpos + 1 = 80
  · rw [if_pos hend]
    exact Good.of_nextRow hput hy'
  · rw [if_neg hend]
    exact Good.of_cursor hput (by dsimp only; omega) hy'

/-- **`tty_putc` stays on the screen.** -/
theorem Good.ttyPutc (h : s.Good) (c : BitVec 8) : (ttyPutc c s).Good := by
  rw [Screen.ttyPutc]
  split
  · exact Good.of_nextRow h.inBounds h.onScreen.ypos
  · split
    · generalize 8 - s.xpos % 8 = n
      induction n generalizing s with
      | zero => exact h
      | succ n ih => exact ih (h.ttyPutCell blank)
    · exact h.ttyPutCell c

theorem Good.of_putentryat (h : s.InBounds) (hx : s.xpos < 80) (hy : s.ypos < 25) (c : BitVec 8) :
    Good (updateCursor s.xpos s.ypos (ttyPutentryat c s.color s.xpos s.ypos s)) := by
  have hindex : s.ypos * screenWidth + s.xpos < 2000 := by
    rw [screenWidth]
    omega
  have hput : (ttyPutentryat c s.color s.xpos s.ypos s).InBounds := h.writeCell hindex _
  exact Good.of_cursor hput hx hy

/-- **`tty_deleteprev` stays on the screen.** -/
theorem Good.ttyDeleteprev (h : s.Good) : (ttyDeleteprev s).Good := by
  have hx := h.onScreen.xpos
  have hy := h.onScreen.ypos
  rw [Screen.ttyDeleteprev]
  split
  · exact h
  · next hstart =>
    by_cases hcol : s.xpos = 0
    · have hsub : sub32 s.ypos 1 = s.ypos - 1 := sub32_of_le (by omega) (by omega)
      have hbounds : InBounds { s with xpos := screenWidth - 1, ypos := s.ypos - 1 } := h.inBounds
      simp only [if_pos hcol, hsub]
      exact Good.of_putentryat hbounds (Nat.lt_succ_self 79) (by dsimp only; omega) blank
    · have hsub : sub32 s.xpos 1 = s.xpos - 1 := sub32_of_le (by omega) (by omega)
      have hbounds : InBounds { s with xpos := s.xpos - 1 } := h.inBounds
      simp only [if_neg hcol, hsub]
      exact Good.of_putentryat hbounds (by dsimp only; omega) hy blank

theorem Good.ttyClear (h : s.InBounds) : (ttyClear s).Good := by
  have hrows : screenHeight ≤ 25 := by decide
  rw [Screen.ttyClear]
  generalize screenHeight = rows at hrows ⊢
  generalize vgaColorEntry vgaColorWhite vgaColorBlack = color
  have hcolor : InBounds { s with color := color } := h
  have hfill := hcolor.ttyFillRows (vgaEntry blank color) hrows
  generalize ttyFillRows (vgaEntry blank color) rows { s with color := color } = s' at hfill ⊢
  have hbounds : InBounds { s' with xpos := 0, ypos := 0 } := hfill
  exact ⟨Tty.OnScreen.updateCursor (x := 0) (y := 0) (by decide) (by decide) _,
    hbounds.updateCursor (by decide) (by decide)⟩

theorem Good.initializeTerminal (h : s.InBounds) : (initializeTerminal s).Good := by
  have hclear := (Good.ttyClear h).inBounds
  rw [Screen.initializeTerminal]
  generalize Screen.ttyClear s = s' at hclear ⊢
  have hbounds : InBounds { s' with xpos := 0, ypos := 0 } := hclear
  exact ⟨Tty.OnScreen.updateCursor (x := 0) (y := 0) (by decide) (by decide) _,
    hbounds.updateCursor (by decide) (by decide)⟩

end Good

/-- A call of a function of the terminal. -/
inductive Call where
  | ttyPutc (c : BitVec 8)
  | ttyPrintstr (str : List (BitVec 8))
  | ttyWrite (str : List (BitVec 8))
  | ttyPrintint (num : Word)
  | ttyPrinthex (num : Word)
  | kprintf (strAt : Word → List (BitVec 8)) (format : List (BitVec 8)) (args : Nat → Word)
  | ttyDeleteprev
  | ttyClear

/-- The screen after a call. -/
def Call.exec : Call → Screen → Screen
  | .ttyPutc c, s => Screen.ttyPutc c s
  | .ttyPrintstr str, s => Print.ttyPrintstr Screen.ttyPutc str s
  | .ttyWrite str, s => Print.ttyWrite Screen.ttyPutc str s
  | .ttyPrintint num, s => Print.ttyPrintint Screen.ttyPutc num s
  | .ttyPrinthex num, s => Print.ttyPrinthex Screen.ttyPutc num s
  | .kprintf strAt format args, s => (Print.kprintf Screen.ttyPutc strAt format args s).2
  | .ttyDeleteprev, s => Screen.ttyDeleteprev s
  | .ttyClear, s => Screen.ttyClear s

/-- **A call stays on the screen.** -/
theorem Good.exec {s : Screen} (h : s.Good) (call : Call) : (call.exec s).Good := by
  have hputc : ∀ c s, Good s → (Screen.ttyPutc c s).Good := fun c s hs => hs.ttyPutc c
  cases call with
  | ttyPutc c => exact h.ttyPutc c
  | ttyPrintstr str => exact Print.ttyPrintstr_invariant hputc str h
  | ttyWrite str => exact Print.ttyWrite_invariant hputc str h
  | ttyPrintint num => exact Print.ttyPrintint_invariant hputc num h
  | ttyPrinthex num => exact Print.ttyPrinthex_invariant hputc num h
  | kprintf strAt format args => exact Print.kprintf_invariant hputc strAt format args h
  | ttyDeleteprev => exact h.ttyDeleteprev
  | ttyClear => exact Good.ttyClear h.inBounds

/-- **Screen writes stay in bounds.**  After `initialize_terminal` and any calls the cursor is on the
screen, every access was to one of its cells, and the position that went to the VGA controller was
always that of the cursor. -/
theorem good_of_calls (t : Tty) (calls : List Call) :
    Good (calls.foldl (fun s call => call.exec s) (initializeTerminal ⟨t, []⟩)) := by
  have hstart : Good (initializeTerminal ⟨t, []⟩) :=
    Good.initializeTerminal fun a ha => absurd ha List.not_mem_nil
  generalize initializeTerminal ⟨t, []⟩ = s at hstart
  induction calls generalizing s with
  | nil => exact hstart
  | cons call calls ih => exact ih _ (hstart.exec call)

end Screen

end Aosis.Terminal
