import Aosis.Lib.Tape
import Aosis.Terminal.Bounds
import Aosis.Terminal.Kshell

/-!
# The echo of the line

While a line is edited, `kshell` keeps it in `cmd` and shows it on the screen: a character goes to
both, and Backspace takes the last character from `cmd` and calls `tty_deleteprev`.  As long as
nothing scrolls the screen is a tape of 2000 cells.

* `tape_ttyPutc`, `tape_ttyDeleteprev`: the functions of the terminal on the tape.
* `echo_of_run`: the screen shows the line, if every tab that Backspace removes was one column
  wide.
* `not_echo_tab`: otherwise it does not, because `tty_deleteprev` goes back by one column.
-/

namespace Aosis.Terminal

open Aosis.Interrupt Aosis.Lib

/-! ### The screen as a tape -/

/-- The characters of the screen in a line, with the cursor. -/
def Tty.tape (t : Tty) : Tape (BitVec 8) :=
  ⟨fun i => if i < 2000 then (t.buffer i).setWidth 8 else blank, 80 * t.ypos + t.xpos⟩

/-- The columns that a character takes. -/
def charWidth (c : BitVec 8) (xpos : Nat) : Nat := if c = 9 then 8 - xpos % 8 else 1

/-- There is room for the character, so that nothing scrolls. -/
def HasRoom (c : BitVec 8) (t : Tty) : Prop :=
  80 * t.ypos + t.xpos + charWidth c t.xpos < 2000

/-- A character on the tape. -/
def typeCell (p : Tape (BitVec 8)) (c : BitVec 8) : Tape (BitVec 8) :=
  if c = 9 then (Tape.put blank)^[8 - p.pos % 8] p else p.put c

/-- The characters of two screens and their cursors are the same. -/
structure SameScreen (t t' : Tty) : Prop where
  char : ∀ y < 25, ∀ x < 80, t.char y x = t'.char y x
  xpos : t.xpos = t'.xpos
  ypos : t.ypos = t'.ypos
  cursor : t.cursor = t'.cursor

section Tape

variable {t t' : Tty} {c : BitVec 8}

theorem sameScreen_of_tape (h : t.OnScreen) (h' : t'.OnScreen) (htape : t.tape = t'.tape) :
    SameScreen t t' := by
  have hpos : 80 * t.ypos + t.xpos = 80 * t'.ypos + t'.xpos := congrArg Tape.pos htape
  have hx := h.xpos
  have hx' := h'.xpos
  refine ⟨?_, by omega, by omega, ?_⟩
  · intro y hy x hxlt
    have hcell := congrFun (congrArg Tape.cell htape) (80 * y + x)
    simp only [Tty.tape] at hcell
    rwa [if_pos (by omega), if_pos (by omega)] at hcell
  · rw [h.cursor, h'.cursor, hpos]

theorem cell_ttyPutentryat {x y : Nat} (hi : 80 * y + x < 2000) (color : BitVec 8) (t : Tty) :
    (ttyPutentryat c color x y t).tape.cell = Function.update t.tape.cell (80 * y + x) c := by
  funext i
  simp only [Tty.tape, ttyPutentryat, Function.update_apply, screenWidth]
  by_cases hat : i = 80 * y + x
  · rw [if_pos (by omega), if_pos (by omega), if_pos hat, setWidth_vgaEntry]
  · rw [if_neg hat]
    by_cases hlt : i < 2000
    · rw [if_pos hlt, if_pos hlt, if_neg (by omega)]
    · rw [if_neg hlt, if_neg hlt]

theorem tape_updateCursor (x y : Nat) (t : Tty) :
    (updateCursor x y t).tape = ⟨t.tape.cell, 80 * y + x⟩ := rfl

theorem ttyPutCell_eq (h : t.OnScreen) (hroom : 80 * t.ypos + t.xpos + 1 < 2000) :
    ttyPutCell c t = updateCursor (if t.xpos + 1 = 80 then 0 else t.xpos + 1)
      (if t.xpos + 1 = 80 then t.ypos + 1 else t.ypos)
      (ttyPutentryat c t.color t.xpos t.ypos t) := by
  have hx := h.xpos
  have hux : u32 (t.xpos + 1) = t.xpos + 1 := u32_of_lt (by omega)
  have huy : u32 (t.ypos + 1) = t.ypos + 1 := u32_of_lt (by omega)
  simp only [ttyPutCell, ttyPutentryat, hux, screenWidth]
  by_cases hend : t.xpos + 1 = 80
  · simp only [if_pos hend, ttyNextRow, huy, screenHeight]
    rw [if_neg (by omega)]
    rfl
  · simp only [if_neg hend]
    rfl

/-- **A character that takes a cell.** -/
theorem tape_ttyPutCell (h : t.OnScreen) (hroom : 80 * t.ypos + t.xpos + 1 < 2000) :
    (ttyPutCell c t).tape = t.tape.put c := by
  rw [ttyPutCell_eq h hroom, tape_updateCursor, cell_ttyPutentryat (by omega), Tape.put]
  congr 1
  show _ = 80 * t.ypos + t.xpos + 1
  split <;> omega

theorem tape_iterate_ttyPutCell (h : t.OnScreen) {n : Nat}
    (hroom : 80 * t.ypos + t.xpos + n < 2000) :
    ((ttyPutCell c)^[n] t).tape = (Tape.put c)^[n] t.tape := by
  induction n generalizing t with
  | zero => rfl
  | succ n ih =>
    have hput := tape_ttyPutCell (c := c) h (by omega)
    have hpos : 80 * (ttyPutCell c t).ypos + (ttyPutCell c t).xpos = 80 * t.ypos + t.xpos + 1 :=
      congrArg Tape.pos hput
    rw [Function.iterate_succ_apply, Function.iterate_succ_apply, ih (h.putCell c) (by omega), hput]

/-- **`tty_putc` on the tape**, while nothing scrolls. -/
theorem tape_ttyPutc (h : t.OnScreen) (hc : c ≠ 10) (hroom : HasRoom c t) :
    (ttyPutc c t).tape = typeCell t.tape c := by
  rw [HasRoom, charWidth] at hroom
  rw [ttyPutc, if_neg hc, typeCell]
  by_cases htab : c = 9
  · rw [if_pos htab] at hroom ⊢
    have hstop : 8 - t.tape.pos % 8 = 8 - t.xpos % 8 := by
      show 8 - (80 * t.ypos + t.xpos) % 8 = 8 - t.xpos % 8
      omega
    rw [if_pos htab, hstop]
    exact tape_iterate_ttyPutCell h hroom
  · rw [if_neg htab] at hroom ⊢
    rw [if_neg htab]
    exact tape_ttyPutCell h hroom

/-- **`tty_deleteprev` on the tape.** -/
theorem tape_ttyDeleteprev (h : t.OnScreen) (hpos : 0 < t.tape.pos) :
    (ttyDeleteprev t).tape = t.tape.erase blank := by
  have hpos' : 0 < 80 * t.ypos + t.xpos := hpos
  have hprev : 80 * t.prevRow + t.prevCol = 80 * t.ypos + t.xpos - 1 := by
    have hx := h.xpos
    rw [Tty.prevRow, Tty.prevCol]
    split <;> omega
  obtain ⟨hcol, hrow⟩ := h.prev_lt
  rw [ttyDeleteprev_eq h.xpos h.ypos (by omega), tape_updateCursor, cell_ttyPutentryat (by omega),
    hprev]
  rfl

theorem typeCell_pos_lt (p : Tape (BitVec 8)) (c : BitVec 8) : p.pos < (typeCell p c).pos := by
  rw [typeCell]
  split
  · rw [Tape.iterate_put_pos]
    omega
  · exact Nat.lt_succ_self _

theorem typeCell_blank {p : Tape (BitVec 8)} (h : p.Blank blank) (c : BitVec 8) :
    (typeCell p c).Blank blank := by
  rw [typeCell]
  split
  · exact h.iterate_put blank _
  · exact h.put c

theorem erase_typeCell {p : Tape (BitVec 8)} (h : p.Blank blank) (hwide : c = 9 → p.pos % 8 = 7) :
    (typeCell p c).erase blank = p := by
  rw [typeCell]
  split
  · next htab =>
    rw [hwide htab]
    exact Tape.erase_put h blank
  · exact Tape.erase_put h c

theorem typeCell_tape_pos (t : Tty) (c : BitVec 8) :
    (typeCell t.tape c).pos = 80 * t.ypos + t.xpos + charWidth c t.xpos := by
  have hpos : t.tape.pos = 80 * t.ypos + t.xpos := rfl
  rw [typeCell, charWidth]
  split
  · rw [Tape.iterate_put_pos, hpos]
    omega
  · rfl

theorem foldl_typeCell_pos_le (p : Tape (BitVec 8)) (str : List (BitVec 8)) :
    p.pos ≤ (str.foldl typeCell p).pos := by
  induction str generalizing p with
  | nil => exact Nat.le_refl _
  | cons c str ih => exact (typeCell_pos_lt p c).le.trans (ih _)

theorem foldl_typeCell_blank {p : Tape (BitVec 8)} (h : p.Blank blank) (str : List (BitVec 8)) :
    (str.foldl typeCell p).Blank blank := by
  induction str generalizing p with
  | nil => exact h
  | cons c str ih => exact ih (typeCell_blank h c)

/-- **`tty_write` on the tape**, when the text ends on the screen. -/
theorem tape_ttyWrite (h : t.OnScreen) {str : List (BitVec 8)} (hstr : ∀ c ∈ str, c ≠ 10)
    (hpos : (str.foldl typeCell t.tape).pos < 2000) :
    (ttyWrite str t).tape = str.foldl typeCell t.tape ∧ (ttyWrite str t).OnScreen := by
  induction str generalizing t with
  | nil => exact ⟨rfl, h⟩
  | cons c str ih =>
    have hle := foldl_typeCell_pos_le (typeCell t.tape c) str
    have hpos' : (str.foldl typeCell (typeCell t.tape c)).pos < 2000 := hpos
    rw [typeCell_tape_pos] at hle
    have hroom : HasRoom c t := by
      rw [HasRoom]
      omega
    have hput := tape_ttyPutc h (hstr c List.mem_cons_self) hroom
    rw [← hput] at hpos'
    obtain ⟨htape, hon⟩ := ih (h.putc c) (fun d hd => hstr d (List.mem_cons_of_mem c hd)) hpos'
    rw [hput] at htape
    exact ⟨htape, hon⟩

end Tape

/-! ### Editing -/

/-- A printable character, a tab or Backspace. -/
def EchoKey (k : Keycode) : Prop := isprint k = 0 ∨ k = 9 ∨ k = keyBackspace

instance (k : Keycode) : Decidable (EchoKey k) := inferInstanceAs (Decidable (_ ∨ _))

/-- A key is handled and nothing scrolls.  Between two keys the keyboard may change. -/
inductive EchoStep : Shell → Key → Shell → Prop
  | handle {s s' : Shell} {k : Key} (kb : Keyboard) (hk : EchoKey k.key)
      (hroom : k.key ≠ keyBackspace → s.line.cmdLen < 1024 → HasRoom (BitVec.ofNat 8 k.key) s.tty)
      (h : kshellKey k { s with keyboard := kb } = .ok none s') : EchoStep s k s'

/-- A tab that Backspace removes was one column wide: the line without it ends in the last column
before a tab stop, when it is printed from where the line starts. -/
def NarrowTabs (t₀ : Tty) (s : Shell) (k : Key) : Prop :=
  k.key = keyBackspace → ∀ str, s.line.text = str ++ [9] → (ttyWrite str t₀).xpos % 8 = 7

/-- After the prompt: the line is empty, and the rest of the screen is blank. -/
structure AtPrompt (s : Shell) : Prop where
  onScreen : s.tty.OnScreen
  line : s.line.text = []
  rest : ∀ y < 25, ∀ x < 80, 80 * s.tty.ypos + s.tty.xpos ≤ 80 * y + x → s.tty.char y x = blank

section Run

variable {s s' : Shell} {t₀ : Tty} {k : Key} {keys : List Key}

/-- The screen shows the line. -/
structure EchoInv (t₀ : Tty) (s : Shell) : Prop where
  onScreen : s.tty.OnScreen
  text : ∀ c ∈ s.line.text, c ≠ 10
  tape : s.tty.tape = s.line.text.foldl typeCell t₀.tape

theorem AtPrompt.inv (h : AtPrompt s) : s.tty.tape.Blank blank ∧ EchoInv s.tty s := by
  refine ⟨?_, h.onScreen, ?_, ?_⟩
  · intro i hi
    have hi' : 80 * s.tty.ypos + s.tty.xpos ≤ i := hi
    show (if i < 2000 then (s.tty.buffer i).setWidth 8 else blank) = blank
    split
    · have hcell := h.rest (i / 80) (by omega) (i % 80) (Nat.mod_lt i (by decide)) (by omega)
      rwa [Tty.char, Nat.div_add_mod] at hcell
    · rfl
  · rw [h.line]
    exact fun c hc => absurd hc List.not_mem_nil
  · rw [h.line]
    rfl

theorem kshellKey_echo {kb : Keyboard}
    (h : kshellKey k { s with keyboard := kb } = .ok none s') :
    (k.key = keyBackspace ∧ ∃ str c, s.line.text = str ++ [c] ∧ s'.line.text = str ∧
      s'.tty = ttyDeleteprev s.tty) ∨
    (k.key ≠ keyBackspace ∧ s.line.cmdLen < 1024 ∧
      s'.line.text = s.line.text ++ [BitVec.ofNat 8 k.key] ∧
      s'.tty = ttyPutc (BitVec.ofNat 8 k.key) s.tty) ∨
    (s'.line = s.line ∧ s'.tty = s.tty) := by
  rcases kshellKey_cases h with ⟨hlen, hkey, -, -, hremove, htty, -⟩ | ⟨-, hout, -⟩ |
    ⟨hlen, -, hacc, -, rfl⟩ | ⟨-, -, -, rfl⟩
  · have hne : s.line.text ≠ [] := by
      intro hnil
      have hlength := s.line.text_length
      rw [hnil] at hlength
      exact absurd hlen (by rw [← hlength]; exact Nat.lt_irrefl 0)
    refine Or.inl ⟨hkey, s.line.text.dropLast, s.line.text.getLast hne,
      (List.dropLast_append_getLast hne).symm, ?_, htty⟩
    rw [hremove]
    exact CmdLine.text_removeLast s.line hlen
  · cases hout
  · exact Or.inr (Or.inl ⟨hacc.ne_backspace, hlen, CmdLine.text_append s.line _ hlen, rfl⟩)
  · exact Or.inr (Or.inr ⟨rfl, rfl⟩)

theorem EchoKey.ofNat_ne (hk : EchoKey k.key) (hne : k.key ≠ keyBackspace) :
    BitVec.ofNat 8 k.key ≠ 10 := by
  intro h
  have hmod : k.key % 256 = 10 := by simpa using congrArg BitVec.toNat h
  rcases hk with hk | hk | hk
  · rw [isprint] at hk
    split at hk
    · next hrange =>
      rw [Nat.mod_eq_of_lt (by omega)] at hmod
      rw [hmod] at hrange
      exact absurd hrange.1 (by decide)
    · exact absurd hk (by decide)
  · rw [hk] at hmod
    exact absurd hmod (by decide)
  · exact hne hk

/-- **A key keeps the screen and the line together**, if a tab that Backspace removes was one column
wide. -/
theorem EchoInv.step (hon : t₀.OnScreen) (hblank : t₀.tape.Blank blank) (hi : EchoInv t₀ s)
    (hs : Within EchoStep (NarrowTabs t₀) s k s') : EchoInv t₀ s' := by
  obtain ⟨hnarrow, hstep⟩ := hs
  cases hstep with
  | handle kb hk hroom h =>
    have hlt : (s.line.text.foldl typeCell t₀.tape).pos < 2000 := by
      rw [← hi.tape]
      show 80 * s.tty.ypos + s.tty.xpos < 2000
      have hx := hi.onScreen.xpos
      have hy := hi.onScreen.ypos
      omega
    rcases kshellKey_echo h with ⟨hkey, str, c, htext, htext', htty⟩ |
      ⟨hkey, hlen, htext', htty⟩ | ⟨hline, htty⟩
    · -- Backspace: erasing undoes the last character
      have htape := hi.tape
      have hchars := hi.text
      rw [htext, List.foldl_append] at htape hlt
      rw [htext] at hchars
      generalize hp : str.foldl typeCell t₀.tape = p at htape hlt
      have hpos := typeCell_pos_lt p c
      have hp2000 : (str.foldl typeCell t₀.tape).pos < 2000 := by
        rw [hp]
        exact hpos.trans hlt
      obtain ⟨hstr, hstron⟩ := tape_ttyWrite hon
        (fun d hd => hchars d (List.mem_append_left [c] hd)) hp2000
      have hwide : c = 9 → p.pos % 8 = 7 := by
        rintro rfl
        have hcol := hnarrow hkey str htext
        rw [← hp, ← hstr]
        show (80 * (ttyWrite str t₀).ypos + (ttyWrite str t₀).xpos) % 8 = 7
        omega
      have hpblank : p.Blank blank := hp ▸ foldl_typeCell_blank hblank str
      refine ⟨?_, ?_, ?_⟩
      · rw [htty]
        exact hi.onScreen.deleteprev
      · rw [htext']
        exact fun d hd => hchars d (List.mem_append_left [c] hd)
      · have hpos' : 0 < s.tty.tape.pos := by
          rw [htape]
          exact Nat.zero_lt_of_lt hpos
        rw [htty, tape_ttyDeleteprev hi.onScreen hpos', htext', hp, htape]
        exact erase_typeCell hpblank hwide
    · -- a character goes to the line and to the screen
      have hc := hk.ofNat_ne hkey
      refine ⟨?_, ?_, ?_⟩
      · rw [htty]
        exact hi.onScreen.putc _
      · rw [htext']
        intro d hd
        rcases List.mem_append.mp hd with hd | hd
        · exact hi.text d hd
        · rw [List.mem_singleton.mp hd]
          exact hc
      · rw [htty, tape_ttyPutc hi.onScreen hc (hroom hkey hlen), htext', List.foldl_append, hi.tape]
        rfl
    · exact ⟨by rw [htty]; exact hi.onScreen, by rw [hline]; exact hi.text,
        by rw [htty, hline]; exact hi.tape⟩

/-- **The echo agrees with the line** after any keys, if every tab that Backspace removes was one
column wide. -/
theorem echo_of_run (h : AtPrompt s) (hrun : Run (Within EchoStep (NarrowTabs s.tty)) s keys s') :
    SameScreen s'.tty (ttyWrite s'.line.text s.tty) := by
  obtain ⟨hblank, hi⟩ := h.inv
  have hi' := hrun.invariant (I := EchoInv s.tty) (fun hi hs => hi.step h.onScreen hblank hs) hi
  have hlt : (s'.line.text.foldl typeCell s.tty.tape).pos < 2000 := by
    rw [← hi'.tape]
    show 80 * s'.tty.ypos + s'.tty.xpos < 2000
    have hx := hi'.onScreen.xpos
    have hy := hi'.onScreen.ypos
    omega
  obtain ⟨htape, hon⟩ := tape_ttyWrite h.onScreen hi'.text hlt
  exact sameScreen_of_tape hi'.onScreen hon (hi'.tape.trans htape.symm)

end Run

/-! ### A tab -/

/-- The loop after the first prompt. -/
def promptShell : Shell :=
  kshellPrompt (ttyClear ttyStatic) ⟨keyboard, ttyStatic, CmdLine.empty, .command⟩

theorem tape_ttyClear (t : Tty) : (ttyClear t).tape = ⟨fun _ => blank, 0⟩ := by
  have hclear := Shows.clear t
  apply Tape.ext
  · funext i
    show (if i < 2000 then ((ttyClear t).buffer i).setWidth 8 else blank) = blank
    split
    · have hcell := hclear.char (i / 80) (by omega) (i % 80) (Nat.mod_lt i (by decide))
      rw [Tty.char, Nat.div_add_mod] at hcell
      exact hcell
    · rfl
  · rfl

theorem tape_promptShell : promptShell.tty.tape.Blank blank ∧ promptShell.tty.tape.pos = 3 ∧
    promptShell.tty.OnScreen := by
  have hpos : ([36, 62, 32].foldl typeCell (ttyClear ttyStatic).tape).pos = 3 := by
    rw [tape_ttyClear]
    rfl
  have hblank : (ttyClear ttyStatic).tape.Blank blank := by
    rw [tape_ttyClear]
    exact fun _ _ => rfl
  have hstr : ∀ c ∈ ([36, 62, 32] : List (BitVec 8)), c ≠ 10 := by decide
  obtain ⟨htape, hon⟩ := tape_ttyWrite (Tty.OnScreen.clear ttyStatic) hstr (by rw [hpos]; decide)
  have htty : promptShell.tty.tape = _ := htape
  refine ⟨?_, ?_, hon⟩
  · rw [htty]
    exact foldl_typeCell_blank hblank _
  · rw [htty]
    exact hpos

theorem atPrompt_promptShell : AtPrompt promptShell := by
  obtain ⟨hblank, -, hon⟩ := tape_promptShell
  refine ⟨hon, rfl, ?_⟩
  intro y hy x hx hle
  have hcell : (if 80 * y + x < 2000 then
      (promptShell.tty.buffer (80 * y + x)).setWidth 8 else blank) = blank := hblank _ hle
  rwa [if_pos (by omega)] at hcell

theorem exists_echoStep {s : Shell} {k : Key} (hk : EchoKey k.key) (hne : k.key ≠ keyBackspace)
    (hlen : s.line.cmdLen < 1024) (hroom : HasRoom (BitVec.ofNat 8 k.key) s.tty) :
    ∃ s', EchoStep s k s' ∧ s'.line.text = s.line.text ++ [BitVec.ofNat 8 k.key] ∧
      s'.tty = ttyPutc (BitVec.ofNat 8 k.key) s.tty := by
  have henter : k.key ≠ keyEnter := by
    intro he
    rw [he] at hk
    exact absurd hk (by decide)
  have hacc : Accepted k.key := by
    rcases hk with hk | hk | hk
    · exact Or.inl hk
    · rw [hk]
      decide
    · exact absurd hk hne
  have h := kshellKey_append { s with keyboard := s.keyboard } hacc henter hlen
  exact ⟨_, .handle _ hk (fun _ _ => hroom) h, CmdLine.text_append s.line _ hlen, rfl⟩

theorem exists_echoStep_backspace {s : Shell} {k : Key} (hk : k.key = keyBackspace)
    (hlen : 0 < s.line.cmdLen) : ∃ s', EchoStep s k s' ∧ s'.line.text = s.line.text.dropLast ∧
      s'.tty = ttyDeleteprev s.tty := by
  have hget : ∃ out kb, kbGetKey false s.keyboard = .ok out kb := by
    rw [kbGetKey]
    split
    · exact ⟨_, _, rfl⟩
    · exact ⟨_, _, rfl⟩
  obtain ⟨out, kb, hget⟩ := hget
  have h : kshellKey k { s with keyboard := s.keyboard } = .ok none { s with
      keyboard := kb
      line := s.line.removeLast hlen
      tty := ttyDeleteprev s.tty
      pc := .halt } := by
    rw [kshellKey, dif_pos ⟨hk, hlen⟩, hget]
  exact ⟨_, .handle _ (Or.inr (Or.inr hk)) (fun hne => absurd hk hne) h,
    CmdLine.text_removeLast s.line hlen, rfl⟩

theorem exists_typed_removed {k b : Key} (hk : EchoKey k.key) (hne : k.key ≠ keyBackspace)
    (hback : b.key = keyBackspace) : ∃ s₁ s₂, EchoStep promptShell k s₁ ∧
      EchoStep s₁ b s₂ ∧ s₁.line.text = [BitVec.ofNat 8 k.key] ∧ s₂.line.text = [] ∧
      80 * s₂.tty.ypos + s₂.tty.xpos + 1 =
        (typeCell promptShell.tty.tape (BitVec.ofNat 8 k.key)).pos := by
  obtain ⟨-, hpos, hon⟩ := tape_promptShell
  have hpos' : 80 * promptShell.tty.ypos + promptShell.tty.xpos = 3 := hpos
  have hroom : HasRoom (BitVec.ofNat 8 k.key) promptShell.tty := by
    rw [HasRoom, charWidth]
    split <;> omega
  obtain ⟨s₁, hstep₁, htext₁, htty₁⟩ :=
    exists_echoStep (s := promptShell) hk hne (by decide) hroom
  have hlen₁ : 0 < s₁.line.cmdLen := by
    rw [← s₁.line.text_length, htext₁, List.length_append]
    exact Nat.lt_add_left _ Nat.zero_lt_one
  obtain ⟨s₂, hstep₂, htext₂, htty₂⟩ := exists_echoStep_backspace hback hlen₁
  have htape₁ : s₁.tty.tape = typeCell promptShell.tty.tape (BitVec.ofNat 8 k.key) := by
    rw [htty₁]
    exact tape_ttyPutc hon (hk.ofNat_ne hne) hroom
  have hlt := typeCell_pos_lt promptShell.tty.tape (BitVec.ofNat 8 k.key)
  have htape₂ : s₂.tty.tape = s₁.tty.tape.erase blank := by
    rw [htty₂]
    refine tape_ttyDeleteprev ?_ ?_
    · rw [htty₁]
      exact hon.putc _
    · rw [htape₁]
      exact Nat.zero_lt_of_lt hlt
  have hpos₂ : 80 * s₂.tty.ypos + s₂.tty.xpos = s₁.tty.tape.pos - 1 := congrArg Tape.pos htape₂
  refine ⟨s₁, s₂, hstep₁, hstep₂, htext₁, by rw [htext₂, htext₁]; rfl, ?_⟩
  rw [hpos₂, htape₁]
  omega

/-- A letter that is typed and removed. -/
theorem echo_letter : ∃ s : Shell, s.line.text = [] ∧
    SameScreen s.tty (ttyWrite s.line.text promptShell.tty) := by
  obtain ⟨s₁, s₂, hstep₁, hstep₂, htext₁, htext₂, -⟩ :=
    exists_typed_removed (k := ⟨{}, 97⟩) (b := ⟨{}, 8⟩) (by decide) (by decide) rfl
  have hletter : NarrowTabs promptShell.tty promptShell ⟨{}, 97⟩ := fun h => absurd h (by decide)
  have hback : NarrowTabs promptShell.tty s₁ ⟨{}, 8⟩ := by
    intro _ str hstr
    rw [htext₁] at hstr
    have hlast : [] ++ [97] = str ++ [(9 : BitVec 8)] := hstr
    exact absurd (List.append_inj' hlast rfl).2 (by decide)
  exact ⟨s₂, htext₂, echo_of_run atPrompt_promptShell
    ((Run.single ⟨hletter, hstep₁⟩).snoc ⟨hback, hstep₂⟩)⟩

/-- A tab that is typed and removed leaves the cursor behind the prompt. -/
theorem not_echo_tab : ∃ (s : Shell), AtPrompt promptShell ∧
    Run EchoStep promptShell [⟨{}, 9⟩, ⟨{}, 8⟩] s ∧
    ¬ SameScreen s.tty (ttyWrite s.line.text promptShell.tty) := by
  obtain ⟨s₁, s₂, hstep₁, hstep₂, -, htext₂, hpos₂⟩ :=
    exists_typed_removed (k := ⟨{}, 9⟩) (b := ⟨{}, 8⟩) (by decide) (by decide) rfl
  obtain ⟨-, hpos, -⟩ := tape_promptShell
  refine ⟨s₂, atPrompt_promptShell, (Run.single hstep₁).snoc hstep₂, ?_⟩
  intro hsame
  have hx := hsame.xpos
  have hy := hsame.ypos
  rw [htext₂] at hx hy
  have hx' : s₂.tty.xpos = promptShell.tty.xpos := hx
  have hy' : s₂.tty.ypos = promptShell.tty.ypos := hy
  have hpos' : 80 * promptShell.tty.ypos + promptShell.tty.xpos = 3 := hpos
  rw [typeCell, if_pos (by decide), Tape.iterate_put_pos, hpos, hx', hy', hpos'] at hpos₂
  exact absurd hpos₂ (by decide)

end Aosis.Terminal
