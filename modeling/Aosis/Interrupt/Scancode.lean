import Aosis.Lib.Latch
import Aosis.Terminal.Kshell

/-!
# Scancodes

The interrupt handler of `kernel/interrupt/keyboard.c` with the table of `keyboard_lut.h`.  The
handler decodes a byte with the modifiers as they are, and the decoded key then either changes a
modifier or goes into the queue.

* `decodeScancode_modifier`: a modifier is decoded as itself in every state of the modifiers, because
  the two halves of the table agree there.
* `isrKeyPress_spec`: what one byte does to the modifiers and to the queue.
-/

namespace Aosis.Interrupt

open Aosis.Lib Aosis.Terminal

/-! ### `keyboard.h` -/

/-- `KEY_TAB`. -/
def keyTab : Keycode := 9

/-- `KEY_ESCAPE`. -/
def keyEscape : Keycode := 0x1b

/-- `KEY_DELETE`. -/
def keyDelete : Keycode := 0x7f

/-- The members of `enum KEYCODE` that are not ASCII. -/
inductive SpecialKey where
  | shift | shiftRelease | capslock | capslockRelease | ctrl | ctrlRelease | alt | altRelease
  | prtscr | numlock | scrlock | insert | endKey | down | pgdwn | left | center | right | home
  | up | pgup | f1 | f2 | f3 | f4 | f5 | f6 | f7 | f8 | f9 | f10 | f11 | f12 | scanesc | ignore

/-- They are numbered from 0x80 on. -/
def SpecialKey.code (k : SpecialKey) : Keycode := 0x80 + k.ctorIdx

/-- `keylayout_t`. -/
structure Keylayout where
  unshift : BitVec 8 → Keycode
  shift : BitVec 8 → Keycode

/-! ### `keyboard_lut.h` -/

/-- The codes of a row of character keys. -/
def charKeys (row : String) : List Keycode := row.toList.map Char.toNat

/-- The entries of one half of the table from index 0 to 0x7e, with the characters of its rows. -/
def ps2Makes (digits upper home lower : String) : List Keycode :=
  [[SpecialKey.ignore.code, keyEscape], charKeys digits, [keyBackspace, keyTab], charKeys upper,
    [keyEnter, SpecialKey.ctrl.code], charKeys home, [SpecialKey.shift.code], charKeys lower,
    [SpecialKey.shift.code], charKeys "*", [SpecialKey.alt.code], charKeys " ",
    [SpecialKey.capslock, .f1, .f2, .f3, .f4, .f5, .f6, .f7, .f8, .f9, .f10, .numlock, .scrlock,
      .home, .up, .pgup].map SpecialKey.code, charKeys "-",
    [SpecialKey.left, .center, .right].map SpecialKey.code, charKeys "+",
    [SpecialKey.endKey, .down, .pgdwn, .insert].map SpecialKey.code, [keyDelete],
    List.replicate 3 SpecialKey.ignore.code, [SpecialKey.f11.code, SpecialKey.f12.code],
    List.replicate 6 SpecialKey.ignore.code, List.replicate 2 SpecialKey.scanesc.code,
    List.replicate 30 SpecialKey.ignore.code].flatten

/-- The entries from index 0x7f on, which are zero where the table has none. -/
def ps2Breaks (scancode : BitVec 8) : Keycode :=
  if scancode = 0x9d then SpecialKey.ctrlRelease.code
  else if scancode = 0xaa ∨ scancode = 0xb6 then SpecialKey.shiftRelease.code
  else if scancode = 0xb8 then SpecialKey.altRelease.code
  else 0

/-- `ps2_layout`. -/
def ps2Layout : Keylayout where
  unshift scancode := (ps2Makes "1234567890-=" "qwertyuiop[]" "asdfghjkl;'`" "\\zxcvbnm,./").getD
    scancode.toNat (ps2Breaks scancode)
  shift scancode := (ps2Makes "!@#$%^&*()_+" "QWERTYUIOP\x7b\x7d" "ASDFGHJKL:\"~"
    "|ZXCVBNM<>?").getD scancode.toNat (ps2Breaks scancode)

/-! ### The source -/

/-- `islower`. -/
def islower (c : Nat) : Nat := if 97 ≤ c ∧ c ≤ 122 then 1 else 0

/-- `isupper`. -/
def isupper (c : Nat) : Nat := if 65 ≤ c ∧ c ≤ 90 then 1 else 0

/-- `isalpha`, which is not zero for a letter. -/
def isalpha (c : Nat) : Nat := if islower c ≠ 0 ∨ isupper c ≠ 0 then 1 else 0

/-- `decode_scancode`, in the modifier state `kb_state`. -/
def decodeScancode (kb_state : KbState) (scancode : BitVec 8) : Keycode :=
  if isalpha (ps2Layout.shift scancode) ≠ 0 then
    if (kb_state.shift ^^ kb_state.caps) = true then ps2Layout.shift scancode
    else ps2Layout.unshift scancode
  else if kb_state.shift = true then ps2Layout.shift scancode
  else ps2Layout.unshift scancode

/-- The variables that the handler uses, and the bytes that it has sent to ports. -/
structure IsrState where
  kbState : KbState
  keyboard : Keyboard
  tty : Tty
  ports : List (Nat × Nat)

/-- `outb`. -/
def outb (port data : Nat) : Kern IsrState Unit :=
  modify fun s => { s with ports := s.ports ++ [(port, data)] }

/-- `kb_state = kb_state'`. -/
def setKbState (kb_state' : KbState) : Kern IsrState Unit :=
  modify fun s => { s with kbState := kb_state' }

/-- The switch of `isr_key_press`. -/
def isrSwitch (key : Keycode) : Kern IsrState Unit := fun s =>
  if key = SpecialKey.shift.code then setKbState { s.kbState with shift := true } s
  else if key = SpecialKey.shiftRelease.code then setKbState { s.kbState with shift := false } s
  else if key = SpecialKey.capslock.code then setKbState { s.kbState with caps := !s.kbState.caps } s
  else if key = SpecialKey.ctrl.code then setKbState { s.kbState with ctrl := true } s
  else if key = SpecialKey.ctrlRelease.code then setKbState { s.kbState with ctrl := false } s
  else if key = SpecialKey.alt.code then setKbState { s.kbState with alt := true } s
  else if key = SpecialKey.altRelease.code then setKbState { s.kbState with alt := false } s
  else if key = keyDelete then .ok () s
  else (addKey s.kbState key).zoom IsrState.keyboard (fun kb s => { s with keyboard := kb }) s

/-- `isr_key_press`, for the byte that `inb(0x60)` returns. -/
def isrKeyPress (scancode : BitVec 8) : Kern IsrState Unit := fun s =>
  if scancode = 0xe0 then .ok () s
  else
    let key := decodeScancode s.kbState scancode
    if key = 'l'.toNat ∧ s.kbState.ctrl = true then .ok () { s with tty := ttyClear s.tty }
    else
      (do
        isrSwitch key
        outb 0x20 0x20 : Kern IsrState Unit) s

/-! ### The table -/

/-- The bytes of the modifier keys, with the members of `enum KEYCODE` that stand for them. -/
def modifierBytes : List (BitVec 8 × SpecialKey) :=
  [(0x2a, .shift), (0x36, .shift), (0xaa, .shiftRelease), (0xb6, .shiftRelease),
    (0x3a, .capslock), (0x1d, .ctrl), (0x9d, .ctrlRelease), (0x38, .alt), (0xb8, .altRelease)]

/-- The codes of the modifier keys. -/
def modifierCodes : List Keycode := modifierBytes.map fun m => m.2.code

theorem ps2Layout_modifier : ∀ m ∈ modifierBytes,
    ps2Layout.unshift m.1 = m.2.code ∧ ps2Layout.shift m.1 = m.2.code := by
  decide

set_option maxRecDepth 4000 in
theorem ps2Layout_other : ∀ b : BitVec 8, b ∉ modifierBytes.map Prod.fst →
    ps2Layout.unshift b ∉ modifierCodes ∧ ps2Layout.shift b ∉ modifierCodes := by
  decide +kernel

/-- The byte is that of a letter. -/
def IsLetter (b : BitVec 8) : Prop := islower (ps2Layout.unshift b) ≠ 0

instance (b : BitVec 8) : Decidable (IsLetter b) := inferInstanceAs (Decidable (_ ≠ _))

set_option maxRecDepth 4000 in
/-- The letters are where the shifted half has letters, which are those of the other half in upper
case. -/
theorem ps2Layout_letter : ∀ b : BitVec 8,
    (isalpha (ps2Layout.shift b) ≠ 0 ↔ IsLetter b) ∧
      (IsLetter b → isupper (ps2Layout.shift b) ≠ 0 ∧ isupper (ps2Layout.unshift b) = 0 ∧
        ps2Layout.shift b + 32 = ps2Layout.unshift b) := by
  decide +kernel

/-! ### Decoding -/

section Decode

variable {st : KbState} {b : BitVec 8}

theorem decodeScancode_or (st : KbState) (b : BitVec 8) :
    decodeScancode st b = ps2Layout.shift b ∨ decodeScancode st b = ps2Layout.unshift b := by
  rw [decodeScancode]
  split_ifs <;> simp

/-- **A modifier is decoded as itself** in every state of the modifiers. -/
theorem decodeScancode_modifier {k : SpecialKey} (h : (b, k) ∈ modifierBytes) :
    decodeScancode st b = k.code := by
  obtain ⟨hunshift, hshift⟩ := ps2Layout_modifier _ h
  rcases decodeScancode_or st b with hd | hd
  · exact hd.trans hshift
  · exact hd.trans hunshift

theorem decodeScancode_other (h : b ∉ modifierBytes.map Prod.fst) :
    decodeScancode st b ∉ modifierCodes := by
  obtain ⟨hunshift, hshift⟩ := ps2Layout_other b h
  rcases decodeScancode_or st b with hd | hd
  · rw [hd]
    exact hshift
  · rw [hd]
    exact hunshift

/-- **The case of a letter** is that of exactly one of Shift and Caps Lock. -/
theorem decodeScancode_letter (h : IsLetter b) :
    (isupper (decodeScancode st b) ≠ 0 ↔ st.shift ≠ st.caps) ∧
      (decodeScancode st b = ps2Layout.unshift b ∨
        decodeScancode st b + 32 = ps2Layout.unshift b) := by
  obtain ⟨halpha, hcase⟩ := ps2Layout_letter b
  obtain ⟨hupper, hlower, hsame⟩ := hcase h
  rw [decodeScancode, if_pos (halpha.mpr h)]
  by_cases hx : (st.shift ^^ st.caps) = true
  · rw [if_pos hx]
    exact ⟨⟨fun _ => by simpa using hx, fun _ => hupper⟩, Or.inr hsame⟩
  · rw [if_neg hx]
    refine ⟨⟨fun hne => absurd hlower hne, ?_⟩, Or.inl rfl⟩
    intro hne
    exact absurd (by simpa using hne) hx

theorem decodeScancode_symbol (h : ¬ IsLetter b) : decodeScancode st b =
    if st.shift = true then ps2Layout.shift b else ps2Layout.unshift b := by
  rw [decodeScancode, if_neg fun halpha => h ((ps2Layout_letter b).1.mp halpha)]

end Decode

/-! ### One byte -/

/-- The bytes of the two Shift keys when they are pressed. -/
def isShiftMake (b : BitVec 8) : Bool := b == 0x2a || b == 0x36

/-- The bytes of the two Shift keys when they are released. -/
def isShiftBreak (b : BitVec 8) : Bool := b == 0xaa || b == 0xb6

/-- The modifiers after a byte: three latches and a toggle. -/
def KbState.next (st : KbState) (b : BitVec 8) : KbState :=
  { st with
    shift := latchStep isShiftMake isShiftBreak st.shift b
    ctrl := latchStep (· == 0x1d) (· == 0x9d) st.ctrl b
    alt := latchStep (· == 0x38) (· == 0xb8) st.alt b
    caps := if b == 0x3a then !st.caps else st.caps }

section Step

variable {s s' : IsrState} {b : BitVec 8}

theorem next_other (st : KbState) (h : b ∉ modifierBytes.map Prod.fst) : st.next b = st := by
  simp only [modifierBytes, List.map_cons, List.map_nil, List.mem_cons, List.not_mem_nil, or_false,
    not_or] at h
  obtain ⟨h1, h2, h3, h4, h5, h6, h7, h8, h9⟩ := h
  simp only [KbState.next, latchStep, isShiftMake, isShiftBreak, beq_false_of_ne h1,
    beq_false_of_ne h2, beq_false_of_ne h3, beq_false_of_ne h4, beq_false_of_ne h5,
    beq_false_of_ne h6, beq_false_of_ne h7, beq_false_of_ne h8, beq_false_of_ne h9, Bool.or_self,
    Bool.false_eq_true, if_false]

theorem isrSwitch_modifier {k : SpecialKey} (h : (b, k) ∈ modifierBytes) :
    isrSwitch k.code s = .ok () { s with kbState := s.kbState.next b } := by
  simp only [modifierBytes, List.mem_cons, Prod.mk.injEq, List.not_mem_nil, or_false] at h
  rcases h with ⟨rfl, rfl⟩ | ⟨rfl, rfl⟩ | ⟨rfl, rfl⟩ | ⟨rfl, rfl⟩ | ⟨rfl, rfl⟩ | ⟨rfl, rfl⟩ |
    ⟨rfl, rfl⟩ | ⟨rfl, rfl⟩ | ⟨rfl, rfl⟩ <;> rfl

/-- The switch on any other code: Delete does nothing, and the rest goes into the queue. -/
theorem isrSwitch_other {key : Keycode} (h : key ∉ modifierCodes) : isrSwitch key s =
    if key = keyDelete then .ok () s
    else (addKey s.kbState key).zoom IsrState.keyboard (fun kb s => { s with keyboard := kb }) s := by
  simp only [modifierCodes, modifierBytes, List.map_cons, List.map_nil, List.mem_cons,
    List.not_mem_nil, or_false, not_or] at h
  obtain ⟨h1, -, h3, -, h5, h6, h7, h8, h9⟩ := h
  simp only [isrSwitch, if_neg h1, if_neg h3, if_neg h5, if_neg h6, if_neg h7, if_neg h8, if_neg h9]

/-- The byte is that of a key that goes into the queue: neither the prefix of a scancode nor a modifier,
nor Delete, nor the shortcut that clears the screen. -/
def Queues (st : KbState) (b : BitVec 8) : Prop :=
  b ≠ 0xe0 ∧ b ∉ modifierBytes.map Prod.fst ∧
    ¬ (decodeScancode st b = 'l'.toNat ∧ st.ctrl = true) ∧ decodeScancode st b ≠ keyDelete

instance (st : KbState) (b : BitVec 8) : Decidable (Queues st b) :=
  inferInstanceAs (Decidable (_ ∧ _))

/-- **What one byte does.**  The modifiers change as the byte says, and the queue gets the decoded key
or stays as it is. -/
theorem isrKeyPress_spec (h : isrKeyPress b s = .ok () s') : s'.kbState = s.kbState.next b ∧
    (Queues s.kbState b →
      addKey s.kbState (decodeScancode s.kbState b) s.keyboard = .ok () s'.keyboard) ∧
    (¬ Queues s.kbState b → s'.keyboard = s.keyboard) := by
  rw [isrKeyPress] at h
  split at h
  · next hpre =>
    cases h
    rw [hpre, next_other _ (by decide)]
    exact ⟨rfl, fun hq => absurd rfl hq.1, fun _ => rfl⟩
  · next hpre =>
    dsimp only at h
    by_cases hmod : b ∈ modifierBytes.map Prod.fst
    · have hnot : ¬ Queues s.kbState b := fun hq => hq.2.1 hmod
      obtain ⟨⟨_, k⟩, hk, rfl⟩ := List.mem_map.mp hmod
      have hl : ¬ (k.code = 'l'.toNat ∧ s.kbState.ctrl = true) := by
        intro ⟨hcode, _⟩
        exact absurd hcode (by cases k <;> decide)
      rw [decodeScancode_modifier hk, if_neg hl, Kern.bind_ok (isrSwitch_modifier hk)] at h
      cases h
      exact ⟨rfl, fun hq => absurd hq hnot, fun _ => rfl⟩
    · rw [next_other _ hmod]
      split at h
      · next hl =>
        cases h
        exact ⟨rfl, fun hq => absurd hl hq.2.2.1, fun _ => rfl⟩
      · next hl =>
        obtain ⟨_, t, hswitch, h⟩ := Kern.of_bind_eq_ok h
        cases h
        rw [isrSwitch_other (decodeScancode_other hmod)] at hswitch
        split at hswitch
        · next hdel =>
          cases hswitch
          exact ⟨rfl, fun hq => absurd hdel hq.2.2.2, fun _ => rfl⟩
        · next hdel =>
          obtain ⟨kb, hadd, rfl⟩ := Kern.of_zoom_eq_ok hswitch
          exact ⟨rfl, fun _ => hadd, fun hq => absurd ⟨hpre, hmod, hl, hdel⟩ hq⟩

end Step

end Aosis.Interrupt
