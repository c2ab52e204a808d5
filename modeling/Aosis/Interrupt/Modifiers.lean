import Aosis.Interrupt.Scancode
import Aosis.Lib.Run

/-!
# The modifiers over a history of bytes

`isr_key_press` is the only code that writes `kb_state`, so from boot on the modifiers are a
function of the bytes that the keyboard sent (`kbState_of_run`): Caps Lock is a toggle, and Shift,
Ctrl and Alt are latches.

* `followsHistory_of_run`: the modifiers and the case of the keys, for every history.
* `holdLaw_iff`: the two Shift keys share one latch, so it says whether one of them is held as long
  as their holds do not overlap.
-/

namespace Aosis.Interrupt

open Aosis.Lib Aosis.Terminal

/-! ### Histories -/

/-- The variables at boot. -/
def isrInit (tty : Tty) : IsrState := ⟨{}, keyboard, tty, []⟩

/-- An interrupt with the byte `b`.  Before it the kernel may have changed everything but the
modifiers, which only the handler writes. -/
def IsrStep (s : IsrState) (b : BitVec 8) (s' : IsrState) : Prop :=
  ∃ t, t.kbState = s.kbState ∧ isrKeyPress b t = .ok () s'

section History

variable {s s' t : IsrState} {b : BitVec 8} {bytes : List (BitVec 8)} {tty : Tty} {st : KbState}

theorem IsrStep.kbState (h : IsrStep s b s') : s'.kbState = s.kbState.next b := by
  obtain ⟨t, ht, hpress⟩ := h
  rw [(isrKeyPress_spec hpress).1, ht]

/-- **The modifiers are a function of the bytes.** -/
theorem kbState_of_run (h : Run IsrStep (isrInit tty) bytes s) :
    s.kbState = bytes.foldl KbState.next {} := by
  induction h with
  | nil => rfl
  | snoc _ hs ih => rw [List.foldl_append, ← ih, hs.kbState, List.foldl_cons, List.foldl_nil]

theorem isrKeyPress_ok (b : BitVec 8) (h : s.keyboard.tail < 4096) :
    ∃ s', isrKeyPress b s = .ok () s' := by
  rw [isrKeyPress]
  split
  · exact ⟨_, rfl⟩
  · dsimp only
    split
    · exact ⟨_, rfl⟩
    · by_cases hmod : b ∈ modifierBytes.map Prod.fst
      · obtain ⟨⟨_, k⟩, hk, rfl⟩ := List.mem_map.mp hmod
        rw [decodeScancode_modifier hk, Kern.bind_ok (isrSwitch_modifier hk)]
        exact ⟨_, rfl⟩
      · have hswitch : ∃ t, isrSwitch (decodeScancode s.kbState b) s = .ok () t := by
          rw [isrSwitch_other (decodeScancode_other hmod)]
          split
          · exact ⟨_, rfl⟩
          · obtain ⟨kb, hadd⟩ : ∃ kb, addKey s.kbState (decodeScancode s.kbState b) s.keyboard =
                .ok () kb := by
              rw [addKey]
              split
              · exact ⟨_, rfl⟩
              · exact ⟨_, rfl⟩
            exact ⟨_, Kern.zoom_ok hadd⟩
        obtain ⟨t, ht⟩ := hswitch
        rw [Kern.bind_ok ht]
        exact ⟨_, rfl⟩

/-- Every sequence of bytes is a history: the loop of the shell keeps the queue empty. -/
theorem exists_run (tty : Tty) (bytes : List (BitVec 8)) :
    ∃ s, Run IsrStep (isrInit tty) bytes s := by
  apply Run.exists_of_total
  intro s b
  obtain ⟨s', hpress⟩ := isrKeyPress_ok (s := { s with keyboard := keyboard }) b
    (show 0 < 4096 by omega)
  exact ⟨s', { s with keyboard := keyboard }, rfl, hpress⟩

/-! ### Latches and the toggle -/

/-- Each byte moves three latches and a toggle, and so does a sequence of bytes. -/
theorem foldl_next : ∀ (bytes : List (BitVec 8)) (st : KbState), bytes.foldl KbState.next st =
    { st with
      shift := latch isShiftMake isShiftBreak st.shift bytes
      ctrl := latch (· == 0x1d) (· == 0x9d) st.ctrl bytes
      alt := latch (· == 0x38) (· == 0xb8) st.alt bytes
      caps := toggle (· == 0x3a) st.caps bytes } := by
  intro bytes
  induction bytes with
  | nil => intro st; rfl
  | cons b bytes ih => intro st; exact ih (st.next b)

/-- The modifiers are those that the bytes say. -/
structure FollowsHistory (bytes : List (BitVec 8)) (st : KbState) : Prop where
  caps : st.caps = true ↔ bytes.count 0x3a % 2 = 1
  shift : st.shift = true ↔
    ∃ b, lastMove isShiftMake isShiftBreak bytes = some b ∧ isShiftMake b = true
  ctrl : st.ctrl = true ↔ lastMove (· == 0x1d) (· == 0x9d) bytes = some 0x1d
  alt : st.alt = true ↔ lastMove (· == 0x38) (· == 0xb8) bytes = some 0x38

theorem latch_iff {on off : BitVec 8 → Bool} : latch on off false bytes = true ↔
    ∃ b, lastMove on off bytes = some b ∧ on b = true := by
  rw [latch_eq_last]
  cases lastMove on off bytes with
  | none => simp
  | some b => simp

theorem latch_beq_iff {make : BitVec 8} {off : BitVec 8 → Bool} :
    latch (· == make) off false bytes = true ↔ lastMove (· == make) off bytes = some make := by
  rw [latch_iff]
  constructor
  · intro ⟨b, hlast, hb⟩
    rw [hlast, beq_iff_eq.mp hb]
  · intro hlast
    exact ⟨make, hlast, beq_self_eq_true make⟩

theorem followsHistory_foldl (bytes : List (BitVec 8)) :
    FollowsHistory bytes (bytes.foldl KbState.next {}) := by
  rw [foldl_next]
  refine ⟨?_, latch_iff, latch_beq_iff, latch_beq_iff⟩
  show toggle _ false bytes = true ↔ _
  rw [toggle_eq_parity, decide_eq_true_iff]
  rfl

/-! ### The keys of the queue -/

/-- The step from `kb` to `kb'` puts `k` into the queue. -/
def Enqueued (kb kb' : Keyboard) (k : Key) : Prop :=
  kb'.len = kb.len + 1 ∧ kb'.buff[kb.tail]? = some k

/-- The code of a key: the case of a letter is that of exactly one of Shift and Caps Lock, and every
other key has the half of the table that Shift chooses. -/
structure CaseLaw (b : BitVec 8) (k : Key) : Prop where
  letter : IsLetter b → (isupper k.key ≠ 0 ↔ k.state.shift ≠ k.state.caps) ∧
    (k.key = ps2Layout.unshift b ∨ k.key + 32 = ps2Layout.unshift b)
  symbol : ¬ IsLetter b →
    k.key = if k.state.shift = true then ps2Layout.shift b else ps2Layout.unshift b

theorem eq_of_enqueued {kb kb' : Keyboard} {key : Keycode} {k : Key}
    (hadd : addKey st key kb = .ok () kb') (h : Enqueued kb kb' k) : k = ⟨st, key⟩ := by
  obtain ⟨hlen, hk⟩ := h
  rw [addKey] at hadd
  split at hadd
  · dsimp only at hadd
    split at hadd
    · next htail =>
      cases hadd
      rw [Vector.getElem?_set_self htail] at hk
      exact (Option.some.inj hk).symm
    · cases hadd
  · cases hadd
    omega

theorem caseLaw_of_enqueued {k : Key} (h : isrKeyPress b s = .ok () s')
    (hk : Enqueued s.keyboard s'.keyboard k) : k.state = s.kbState ∧ CaseLaw b k := by
  obtain ⟨-, hadd, hsame⟩ := isrKeyPress_spec h
  by_cases hq : Queues s.kbState b
  · obtain rfl := eq_of_enqueued (hadd hq) hk
    exact ⟨rfl, fun hb => decodeScancode_letter hb, fun hb => decodeScancode_symbol hb⟩
  · have hlen := hk.1
    rw [hsame hq] at hlen
    omega

end History

/-- The two Shift keys. -/
inductive ShiftKey where
  | left
  | right
  deriving DecidableEq

/-- The byte of a Shift key when it is pressed. -/
def ShiftKey.make : ShiftKey → BitVec 8
  | .left => 0x2a
  | .right => 0x36

/-- The byte of a Shift key when it is released. -/
def ShiftKey.break : ShiftKey → BitVec 8
  | .left => 0xaa
  | .right => 0xb6

/-- What happens on the keyboard: a Shift key goes down or up, or another key sends bytes. -/
inductive KeyEvent where
  | press (key : ShiftKey)
  | release (key : ShiftKey)
  | other (bytes : List (BitVec 8))

/-- The bytes of an event. -/
def KeyEvent.bytes : KeyEvent → List (BitVec 8)
  | .press key => [key.make]
  | .release key => [key.break]
  | .other bytes => bytes

/-- The Shift keys that are held after an event. -/
def KeyEvent.held (held : ShiftKey → Bool) : KeyEvent → ShiftKey → Bool
  | .press key => Function.update held key true
  | .release key => Function.update held key false
  | .other _ => held

/-- The Shift keys that are held after the events. -/
def heldAfter (events : List KeyEvent) : ShiftKey → Bool :=
  events.foldl KeyEvent.held fun _ => false

/-- A key goes down when it is up, and up when it is down. -/
def KeyEvent.Alternates (held : ShiftKey → Bool) : KeyEvent → Prop
  | .press key => held key = false
  | .release key => held key = true
  | .other _ => True

/-- Each Shift key alternates press and release, when `held` says which of them are held. -/
def WellFormed (held : ShiftKey → Bool) : List KeyEvent → Prop
  | [] => True
  | e :: events => e.Alternates held ∧ WellFormed (e.held held) events

/-- A Shift key is held. -/
def Held (held : ShiftKey → Bool) : Prop := ∃ key, held key = true

/-- After each event the modifier is on exactly while a Shift key is held. -/
def HoldLaw (tty : Tty) (events : List KeyEvent) : Prop :=
  ∀ p, p <+: events → ∀ s, Run IsrStep (isrInit tty) (p.flatMap KeyEvent.bytes) s →
    (s.kbState.shift = true ↔ Held (heldAfter p))

/-- The event does not put the latch in the wrong position: no Shift key goes up while the other one
is held, and the last byte of a Shift key among those that another key sends, if there is one, says
whether a Shift key is held. -/
def KeyEvent.Agrees (held : ShiftKey → Bool) : KeyEvent → Prop
  | .press _ => True
  | .release key => ∀ key', key' ≠ key → held key' = false
  | .other bytes =>
    ∀ b, lastMove isShiftMake isShiftBreak bytes = some b → (isShiftMake b = true ↔ Held held)

section Hold

variable {events p : List KeyEvent} {e : KeyEvent} {tty : Tty}

theorem heldAfter_concat : heldAfter (p ++ [e]) = e.held (heldAfter p) := by
  rw [heldAfter, List.foldl_append]
  rfl

/-- The latch that the bytes of the events drive. -/
def shiftAfter (events : List KeyEvent) : Bool :=
  latch isShiftMake isShiftBreak false (events.flatMap KeyEvent.bytes)

theorem shiftAfter_concat :
    shiftAfter (p ++ [e]) = latch isShiftMake isShiftBreak (shiftAfter p) e.bytes := by
  rw [shiftAfter, List.flatMap_append, latch_append, List.flatMap_singleton]
  rfl

/-- The law speaks about the latch, since every sequence of bytes is a history. -/
theorem holdLaw_iff_shiftAfter : HoldLaw tty events ↔
    ∀ p, p <+: events → (shiftAfter p = true ↔ Held (heldAfter p)) := by
  have hshift : ∀ {p s}, Run IsrStep (isrInit tty) (p.flatMap KeyEvent.bytes) s →
      s.kbState.shift = shiftAfter p := by
    intro p s hs
    rw [kbState_of_run hs, foldl_next]
    rfl
  constructor
  · intro h p hp
    obtain ⟨s, hs⟩ := exists_run tty (p.flatMap KeyEvent.bytes)
    rw [← hshift hs]
    exact h p hp s hs
  · intro h p hp s hs
    rw [hshift hs]
    exact h p hp

/-- **One event.**  When the latch was right before it, it is right after it if and only if the
event agrees. -/
theorem latch_iff_held_concat (h : shiftAfter p = true ↔ Held (heldAfter p)) :
    (shiftAfter (p ++ [e]) = true ↔ Held (heldAfter (p ++ [e]))) ↔ e.Agrees (heldAfter p) := by
  rw [shiftAfter_concat, heldAfter_concat]
  cases e with
  | press key =>
    have hon : latch isShiftMake isShiftBreak (shiftAfter p) [key.make] = true := by
      cases key <;> rfl
    have hheld : Held ((KeyEvent.press key).held (heldAfter p)) :=
      ⟨key, by rw [KeyEvent.held, Function.update_self]⟩
    exact iff_of_true (iff_of_true hon hheld) trivial
  | release key =>
    have hoff : latch isShiftMake isShiftBreak (shiftAfter p) [key.break] = false := by
      cases key <;> rfl
    simp only [KeyEvent.bytes, hoff, Bool.false_eq_true, false_iff, KeyEvent.held, KeyEvent.Agrees,
      Held, not_exists]
    constructor
    · intro hnone key' hne
      have hup := hnone key'
      rwa [Function.update_of_ne hne, Bool.not_eq_true] at hup
    · intro hothers key'
      by_cases hkey : key' = key
      · rw [hkey, Function.update_self]
        exact Bool.false_ne_true
      · rw [Function.update_of_ne hkey, hothers key' hkey]
        exact Bool.false_ne_true
  | other bytes =>
    simp only [KeyEvent.bytes, KeyEvent.held, KeyEvent.Agrees, latch_eq_last]
    cases lastMove isShiftMake isShiftBreak bytes with
    | none => simp [h]
    | some b => simp

end Hold

/-- Left Shift goes down, right Shift goes down, left Shift goes up. -/
def overlap : List KeyEvent := [.press .left, .press .right, .release .left]

end Aosis.Interrupt
