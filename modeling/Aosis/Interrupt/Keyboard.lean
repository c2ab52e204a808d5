import Aosis.Common.Word
import Aosis.Lib.Ring

/-!
# The keyboard queue

`kernel/interrupt/keyboard.c` keeps the pressed keys in a ring of 4096 places.  It bounds
the length and the two indices by `sizeof(keyboard.buff)`, which counts bytes: a key takes
eight of them, so the bound is 32768.

As long as fewer than 4096 keys were ever added, the indices stay inside the array and the
ring is a first-in first-out queue (`InOrder`, `kbRun_of_inOrder`).  The 4096th key sends `tail`
past the end of the array.  `queueLaw_iff` puts the two together.
-/

namespace Aosis.Interrupt

open Aosis.Lib

/-! ### `keyboard.h` -/

/-- `kb_state_t`. -/
structure KbState where
  shift : Bool := false
  alt : Bool := false
  ctrl : Bool := false
  caps : Bool := false
  numlock : Bool := false
  scrlock : Bool := false
  esc : Bool := false
  deriving DecidableEq, Inhabited

/-- `keycode_t`. -/
abbrev Keycode := Nat

/-- `struct key`. -/
structure Key where
  state : KbState
  key : Keycode
  deriving DecidableEq, Inhabited

/-- `struct keyboard`. -/
structure Keyboard where
  buff : Vector Key 4096
  len : Nat
  head : Nat
  tail : Nat

/-- The initial `keyboard`. -/
def keyboard : Keyboard := ⟨Vector.replicate 4096 default, 0, 0, 0⟩

/-- `sizeof(keyboard.buff)`: the bit fields of the state and the key code take four bytes
each. -/
def sizeofBuff : Nat := 4096 * (4 + 4)

/-! ### The source -/

/-- `kb_get_key`.  The argument says whether the pointer is not `NULL`; the result is the
returned value and what is stored through the pointer. -/
def kbGetKey (key : Bool) : Kern Keyboard (Bool × Option Key) := fun keyboard =>
  if keyboard.len = 0 then .ok (false, none) keyboard
  else
    let next := { keyboard with
      head := (keyboard.head + 1) % sizeofBuff
      len := keyboard.len - 1 }
    if key then
      if h : keyboard.head < 4096 then .ok (true, some keyboard.buff[keyboard.head]) next
      else .error .outOfBounds keyboard
    else .ok (true, none) next

/-- `add_key`, in the modifier state `kb_state`. -/
def addKey (kb_state : KbState) (key : Keycode) : Kern Keyboard Unit := fun keyboard =>
  if keyboard.len < sizeofBuff then
    let new : Key := { key := key, state := kb_state }
    let len := keyboard.len + 1
    if h : keyboard.tail < 4096 then
      .ok () { keyboard with
        len := len
        buff := keyboard.buff.set keyboard.tail new
        tail := (keyboard.tail + 1) % sizeofBuff }
    else .error .outOfBounds { keyboard with len := len }
  else .ok () keyboard

/-! ### Runs against the abstract queue -/

/-- A call on the queue. -/
inductive KeyOp where
  | add (kb_state : KbState) (key : Keycode)
  | get (key : Bool)

/-- Whether the call adds a key. -/
def KeyOp.isAdd : KeyOp → Bool
  | .add _ _ => true
  | .get _ => false

/-- A call of the source, with what `kb_get_key` gives back. -/
def kbExec : KeyOp → Kern Keyboard (Option (Bool × Option Key))
  | .add kb_state key => do
    addKey kb_state key
    return none
  | .get key => do
    let out ← kbGetKey key
    return some out

/-- A sequence of calls of the source. -/
def kbRun : List KeyOp → Kern Keyboard (List (Option (Bool × Option Key)))
  | [] => pure []
  | op :: ops => do
    let out ← kbExec op
    let outs ← kbRun ops
    return out :: outs

/-- A call of the queue of 4096 places: its answer and the keys pending after it. -/
def fifoExec : KeyOp → List Key → Option (Bool × Option Key) × List Key
  | .add kb_state key, q => (none, Bounded.add 4096 q ⟨kb_state, key⟩)
  | .get _, [] => (some (false, none), [])
  | .get key, k :: q => (some (true, if key then some k else none), q)

/-- A sequence of calls of the queue of 4096 places. -/
def fifoRun : List KeyOp → List Key → List (Option (Bool × Option Key)) × List Key
  | [], q => ([], q)
  | op :: ops, q =>
    let (out, q') := fifoExec op q
    let (outs, q'') := fifoRun ops q'
    (out :: outs, q'')

/-- After the calls `ops` the keyboard is in bounds, has given the answers of the queue of
4096 places, and holds the keys that are pending there. -/
def Conforms (ops : List KeyOp) : Prop :=
  ∃ kb, kbRun ops keyboard = .ok (fifoRun ops []).1 kb ∧ kb.head < 4096 ∧ kb.tail < 4096 ∧
    kb.len = (fifoRun ops []).2.length ∧ Ring.Holds kb.buff 4096 kb.head (fifoRun ops []).2

/-- The keyboard behaves like the queue after every initial part of the calls. -/
def QueueLaw (ops : List KeyOp) : Prop := ∀ p, p <+: ops → Conforms p

/-! ### The ring before its first turn -/

/-- The keyboard after `n` keys were added: it has not wrapped, and `q` is pending. -/
structure InOrder (n : Nat) (kb : Keyboard) (q : List Key) : Prop where
  tail_eq : kb.tail = n
  head_add : kb.head + q.length = n
  len_eq : kb.len = q.length
  holds : Ring.Holds kb.buff sizeofBuff kb.head q

theorem inOrder_keyboard : InOrder 0 keyboard [] :=
  ⟨rfl, rfl, rfl, Ring.holds_nil _ _ _⟩

theorem InOrder.add {n : Nat} {kb : Keyboard} {q : List Key} (hi : InOrder n kb q) (hn : n < 4096)
    (kb_state : KbState) (key : Keycode) :
    ∃ kb', addKey kb_state key kb = .ok () kb' ∧
      InOrder (n + 1) kb' (Bounded.add 4096 q ⟨kb_state, key⟩) := by
  obtain ⟨htail, hhead, hlen, hholds⟩ := hi
  have hq : q.length < 4096 := by omega
  have hmod : (kb.head + q.length) % sizeofBuff = kb.tail := by
    rw [hhead, htail]
    exact Nat.mod_eq_of_lt (by unfold sizeofBuff; omega)
  have hpush := hholds.push (by unfold sizeofBuff; omega) (by rw [hmod, htail]; exact hn)
    ⟨kb_state, key⟩
  simp only [hmod] at hpush
  rw [addKey, if_pos (by rw [hlen]; unfold sizeofBuff; omega), dif_pos (by rw [htail]; exact hn),
    Bounded.add, if_pos hq]
  refine ⟨_, rfl, ?_, ?_, ?_, hpush⟩
  · show (kb.tail + 1) % sizeofBuff = n + 1
    rw [htail]
    exact Nat.mod_eq_of_lt (by unfold sizeofBuff; omega)
  · show kb.head + (q ++ [_]).length = n + 1
    rw [List.length_append, List.length_singleton]
    omega
  · show kb.len + 1 = (q ++ [_]).length
    rw [List.length_append, List.length_singleton, hlen]

theorem InOrder.getKey {n : Nat} {kb : Keyboard} {q : List Key} (hi : InOrder n kb q)
    (hn : n ≤ 4096) (key : Bool) :
    ∃ kb', kbGetKey key kb = .ok (!q.isEmpty, if key then q.head? else none) kb' ∧
      InOrder n kb' q.tail := by
  obtain ⟨htail, hhead, hlen, hholds⟩ := hi
  cases q with
  | nil =>
    refine ⟨kb, ?_, htail, hhead, hlen, hholds⟩
    rw [kbGetKey, if_pos (show kb.len = 0 from hlen)]
    cases key <;> rfl
  | cons k q =>
    obtain ⟨hk, hrest⟩ := hholds.pop
    rw [List.length_cons] at hhead hlen
    have hlt : kb.head < 4096 := by omega
    have hmod : kb.head % sizeofBuff = kb.head := Nat.mod_eq_of_lt (by unfold sizeofBuff; omega)
    have hk' : kb.buff[kb.head] = k := by
      rw [hmod, Vector.getElem?_eq_getElem hlt] at hk
      exact Option.some.inj hk
    have hinv : InOrder n { kb with head := (kb.head + 1) % sizeofBuff, len := kb.len - 1 } q := by
      refine ⟨htail, ?_, ?_, hrest⟩
      · show (kb.head + 1) % sizeofBuff + q.length = n
        rw [Nat.mod_eq_of_lt (by unfold sizeofBuff; omega)]
        omega
      · show kb.len - 1 = q.length
        omega
    refine ⟨_, ?_, hinv⟩
    rw [kbGetKey, if_neg (by omega)]
    cases key with
    | false => rfl
    | true => simp only [if_true, dif_pos hlt, hk', List.isEmpty_cons, Bool.not_false, List.head?_cons]

theorem InOrder.get {n : Nat} {kb : Keyboard} {q : List Key} (hi : InOrder n kb q) (hn : n ≤ 4096)
    (key : Bool) : ∃ kb', kbExec (.get key) kb = .ok (fifoExec (.get key) q).1 kb' ∧
      InOrder n kb' (fifoExec (.get key) q).2 := by
  obtain ⟨kb', hget, hin⟩ := hi.getKey hn key
  cases q with
  | nil =>
    have hnone : (if key then ([] : List Key).head? else none) = none := by cases key <;> rfl
    rw [hnone] at hget
    exact ⟨kb', Kern.bind_ok hget, hin⟩
  | cons k q => exact ⟨kb', Kern.bind_ok hget, hin⟩

/-- **Before the first turn the keyboard is a queue**: while fewer than 4096 keys were
added before a call, the calls return and answer as the queue does. -/
theorem kbRun_of_inOrder : ∀ (ops : List KeyOp) {n : Nat} {kb : Keyboard} {q : List Key}, InOrder n kb q →
    n + ops.countP KeyOp.isAdd ≤ 4096 →
    ∃ kb', kbRun ops kb = .ok (fifoRun ops q).1 kb' ∧
      InOrder (n + ops.countP KeyOp.isAdd) kb' (fifoRun ops q).2 := by
  intro ops
  induction ops with
  | nil => intro n kb q hi _; exact ⟨kb, rfl, hi⟩
  | cons op ops ih =>
    intro n kb q hi hcount
    cases op with
    | add kb_state key =>
      rw [List.countP_cons_of_pos rfl] at hcount ⊢
      obtain ⟨kb₁, hadd, hi₁⟩ := hi.add (by omega) kb_state key
      obtain ⟨kb₂, hrun, hi₂⟩ := ih hi₁ (by omega)
      have hexec : kbExec (.add kb_state key) kb = .ok none kb₁ := Kern.bind_ok hadd
      refine ⟨kb₂, ?_, by rwa [Nat.add_right_comm, Nat.add_assoc] at hi₂⟩
      exact (Kern.bind_ok hexec).trans (Kern.bind_ok hrun)
    | get key =>
      rw [List.countP_cons_of_neg (by simp [KeyOp.isAdd])] at hcount ⊢
      obtain ⟨kb₁, hget, hi₁⟩ := hi.get (by omega) key
      obtain ⟨kb₂, hrun, hi₂⟩ := ih hi₁ (by omega)
      exact ⟨kb₂, (Kern.bind_ok hget).trans (Kern.bind_ok hrun), hi₂⟩

theorem conforms_of_lt {ops : List KeyOp} (h : ops.countP KeyOp.isAdd < 4096) : Conforms ops := by
  obtain ⟨kb, hrun, hi⟩ := kbRun_of_inOrder ops inOrder_keyboard (by omega)
  have htail := hi.tail_eq
  have hhead := hi.head_add
  refine ⟨kb, hrun, by omega, by omega, hi.len_eq, ?_⟩
  intro i hlt
  have hcell := hi.holds i hlt
  rwa [Nat.mod_eq_of_lt (by unfold sizeofBuff; omega),
    ← Nat.mod_eq_of_lt (show kb.head + i < 4096 by omega)] at hcell

/-- The 4096th key leaves `tail` just past the array. -/
theorem not_conforms_of_eq {ops : List KeyOp} (h : ops.countP KeyOp.isAdd = 4096) : ¬ Conforms ops := by
  intro ⟨kb, hrun, _, htail, _, _⟩
  obtain ⟨kb', hrun', hi⟩ := kbRun_of_inOrder ops inOrder_keyboard (by omega)
  have hkb : EStateM.Result.ok _ kb = EStateM.Result.ok _ kb' := hrun.symm.trans hrun'
  cases hkb
  have := hi.tail_eq
  omega

theorem exists_prefix_countP : ∀ (ops : List KeyOp) (n : Nat), n ≤ ops.countP KeyOp.isAdd →
    ∃ p, p <+: ops ∧ p.countP KeyOp.isAdd = n := by
  intro ops
  induction ops with
  | nil => intro n hn; exact ⟨[], List.nil_prefix, (Nat.le_zero.mp hn).symm⟩
  | cons op ops ih =>
    intro n hn
    cases n with
    | zero => exact ⟨[], List.nil_prefix, rfl⟩
    | succ n =>
      by_cases hop : op.isAdd
      · rw [List.countP_cons_of_pos hop] at hn
        obtain ⟨p, hp, hcount⟩ := ih n (by omega)
        exact ⟨op :: p, List.cons_prefix_cons.mpr ⟨rfl, hp⟩,
          by rw [List.countP_cons_of_pos hop, hcount]⟩
      · rw [List.countP_cons_of_neg hop] at hn
        obtain ⟨p, hp, hcount⟩ := ih (n + 1) hn
        exact ⟨op :: p, List.cons_prefix_cons.mpr ⟨rfl, hp⟩,
          by rw [List.countP_cons_of_neg hop, hcount]⟩

/-- **When the keyboard is a queue.**  A sequence of calls keeps the keyboard in bounds and
first-in first-out if and only if it adds fewer than 4096 keys. -/
theorem queueLaw_iff (ops : List KeyOp) : QueueLaw ops ↔ ops.countP KeyOp.isAdd < 4096 := by
  refine ⟨?_, fun h p hp => conforms_of_lt ?_⟩
  · intro h
    by_contra hge
    obtain ⟨p, hp, hcount⟩ := exists_prefix_countP ops 4096 (by omega)
    exact not_conforms_of_eq hcount (h p hp)
  · exact lt_of_le_of_lt hp.sublist.countP_le h

/-- Pressing one key 4096 times takes `tail` out of the array. -/
theorem not_queueLaw_replicate : ¬ QueueLaw (List.replicate 4096 (.add {} 97)) := by
  intro h
  exact not_conforms_of_eq (by rw [List.countP_replicate]; rfl) (h _ List.prefix_rfl)

end Aosis.Interrupt
