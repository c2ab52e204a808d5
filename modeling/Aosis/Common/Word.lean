import Mathlib.Data.Nat.Bitwise
import Mathlib.Tactic.Ring

/-!
# Machine words, faults and the macros of the kernel

The kernel runs on i686: `uint32_t`, `size_t` and pointers have 32 bits.  Addresses, sizes
and counters are natural numbers, and every operation of the source that can leave the
range of a word is written with `u32` or `sub32`.  Words that are read bit by bit are
`BitVec 32`.

A function of the kernel either returns or ends the run: `Fault` lists how.  The state is
kept in both cases (`EStateM`), because a panic stops the kernel but does not undo what it
did before.
-/

namespace Aosis

/-- A machine word whose bits matter. -/
abbrev Word := BitVec 32

/-- How a run of the kernel can end. -/
inductive Fault where
  /-- `panic(msg)`: print the message and loop with interrupts disabled. -/
  | panic (msg : String)
  /-- An access past the end of an array. -/
  | outOfBounds
  /-- A memory access through a virtual address that is not mapped. -/
  | pageFault (addr : Nat)
  /-- A loop that never ends. -/
  | diverge
  deriving DecidableEq, Repr

/-- A function of the kernel on the state `σ`. -/
abbrev Kern (σ α : Type) := EStateM Fault σ α

/-- The state a call leaves behind, whether it returned or not. -/
def stateAfter {σ α : Type} : EStateM.Result Fault σ α → σ
  | .ok _ s => s
  | .error _ s => s

namespace Kern

variable {σ α β : Type} {x : Kern σ α} {f : α → Kern σ β} {s s' : σ}

/-- A call, when its effect ends with the function that makes it. -/
def exec (x : Kern σ α) (s : σ) : Except Fault (α × σ) :=
  match x s with
  | .ok a s' => .ok (a, s')
  | .error e _ => .error e

theorem exec_ok {a : α} (h : x s = .ok a s') : x.exec s = .ok (a, s') := by rw [exec, h]

theorem ok_bind {γ δ : Type} (a : γ) (g : γ → Except Fault δ) : (Except.ok a >>= g) = g a := rfl

theorem exec_error {e : Fault} (h : x s = .error e s') : x.exec s = .error e := by rw [exec, h]

theorem bind_ok {a : α} (h : x s = .ok a s') : (x >>= f) s = f a s' := by
  show EStateM.bind x f s = f a s'
  rw [EStateM.bind, h]

theorem bind_error {e : Fault} (h : x s = .error e s') : (x >>= f) s = .error e s' := by
  show EStateM.bind x f s = .error e s'
  rw [EStateM.bind, h]

theorem modify_ok (g : σ → σ) (s : σ) : (modify g : Kern σ PUnit) s = .ok ⟨⟩ (g s) := rfl

theorem of_bind_eq_ok {b : β} (h : (x >>= f) s = .ok b s') :
    ∃ a t, x s = .ok a t ∧ f a t = .ok b s' := by
  have h' : EStateM.bind x f s = .ok b s' := h
  rw [EStateM.bind] at h'
  split at h'
  · next a t hx => exact ⟨a, t, hx, h'⟩
  · cases h'

/-- A function on a part of the state. -/
def zoom {τ : Type} (get : σ → τ) (set : τ → σ → σ) (x : Kern τ α) : Kern σ α := fun s =>
  match x (get s) with
  | .ok a t => .ok a (set t s)
  | .error e t => .error e (set t s)

section Zoom

variable {τ : Type} {get : σ → τ} {set : τ → σ → σ} {y : Kern τ α} {t : τ} {a : α}

theorem zoom_ok (h : y (get s) = .ok a t) : zoom get set y s = .ok a (set t s) := by
  rw [zoom, h]

theorem of_zoom_eq_ok (h : zoom get set y s = .ok a s') :
    ∃ t, y (get s) = .ok a t ∧ s' = set t s := by
  rw [zoom] at h
  split at h
  · next b t hy =>
    cases h
    exact ⟨t, hy, rfl⟩
  · cases h

end Zoom

/-- No call of the function ends in a panic. -/
def NeverPanics (x : Kern σ α) : Prop := ∀ s msg s', x s ≠ .error (.panic msg) s'

section NeverPanics

variable {τ : Type} {get : σ → τ} {set : τ → σ → σ} {y : Kern τ α}

theorem NeverPanics.of_bind {msg : String} (hx : NeverPanics x)
    (h : (x >>= f) s = .error (.panic msg) s') :
    ∃ a t, x s = .ok a t ∧ f a t = .error (.panic msg) s' := by
  have h' : EStateM.bind x f s = .error (.panic msg) s' := h
  rw [EStateM.bind] at h'
  split at h'
  · next a t hx' => exact ⟨a, t, hx', h'⟩
  · next e t hx' =>
    cases h'
    exact absurd hx' (hx s msg s')

theorem NeverPanics.bind (hx : NeverPanics x) (hf : ∀ a, NeverPanics (f a)) :
    NeverPanics (x >>= f) := by
  intro s msg s' h
  obtain ⟨a, t, -, h'⟩ := hx.of_bind h
  exact hf a t msg s' h'

theorem NeverPanics.zoom (hy : NeverPanics y) : NeverPanics (zoom get set y) := by
  intro s msg s' h
  rw [Kern.zoom] at h
  split at h
  · cases h
  · next e t hy' =>
    cases h
    exact hy _ msg t hy'

theorem neverPanics_pure (a : α) : NeverPanics (pure a : Kern σ α) := fun _ _ _ h => by cases h

theorem neverPanics_modify (g : σ → σ) : NeverPanics (modify g : Kern σ PUnit) :=
  fun _ _ _ h => by cases h

end NeverPanics

/-- A call that returns has not changed this part of the state. -/
def Keeps {τ : Type} (get : σ → τ) (x : Kern σ α) : Prop := ∀ s a s', x s = .ok a s' → get s' = get s

section Keeps

variable {τ : Type} {get : σ → τ}

theorem Keeps.bind (hx : Keeps get x) (hf : ∀ a, Keeps get (f a)) : Keeps get (x >>= f) := by
  intro s b s' h
  obtain ⟨a, t, hxs, hft⟩ := of_bind_eq_ok h
  exact (hf a t b s' hft).trans (hx s a t hxs)

theorem keeps_pure (a : α) : Keeps get (pure a : Kern σ α) := fun _ _ _ h => by
  cases h
  rfl

theorem keeps_modify {g : σ → σ} (hg : ∀ s, get (g s) = get s) :
    Keeps get (modify g : Kern σ PUnit) := fun s _ _ h => by
  cases h
  exact hg s

end Keeps

end Kern

/-! ### Arithmetic of 32-bit words -/

/-- The value of an unsigned 32-bit expression. -/
def u32 (n : Nat) : Nat := n % 2 ^ 32

/-- Unsigned 32-bit subtraction. -/
def sub32 (a b : Nat) : Nat := u32 (a + (2 ^ 32 - u32 b))

theorem u32_lt (n : Nat) : u32 n < 2 ^ 32 := Nat.mod_lt n (by decide)

theorem u32_of_lt {n : Nat} (h : n < 2 ^ 32) : u32 n = n := Nat.mod_eq_of_lt h

theorem sub32_of_le {a b : Nat} (ha : a < 2 ^ 32) (h : b ≤ a) : sub32 a b = a - b := by
  unfold sub32 u32
  omega

/-! ### `common_macros.h` -/

/-- `1U << index`.  A count of 32 or more is undefined in C; the shift instruction of the
i686 takes the count modulo 32. -/
def bitMask (index : Nat) : Word := 1#32 <<< (index % 32)

/-- `CHECK_BIT_SET(num, index)`, as a truth value. -/
def checkBitSet (num : Word) (index : Nat) : Bool := num &&& bitMask index != 0

/-- `SET_BIT(num, index)`. -/
def setBit (num : Word) (index : Nat) : Word := num ||| bitMask index

/-- `CLEAR_BIT(num, index)`. -/
def clearBit (num : Word) (index : Nat) : Word := num &&& ~~~bitMask index

theorem bitMask_of_lt {j : Nat} (hj : j < 32) : bitMask j = BitVec.twoPow 32 j := by
  rw [bitMask, Nat.mod_eq_of_lt hj, BitVec.twoPow]

theorem checkBitSet_eq (num : Word) {j : Nat} (hj : j < 32) :
    checkBitSet num j = num.getLsbD j := by
  rw [checkBitSet, bitMask_of_lt hj, BitVec.and_twoPow]
  cases num.getLsbD j with
  | false => simp
  | true =>
    have hne : BitVec.twoPow 32 j ≠ 0 := by
      intro h
      have := congrArg (fun x : Word => x.getLsbD j) h
      simp [hj] at this
    simpa using hne

/-! ### `pmm.h` -/

/-- `PAGE_SIZE`. -/
def pageSize : Nat := 4096

/-- `PAGE_ALIGN(x)`: clear the low twelve bits. -/
def pageAlign (x : Nat) : Nat := x &&& 0xFFFFF000

/-- `PAGE_INCREMENT(x)`. -/
def pageIncrement (x : Nat) : Nat := u32 (x + pageSize)

/-- `PAGE_DECREMENT(x)`. -/
def pageDecrement (x : Nat) : Nat := sub32 x pageSize

theorem testBit_pageMask : ∀ i < 32, Nat.testBit 0xFFFFF000 i = decide (12 ≤ i) := by decide

theorem pageAlign_eq {x : Nat} (hx : x < 2 ^ 32) : pageAlign x = x / 4096 * 4096 := by
  rw [show x / 4096 * 4096 = (x >>> 12) <<< 12 by
    rw [Nat.shiftLeft_eq, Nat.shiftRight_eq_div_pow]]
  apply Nat.eq_of_testBit_eq
  intro i
  rw [pageAlign, Nat.testBit_and, Nat.testBit_shiftLeft, Nat.testBit_shiftRight]
  by_cases h32 : i < 32
  · rw [testBit_pageMask i h32]
    by_cases h12 : 12 ≤ i
    · rw [show 12 + (i - 12) = i by omega]
      simp [h12]
    · simp [h12]
  · have hlt : x < 2 ^ i := lt_of_lt_of_le hx (Nat.pow_le_pow_right (by decide) (by omega))
    rw [show 12 + (i - 12) = i by omega]
    simp [Nat.testBit_lt_two_pow hlt]

theorem pageAlign_u32 (x : Nat) : pageAlign x = u32 x / 4096 * 4096 := by
  rw [← pageAlign_eq (u32_lt x), pageAlign, pageAlign, u32, ← Nat.and_two_pow_sub_one_eq_mod,
    Nat.and_assoc]
  rfl

theorem pageAlign_lt (x : Nat) : pageAlign x < 2 ^ 32 := by
  have := u32_lt x
  rw [pageAlign_u32]
  omega

theorem pageAlign_mod (x : Nat) : pageAlign x % 4096 = 0 := by
  rw [pageAlign_u32]
  omega

end Aosis
