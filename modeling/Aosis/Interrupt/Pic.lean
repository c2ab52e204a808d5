import Aosis.Interrupt.Idt
import Aosis.Libc.Str
import Aosis.Terminal.Print
import Aosis.Terminal.Tty

/-!
# The timer

`kernel/interrupt/pic.c`.  `pic_init` divides the clock of the interval timer, which counts down from a
number of 16 bits and starts again.

* `picInit_iff`: for which frequencies the timer counts what `pic_init` has computed.
-/

namespace Aosis.Interrupt

open Aosis.Libc Aosis.Terminal

/-! ### The interval timer -/

/-- Channel 0 of the 8254: the control word, the byte that it has of the next count, and the number that
it counts down from. -/
structure Pit where
  control : BitVec 8
  low : Option (BitVec 8)
  count : Nat

namespace Pit

/-- The control word for channel 0; those for the other channels change nothing here. -/
def command (pit : Pit) (b : BitVec 8) : Pit :=
  if b >>> 6 = 0 then { pit with control := b, low := none } else pit

/-- A count of two bytes, the low one first; zero stands for `0x10000`.  The ways to write a single byte
are left out. -/
def data (pit : Pit) (b : BitVec 8) : Pit :=
  match pit.low with
  | none => { pit with low := some b }
  | some low =>
    let n := (b ++ low).toNat
    { pit with low := none, count := if n = 0 then 0x10000 else n }

/-- A byte at a port. -/
def outb (pit : Pit) (port data : Nat) : Pit :=
  if port = 0x43 then pit.command (BitVec.ofNat 8 data)
  else if port = 0x40 then pit.data (BitVec.ofNat 8 data)
  else pit

/-- Both bytes of a count are written, and the output is a square wave. -/
def SquareWave (pit : Pit) : Prop := (pit.control >>> 4) &&& 3 = 3 ∧ (pit.control >>> 1) &&& 3 = 3

end Pit

/-! ### The source -/

/-- The variables of `pic.c`, and the interval timer. -/
structure Timer where
  print : Bool
  tick : Word
  pit : Pit

/-- `pic_callback` up to the call of `scheduler`. -/
def picCallback (timer : Timer) (tty : Tty) : Timer × Tty :=
  let tick := timer.tick + 1
  let timer := { timer with tick := tick }
  if timer.print then
    let tty := Print.ttyPrintstr ttyPutc (cstring (ascii "Tick: ")) tty
    let tty := Print.ttyPrintint ttyPutc tick tty
    (timer, ttyPutc 10 tty)
  else (timer, tty)

/-- `pic_get_tick`. -/
def picGetTick (timer : Timer) : Word := timer.tick

/-- `pic_init`.  A division by zero is an exception; its handler returns to the division, and does not
return when the exception comes again. -/
def picInit (frequency : Word) (print_tick : Bool) : Kern (IntState × Timer) Unit := fun s =>
  let timer := { s.2 with print := print_tick }
  let int := { s.1 with idtHandlers := Function.update s.1.idtHandlers 32 (some .picCallback) }
  if frequency = 0 then .error .diverge (int, timer)
  else
    let divisor := (1193180 : Word) / frequency
    let l : BitVec 8 := (divisor &&& 0xFF).setWidth 8
    let h : BitVec 8 := ((divisor >>> 8) &&& 0xFF).setWidth 8
    let pit := ((timer.pit.outb 0x43 0x36).outb 0x40 l.toNat).outb 0x40 h.toNat
    .ok () (int, { timer with pit := pit })

/-! ### The count -/

theorem outb_count (pit : Pit) (l h : BitVec 8) :
    ((pit.outb 0x43 0x36).outb 0x40 l.toNat).outb 0x40 h.toNat =
      ⟨0x36, none, if (h ++ l).toNat = 0 then 0x10000 else (h ++ l).toNat⟩ := by
  have hcommand : pit.outb 0x43 0x36 = { pit with control := 0x36, low := none } := by
    rw [Pit.outb, if_pos rfl, Pit.command, if_pos (by decide)]
    rfl
  have hdata : ∀ (pit : Pit) (b : BitVec 8), pit.outb 0x40 b.toNat = pit.data b := by
    intro pit b
    rw [Pit.outb, if_neg (by decide), if_pos rfl, BitVec.ofNat_toNat, BitVec.setWidth_eq]
  rw [hcommand, hdata, hdata]
  rfl

theorem toNat_bytes (divisor : Word) :
    (((divisor >>> 8) &&& 0xFF).setWidth 8 ++ (divisor &&& 0xFF).setWidth 8 : BitVec 16).toNat =
      divisor.toNat % 2 ^ 16 := by
  have hmask : (0xFF : Word).setWidth 8 = BitVec.allOnes 8 := rfl
  have hlow : (divisor &&& 0xFF).setWidth 8 = divisor.extractLsb' 0 8 := by
    rw [BitVec.setWidth_and, hmask, BitVec.and_allOnes]
    ext i hi
    simp
  have hhigh : ((divisor >>> 8) &&& 0xFF).setWidth 8 = divisor.extractLsb' 8 8 := by
    rw [BitVec.setWidth_and, hmask, BitVec.and_allOnes]
    ext i hi
    simp
  rw [hlow, hhigh, Memory.Gdt.append_fields divisor 0 8 8, BitVec.extractLsb'_toNat,
    Nat.shiftRight_zero]

/-- **What `pic_init` does.** -/
theorem picInit_ok {frequency : Word} (h0 : frequency ≠ 0) (print_tick : Bool)
    (s : IntState × Timer) : ∃ pit, pit.SquareWave ∧
      pit.count = (if 1193180 / frequency.toNat % 2 ^ 16 = 0 then 0x10000
        else 1193180 / frequency.toNat % 2 ^ 16) ∧
      picInit frequency print_tick s = .ok ()
        ({ s.1 with idtHandlers := Function.update s.1.idtHandlers 32 (some .picCallback) },
          ⟨print_tick, s.2.tick, pit⟩) := by
  have hdiv : ((1193180 : Word) / frequency).toNat = 1193180 / frequency.toNat := BitVec.toNat_udiv
  refine ⟨_, ?_, ?_, if_neg h0⟩
  · have hwave : ((0x36 : BitVec 8) >>> 4) &&& 3 = 3 ∧ ((0x36 : BitVec 8) >>> 1) &&& 3 = 3 := by decide
    dsimp only
    rw [outb_count]
    exact hwave
  · dsimp only
    rw [outb_count]
    dsimp only
    rw [toNat_bytes, hdiv]

/-- The timer runs with the frequency: it counts down from the number of clock ticks in a period, which
is at least one. -/
def RunsAt (pit : Pit) (frequency : Word) : Prop :=
  pit.SquareWave ∧ pit.count = 1193180 / frequency.toNat ∧ 0 < pit.count

/-- **When `pic_init` sets the timer to a frequency**: from 19 to 1193180 Hz. -/
theorem picInit_iff (frequency : Word) (print_tick : Bool) (s : IntState × Timer) :
    (∃ t, picInit frequency print_tick s = .ok () t ∧ RunsAt t.2.pit frequency) ↔
      19 ≤ frequency.toNat ∧ frequency.toNat ≤ 1193180 := by
  constructor
  · rintro ⟨t, h, -, hcount, hpos⟩
    have h0 : frequency ≠ 0 := by
      rintro rfl
      cases h
    obtain ⟨pit, -, hpit, hok⟩ := picInit_ok h0 print_tick s
    rw [hok] at h
    cases h
    dsimp only at hcount hpos
    rw [hcount] at hpos hpit
    refine ⟨not_lt.mp fun hlt => ?_, (Nat.div_pos_iff.mp hpos).2⟩
    -- the divisor has more than 16 bits
    have hle : 1193180 / 18 ≤ 1193180 / frequency.toNat :=
      Nat.div_le_div_left (by omega) (Nat.div_pos_iff.mp hpos).1
    split_ifs at hpit <;> omega
  · rintro ⟨hlo, hhi⟩
    have h0 : frequency ≠ 0 := by
      rintro rfl
      exact absurd hlo (by decide)
    have hle : 1193180 / frequency.toNat ≤ 1193180 / 19 := Nat.div_le_div_left hlo (by decide)
    have hpos : 0 < 1193180 / frequency.toNat := Nat.div_pos hhi (by omega)
    obtain ⟨pit, hwave, hpit, hok⟩ := picInit_ok h0 print_tick s
    have hsame : 1193180 / frequency.toNat % 2 ^ 16 = 1193180 / frequency.toNat :=
      Nat.mod_eq_of_lt (by omega)
    rw [hsame, if_neg (by omega)] at hpit
    exact ⟨_, hok, hwave, hpit, hpit ▸ hpos⟩

end Aosis.Interrupt
