import Aosis.Interrupt.ExceptionReturn
import Aosis.Interrupt.Modifiers
import Aosis.Interrupt.Pic

/-!
# From the devices to the handlers

`irq_handler` of `kernel/interrupt/interrupt.c` with everything around it: the devices raise interrupt
lines at any moment, the interrupt controllers pass the requests to the processor, the processor goes
through the IDT to a stub, the stub calls `irq_handler`, and `irq_handler` ends the interrupt and calls
the handler of the vector.  The keyboard sends its bytes through a register that holds one of them.

* `Core.step`: an interrupt is in service only until `irq_handler` ends it, so whenever interrupts are
  enabled the controllers are at rest.
* `delivered_of_run`: no interrupt is lost or duplicated, and none is held back by another one.

Line 15 is an exception to all of this: its vector leads to `other_interrupt`, which ends nothing and
does not return like the handler of an interrupt, so a run ends there (`Pc.stray`).
-/

namespace Aosis.Interrupt.Dispatch

open Aosis.Lib Aosis.Lib.Pic8259 Aosis.Terminal Machine

/-! ### The source -/

/-- `irq_handler` up to the call of the handler, which is the result. -/
def irqHandler (int_no : Word) : Kern IntState (Option IdtHandler) := fun s =>
  let s := if 40 ≤ int_no then { s with pics := s.pics.outb 0xA0 0x20 } else s
  let s := { s with pics := s.pics.outb 0x20 0x20 }
  if int_no.toNat < 256 then .ok (s.idtHandlers (int_no.setWidth 8)) s else .error .outOfBounds s

/-- `keyboard_init`. -/
def keyboardInit (s : IntState) : IntState :=
  { s with idtHandlers := Function.update s.idtHandlers 33 (some .isrKeyPress) }

/-! ### The system -/

/-- Where the processor is. -/
inductive Pc where
  /-- In the code of the kernel or of a task, outside the handlers. -/
  | code
  /-- At the call of `irq_handler`, for the interrupt of a line, or of none if the request is gone. -/
  | irq (line : Option Line) (int_no : Word)
  /-- At the call of a handler. -/
  | handler (h : IdtHandler)
  /-- In `isr_key_press`, after `inb`. -/
  | key (scancode : BitVec 8)
  /-- In the stub, after `irq_handler`. -/
  | done
  /-- In `other_interrupt`. -/
  | stray

/-- The variables of `interrupt.c`, `pic.c` and `keyboard.c`, the data register of the keyboard and
whether it holds a byte that was not read, and the bytes that the keyboard still has to send.  The last
four record what happened: the bytes that the keyboard made, those that the handler has handled, the
requests of each line that the controllers have taken in, and the calls of `irq_handler`. -/
structure Sys where
  int : IntState
  timer : Timer
  isr : IsrState
  data : BitVec 8
  full : Bool
  keys : List (BitVec 8)
  pc : Pc
  typed : List (BitVec 8)
  handled : List (BitVec 8)
  latched : Line → Nat
  served : List (Line × Option IdtHandler)

namespace Sys

/-- The requests that wait. -/
def pending (s : Sys) : Line → Bool := s.int.pics.pending

/-- An edge on a line.  It is one more request unless one waits already. -/
def raise (s : Sys) (l : Line) : Sys :=
  { s with
    int := { s.int with pics := s.int.pics.raise l }
    latched := if s.pending l then s.latched else Function.update s.latched l (s.latched l + 1) }

/-- An interrupt is taken: interrupts are disabled. -/
def take (s : Sys) (p : Pair) (pc : Pc) : Sys :=
  { s with int := { s.int with pics := p, interrupts := false }, pc := pc }

/-- The kernel after `interrupt_init`. -/
def init (sym : Symbols) (int : IntState) (timer : Timer) (tty : Tty) (data : BitVec 8) : Sys where
  int := interruptInit sym int
  timer := { timer with tick := 0 }
  isr := isrInit tty
  data := data
  full := false
  keys := []
  pc := .code
  typed := []
  handled := []
  latched := fun _ => 0
  served := []

end Sys

/-- What can happen. -/
inductive Event where
  | key (scancode : BitVec 8)
  | load
  | raise (l : Line)
  | take
  | spurious
  | irqHandler
  | inb
  | isrKeyPress
  | picCallback
  | ret
  | code
  | keyboardInit
  | picInit (frequency : Word) (print_tick : Bool)

/-- The steps of the system. -/
inductive Step (sym : Symbols) : Sys → Event → Sys → Prop
  /-- The keyboard makes a byte. -/
  | key {s : Sys} (scancode : BitVec 8) :
      Step sym s (.key scancode)
        { s with keys := s.keys ++ [scancode], typed := s.typed ++ [scancode] }
  /-- The next byte of the keyboard goes into the data register, when the last one was read. -/
  | load {s : Sys} {scancode : BitVec 8} {keys : List (BitVec 8)} (hfull : s.full = false)
      (hkeys : s.keys = scancode :: keys) :
      Step sym s .load ({ s with data := scancode, full := true, keys := keys }.raise (.master 1))
  /-- Another device raises its line.  Line 2 of the master is the slave's. -/
  | raise {s : Sys} {l : Line} (hkey : l ≠ .master 1) (hslave : l ≠ .master 2) :
      Step sym s (.raise l) (s.raise l)
  /-- The processor takes an interrupt, and a stub calls `irq_handler`. -/
  | take {s : Sys} {l : Line} {p : Pair} {g : Gate} {n : Fin 16} {m : Machine} (hpc : s.pc = .code)
      (henabled : s.int.interrupts = true) (hack : s.int.pics.acknowledge = some (l, p))
      (hgate : s.int.gate sym (s.int.pics.vector l) = some g) (hstub : g.offset = sym.irq n) :
      Step sym s .take (s.take p
        (.irq (some l) ((irqEntry (BitVec.ofNat 32 (32 + n.val)) m).word 36)))
  /-- The processor takes an interrupt that leads to `other_interrupt`. -/
  | stray {s : Sys} {l : Line} {p : Pair} {g : Gate} (hpc : s.pc = .code)
      (henabled : s.int.interrupts = true) (hack : s.int.pics.acknowledge = some (l, p))
      (hgate : s.int.gate sym (s.int.pics.vector l) = some g) (hother : g.offset = sym.otherInterrupt) :
      Step sym s .take (s.take p .stray)
  /-- A request is gone before the processor has taken it; the master gives the vector of its last line,
  with nothing in service. -/
  | spurious {s : Sys} {g : Gate} {n : Fin 16} {m : Machine} (hpc : s.pc = .code)
      (henabled : s.int.interrupts = true)
      (hgate : s.int.gate sym (s.int.pics.vector (.master 7)) = some g) (hstub : g.offset = sym.irq n) :
      Step sym s .spurious (s.take s.int.pics
        (.irq none ((irqEntry (BitVec.ofNat 32 (32 + n.val)) m).word 36)))
  | irqHandler {s : Sys} {l : Option Line} {int_no : Word} {h : Option IdtHandler} {int : IntState}
      (hpc : s.pc = .irq l int_no) (hcall : irqHandler int_no s.int = .ok h int) :
      Step sym s .irqHandler { s with
        int := int
        pc := h.elim .done .handler
        served := s.served ++ (l.map fun l => (l, h)).toList }
  | inb {s : Sys} (hpc : s.pc = .handler .isrKeyPress) :
      Step sym s .inb { s with full := false, pc := .key s.data }
  | isrKeyPress {s : Sys} {scancode : BitVec 8} {isr : IsrState} (hpc : s.pc = .key scancode)
      (hcall : isrKeyPress scancode s.isr = .ok () isr) :
      Step sym s .isrKeyPress { s with
        isr := isr
        int := { s.int with pics := s.int.pics.outbs (isr.ports.drop s.isr.ports.length) }
        pc := .done
        handled := s.handled ++ [scancode] }
  | picCallback {s : Sys} {timer : Timer} {tty : Tty} (hpc : s.pc = .handler .picCallback)
      (hcall : picCallback s.timer s.isr.tty = (timer, tty)) :
      Step sym s .picCallback { s with timer := timer, isr := { s.isr with tty := tty }, pc := .done }
  /-- The stub returns, or `scheduler` goes on with another task; both enable interrupts. -/
  | ret {s : Sys} (hpc : s.pc = .done) :
      Step sym s .ret { s with int := { s.int with interrupts := true }, pc := .code }
  /-- The code outside the handlers changes the queue and the screen. -/
  | code {s : Sys} (keyboard : Keyboard) (tty : Tty) (hpc : s.pc = .code) :
      Step sym s .code { s with isr := { s.isr with keyboard := keyboard, tty := tty } }
  | keyboardInit {s : Sys} (hpc : s.pc = .code) :
      Step sym s .keyboardInit { s with int := keyboardInit s.int }
  | picInit {s : Sys} {frequency : Word} {print_tick : Bool} {t : IntState × Timer} (hpc : s.pc = .code)
      (hcall : picInit frequency print_tick (s.int, s.timer) = .ok () t) :
      Step sym s (.picInit frequency print_tick) { s with int := t.1, timer := t.2 }

/-! ### The C functions -/

theorem irqEntry_intNo (n : Word) (m : Machine) : (irqEntry n m).word 36 = n := by
  obtain ⟨esp, hsaved⟩ := irqEntry_saved n m
  exact hsaved.words.get (i := 9) rfl

theorem irqHandler_line (l : Line) (s : IntState) :
    irqHandler (BitVec.ofNat 32 (32 + (lineNumber l).val)) s =
      .ok (s.idtHandlers (BitVec.ofNat 8 (32 + (lineNumber l).val)))
        { s with pics := s.pics.outbs (endWords l) } := by
  have hlt := (lineNumber l).isLt
  have hint : (BitVec.ofNat 32 (32 + (lineNumber l).val)).toNat = 32 + (lineNumber l).val := by
    rw [BitVec.toNat_ofNat]
    omega
  have hvector : (BitVec.ofNat 32 (32 + (lineNumber l).val)).setWidth 8 =
      BitVec.ofNat 8 (32 + (lineNumber l).val) := by
    apply BitVec.eq_of_toNat_eq
    rw [BitVec.toNat_setWidth, hint, BitVec.toNat_ofNat]
  rw [irqHandler]
  dsimp only
  rw [hint, if_pos (by omega), hvector]
  cases l with
  | master i =>
    have hno : ¬ (40 : Word) ≤ BitVec.ofNat 32 (32 + (lineNumber (.master i)).val) := by
      rw [BitVec.le_def, hint]
      have : (lineNumber (.master i)).val = i.val := rfl
      have : (40 : Word).toNat = 40 := rfl
      omega
    rw [if_neg hno]
    rfl
  | slave j =>
    have hyes : (40 : Word) ≤ BitVec.ofNat 32 (32 + (lineNumber (.slave j)).val) := by
      rw [BitVec.le_def, hint, lineNumber_slave]
      have : (40 : Word).toNat = 40 := rfl
      omega
    rw [if_pos hyes]
    rfl

theorem isrKeyPress_ports {b : BitVec 8} {s s' : IsrState} (h : isrKeyPress b s = .ok () s') :
    s'.ports = s.ports ∨ s'.ports = s.ports ++ [(0x20, 0x20)] := by
  have hswitch : ∀ {t : IsrState}, isrSwitch (decodeScancode s.kbState b) s = .ok () t →
      t.ports = s.ports := by
    intro t ht
    by_cases hmod : b ∈ modifierBytes.map Prod.fst
    · obtain ⟨⟨_, k⟩, hk, rfl⟩ := List.mem_map.mp hmod
      rw [decodeScancode_modifier hk, isrSwitch_modifier hk] at ht
      cases ht
      rfl
    · rw [isrSwitch_other (decodeScancode_other hmod)] at ht
      split at ht
      · cases ht
        rfl
      · obtain ⟨kb, hadd, rfl⟩ := Kern.of_zoom_eq_ok ht
        rfl
  rw [isrKeyPress] at h
  split at h
  · cases h
    exact .inl rfl
  dsimp only at h
  split at h
  · cases h
    exact .inl rfl
  · obtain ⟨_, t, ht, hout⟩ := Kern.of_bind_eq_ok h
    cases hout
    exact .inr (congrArg (· ++ [(0x20, 0x20)]) (hswitch ht))

theorem picInit_int {frequency : Word} {print_tick : Bool} {s t : IntState × Timer}
    (h : picInit frequency print_tick s = .ok () t) :
    t.1 = { s.1 with idtHandlers := Function.update s.1.idtHandlers 32 (some .picCallback) } ∧
      t.2.tick = s.2.tick := by
  have h0 : frequency ≠ 0 := by
    rintro rfl
    cases h
  obtain ⟨pit, -, -, hok⟩ := picInit_ok h0 print_tick s
  rw [hok] at h
  cases h
  exact ⟨rfl, rfl⟩

/-! ### The controllers -/

/-- The controllers with the interrupt of one line in service, or of none. -/
def chips (pending : Line → Bool) : Option Line → Pair
  | some l => serving 0x20 0x28 pending l
  | none => resting 0x20 0x28 pending

/-- The interrupt that is in service. -/
def Pc.line : Pc → Option Line
  | .irq l _ => l
  | .stray => some (.slave 7)
  | _ => none

/-- The table and the controllers are as `interrupt_init` has left them, apart from the two handlers that
the kernel installs; an interrupt is in service only between the processor's acknowledgement and
`irq_handler`. -/
structure Core (sym : Symbols) (s : Sys) : Prop where
  gate : ∀ v, s.int.gate sym v = some (interruptGate (entry sym v))
  handlers : ∀ v : BitVec 8, v.toNat < 47 → ∀ h, s.int.idtHandlers v = some h →
    v = 32 ∧ h = .picCallback ∨ v = 33 ∧ h = .isrKeyPress
  cascade : s.pending (.master 2) = false
  pics : s.int.pics = chips s.pending s.pc.line
  enabled : s.int.interrupts = true ↔ s.pc = .code
  number : ∀ l int_no, s.pc = .irq l int_no → ∃ line, line ≠ .slave 7 ∧
    int_no = BitVec.ofNat 32 (32 + (lineNumber line).val) ∧
    (l = some line ∨ l = none ∧ line = .master 7)
  call : ∀ h, s.pc = .handler h → h = .picCallback ∨ h = .isrKeyPress

section Chips

variable {pending : Line → Bool}

theorem pending_chips (l : Option Line) : (chips pending l).pending = pending := by
  cases l with
  | none => exact pending_resting
  | some l => exact pending_serving l

theorem vector_chips (l : Option Line) (l' : Line) :
    (chips pending l).vector l' = (resting 0x20 0x28 pending).vector l' := by
  rcases l with _ | _ | _ <;> cases l' <;> rfl

theorem raise_chips (l : Option Line) (l' : Line) :
    (chips pending l).raise l' = chips (Function.update pending l' true) l := by
  cases l with
  | none => exact raise_resting l'
  | some l => exact raise_serving l l'

/-- The commands of `irq_handler`, for the interrupt in service or for a request that is gone. -/
theorem outbs_chips (l : Option Line) (line : Line) (h : l = some line ∨ l = none) :
    (chips pending l).outbs (endWords line) = chips pending none := by
  rcases h with rfl | rfl
  · exact resting_of_serving line
  · exact resting_of_resting line

end Chips

section Core

variable {sym : Symbols} {s s' : Sys} {e : Event}

theorem Core.entry_line (hi : Core sym s) (l : Line) :
    entry sym (s.int.pics.vector l) = if l = .slave 7 then sym.otherInterrupt
      else sym.irq (lineNumber l) := by
  rw [hi.pics, vector_chips, entry_vector]

theorem Core.pending_raise (hi : Core sym s) (l : Line) :
    (s.raise l).pending = Function.update s.pending l true := by
  show (s.int.pics.raise l).pending = _
  rw [hi.pics, raise_chips, pending_chips]

theorem Core.raise (hi : Core sym s) {l : Line} (hl : l ≠ .master 2) : Core sym (s.raise l) := by
  have hpending := hi.pending_raise l
  refine ⟨hi.gate, hi.handlers, ?_, ?_, hi.enabled, hi.number, hi.call⟩
  · rw [hpending, Function.update_of_ne hl.symm]
    exact hi.cascade
  · rw [hpending, ← raise_chips]
    exact congrArg (Pair.raise · l) hi.pics

theorem Core.acknowledge (hi : Core sym s) (hpc : s.pc = .code) {l : Line} {p : Pair}
    (hack : s.int.pics.acknowledge = some (l, p)) : s.pending l = true ∧
      (∀ l', s.pending l' = true → l.rank ≤ l'.rank) ∧
      p = chips (Function.update s.pending l false) (some l) := by
  have hrest := hi.pics
  rw [hpc] at hrest
  rw [hrest] at hack
  exact acknowledge_resting hi.cascade hack

theorem Core.stub (hi : Core sym s) {l : Line} {g : Gate}
    (hgate : s.int.gate sym (s.int.pics.vector l) = some g) :
    (∀ n, g.offset = sym.irq n → l ≠ .slave 7 ∧ n = lineNumber l) ∧
      (g.offset = sym.otherInterrupt → l = .slave 7) := by
  rw [hi.gate, hi.entry_line] at hgate
  obtain rfl := Option.some.inj hgate
  refine ⟨fun n hn => ?_, fun hother => ?_⟩
  · split at hn
    · exact absurd hn.symm (sym.irq_ne n)
    · next hl => exact ⟨hl, (sym.irq_injective hn).symm⟩
  · split at hother
    · next hl => exact hl
    · exact absurd hother (sym.irq_ne _)

theorem Core.take (hi : Core sym s) (hpc : s.pc = .code) {l : Line} {p : Pair} {pc : Pc}
    (hack : s.int.pics.acknowledge = some (l, p)) (hline : pc.line = some l) (hcode : pc ≠ .code)
    (hnumber : ∀ l int_no, pc = .irq l int_no → ∃ line, line ≠ .slave 7 ∧
      int_no = BitVec.ofNat 32 (32 + (lineNumber line).val) ∧
      (l = some line ∨ l = none ∧ line = .master 7))
    (hcall : ∀ h, pc ≠ .handler h) : Core sym (s.take p pc) := by
  obtain ⟨hpending, -, hp⟩ := hi.acknowledge hpc hack
  have hpend : (s.take p pc).pending = Function.update s.pending l false := by
    show p.pending = _
    rw [hp, pending_chips]
  refine ⟨hi.gate, hi.handlers, ?_, ?_, ?_, hnumber, fun h heq => absurd heq (hcall h)⟩
  · have hne : l ≠ .master 2 := by
      rintro rfl
      rw [hi.cascade] at hpending
      cases hpending
    rw [hpend, Function.update_of_ne hne.symm]
    exact hi.cascade
  · show p = chips (s.take p pc).pending pc.line
    rw [hpend, hline, hp]
  · exact ⟨fun h => (Bool.false_ne_true h).elim, fun h => absurd h hcode⟩

/-- `irq_handler` ends the interrupt; the handler that it calls is one of the two that the kernel
installs. -/
theorem Core.of_irqHandler (hi : Core sym s) {l : Option Line} {int_no : Word}
    {h : Option IdtHandler} {int : IntState} (hpc : s.pc = .irq l int_no)
    (hcall : irqHandler int_no s.int = .ok h int) :
    int = { s.int with pics := chips s.pending none } ∧ ∃ line, line ≠ .slave 7 ∧
      h = s.int.idtHandlers (BitVec.ofNat 8 (32 + (lineNumber line).val)) ∧
      (l = some line ∨ l = none ∧ line = .master 7) := by
  obtain ⟨line, h15, rfl, hline⟩ := hi.number l int_no hpc
  rw [irqHandler_line] at hcall
  cases hcall
  have hchips := hi.pics
  rw [hpc] at hchips
  refine ⟨?_, line, h15, rfl, hline⟩
  rw [hchips]
  congr 1
  exact outbs_chips l line (hline.imp_right And.left)

theorem Core.handling (hi : Core sym s) (hpc : s.pc ≠ .code)
    (hint : s'.int = { s.int with pics := chips s.pending none }) (hline : s'.pc.line = none)
    (hcode : s'.pc ≠ .code) (hirq : ∀ l n, s'.pc ≠ .irq l n)
    (hcall : ∀ h, s'.pc = .handler h → h = .picCallback ∨ h = .isrKeyPress) : Core sym s' := by
  have hpend : s'.pending = s.pending := by
    rw [Sys.pending, hint]
    exact pending_chips none
  refine ⟨fun v => ?_, fun v hv h hh => ?_, ?_, ?_, ⟨fun hc => ?_, fun hc => absurd hc hcode⟩,
    fun l n hc => absurd hc (hirq l n), hcall⟩
  · rw [hint]
    exact hi.gate v
  · rw [hint] at hh
    exact hi.handlers v hv h hh
  · rw [hpend]
    exact hi.cascade
  · rw [hint, hpend, hline]
  · rw [hint] at hc
    exact absurd (hi.enabled.mp hc) hpc

theorem Core.install (hi : Core sym s) (v : BitVec 8) (h : IdtHandler)
    (hv : v = 32 ∧ h = .picCallback ∨ v = 33 ∧ h = .isrKeyPress)
    (hint : s'.int = { s.int with idtHandlers := Function.update s.int.idtHandlers v (some h) })
    (hpc : s'.pc = s.pc) : Core sym s' := by
  have hpend : s'.pending = s.pending := by rw [Sys.pending, Sys.pending, hint]
  refine ⟨fun v => ?_, fun v' hlt h' hh => ?_, ?_, ?_, ?_, ?_, ?_⟩
  · rw [hint]
    exact hi.gate v
  · rw [hint] at hh
    dsimp only at hh
    rw [Function.update_apply] at hh
    split at hh
    · next heq =>
      cases hh
      rwa [heq]
    · exact hi.handlers v' hlt h' hh
  · rw [hpend]
    exact hi.cascade
  · rw [hpend, hpc, hint]
    exact hi.pics
  · rw [hpc, hint]
    exact hi.enabled
  · rw [hpc]
    exact hi.number
  · rw [hpc]
    exact hi.call

theorem Core.outbs_isrKeyPress (hi : Core sym s) {scancode : BitVec 8} {isr : IsrState}
    (hpc : s.pc = .key scancode) (hcall : isrKeyPress scancode s.isr = .ok () isr) :
    s.int.pics.outbs (isr.ports.drop s.isr.ports.length) = chips s.pending none := by
  have hpics := hi.pics
  rw [hpc] at hpics
  rw [hpics]
  rcases isrKeyPress_ports hcall with hports | hports
  · rw [hports, List.drop_length]
    rfl
  · rw [hports, List.drop_left]
    exact outbs_chips none (.master 0) (.inr rfl)

/-- **Every step keeps the controllers at rest outside of a few instructions.** -/
theorem Core.step (hi : Core sym s) (h : Step sym s e s') : Core sym s' := by
  have hpics : s.pc.line = none → s.int.pics = chips s.pending none := fun hline => hline ▸ hi.pics
  cases h with
  | key => exact ⟨hi.gate, hi.handlers, hi.cascade, hi.pics, hi.enabled, hi.number, hi.call⟩
  | load =>
    have hraise := hi.raise (l := .master 1) (by decide)
    exact ⟨hraise.gate, hraise.handlers, hraise.cascade, hraise.pics, hraise.enabled, hraise.number,
      hraise.call⟩
  | raise _ hslave => exact hi.raise hslave
  | @take l p g n m hpc henabled hack hgate hstub =>
    obtain ⟨h15, rfl⟩ := (hi.stub hgate).1 n hstub
    refine hi.take hpc hack rfl (fun hc => by cases hc) ?_ fun _ hc => by cases hc
    intro l' int_no heq
    cases heq
    exact ⟨l, h15, irqEntry_intNo _ m, .inl rfl⟩
  | @stray l p g hpc henabled hack hgate hother =>
    obtain rfl := (hi.stub hgate).2 hother
    exact hi.take hpc hack rfl (fun hc => by cases hc) (fun _ _ hc => by cases hc) fun _ hc => by cases hc
  | @spurious g n m hpc henabled hgate hstub =>
    obtain ⟨h15, rfl⟩ := (hi.stub hgate).1 n hstub
    have hrest := hpics (by rw [hpc]; rfl)
    refine ⟨hi.gate, hi.handlers, hi.cascade, hrest, ⟨fun hc => (Bool.false_ne_true hc).elim,
      fun hc => by cases hc⟩, ?_, fun _ hc => by cases hc⟩
    intro l' int_no heq
    cases heq
    exact ⟨.master 7, h15, irqEntry_intNo _ m, .inr ⟨rfl, rfl⟩⟩
  | @irqHandler l int_no h int hpc hcall =>
    obtain ⟨rfl, line, h15, rfl, -⟩ := hi.of_irqHandler hpc hcall
    have hlt := lineNumber_lt h15
    have hcases : ∀ h, s.int.idtHandlers (BitVec.ofNat 8 (32 + (lineNumber line).val)) = some h →
        h = .picCallback ∨ h = .isrKeyPress := by
      intro h hh
      refine (hi.handlers _ ?_ h hh).imp And.right And.right
      rw [BitVec.toNat_ofNat]
      omega
    generalize s.int.idtHandlers (BitVec.ofNat 8 (32 + (lineNumber line).val)) = h at hcases
    have hno : s.pc ≠ .code := fun hc => by rw [hpc] at hc; cases hc
    cases h with
    | none =>
      exact hi.handling hno rfl rfl (fun hc => by cases hc) (fun _ _ hc => by cases hc)
        fun _ hc => by cases hc
    | some h =>
      refine hi.handling hno rfl rfl (fun hc => by cases hc) (fun _ _ hc => by cases hc)
        fun h' hc => ?_
      cases hc
      exact hcases h rfl
  | inb hpc =>
    have hrest := hpics (by rw [hpc]; rfl)
    refine hi.handling (by rw [hpc]; exact fun hc => by cases hc) ?_ rfl (fun hc => by cases hc)
      (fun _ _ hc => by cases hc) fun _ hc => by cases hc
    dsimp only
    rw [← hrest]
  | isrKeyPress hpc hcall =>
    refine hi.handling (by rw [hpc]; exact fun hc => by cases hc) ?_ rfl (fun hc => by cases hc)
      (fun _ _ hc => by cases hc) fun _ hc => by cases hc
    dsimp only
    rw [hi.outbs_isrKeyPress hpc hcall]
  | picCallback hpc hcall =>
    have hrest := hpics (by rw [hpc]; rfl)
    refine hi.handling (by rw [hpc]; exact fun hc => by cases hc) ?_ rfl (fun hc => by cases hc)
      (fun _ _ hc => by cases hc) fun _ hc => by cases hc
    dsimp only
    rw [← hrest]
  | ret hpc =>
    have hrest := hpics (by rw [hpc]; rfl)
    exact ⟨hi.gate, hi.handlers, hi.cascade, hrest, ⟨fun _ => rfl, fun _ => rfl⟩,
      (fun _ _ hc => by cases hc), fun _ hc => by cases hc⟩
  | code => exact ⟨hi.gate, hi.handlers, hi.cascade, hi.pics, hi.enabled, hi.number, hi.call⟩
  | keyboardInit hpc => exact hi.install 33 .isrKeyPress (.inr ⟨rfl, rfl⟩) rfl rfl
  | picInit hpc hcall => exact hi.install 32 .picCallback (.inl ⟨rfl, rfl⟩) (picInit_int hcall).1 rfl

theorem pending_init (sym : Symbols) (int : IntState) (timer : Timer) (tty : Tty) (data : BitVec 8) :
    (Sys.init sym int timer tty data).pending = fun _ => false := by
  rw [Sys.pending, Sys.init, pics_interruptInit, pending_resting]

theorem Core.init (sym : Symbols) (int : IntState) (timer : Timer) (tty : Tty) (data : BitVec 8) :
    Core sym (Sys.init sym int timer tty data) := by
  have hpend := pending_init sym int timer tty data
  refine ⟨gate_interruptInit sym int, fun v hv h' hh => ?_, ?_, ?_, ⟨fun _ => rfl, fun _ => rfl⟩,
    (fun _ _ hc => by cases hc), fun _ hc => by cases hc⟩
  · rw [Sys.init, handlers_interruptInit, if_pos hv] at hh
    cases hh
  · rw [hpend]
  · rw [hpend]
    exact pics_interruptInit sym int

theorem Core.of_irqHandler_some (hi : Core sym s) {l : Option Line} {int_no : Word} {h : IdtHandler}
    {int : IntState} (hpc : s.pc = .irq l int_no) (hcall : irqHandler int_no s.int = .ok (some h) int) :
    l = some (.master 0) ∧ h = .picCallback ∨ l = some (.master 1) ∧ h = .isrKeyPress := by
  obtain ⟨-, line, h15, hh, hline⟩ := hi.of_irqHandler hpc hcall
  have hlt := lineNumber_lt h15
  have hnumber : (BitVec.ofNat 8 (32 + (lineNumber line).val)).toNat = 32 + (lineNumber line).val := by
    rw [BitVec.toNat_ofNat]
    omega
  have hnum : ∀ k : Nat, (lineNumber line).val = k → k < 2 →
      line = .master (Fin.ofNat 8 k) := by
    intro k hk hk2
    cases line with
    | master i =>
      have : i.val = k := hk
      exact congrArg Line.master (Fin.ext (by rw [Fin.val_ofNat]; omega))
    | slave j =>
      rw [lineNumber_slave] at hk
      omega
  have hsome : ∀ k, line = .master k → k ≠ 7 → l = some (.master k) := by
    rintro k rfl hk
    rcases hline with rfl | ⟨-, heq⟩
    · rfl
    · exact absurd (Line.master.inj heq) hk
  rcases hi.handlers _ (by omega) h hh.symm with ⟨hv, hpic⟩ | ⟨hv, hkey⟩
  · have := congrArg BitVec.toNat hv
    rw [hnumber] at this
    exact .inl ⟨hsome 0 (hnum 0 (by simpa using this) (by decide)) (by decide), hpic⟩
  · have := congrArg BitVec.toNat hv
    rw [hnumber] at this
    have h33 : (33 : BitVec 8).toNat = 33 := rfl
    exact .inr ⟨hsome 1 (hnum 1 (by omega) (by decide)) (by decide), hkey⟩

end Core

/-! ### Each request is served once -/

/-- One for a request that waits. -/
def Sys.waiting (s : Sys) (l : Line) : Nat := if s.pending l then 1 else 0

/-- One for the interrupt in service. -/
def Pc.inFlight (pc : Pc) (l : Line) : Nat := if pc.line = some l then 1 else 0

/-- The requests of a line were served, or the line waits, or its interrupt is in service. -/
def Counted (s : Sys) : Prop :=
  ∀ l, s.latched l = s.served.countP (fun c => c.1 = l) + s.waiting l + s.pc.inFlight l

section Counted

variable {sym : Symbols} {s s' : Sys} {e : Event}

theorem Counted.congr (hc : Counted s) (hpend : s'.pending = s.pending) (hline : s'.pc.line = s.pc.line)
    (hlatched : s'.latched = s.latched) (hserved : s'.served = s.served) : Counted s' := by
  intro l
  rw [Sys.waiting, Pc.inFlight, hpend, hline, hlatched, hserved]
  exact hc l

theorem Counted.raise (hi : Core sym s) (hc : Counted s) (l : Line) : Counted (s.raise l) := by
  intro l'
  have hold := hc l'
  have hpc : (s.raise l).pc = s.pc := rfl
  have hserved : (s.raise l).served = s.served := rfl
  rw [Sys.waiting, hi.pending_raise, hpc, hserved]
  rw [Sys.waiting] at hold
  by_cases hl : l' = l
  · subst hl
    rw [Function.update_self, Sys.raise]
    dsimp only
    split
    · next hp =>
      rw [if_pos hp] at hold
      rw [hold, if_pos rfl]
    · next hp =>
      rw [if_neg hp] at hold
      rw [Function.update_self, if_pos rfl]
      omega
  · rw [Function.update_of_ne hl, Sys.raise]
    dsimp only
    split
    · exact hold
    · rw [Function.update_of_ne hl]
      exact hold

theorem Counted.take (hi : Core sym s) (hc : Counted s) (hpc : s.pc = .code) {l : Line} {p : Pair}
    {pc : Pc} (hack : s.int.pics.acknowledge = some (l, p)) (hline : pc.line = some l) :
    Counted (s.take p pc) := by
  intro l'
  obtain ⟨hpending, -, hp⟩ := hi.acknowledge hpc hack
  have hpend : (s.take p pc).pending = Function.update s.pending l false := by
    show p.pending = _
    rw [hp, pending_chips]
  have hold := hc l'
  have hnone : s.pc.inFlight l' = 0 := by
    rw [Pc.inFlight, hpc]
    rfl
  show s.latched l' = s.served.countP (fun c => c.1 = l') + _ + pc.inFlight l'
  rw [Sys.waiting, hpend, Pc.inFlight, hline]
  rw [hnone, Sys.waiting] at hold
  by_cases hl : l' = l
  · subst hl
    rw [Function.update_self, if_neg (by decide), if_pos rfl]
    rw [if_pos hpending] at hold
    omega
  · rw [Function.update_of_ne hl, if_neg fun h => hl (Option.some.inj h).symm]
    exact hold

theorem Counted.irqHandler (hi : Core sym s) (hc : Counted s) {l : Option Line} {int_no : Word}
    {h : Option IdtHandler} {int : IntState} (hpc : s.pc = .irq l int_no)
    (hcall : Dispatch.irqHandler int_no s.int = .ok h int) (hint : s'.int = int)
    (hline : s'.pc.line = none) (hlatched : s'.latched = s.latched)
    (hserved : s'.served = s.served ++ (l.map fun l => (l, h)).toList) : Counted s' := by
  obtain ⟨rfl, -⟩ := hi.of_irqHandler hpc hcall
  have hpend : s'.pending = s.pending := by
    rw [Sys.pending, hint]
    exact pending_chips none
  intro l'
  have hold := hc l'
  have hwait : s'.waiting l' = s.waiting l' := by rw [Sys.waiting, Sys.waiting, hpend]
  have hnone : s'.pc.inFlight l' = 0 := by
    rw [Pc.inFlight, hline]
    rfl
  have hflight : s.pc.inFlight l' = if l = some l' then 1 else 0 := by rw [Pc.inFlight, hpc, Pc.line]
  rw [hlatched, hserved, hwait, hnone, List.countP_append, hold, hflight]
  cases l with
  | none => simp
  | some l =>
    by_cases hl : l = l'
    · simp [hl, Nat.add_right_comm]
    · simp [hl]

/-- **Every step keeps the balance.** -/
theorem Counted.step (hi : Core sym s) (hc : Counted s) (h : Step sym s e s') : Counted s' := by
  cases h with
  | key => exact hc.congr rfl rfl rfl rfl
  | load => exact (hc.raise hi (.master 1)).congr rfl rfl rfl rfl
  | raise => exact hc.raise hi _
  | take hpc _ hack => exact hc.take hi hpc hack rfl
  | stray hpc _ hack hgate hother =>
    obtain rfl := (hi.stub hgate).2 hother
    exact hc.take hi hpc hack rfl
  | spurious hpc => exact hc.congr rfl (by rw [hpc]; rfl) rfl rfl
  | @irqHandler l int_no h int hpc hcall =>
    have hline : (h.elim Pc.done Pc.handler).line = none := by cases h <;> rfl
    exact hc.irqHandler hi hpc hcall rfl hline rfl rfl
  | inb hpc => exact hc.congr rfl (by rw [hpc]; rfl) rfl rfl
  | isrKeyPress hpc hcall =>
    refine hc.congr ?_ (by rw [hpc]; rfl) rfl rfl
    show (s.int.pics.outbs _).pending = _
    rw [hi.outbs_isrKeyPress hpc hcall, pending_chips]
  | picCallback hpc => exact hc.congr rfl (by rw [hpc]; rfl) rfl rfl
  | ret hpc => exact hc.congr rfl (by rw [hpc]; rfl) rfl rfl
  | code => exact hc.congr rfl rfl rfl rfl
  | keyboardInit => exact hc.congr rfl rfl rfl rfl
  | picInit hpc hcall =>
    refine hc.congr ?_ rfl rfl rfl
    rw [Sys.pending, Sys.pending, (picInit_int hcall).1]

end Counted

/-! ### The calls of the handlers -/

/-- One for a call of the timer's handler that has not counted yet. -/
def Pc.ticking : Pc → Nat
  | .handler .picCallback => 1
  | _ => 0

/-- The timer's handler is called for line 0 of the master and the keyboard's for line 1, and every call
of the timer's handler counts. -/
structure Called (s : Sys) : Prop where
  handler : ∀ l h, (l, some h) ∈ s.served →
    l = .master 0 ∧ h = .picCallback ∨ l = .master 1 ∧ h = .isrKeyPress
  tick : s.timer.tick + BitVec.ofNat 32 s.pc.ticking =
    BitVec.ofNat 32 (s.served.countP fun c => c.2 = some .picCallback)

section Called

variable {sym : Symbols} {s s' : Sys} {e : Event}

theorem Called.congr (hc : Called s) (htick : s'.timer.tick = s.timer.tick)
    (hpc : s'.pc.ticking = s.pc.ticking) (hserved : s'.served = s.served) : Called s' := by
  refine ⟨?_, ?_⟩
  · rw [hserved]
    exact hc.handler
  · rw [htick, hpc, hserved]
    exact hc.tick

/-- **Every step keeps the count of the timer.** -/
theorem Called.step (hi : Core sym s) (hc : Called s) (h : Step sym s e s') : Called s' := by
  cases h with
  | key => exact hc.congr rfl rfl rfl
  | load => exact hc.congr rfl rfl rfl
  | raise => exact hc.congr rfl rfl rfl
  | take hpc => exact hc.congr rfl (by rw [hpc]; rfl) rfl
  | stray hpc => exact hc.congr rfl (by rw [hpc]; rfl) rfl
  | spurious hpc => exact hc.congr rfl (by rw [hpc]; rfl) rfl
  | @irqHandler l int_no h int hpc hcall =>
    have htick := hc.tick
    rw [hpc] at htick
    replace htick := (BitVec.add_zero s.timer.tick).symm.trans htick
    cases h with
    | none =>
      refine ⟨fun l' h' hmem => ?_, ?_⟩
      · rcases List.mem_append.mp hmem with hmem | hmem
        · exact hc.handler l' h' hmem
        · cases l <;> simp at hmem
      · dsimp only
        rw [List.countP_append, show (l.map fun l => (l, (none : Option IdtHandler))).toList.countP
          (fun c => c.2 = some .picCallback) = 0 by cases l <;> simp]
        exact (BitVec.add_zero _).trans htick
    | some h =>
      rcases hi.of_irqHandler_some hpc hcall with ⟨rfl, rfl⟩ | ⟨rfl, rfl⟩
      · refine ⟨fun l' h' hmem => ?_, ?_⟩
        · rcases List.mem_append.mp hmem with hmem | hmem
          · exact hc.handler l' h' hmem
          · cases List.mem_singleton.mp hmem
            exact .inl ⟨rfl, rfl⟩
        · dsimp only
          rw [List.countP_append, BitVec.ofNat_add, ← htick]
          rfl
      · refine ⟨fun l' h' hmem => ?_, ?_⟩
        · rcases List.mem_append.mp hmem with hmem | hmem
          · exact hc.handler l' h' hmem
          · cases List.mem_singleton.mp hmem
            exact .inr ⟨rfl, rfl⟩
        · dsimp only
          rw [List.countP_append]
          exact (BitVec.add_zero _).trans htick
  | inb hpc => exact hc.congr rfl (by rw [hpc]; rfl) rfl
  | isrKeyPress hpc => exact hc.congr rfl (by rw [hpc]; rfl) rfl
  | @picCallback timer tty hpc hcall =>
    refine ⟨hc.handler, ?_⟩
    have htick := hc.tick
    have htimer : timer.tick = s.timer.tick + 1 := by
      rw [Interrupt.picCallback] at hcall
      dsimp only at hcall
      split at hcall <;> cases hcall <;> rfl
    rw [hpc] at htick
    dsimp only
    rw [htimer, ← htick]
    exact BitVec.add_zero _
  | ret hpc => exact hc.congr rfl (by rw [hpc]; rfl) rfl
  | code => exact hc.congr rfl rfl rfl
  | keyboardInit => exact hc.congr rfl rfl rfl
  | picInit hpc hcall => exact hc.congr (picInit_int hcall).2 rfl rfl

end Called

/-! ### The law -/

/-- **No interrupt is lost, duplicated or held back.**  While the code outside the handlers runs, nothing
is in service and nothing is masked; each request that the controllers have taken in was served once, or
waits, or is being served; when one waits, the processor can take the one of highest priority; and
`pic_get_tick` is the number of calls of the timer's handler. -/
structure Delivered (sym : Symbols) (s : Sys) : Prop where
  rest : s.pc = .code → ∀ l, s.int.pics.inService l = false ∧ s.int.pics.masked l = false
  counted : Counted s
  handler : ∀ l h, (l, some h) ∈ s.served →
    l = .master 0 ∧ h = .picCallback ∨ l = .master 1 ∧ h = .isrKeyPress
  next : s.pc = .code → (∃ l, s.pending l = true) → ∃ l p s', s.int.pics.acknowledge = some (l, p) ∧
    (∀ l', s.pending l' = true → l.rank ≤ l'.rank) ∧ Step sym s .take s' ∧ s'.pc.line = some l
  tick : s.pc = .code →
    picGetTick s.timer = BitVec.ofNat 32 (s.served.countP fun c => c.2 = some .picCallback)

section Law

variable {sym : Symbols} {s : Sys} {events : List Event}

theorem Core.exists_take (hi : Core sym s) (hpc : s.pc = .code) {l : Line} (hl : s.pending l = true) :
    ∃ l p s', s.int.pics.acknowledge = some (l, p) ∧
      (∀ l', s.pending l' = true → l.rank ≤ l'.rank) ∧ Step sym s .take s' ∧ s'.pc.line = some l := by
  have hrest := hi.pics
  rw [hpc] at hrest
  have hne : l ≠ .master 2 := by
    rintro rfl
    rw [hi.cascade] at hl
    cases hl
  obtain ⟨l', p, hack⟩ : ∃ l' p, s.int.pics.acknowledge = some (l', p) := by
    rw [hrest]
    exact exists_acknowledge hl hne
  obtain ⟨-, hrank, -⟩ := hi.acknowledge hpc hack
  have hgate := hi.gate (s.int.pics.vector l')
  have henabled := hi.enabled.mpr hpc
  have hentry := hi.entry_line l'
  by_cases h15 : l' = .slave 7
  · rw [if_pos h15] at hentry
    exact ⟨l', p, _, hack, hrank, .stray hpc henabled hack hgate hentry, by rw [h15]; rfl⟩
  · rw [if_neg h15] at hentry
    exact ⟨l', p, _, hack, hrank, .take (m := interruptedKernel ⟨0, 0, 0, 0, 0, 0, 0⟩ 0xC0200000) hpc
      henabled hack hgate hentry, rfl⟩

theorem core_of_run {int : IntState} {timer : Timer} {tty : Tty} {data : BitVec 8}
    (h : Run (Step sym) (Sys.init sym int timer tty data) events s) :
    Core sym s ∧ Counted s ∧ Called s := by
  refine h.invariant (I := fun s => Core sym s ∧ Counted s ∧ Called s) ?_ ?_
  · rintro s e s' ⟨hi, hcount, hcall⟩ hstep
    exact ⟨hi.step hstep, hcount.step hi hstep, hcall.step hi hstep⟩
  · have hi := Core.init sym int timer tty data
    refine ⟨hi, fun l => ?_, fun _ _ hmem => absurd hmem List.not_mem_nil, rfl⟩
    rw [Sys.waiting, pending_init]
    rfl

/-- **Interrupts are delivered**, in every state of every run after `interrupt_init`. -/
theorem delivered_of_run (int : IntState) (timer : Timer) (tty : Tty) (data : BitVec 8)
    (h : Run (Step sym) (Sys.init sym int timer tty data) events s) : Delivered sym s := by
  obtain ⟨hi, hcount, hcall⟩ := core_of_run h
  refine ⟨fun hpc l => ?_, hcount, hcall.handler, fun hpc ⟨l, hl⟩ => hi.exists_take hpc hl,
    fun hpc => ?_⟩
  · have hrest := hi.pics
    rw [hpc] at hrest
    rw [hrest]
    exact inService_resting l
  · have htick := hcall.tick
    rw [hpc] at htick
    exact (BitVec.add_zero _).symm.trans htick

end Law

/-! ### A key -/

/-- Nothing waits, the keyboard has sent everything, and its handler is installed. -/
structure Ready (sym : Symbols) (s : Sys) : Prop where
  core : Core sym s
  code : s.pc = .code
  quiet : ∀ l, s.pending l = false
  empty : s.full = false
  sent : s.keys = []
  handler : s.int.idtHandlers 33 = some .isrKeyPress

/-- What happens when a key is pressed. -/
def keyEvents (scancode : BitVec 8) : List Event :=
  [.key scancode, .load, .take, .irqHandler, .inb, .isrKeyPress, .ret]

/-- The handler of the keyboard is installed, and has handled the bytes `handled` when it gets the next
one. -/
def Attended (handled : List (BitVec 8)) (s : Sys) (e : Event) : Prop :=
  e ≠ .code ∧ s.int.idtHandlers 33 ≠ none ∧ (e = .isrKeyPress → s.handled = handled)

section Ready

variable {sym : Symbols} {s : Sys}

theorem Core.exists_irqHandler (hi : Core sym s) (hpc : s.pc = .code) {l : Line} {p : Pair}
    (hack : s.int.pics.acknowledge = some (l, p)) (h15 : l ≠ .slave 7) {h : Option IdtHandler}
    (hh : s.int.idtHandlers (BitVec.ofNat 8 (32 + (lineNumber l).val)) = h) : ∃ t,
      Step sym s .take t ∧ Step sym t .irqHandler { s with
        int := { s.int with
          pics := chips (Function.update s.pending l false) none
          interrupts := false }
        pc := h.elim .done .handler
        served := s.served ++ [(l, h)] } := by
  have hentry := hi.entry_line l
  rw [if_neg h15] at hentry
  have htake := Step.take (m := interruptedKernel ⟨0, 0, 0, 0, 0, 0, 0⟩ 0xC0200000) hpc
    (hi.enabled.mpr hpc) hack (hi.gate (s.int.pics.vector l)) hentry
  rw [irqEntry_intNo] at htake
  have hcall := irqHandler_line l { s.int with pics := p, interrupts := false }
  obtain ⟨-, -, hp⟩ := hi.acknowledge hpc hack
  have hend : p.outbs (endWords l) = chips (Function.update s.pending l false) none := by
    rw [hp, outbs_chips (some l) l (.inl rfl)]
  dsimp only at hcall
  rw [hh, hend] at hcall
  have hirq : Step sym (s.take p (.irq (some l) (BitVec.ofNat 32 (32 + (lineNumber l).val))))
      .irqHandler _ := .irqHandler rfl hcall
  exact ⟨_, htake, hirq⟩

theorem Ready.exists_loaded (hr : Ready sym s) (scancode : BitVec 8) : ∃ t,
    Run (Within (Step sym) (Attended s.handled)) s [.key scancode, .load] t ∧ Core sym t ∧
      t.pc = .code ∧ t.pending = Function.update s.pending (.master 1) true ∧ t.data = scancode ∧
      t.keys = [] ∧ t.handled = s.handled ∧ t.isr = s.isr ∧
      t.int.idtHandlers = s.int.idtHandlers := by
  have hinstalled : s.int.idtHandlers 33 ≠ none := by
    rw [hr.handler]
    exact Option.some_ne_none _
  have hkeys : s.keys ++ [scancode] = [scancode] := by rw [hr.sent, List.nil_append]
  have hkey : Step sym s (.key scancode) _ := .key scancode
  have hi := hr.core.step hkey
  have hload : Step sym { s with keys := s.keys ++ [scancode], typed := s.typed ++ [scancode] }
      .load _ := .load hr.empty hkeys
  have hrun : Run (Within (Step sym) (Attended s.handled)) s [.key scancode] _ :=
    .single ⟨⟨Event.noConfusion, hinstalled, Event.noConfusion⟩, hkey⟩
  exact ⟨_, hrun.snoc ⟨⟨Event.noConfusion, hinstalled, Event.noConfusion⟩, hload⟩, hi.step hload,
    hr.code, hi.pending_raise _, rfl, rfl, rfl, rfl, rfl⟩

theorem Core.exists_handled (hi : Core sym s) (hpc : s.pc = .handler .isrKeyPress)
    (hinstalled : s.int.idtHandlers 33 ≠ none) {isr : IsrState}
    (hcall : isrKeyPress s.data s.isr = .ok () isr) : ∃ t,
      Run (Within (Step sym) (Attended s.handled)) s [.inb, .isrKeyPress, .ret] t ∧ Core sym t ∧
        t.pc = .code ∧ t.pending = s.pending ∧ t.full = false ∧ t.keys = s.keys ∧
        t.handled = s.handled ++ [s.data] ∧ t.isr = isr ∧
        t.int.idtHandlers = s.int.idtHandlers := by
  have hinb : Step sym s .inb _ := .inb hpc
  have hi₁ := hi.step hinb
  have hpress : Step sym { s with full := false, pc := .key s.data } .isrKeyPress _ :=
    .isrKeyPress rfl hcall
  have hpics := hi₁.outbs_isrKeyPress rfl hcall
  have hi₂ := hi₁.step hpress
  have hret : Step sym { s with
      isr := isr
      int := { s.int with pics := s.int.pics.outbs (isr.ports.drop s.isr.ports.length) }
      full := false
      pc := .done
      handled := s.handled ++ [s.data] } .ret _ := .ret rfl
  have hread : Run (Within (Step sym) (Attended s.handled)) s [.inb] _ :=
    .single ⟨⟨Event.noConfusion, hinstalled, Event.noConfusion⟩, hinb⟩
  have hrun := hread.snoc ⟨⟨Event.noConfusion, hinstalled, fun _ => rfl⟩, hpress⟩
  refine ⟨_, hrun.snoc ⟨⟨Event.noConfusion, hinstalled, Event.noConfusion⟩, hret⟩, hi₂.step hret, rfl,
    ?_, rfl, rfl, rfl, rfl, rfl⟩
  exact (congrArg Pair.pending hpics).trans (pending_chips none)

/-- **A key that is pressed while nothing waits is handled**, and nothing waits again. -/
theorem Ready.exists_handled (hr : Ready sym s) {scancode : BitVec 8} {isr : IsrState}
    (hcall : isrKeyPress scancode s.isr = .ok () isr) : ∃ s',
      Run (Within (Step sym) (Attended s.handled)) s (keyEvents scancode) s' ∧ Ready sym s' ∧
        s'.handled = s.handled ++ [scancode] ∧ s'.isr = isr := by
  obtain ⟨t, hload, hi, hpc, hpend, rfl, hkeys, hhandled, hisr, hhandlers⟩ := hr.exists_loaded scancode
  rw [← hhandled] at hload ⊢
  -- the interrupt of the keyboard is the only one that waits
  obtain ⟨l, p, -, hack, -⟩ := hi.exists_take hpc (l := .master 1) (by rw [hpend, Function.update_self])
  obtain rfl : l = .master 1 := by
    obtain ⟨hl, -⟩ := hi.acknowledge hpc hack
    by_contra hne
    rw [hpend, Function.update_of_ne hne, hr.quiet] at hl
    cases hl
  have hkeyboard : t.int.idtHandlers 33 = some .isrKeyPress := by rw [hhandlers, hr.handler]
  have hinstalled : t.int.idtHandlers 33 ≠ none := hkeyboard ▸ Option.some_ne_none _
  obtain ⟨u, htake, hirq⟩ := hi.exists_irqHandler hpc hack (by decide) hkeyboard
  have htaken : u.int.idtHandlers = t.int.idtHandlers := by
    cases htake <;> rfl
  rw [← hisr] at hcall
  obtain ⟨s', hrun, hi', hpc', hpend', hfull', hkeys', hhandled', hisr', hhandlers'⟩ :=
    ((hi.step htake).step hirq).exists_handled rfl hinstalled hcall
  dsimp only at hrun hpend' hkeys' hhandled' hhandlers'
  have hattended := (hload.snoc ⟨⟨Event.noConfusion, hinstalled, Event.noConfusion⟩, htake⟩).snoc
    ⟨⟨Event.noConfusion, htaken ▸ hinstalled, Event.noConfusion⟩, hirq⟩
  refine ⟨s', hattended.trans hrun, ⟨hi', hpc', fun l => ?_, hfull', hkeys'.trans hkeys, ?_⟩,
    hhandled', hisr'⟩
  · rw [hpend', Sys.pending]
    dsimp only
    rw [pending_chips, hpend, Function.update_idem, Function.update_apply]
    split
    · rfl
    · exact hr.quiet l
  · rw [hhandlers', hkeyboard]

theorem Ready.code_step (hr : Ready sym s) (keyboard : Keyboard) (tty : Tty) :
    Ready sym { s with isr := { s.isr with keyboard := keyboard, tty := tty } } :=
  ⟨hr.core.step (.code keyboard tty hr.code), hr.code, hr.quiet, hr.empty, hr.sent, hr.handler⟩

theorem Ready.keyboardInit (hi : Core sym s) (hpc : s.pc = .code) (hquiet : ∀ l, s.pending l = false)
    (hempty : s.full = false) (hsent : s.keys = []) :
    Ready sym { s with int := Dispatch.keyboardInit s.int } :=
  ⟨hi.step (.keyboardInit hpc), hpc, hquiet, hempty, hsent, by
    simp only [Dispatch.keyboardInit, Function.update_self]⟩

theorem Ready.init (sym : Symbols) (int : IntState) (timer : Timer) (tty : Tty) (data : BitVec 8) :
    Ready sym { Sys.init sym int timer tty data with
      int := Dispatch.keyboardInit (Sys.init sym int timer tty data).int } :=
  .keyboardInit (Core.init sym int timer tty data) rfl (fun l => by rw [pending_init]) rfl rfl

end Ready

/-- Addresses for the stubs. -/
def stubs : Symbols where
  isr n := 0x100000 + BitVec.ofNat 32 n.val
  irq n := 0x101000 + BitVec.ofNat 32 n.val
  otherInterrupt := 0x102000
  idt := 0x103000
  irq_injective := by decide
  irq_ne := by decide

/-- The controllers as a BIOS leaves them, and no table. -/
def freshInt : IntState :=
  ⟨fun _ => ⟨0, 0, 0, 0, 0⟩, fun _ => none, ⟨0, 0⟩, ⟨0, 0⟩, resting 0x08 0x70 fun _ => false, false⟩

/-- The timer before `pic_init`. -/
def freshTimer : Timer := ⟨true, 0, ⟨0, none, 0⟩⟩

theorem exists_pressed (scancode : BitVec 8) : ∃ s,
    Run (Step stubs) (Sys.init stubs freshInt freshTimer ttyStatic 0) [.key scancode, .load] s ∧
      s.pc = .code ∧ (∃ p, s.int.pics.acknowledge = some (.master 1, p)) ∧
        s.int.idtHandlers 33 = none := by
  refine ⟨_, .snoc (.single (.key scancode)) (.load rfl rfl), rfl, ?_, ?_⟩
  · rw [Sys.raise, Sys.init, pics_interruptInit]
    dsimp only
    exact ⟨_, rfl⟩
  · rw [Sys.raise, Sys.init, handlers_interruptInit]
    rfl

theorem exists_handled_a : ∃ s,
    Run (Step stubs) (Sys.init stubs freshInt freshTimer ttyStatic 0)
      (.keyboardInit :: keyEvents 0x1E) s ∧ s.handled = [0x1E] := by
  have hready := Ready.init stubs freshInt freshTimer ttyStatic 0
  obtain ⟨isr, hcall⟩ := isrKeyPress_ok (s := isrInit ttyStatic) 0x1E (by decide)
  obtain ⟨s, hrun, -, hhandled, -⟩ := hready.exists_handled hcall
  exact ⟨s, .cons (.keyboardInit rfl) (hrun.mono And.right), hhandled⟩

/-- The key of `a`. -/
theorem delivered_key_a : ∃ s, Run (Step stubs) (Sys.init stubs freshInt freshTimer ttyStatic 0)
    (.keyboardInit :: keyEvents 0x1E) s ∧ s.handled = [0x1E] ∧ Delivered stubs s := by
  obtain ⟨s, hrun, hhandled⟩ := exists_handled_a
  exact ⟨s, hrun, hhandled, delivered_of_run _ _ _ _ hrun⟩

end Aosis.Interrupt.Dispatch
