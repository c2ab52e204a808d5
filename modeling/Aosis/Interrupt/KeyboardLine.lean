import Aosis.Interrupt.Dispatch

/-!
# The line of the keyboard

A byte of the keyboard waits in the data register until `isr_key_press` reads it, and the keyboard sends
the next one only after that.

* `KeyLine.step`: where the bytes are, and who is about to read the one in the register.
* `scancodes_of_run`: the handler gets the bytes of the keyboard, each of them once and in their order,
  unless one of them came before `keyboard_init`.
* `handled_of_lost`: `interrupt_init` enables interrupts long before `keyboard_init` installs the
  handler. When a byte comes in between, its interrupt is ended and nobody reads the register, so the
  keyboard stays silent for ever.
-/

namespace Aosis.Interrupt.Dispatch

open Aosis.Lib Aosis.Lib.Pic8259 Aosis.Terminal Machine

/-! ### The bytes on their way -/

/-- The interrupt of the keyboard is in service, or its handler has not read the register yet. -/
def Pc.unread : Pc → Bool
  | .irq l _ => l = some (.master 1)
  | .handler h => h = .isrKeyPress
  | _ => false

/-- The byte that the handler has read. -/
def Pc.inHand : Pc → List (BitVec 8)
  | .key scancode => [scancode]
  | _ => []

/-- The byte in the data register, when it was not read. -/
def Sys.inRegister (s : Sys) : List (BitVec 8) := if s.full then [s.data] else []

/-- An interrupt of the keyboard was ended and no handler was called. -/
def Sys.Lost (s : Sys) : Prop := (Line.master 1, none) ∈ s.served

/-- Every byte is at one place; the byte in the register has its interrupt waiting or in service, unless
an interrupt was lost; and the modifiers are those of the bytes that were handled. -/
structure KeyLine (s : Sys) : Prop where
  order : s.typed = s.handled ++ s.pc.inHand ++ s.inRegister ++ s.keys
  full : s.pending (.master 1) = true ∨ s.pc.unread = true → s.full = true
  once : s.pending (.master 1) = true → s.pc.unread = false
  lost : s.Lost ↔ s.full = true ∧ s.pending (.master 1) = false ∧ s.pc.unread = false
  hand : s.Lost → s.pc.inHand = []
  kbState : s.isr.kbState = s.handled.foldl KbState.next {}

section KeyLine

variable {sym : Symbols} {s s' : Sys} {e : Event}

theorem KeyLine.congr (hk : KeyLine s) (hpend : s'.pending (.master 1) = s.pending (.master 1))
    (hunread : s'.pc.unread = s.pc.unread) (hhand : s'.pc.inHand = s.pc.inHand)
    (hregister : s'.inRegister = s.inRegister) (hfull : s'.full = s.full) (hkeys : s'.keys = s.keys)
    (htyped : s'.typed = s.typed) (hhandled : s'.handled = s.handled) (hlost : s'.Lost ↔ s.Lost)
    (hkb : s'.isr.kbState = s.isr.kbState) : KeyLine s' := by
  refine ⟨?_, ?_, ?_, ?_, ?_, ?_⟩
  · rw [htyped, hhandled, hhand, hregister, hkeys]
    exact hk.order
  · rw [hpend, hunread, hfull]
    exact hk.full
  · rw [hpend, hunread]
    exact hk.once
  · rw [hlost, hpend, hunread, hfull]
    exact hk.lost
  · rw [hlost, hhand]
    exact hk.hand
  · rw [hkb, hhandled]
    exact hk.kbState

theorem KeyLine.load (hi : Core sym s) (hk : KeyLine s) {scancode : BitVec 8} {keys : List (BitVec 8)}
    (hfull : s.full = false) (hkeys : s.keys = scancode :: keys) :
    KeyLine ({ s with data := scancode, full := true, keys := keys }.raise (.master 1)) := by
  have hpend : (s.raise (.master 1)).pending (.master 1) = true := by
    rw [hi.pending_raise, Function.update_self]
  have hunread : s.pc.unread = false := by
    by_contra hne
    have := hk.full (.inr (by simpa using hne))
    rw [hfull] at this
    cases this
  have hnot : ¬ s.Lost := fun h => by
    have := (hk.lost.mp h).1
    rw [hfull] at this
    cases this
  refine ⟨?_, fun _ => rfl, fun _ => hunread, ⟨fun h => absurd h hnot, fun h => ?_⟩,
    fun h => absurd h hnot, hk.kbState⟩
  · have horder := hk.order
    rw [Sys.inRegister, hfull, hkeys] at horder
    show s.typed = s.handled ++ s.pc.inHand ++ [scancode] ++ keys
    rw [horder]
    simp
  · exact absurd (hpend.symm.trans h.2.1) (by decide)

theorem KeyLine.take (hi : Core sym s) (hk : KeyLine s) (hpc : s.pc = .code) {l : Line} {p : Pair}
    {pc : Pc} (hack : s.int.pics.acknowledge = some (l, p))
    (hunread : pc.unread = decide (l = .master 1)) (hhand : pc.inHand = []) :
    KeyLine (s.take p pc) := by
  obtain ⟨hpending, -, hp⟩ := hi.acknowledge hpc hack
  have hpend : (s.take p pc).pending = Function.update s.pending l false := by
    show p.pending = _
    rw [hp, pending_chips]
  have hcode : s.pc.unread = false ∧ s.pc.inHand = [] := by
    rw [hpc]
    exact ⟨rfl, rfl⟩
  by_cases hl : l = .master 1
  · subst hl
    have hfull := hk.full (.inl hpending)
    have hnot : ¬ s.Lost := fun h => absurd (hpending.symm.trans (hk.lost.mp h).2.1) (by decide)
    have hgone : (s.take p pc).pending (.master 1) = false := by rw [hpend, Function.update_self]
    have hyes : (s.take p pc).pc.unread = true := hunread
    refine ⟨?_, fun _ => hfull, fun h => ?_, ⟨fun h => absurd h hnot, fun h => ?_⟩,
      fun h => absurd h hnot, hk.kbState⟩
    · have horder := hk.order
      rw [hcode.2] at horder
      show s.typed = s.handled ++ pc.inHand ++ s.inRegister ++ s.keys
      rw [hhand]
      exact horder
    · exact absurd (hgone.symm.trans h) (by decide)
    · exact absurd (hyes.symm.trans h.2.2) (by decide)
  · have hother : Line.master 1 ≠ l := fun h => hl h.symm
    refine hk.congr ?_ ?_ ?_ rfl rfl rfl rfl rfl Iff.rfl rfl
    · rw [hpend, Function.update_of_ne hother]
    · rw [hcode.1]
      show pc.unread = false
      rw [hunread, decide_eq_false hl]
    · rw [hcode.2]
      exact hhand

/-- `irq_handler` calls the handler of the keyboard, which is about to read the register, or the byte is
lost. -/
theorem KeyLine.irqHandler (hi : Core sym s) (hk : KeyLine s) {l : Option Line} {int_no : Word}
    {h : Option IdtHandler} {int : IntState} (hpc : s.pc = .irq l int_no)
    (hcall : irqHandler int_no s.int = .ok h int) :
    KeyLine { s with
      int := int
      pc := h.elim .done .handler
      served := s.served ++ (l.map fun l => (l, h)).toList } := by
  obtain ⟨rfl, -⟩ := hi.of_irqHandler hpc hcall
  have hpend : (chips s.pending none).pending = s.pending := pending_chips none
  have hunread : s.pc.unread = decide (l = some (.master 1)) := by
    rw [hpc]
    rfl
  have hhand : s.pc.inHand = [] := by
    rw [hpc]
    rfl
  cases h with
  | some h =>
    have hlost : (Line.master 1, none) ∈ s.served ++ (l.map fun l => (l, some h)).toList ↔ s.Lost := by
      rw [List.mem_append]
      refine or_iff_left fun hmem => ?_
      cases l <;> simp at hmem
    refine hk.congr (congrFun hpend _) ?_ hhand.symm rfl rfl rfl rfl rfl hlost rfl
    rw [hunread]
    show decide (h = .isrKeyPress) = _
    rcases hi.of_irqHandler_some hpc hcall with ⟨rfl, rfl⟩ | ⟨rfl, rfl⟩ <;> rfl
  | none =>
    by_cases hl : l = some (.master 1)
    · subst hl
      have hread : s.pc.unread = true := hunread
      have hfull := hk.full (.inr hread)
      have hnone : s.pending (.master 1) = false := by
        by_contra hne
        exact absurd (hread.symm.trans (hk.once (by simpa using hne))) (by decide)
      have horder := hk.order
      rw [hhand] at horder
      refine ⟨horder, fun _ => hfull, fun _ => rfl, ⟨fun _ => ⟨hfull, ?_, rfl⟩, fun _ => ?_⟩,
        fun _ => rfl, hk.kbState⟩
      · exact (congrFun hpend _).trans hnone
      · exact List.mem_append_right _ (List.mem_singleton.mpr rfl)
    · have hlost : (Line.master 1, none) ∈
          s.served ++ (l.map fun l => (l, (none : Option IdtHandler))).toList ↔ s.Lost := by
        rw [List.mem_append]
        refine or_iff_left fun hmem => hl ?_
        cases l with
        | none => simp at hmem
        | some l => exact congrArg some (Prod.mk.inj (List.mem_singleton.mp hmem)).1.symm
      refine hk.congr (congrFun hpend _) ?_ hhand.symm rfl rfl rfl rfl rfl hlost rfl
      rw [hunread, decide_eq_false hl]
      rfl

theorem KeyLine.inb (hk : KeyLine s) (hpc : s.pc = .handler .isrKeyPress) :
    KeyLine { s with full := false, pc := .key s.data } := by
  have hread : s.pc.unread = true := by
    rw [hpc]
    rfl
  have hfull := hk.full (.inr hread)
  have hnone : s.pending (.master 1) = false := by
    by_contra hne
    exact absurd (hread.symm.trans (hk.once (by simpa using hne))) (by decide)
  have hnot : ¬ s.Lost := fun h => absurd (hread.symm.trans (hk.lost.mp h).2.2) (by decide)
  refine ⟨?_, fun h => ?_, fun _ => rfl, ⟨fun h => absurd h hnot, fun h => (Bool.false_ne_true h.1).elim⟩,
    fun h => absurd h hnot, hk.kbState⟩
  · have horder := hk.order
    rw [hpc, Sys.inRegister, if_pos hfull] at horder
    show s.typed = s.handled ++ [s.data] ++ [] ++ s.keys
    rw [horder]
    simp [Pc.inHand]
  · rcases h with h | h
    · exact absurd (hnone.symm.trans h) (by decide)
    · exact (Bool.false_ne_true h).elim

theorem KeyLine.isrKeyPress (hi : Core sym s) (hk : KeyLine s) {scancode : BitVec 8} {isr : IsrState}
    (hpc : s.pc = .key scancode) (hcall : isrKeyPress scancode s.isr = .ok () isr) :
    KeyLine { s with
      isr := isr
      int := { s.int with pics := s.int.pics.outbs (isr.ports.drop s.isr.ports.length) }
      pc := .done
      handled := s.handled ++ [scancode] } := by
  have hpend : (s.int.pics.outbs (isr.ports.drop s.isr.ports.length)).pending = s.pending := by
    rw [hi.outbs_isrKeyPress hpc hcall, pending_chips]
  have hunread : s.pc.unread = false := by
    rw [hpc]
    rfl
  have hnot : ¬ s.Lost := fun h => by
    have := hk.hand h
    rw [hpc] at this
    cases this
  have hone := congrFun hpend (.master 1)
  refine ⟨?_, fun h => ?_, fun _ => rfl, ?_, fun h => absurd h hnot, ?_⟩
  · have horder := hk.order
    rw [hpc] at horder
    show s.typed = s.handled ++ [scancode] ++ [] ++ s.inRegister ++ s.keys
    rw [horder]
    simp [Pc.inHand]
  · exact hk.full (.inl (hone.symm.trans (h.resolve_right Bool.false_ne_true)))
  · have hlost := hk.lost
    rw [hunread, ← hone] at hlost
    exact hlost
  · rw [List.foldl_append, ← hk.kbState]
    exact (isrKeyPress_spec hcall).1

/-- **Every step keeps track of the bytes.** -/
theorem KeyLine.step (hi : Core sym s) (hk : KeyLine s) (h : Step sym s e s') : KeyLine s' := by
  cases h with
  | key scancode =>
    refine ⟨?_, hk.full, hk.once, hk.lost, hk.hand, hk.kbState⟩
    have horder := hk.order
    show s.typed ++ [scancode] = s.handled ++ s.pc.inHand ++ s.inRegister ++ (s.keys ++ [scancode])
    rw [horder]
    simp
  | load hfull hkeys => exact hk.load hi hfull hkeys
  | @raise l hkey _ =>
    refine hk.congr ?_ rfl rfl rfl rfl rfl rfl rfl Iff.rfl rfl
    rw [hi.pending_raise, Function.update_of_ne hkey.symm]
  | take hpc _ hack =>
    refine hk.take hi hpc hack ?_ rfl
    exact decide_eq_decide.mpr ⟨fun h => Option.some.inj h, fun h => congrArg some h⟩
  | stray hpc _ hack hgate hother =>
    obtain rfl := (hi.stub hgate).2 hother
    exact hk.take hi hpc hack rfl rfl
  | spurious hpc =>
    exact hk.congr rfl (by rw [hpc]; rfl) (by rw [hpc]; rfl) rfl rfl rfl rfl rfl Iff.rfl rfl
  | irqHandler hpc hcall => exact hk.irqHandler hi hpc hcall
  | inb hpc => exact hk.inb hpc
  | isrKeyPress hpc hcall => exact hk.isrKeyPress hi hpc hcall
  | picCallback hpc =>
    exact hk.congr rfl (by rw [hpc]; rfl) (by rw [hpc]; rfl) rfl rfl rfl rfl rfl Iff.rfl rfl
  | ret hpc =>
    exact hk.congr rfl (by rw [hpc]; rfl) (by rw [hpc]; rfl) rfl rfl rfl rfl rfl Iff.rfl rfl
  | code => exact hk.congr rfl rfl rfl rfl rfl rfl rfl rfl Iff.rfl rfl
  | keyboardInit => exact hk.congr rfl rfl rfl rfl rfl rfl rfl rfl Iff.rfl rfl
  | picInit hpc hcall =>
    refine hk.congr ?_ rfl rfl rfl rfl rfl rfl rfl Iff.rfl rfl
    rw [Sys.pending, Sys.pending, (picInit_int hcall).1]

/-- How an interrupt of the keyboard gets lost. -/
theorem Core.of_lost (hi : Core sym s) (h : Step sym s e s') (hlost : s'.Lost) :
    s.Lost ∨ e = .irqHandler ∧ s.pc.line = some (.master 1) ∧ s.int.idtHandlers 33 = none := by
  cases h with
  | @irqHandler l int_no h int hpc hcall =>
    refine (List.mem_append.mp hlost).imp_right fun hmem => ?_
    obtain ⟨-, line, -, hh, hline⟩ := hi.of_irqHandler hpc hcall
    cases l with
    | none => cases hmem
    | some l =>
      obtain ⟨hl, hnone⟩ := Prod.mk.inj (List.mem_singleton.mp hmem)
      subst hl hnone
      rcases hline with heq | ⟨hc, -⟩
      · obtain rfl := Option.some.inj heq
        exact ⟨rfl, by rw [hpc]; rfl, hh.symm⟩
      · cases hc
  | _ => exact .inl hlost

theorem KeyLine.init (sym : Symbols) (int : IntState) (timer : Timer) (tty : Tty) (data : BitVec 8) :
    KeyLine (Sys.init sym int timer tty data) := by
  refine ⟨rfl, fun h => ?_, fun _ => rfl, ⟨fun h => absurd h List.not_mem_nil, fun h => ?_⟩,
    fun _ => rfl, rfl⟩
  · rw [pending_init] at h
    exact (h.elim Bool.false_ne_true Bool.false_ne_true).elim
  · exact (Bool.false_ne_true h.1).elim

end KeyLine

/-! ### The bytes that are handled -/

/-- **The bytes of the keyboard reach its handler.**  Those that were handled are the first ones that
the keyboard made, and the modifiers are theirs; and when the keyboard has nothing to send and no
interrupt of it waits, all of them were handled exactly if no interrupt was lost. -/
structure Scancodes (sym : Symbols) (s : Sys) : Prop where
  order : s.typed = s.handled ++ s.pc.inHand ++ s.inRegister ++ s.keys
  modifiers : FollowsHistory s.handled s.isr.kbState
  rest : s.pc = .code → s.pending (.master 1) = false → (∀ s', ¬ Step sym s .load s') →
    (s.handled = s.typed ↔ ¬ s.Lost)

section Run

variable {sym : Symbols} {s s' : Sys} {e : Event} {events events' : List Event} {int : IntState}
  {timer : Timer} {tty : Tty} {data : BitVec 8}

theorem keyLine_of_run (h : Run (Step sym) (Sys.init sym int timer tty data) events s) :
    Core sym s ∧ KeyLine s := by
  refine h.invariant (I := fun s => Core sym s ∧ KeyLine s) ?_
    ⟨Core.init sym int timer tty data, KeyLine.init sym int timer tty data⟩
  rintro s e s' ⟨hi, hk⟩ hstep
  exact ⟨hi.step hstep, hk.step hi hstep⟩

theorem KeyLine.rest (hk : KeyLine s) (hpc : s.pc = .code) (hpend : s.pending (.master 1) = false)
    (hload : ∀ s', ¬ Step sym s .load s') : s.handled = s.typed ↔ ¬ s.Lost := by
  have horder := hk.order
  rw [hpc] at horder
  have hlost : s.Lost ↔ s.full = true := by
    rw [hk.lost, hpc]
    exact ⟨fun h => h.1, fun h => ⟨h, hpend, rfl⟩⟩
  rw [hlost]
  constructor
  · intro heq hfull
    rw [Sys.inRegister, if_pos hfull, heq] at horder
    simp [Pc.inHand] at horder
  · intro hfull
    have hkeys : s.keys = [] := by
      cases hkeys : s.keys with
      | nil => rfl
      | cons scancode keys => exact absurd (.load (by simpa using hfull) hkeys) (hload _)
    rw [Sys.inRegister, if_neg hfull, hkeys] at horder
    simpa [Pc.inHand] using horder.symm

theorem KeyLine.lost_step (hk : KeyLine s) (hlost : s.Lost) (h : Step sym s e s') :
    s'.handled = s.handled ∧ s'.Lost := by
  cases h with
  | isrKeyPress hpc =>
    have := hk.hand hlost
    rw [hpc] at this
    cases this
  | irqHandler => exact ⟨rfl, List.mem_append_left _ hlost⟩
  | _ => exact ⟨rfl, hlost⟩

theorem exists_lost {p : Pair} (hi : Core sym s) (hpc : s.pc = .code)
    (hack : s.int.pics.acknowledge = some (.master 1, p)) (hnone : s.int.idtHandlers 33 = none) :
    ∃ s', Run (Step sym) s [.take, .irqHandler] s' ∧ s'.pc = .done ∧ s'.Lost := by
  obtain ⟨_, htake, hirq⟩ := hi.exists_irqHandler hpc hack (by decide) hnone
  exact ⟨_, .snoc (.single htake) hirq, rfl, List.mem_append_right _ (List.mem_singleton.mpr rfl)⟩

/-- **A byte that comes before `keyboard_init` is the last one.**  When the interrupt of the keyboard is
ended and no handler was installed, no byte is handled from then on, whatever is typed and whatever is
installed. -/
theorem handled_of_lost (h : Run (Step sym) (Sys.init sym int timer tty data) events s) (hlost : s.Lost)
    (h' : Run (Step sym) s events' s') : s'.handled = s.handled := by
  have hinv := h'.invariant
    (I := fun t => (Core sym t ∧ KeyLine t) ∧ t.handled = s.handled ∧ t.Lost) ?_
    ⟨keyLine_of_run h, rfl, hlost⟩
  · exact hinv.2.1
  · rintro t e u ⟨⟨hi, hk⟩, hsame, hl⟩ hstep
    obtain ⟨hu, hul⟩ := hk.lost_step hl hstep
    exact ⟨⟨hi.step hstep, hk.step hi hstep⟩, hu.trans hsame, hul⟩

end Run

/-- A key is pressed while the kernel boots, and another one after `keyboard_init`. -/
theorem handled_of_lost_boot : ∃ s s',
    Run (Step stubs) (Sys.init stubs freshInt freshTimer ttyStatic 0)
      ([.key 0x1E, .load] ++ [.take, .irqHandler]) s ∧
    Run (Step stubs) s [.ret, .keyboardInit, .key 0x30] s' ∧ s'.handled = s.handled := by
  obtain ⟨s, hrun, hpc, ⟨p, hack⟩, hnone⟩ := exists_pressed 0x1E
  obtain ⟨t, htake, hdone, hlost⟩ := exists_lost (keyLine_of_run hrun).1 hpc hack hnone
  have hboot := hrun.trans htake
  have hafter : Run (Step stubs) t [.ret, .keyboardInit, .key 0x30] _ :=
    .snoc (.snoc (.single (.ret hdone)) (.keyboardInit rfl)) (.key 0x30)
  exact ⟨t, _, hboot, hafter, handled_of_lost hboot hlost hafter⟩

end Aosis.Interrupt.Dispatch
