import Aosis.Interrupt.Idt
import Aosis.Libc.Str
import Aosis.Terminal.Print
import Aosis.Terminal.Tty
import Mathlib.Data.List.Chain

/-!
# The handler of the exceptions

`isr_handler` of `kernel/interrupt/interrupt.c`, with `paging_page_fault_handler`, which `paging_init`
installs.

* `serves_boot`: the exceptions of a run are handled up to the first one with the number of the last
  one, or the first page fault.
-/

namespace Aosis.Interrupt.Exceptions

open Aosis.Libc Aosis.Terminal

/-! ### The source -/

/-- `int_msgs`. -/
def intMsgs : List String :=
  ["Divide by Zero", "Debug", "Non-Maskable Interrupt", "Breakpoint", "Overflow", "Bound Range Exceeded",
    "Invalid Opcode", "Device Not Available", "Double Fault", "CoProcessor Segment Overrun",
    "Invalid TSS", "Segment Not Present", "Stack Segment Fault", "General Protection Fault",
    "Page Fault", "Reserved", "Floating-Point Error", "Alignment Check", "Machine Check",
    "SIMD Floating Pointe Exception", "Virtualziation Exception", "Control Protection Exception",
    "Reserved", "Reserved", "Reserved", "Reserved", "Reserved", "Reserved", "Reserved", "Reserved",
    "Reserved", "Reserved"]

/-- The variable `prev_int` of `isr_handler`, the screen, and the register `cr2`. -/
structure Isr where
  prevInt : Word
  tty : Tty
  cr2 : Word

/-- `tty_printstr`. -/
def Isr.printstr (str : String) (s : Isr) : Isr :=
  { s with tty := Print.ttyPrintstr ttyPutc (cstring (ascii str)) s.tty }

/-- `paging_page_fault_handler`. -/
def pagingPageFaultHandler : Kern Isr Unit := fun s =>
  let kprintf format (arg : Word) (tty : Tty) :=
    (Print.kprintf ttyPutc (fun _ => []) (cstring (ascii format)) (fun _ => arg) tty).2
  let tty := kprintf "page fault occurred\n" 0 s.tty
  let tty := kprintf "faulting address: %x\n" s.cr2 tty
  .error (.panic "page fault occurred\n") { s with tty := tty }

/-- `isr_handler`, with the functions that `idt_handlers` points to. -/
def isrHandler (idt_handlers : BitVec 8 → Option (Kern Isr Unit)) (int_no : Word) : Kern Isr Unit :=
    fun s =>
  if int_no = s.prevInt then .error .diverge (s.printstr "...")
  else
    let s := { s with prevInt := int_no }
    let s := s.printstr "Received interrupt: "
    let s := { s with tty := Print.ttyPrintint ttyPutc int_no s.tty }
    let s := s.printstr " ("
    match intMsgs[int_no.toNat]? with
    | none => .error .outOfBounds s
    | some msg =>
      let s := (s.printstr msg).printstr ")\n"
      match idt_handlers (int_no.setWidth 8) with
      | none => .ok () s
      | some handle => handle s

/-- The handlers of the exceptions that `paging_init` leaves: the other entries of `idt_handlers` are
those of `interrupt_init`. -/
def pagingInitHandlers (s : IntState) : IntState :=
  { s with idtHandlers := Function.update s.idtHandlers 14 (some .pagingPageFaultHandler) }

/-! ### Exceptions -/

/-- An exception: the vector of its stub, and what the processor leaves in `cr2`. -/
structure Exception where
  vector : Fin 32
  cr2 : Word

/-- The number that the stub pushes. -/
def Exception.intNo (e : Exception) : Word := BitVec.ofNat 32 e.vector.val

/-- What the handler prints. -/
def Exception.report (e : Exception) : List (BitVec 8) :=
  ascii "Received interrupt: " ++ Print.intChars e.intNo ++ ascii " (" ++
    ascii (intMsgs.getD e.vector.val "") ++ ascii ")\n"

/-- The functions that the table points to; `others` are those of the interrupt lines. -/
def handlers (others : IdtHandler → Kern Isr Unit) (s : IntState) (vector : BitVec 8) :
    Option (Kern Isr Unit) :=
  (s.idtHandlers vector).map fun
    | .pagingPageFaultHandler => pagingPageFaultHandler
    | h => others h

/-- One exception after the other. -/
def serve (idt_handlers : BitVec 8 → Option (Kern Isr Unit)) : List Exception → Kern Isr Unit
  | [] => pure ()
  | e :: es => do
    modify fun s => { s with cr2 := e.cr2 }
    isrHandler idt_handlers e.intNo
    serve idt_handlers es

/-! ### Printing -/

theorem strChars_cstring {cs : List (BitVec 8)} (h : 0 ∉ cs) : Print.strChars (cstring cs) = cs := by
  have hall : ∀ c ∈ cs, (c != 0) = true := by
    intro c hc
    rw [bne_iff_ne]
    rintro rfl
    exact h hc
  rw [Print.strChars, cstring, List.takeWhile_append_of_pos hall]
  exact List.append_nil cs

theorem printstr_eq (str : String) (h : 0 ∉ ascii str) (s : Isr) :
    s.printstr str = { s with tty := Print.ttyWrite ttyPutc (ascii str) s.tty } := by
  rw [Isr.printstr, Print.ttyPrintstr_eq, strChars_cstring h]

theorem intMsgs_spec : intMsgs.length = 32 ∧ ∀ msg ∈ intMsgs, 0 ∉ ascii msg := by decide

/-- **What `isr_handler` does** with an exception that is not the last one again. -/
theorem isrHandler_eq (idt_handlers : BitVec 8 → Option (Kern Isr Unit)) (e : Exception) {s : Isr}
    (hne : e.intNo ≠ s.prevInt) : isrHandler idt_handlers e.intNo s =
      ((idt_handlers (BitVec.ofNat 8 e.vector.val)).getD (pure ())) { s with
        prevInt := e.intNo, tty := Print.ttyWrite ttyPutc e.report s.tty } := by
  obtain ⟨hlen, hzero⟩ := intMsgs_spec
  have hv : e.intNo.toNat = e.vector.val := Nat.mod_eq_of_lt (by omega)
  have hv8 : e.intNo.setWidth 8 = BitVec.ofNat 8 e.vector.val := by
    apply BitVec.eq_of_toNat_eq
    rw [BitVec.toNat_setWidth, hv, BitVec.toNat_ofNat]
  have hlt : e.vector.val < intMsgs.length := by omega
  have hmsg : intMsgs[e.intNo.toNat]? = some intMsgs[e.vector.val] := by
    rw [hv]
    exact List.getElem?_eq_getElem hlt
  have hreport : e.report = ascii "Received interrupt: " ++ Print.intChars e.intNo ++ ascii " (" ++
      ascii intMsgs[e.vector.val] ++ ascii ")\n" := by
    rw [Exception.report, List.getD_eq_getElem _ _ hlt]
  have htext (s : Isr) : ((({ s.printstr "Received interrupt: " with
        tty := Print.ttyPrintint ttyPutc e.intNo (s.printstr "Received interrupt: ").tty }
      ).printstr " (").printstr intMsgs[e.vector.val]).printstr ")\n" =
        { s with tty := Print.ttyWrite ttyPutc e.report s.tty } := by
    rw [printstr_eq "Received interrupt: " (by decide), printstr_eq " (" (by decide),
      printstr_eq intMsgs[e.vector.val] (hzero _ (List.getElem_mem hlt)), printstr_eq ")\n" (by decide),
      Print.ttyPrintint_eq, hreport]
    simp only [Print.ttyWrite_append]
  rw [isrHandler, if_neg hne]
  dsimp only
  rw [hmsg, hv8]
  dsimp only
  rw [htext]
  cases idt_handlers (BitVec.ofNat 8 e.vector.val) <;> rfl

/-! ### The law -/

section Law

variable (sym : Symbols) (int : IntState) (others : IdtHandler → Kern Isr Unit)

/-- The table leads to `paging_page_fault_handler` for a page fault and to nothing for another
exception. -/
theorem handlers_init (e : Exception) :
    handlers others (pagingInitHandlers (interruptInit sym int)) (BitVec.ofNat 8 e.vector.val) =
      if e.vector = 14 then some pagingPageFaultHandler else none := by
  have hv : (BitVec.ofNat 8 e.vector.val).toNat = e.vector.val := Nat.mod_eq_of_lt (by omega)
  rw [handlers, pagingInitHandlers]
  dsimp only
  by_cases h : e.vector = 14
  · have h14 : BitVec.ofNat 8 (14 : Fin 32).val = 14 := rfl
    rw [if_pos h, h, h14, Function.update_self]
    rfl
  · have hne : BitVec.ofNat 8 e.vector.val ≠ 14 := by
      intro heq
      have htoNat := congrArg BitVec.toNat heq
      rw [hv] at htoNat
      exact h (Fin.ext htoNat)
    have hnone : (interruptInit sym int).idtHandlers (BitVec.ofNat 8 e.vector.val) = none := by
      rw [handlers_interruptInit, hv, if_pos (by omega)]
    rw [if_neg h, Function.update_of_ne hne, hnone]
    rfl

/-- The table after `paging_init`. -/
def bootHandlers : BitVec 8 → Option (Kern Isr Unit) :=
  handlers others (pagingInitHandlers (interruptInit sym int))

theorem serve_cons (e : Exception) (es : List Exception) (s : Isr) :
    serve (bootHandlers sym int others) (e :: es) s =
      (isrHandler (bootHandlers sym int others) e.intNo >>= fun _ =>
        serve (bootHandlers sym int others) es)
        { s with cr2 := e.cr2 } :=
  Kern.bind_ok (Kern.modify_ok _ s)

/-- **How a run of exceptions goes on**: it ends with an exception that has the number of the last
one, and with a page fault. -/
theorem serve_step (e : Exception) (es : List Exception) (s : Isr) :
    (e.intNo = s.prevInt ∧ ∃ s', serve (bootHandlers sym int others) (e :: es) s = .error .diverge s') ∨
    (e.vector = 14 ∧ ∃ s', serve (bootHandlers sym int others) (e :: es) s =
      .error (.panic "page fault occurred\n") s') ∨
    (e.intNo ≠ s.prevInt ∧ e.vector ≠ 14 ∧ serve (bootHandlers sym int others) (e :: es) s =
      serve (bootHandlers sym int others) es
        ⟨e.intNo, Print.ttyWrite ttyPutc e.report s.tty, e.cr2⟩) := by
  have hhandler := handlers_init sym int others e
  rw [serve_cons]
  by_cases hsame : e.intNo = s.prevInt
  · exact Or.inl ⟨hsame, _, Kern.bind_error (if_pos hsame)⟩
  · have hcall := isrHandler_eq (bootHandlers sym int others) e (s := { s with cr2 := e.cr2 }) hsame
    rw [bootHandlers, hhandler] at hcall
    by_cases h14 : e.vector = 14
    · rw [if_pos h14] at hcall
      exact Or.inr (Or.inl ⟨h14, _, Kern.bind_error hcall⟩)
    · rw [if_neg h14] at hcall
      exact Or.inr (Or.inr ⟨hsame, h14, Kern.bind_ok hcall⟩)

/-- A run of exceptions is handled when `returns` holds, with a line on the screen for each of them;
otherwise the kernel stops in the endless loop of `isr_handler` or in the panic of
`paging_page_fault_handler`. -/
structure Serves (idt_handlers : BitVec 8 → Option (Kern Isr Unit)) (es : List Exception) (s : Isr)
    (returns : Prop) : Prop where
  returns_iff : (∃ s', serve idt_handlers es s = .ok () s') ↔ returns
  tty : ∀ s', serve idt_handlers es s = .ok () s' →
    s'.tty = Print.ttyWrite ttyPutc (es.flatMap Exception.report) s.tty
  fault : ∀ f s', serve idt_handlers es s = .error f s' →
    f = .diverge ∨ f = .panic "page fault occurred\n"

theorem Serves.stops {idt_handlers : BitVec 8 → Option (Kern Isr Unit)} {es : List Exception} {s s₁ : Isr}
    {returns : Prop} {f : Fault} (h : serve idt_handlers es s = .error f s₁)
    (hf : f = .diverge ∨ f = .panic "page fault occurred\n") (hnot : ¬returns) :
    Serves idt_handlers es s returns := by
  refine ⟨⟨fun ⟨s', h'⟩ => ?_, fun hc => absurd hc hnot⟩, fun s' h' => ?_, fun f' s' h' => ?_⟩
  · rw [h] at h'
    cases h'
  · rw [h] at h'
    cases h'
  · rw [h] at h'
    cases h'
    exact hf

theorem serves_from (es : List Exception) (s : Isr) : Serves (bootHandlers sym int others) es s
    (List.IsChain (· ≠ ·) (s.prevInt :: es.map Exception.intNo) ∧ ∀ e ∈ es, e.vector ≠ 14) := by
  induction es generalizing s with
  | nil =>
    refine ⟨⟨fun _ => ⟨List.isChain_singleton _, fun e he => absurd he List.not_mem_nil⟩,
        fun _ => ⟨s, rfl⟩⟩,
      fun s' h => ?_, fun f s' h => ?_⟩
    · cases h
      rfl
    · cases h
  | cons e es ih =>
    rcases serve_step sym int others e es s with ⟨hsame, s₁, h⟩ | ⟨h14, s₁, h⟩ | ⟨hne, h14, h⟩
    · refine .stops h (Or.inl rfl) fun ⟨hchain, _⟩ => ?_
      exact (List.isChain_cons_cons.mp hchain).1 hsame.symm
    · exact .stops h (Or.inr rfl) fun ⟨_, hfault⟩ => hfault e List.mem_cons_self h14
    · have hrest := ih ⟨e.intNo, Print.ttyWrite ttyPutc e.report s.tty, e.cr2⟩
      refine ⟨?_, fun s' h' => ?_, fun f s' h' => hrest.fault f s' (h ▸ h')⟩
      · rw [h, hrest.returns_iff, List.map_cons, List.isChain_cons_cons, List.forall_mem_cons]
        exact ⟨fun ⟨hc, hv⟩ => ⟨⟨Ne.symm hne, hc⟩, h14, hv⟩, fun ⟨⟨_, hc⟩, _, hv⟩ => ⟨hc, hv⟩⟩
      · rw [hrest.tty s' (h ▸ h'), List.flatMap_cons, Print.ttyWrite_append]

/-- **The exceptions that are handled**, with the first `prev_int`: all of a run are, when no two
neighbours have the same vector and none is a page fault.  No access is out of the array of the
messages. -/
theorem serves_boot (es : List Exception) (tty : Tty) (cr2 : Word) :
    Serves (bootHandlers sym int others) es ⟨-1, tty, cr2⟩
      (List.IsChain (fun e e' => e.vector ≠ e'.vector) es ∧ ∀ e ∈ es, e.vector ≠ 14) := by
  have h := serves_from sym int others es ⟨-1, tty, cr2⟩
  refine ⟨h.returns_iff.trans (and_congr_left fun _ => ?_), h.tty, h.fault⟩
  have hv : ∀ e : Exception, e.intNo.toNat = e.vector.val := fun e => Nat.mod_eq_of_lt (by omega)
  have hfirst : ∀ e : Exception, (-1 : Word) ≠ e.intNo := by
    intro e heq
    have hlt := e.vector.isLt
    rw [← hv e, ← heq] at hlt
    exact absurd hlt (by decide)
  have hinj : ∀ e e' : Exception, e.intNo ≠ e'.intNo ↔ e.vector ≠ e'.vector := by
    intro e e'
    refine not_congr ⟨fun heq => Fin.ext ?_, fun heq => ?_⟩
    · rw [← hv e, ← hv e', heq]
    · rw [Exception.intNo, Exception.intNo, heq]
  cases es with
  | nil => exact ⟨fun _ => List.isChain_nil, fun _ => List.isChain_singleton _⟩
  | cons e es =>
    dsimp only
    rw [List.map_cons, List.isChain_cons_cons, ← List.map_cons, List.isChain_map]
    simp only [hinj]
    exact ⟨fun h => h.2, fun h => ⟨hfirst e, h⟩⟩

end Law

end Aosis.Interrupt.Exceptions
