import Aosis.Lib.Copy
import Aosis.Lib.Pic8259
import Aosis.Memory.Gdt

/-!
# The interrupt descriptor table

`interrupt_init` and `idt_set_entry` of `kernel/interrupt/interrupt.c`.  A `Gate` is what the processor
reads from a descriptor.

* `gate_interruptInit`: the gate of every vector.  The first 47 vectors lead to the stubs of the
  exceptions and of the interrupt lines; the loop that fills the rest of the table starts with the last
  entry that was made, so the stub of line 15 is not reached.
* `installed_interruptInit`: the table and the interrupt controllers agree: the vector of each other
  line leads to the stub of that line.
-/

namespace Aosis.Interrupt

open Aosis.Lib Aosis.Lib.Pic8259

/-! ### The source -/

/-- `struct idt_desc`. -/
structure IdtDesc where
  offset1 : BitVec 16
  selector : BitVec 16
  zero : BitVec 8
  flags : BitVec 8
  offset2 : BitVec 16

/-- The eight bytes of the packed structure. -/
def IdtDesc.bytes (d : IdtDesc) : Vector (BitVec 8) 8 :=
  #v[d.offset1.extractLsb' 0 8, d.offset1.extractLsb' 8 8, d.selector.extractLsb' 0 8,
    d.selector.extractLsb' 8 8, d.zero, d.flags, d.offset2.extractLsb' 0 8,
    d.offset2.extractLsb' 8 8]

/-- `struct idt_pointer`. -/
structure IdtPointer where
  size : BitVec 16
  ptr : Word

/-- The functions that `idt_handlers` points to. -/
inductive IdtHandler where
  | picCallback | isrKeyPress | pagingPageFaultHandler | otherInterrupt
  deriving DecidableEq

/-- The addresses of the stubs, of `other_interrupt` and of `idt`. -/
structure Symbols where
  isr : Fin 32 → Word
  irq : Fin 16 → Word
  otherInterrupt : Word
  idt : Word
  irq_injective : Function.Injective irq
  irq_ne : ∀ n, irq n ≠ otherInterrupt

/-- The variables of `interrupt.c`, the register `idtr`, the interrupt controllers, and whether
interrupts are enabled. -/
structure IntState where
  idt : BitVec 8 → IdtDesc
  idtHandlers : BitVec 8 → Option IdtHandler
  idtp : IdtPointer
  idtr : IdtPointer
  pics : Pair
  interrupts : Bool

/-- The assignments of `idt_set_entry` to a descriptor, which leave `zero` as it is. -/
def IdtDesc.set (handler : Word) (sel : BitVec 16) (flags : BitVec 8) (d : IdtDesc) : IdtDesc :=
  { d with
    offset1 := (handler &&& 0xFFFF).setWidth 16
    offset2 := ((handler >>> 16) &&& 0xFFFF).setWidth 16
    selector := sel
    flags := flags }

/-- `idt_set_entry`. -/
def idtSetEntry (index : BitVec 8) (handler : Word) (sel : BitVec 16) (flags : BitVec 8)
    (s : IntState) : IntState :=
  { s with idt := Function.update s.idt index ((s.idt index).set handler sel flags) }

/-- `KERNEL_CODE_SEGMENT`. -/
def kernelCodeSegment : BitVec 8 := 0x08

/-- `struct idt_config`. -/
structure IdtConfig where
  index : BitVec 8
  handler : Word
  segmentSelector : BitVec 8
  flags : BitVec 8

/-- `idt_cfg`. -/
def idtCfg (sym : Symbols) : List IdtConfig :=
  (List.finRange 32).map (fun i => ⟨BitVec.ofNat 8 i.val, sym.isr i, kernelCodeSegment, 0x8E⟩) ++
    (List.finRange 16).map fun i =>
      ⟨BitVec.ofNat 8 (32 + i.val), sym.irq i, kernelCodeSegment, 0x8E⟩

/-- The bytes that remap the interrupt lines. -/
def remap : List (Nat × Nat) :=
  [(0x20, 0x11), (0xA0, 0x11), (0x21, 0x20), (0xA1, 0x28), (0x21, 0x04), (0xA1, 0x02), (0x21, 0x01),
    (0xA1, 0x01), (0x21, 0x0), (0xA1, 0x0)]

/-- The first loop of `interrupt_init`. -/
def clearEntry (s : IntState) (i : Nat) : IntState :=
  { s with
    idt := Function.update s.idt (BitVec.ofNat 8 i) ⟨0, 0, 0, 0, 0⟩
    idtHandlers := Function.update s.idtHandlers (BitVec.ofNat 8 i) none }

/-- The second loop. -/
def configEntry (s : IntState) (cfg : IdtConfig) : IntState :=
  idtSetEntry cfg.index cfg.handler (cfg.segmentSelector.setWidth 16) cfg.flags s

/-- The third loop. -/
def otherEntry (sym : Symbols) (s : IntState) (i : Nat) : IntState :=
  idtSetEntry (BitVec.ofNat 8 i) sym.otherInterrupt 0x08 0x8E
    { s with idtHandlers := Function.update s.idtHandlers (BitVec.ofNat 8 i) (some .otherInterrupt) }

/-- `interrupt_init`, with `load_idt_asm` and `sti`. -/
def interruptInit (sym : Symbols) (s : IntState) : IntState :=
  let s := (List.range 256).foldl clearEntry s
  let s := { s with idtp := ⟨8 * 256 - 1, sym.idt⟩ }
  let s := { s with pics := s.pics.outbs remap }
  let last := 47
  let s := ((idtCfg sym).take (last + 1)).foldl configEntry s
  let s := (List.range' last (256 - last)).foldl (otherEntry sym) s
  { s with idtr := s.idtp, interrupts := true }

/-! ### The processor -/

/-- A gate as the processor reads it. -/
structure Gate where
  offset : Word
  selector : BitVec 16
  type : BitVec 4
  dpl : BitVec 2
  present : Bool

/-- The offset is in the first and the last two bytes, the selector in bytes 2 and 3, and byte 5 has the
type, the privilege level and the bit that says that the gate is present. -/
def Gate.ofBytes (b : Vector (BitVec 8) 8) : Gate where
  offset := b.get 7 ++ b.get 6 ++ b.get 1 ++ b.get 0
  selector := b.get 3 ++ b.get 2
  type := (b.get 5).extractLsb' 0 4
  dpl := (b.get 5).extractLsb' 5 2
  present := (b.get 5).getLsbD 7

/-- The gate of a vector, when `idtr` holds the address of `idt` and the descriptor is within its
limit. -/
def IntState.gate (sym : Symbols) (s : IntState) (vector : BitVec 8) : Option Gate :=
  if s.idtr.ptr = sym.idt ∧ 8 * vector.toNat + 7 ≤ s.idtr.size.toNat then
    some (Gate.ofBytes (s.idt vector).bytes)
  else none

/-- The descriptor of an interrupt gate of the kernel. -/
def interruptDesc (handler : Word) : IdtDesc := IdtDesc.set handler 0x08 0x8E ⟨0, 0, 0, 0, 0⟩

/-- Its gate. -/
def interruptGate (handler : Word) : Gate := ⟨handler, 0x08, 0xE, 0, true⟩

theorem gateOfBytes_eq (b₀ b₁ b₂ b₃ b₄ b₅ b₆ b₇ : BitVec 8) :
    Gate.ofBytes #v[b₀, b₁, b₂, b₃, b₄, b₅, b₆, b₇] = ⟨b₇ ++ b₆ ++ b₁ ++ b₀, b₃ ++ b₂,
      b₅.extractLsb' 0 4, b₅.extractLsb' 5 2, b₅.getLsbD 7⟩ := rfl

theorem offset_interruptDesc (handler : Word) :
    (interruptDesc handler).offset1 = handler.extractLsb' 0 16 ∧
      (interruptDesc handler).offset2 = handler.extractLsb' 16 16 := by
  have hmask : (0xFFFF : Word).setWidth 16 = BitVec.allOnes 16 := rfl
  rw [interruptDesc, IdtDesc.set]
  dsimp only
  rw [BitVec.setWidth_and, BitVec.setWidth_and, hmask, BitVec.and_allOnes, BitVec.and_allOnes]
  refine ⟨?_, ?_⟩ <;> ext i hi <;> simp

theorem ofBytes_interruptDesc (handler : Word) :
    Gate.ofBytes (interruptDesc handler).bytes = interruptGate handler := by
  obtain ⟨hlow, hhigh⟩ := offset_interruptDesc handler
  have hbyte : ∀ start k, k + 8 ≤ 16 →
      (handler.extractLsb' start 16).extractLsb' k 8 = handler.extractLsb' (start + k) 8 := by
    intro start k hk
    ext i hi
    simp [Nat.add_assoc]
    omega
  have hoffset : (handler.extractLsb' 16 16).extractLsb' 8 8 ++
      (handler.extractLsb' 16 16).extractLsb' 0 8 ++ (handler.extractLsb' 0 16).extractLsb' 8 8 ++
      (handler.extractLsb' 0 16).extractLsb' 0 8 = handler := by
    have h := Memory.Gdt.append_fields handler
    rw [hbyte 16 8 (by decide), hbyte 16 0 (by decide), hbyte 0 8 (by decide), hbyte 0 0 (by decide),
      h 16 8 8, h 8 16 8, h 0 24 8]
    exact BitVec.extractLsb'_eq_self
  have hselector : (interruptDesc handler).selector = 0x08 := rfl
  have hflags : (interruptDesc handler).flags = 0x8E := rfl
  rw [IdtDesc.bytes, gateOfBytes_eq]
  simp only [hlow, hhigh, hselector, hflags, hoffset, interruptGate, Gate.mk.injEq]
  decide

/-! ### The table -/

/-- Where the vector leads. -/
def entry (sym : Symbols) (vector : BitVec 8) : Word :=
  if h : vector.toNat < 32 then sym.isr ⟨vector.toNat, h⟩
  else if h : vector.toNat < 47 then sym.irq ⟨vector.toNat - 32, by omega⟩
  else sym.otherInterrupt

theorem master_lt (i : Fin 8) : i.val < 16 := by omega

theorem slave_lt (j : Fin 8) : 8 + j.val < 16 := by omega

/-- The number of an interrupt line. -/
def lineNumber : Line → Fin 16
  | .master i => ⟨i.val, master_lt i⟩
  | .slave j => ⟨8 + j.val, slave_lt j⟩

theorem lineNumber_slave (j : Fin 8) : (lineNumber (.slave j)).val = 8 + j.val := rfl

theorem lineNumber_lt {line : Line} (h : line ≠ .slave 7) : (lineNumber line).val < 15 := by
  cases line with
  | master i => exact lt_of_lt_of_le i.isLt (by decide)
  | slave j =>
    have hj : j.val ≠ 7 := fun hj => h (congrArg Line.slave (Fin.ext hj))
    rw [lineNumber_slave]
    omega

/-- What `interrupt_init` leaves. -/
structure Installed (sym : Symbols) (s : IntState) : Prop where
  gate : ∀ v, s.gate sym v = some (interruptGate (entry sym v))
  handlers : ∀ v : BitVec 8, s.idtHandlers v = if v.toNat < 47 then none else some .otherInterrupt
  pics : s.pics = resting 0x20 0x28 fun _ => false
  interrupts : s.interrupts = true
  line : ∀ l, l ≠ .slave 7 → entry sym (s.pics.vector l) = sym.irq (lineNumber l)
  last : entry sym (s.pics.vector (.slave 7)) = sym.otherInterrupt

section Table

variable (sym : Symbols) (s : IntState)

theorem foldl_keeps {α τ : Type} (f : IntState → α → IntState) (field : IntState → τ)
    (hf : ∀ s a, field (f s a) = field s) (l : List α) : field (l.foldl f s) = field s := by
  induction l generalizing s with
  | nil => rfl
  | cons a l ih => rw [List.foldl_cons, ih, hf]

/-- The table after the first loop. -/
def cleared : BitVec 8 → IdtDesc :=
  assignAlong (BitVec.ofNat 8) (fun _ _ => ⟨0, 0, 0, 0, 0⟩) (List.range 256) s.idt

/-- The table after the second loop. -/
def configured : BitVec 8 → IdtDesc :=
  assignAlong IdtConfig.index
    (fun cfg => IdtDesc.set cfg.handler (cfg.segmentSelector.setWidth 16) cfg.flags) (idtCfg sym)
    (cleared s)

theorem interruptInit_eq : ∃ t : IntState,
    t = (List.range' 47 209).foldl (otherEntry sym) (((idtCfg sym).take 48).foldl configEntry
      { (List.range 256).foldl clearEntry s with
        idtp := ⟨8 * 256 - 1, sym.idt⟩
        pics := ((List.range 256).foldl clearEntry s).pics.outbs remap }) ∧
    interruptInit sym s = { t with idtr := t.idtp, interrupts := true } := by
  refine ⟨_, rfl, ?_⟩
  rw [interruptInit]

theorem idt_interruptInit : (interruptInit sym s).idt =
    assignAlong (BitVec.ofNat 8) (fun _ => IdtDesc.set sym.otherInterrupt 0x08 0x8E)
      (List.range' 47 209) (configured sym s) := by
  have hclear : ((List.range 256).foldl clearEntry s).idt = cleared s := by
    rw [cleared, assignAlong]
    exact (List.foldl_hom IntState.idt fun _ _ => rfl).symm
  have htake : (idtCfg sym).take 48 = idtCfg sym := List.take_of_length_le (by simp [idtCfg])
  have hconfig : ∀ t : IntState, t.idt = cleared s →
      ((idtCfg sym).foldl configEntry t).idt = configured sym s := by
    intro t ht
    rw [configured, ← ht]
    exact (List.foldl_hom IntState.idt fun _ _ => rfl).symm
  have hother : ∀ t : IntState, ((List.range' 47 209).foldl (otherEntry sym) t).idt =
      assignAlong (BitVec.ofNat 8) (fun _ => IdtDesc.set sym.otherInterrupt 0x08 0x8E)
        (List.range' 47 209) t.idt :=
    fun t => (List.foldl_hom IntState.idt fun _ _ => rfl).symm
  obtain ⟨t, ht, hinit⟩ := interruptInit_eq sym s
  rw [hinit]
  dsimp only
  rw [ht, hother, htake]
  exact congrArg _ (hconfig _ hclear)

theorem nodup_vectors {l : List Nat} (hl : l.Nodup) (h : ∀ i ∈ l, i < 256) :
    (l.map (BitVec.ofNat 8)).Nodup := by
  refine hl.map_on fun i hi j hj he => ?_
  have := congrArg BitVec.toNat he
  rw [BitVec.toNat_ofNat, BitVec.toNat_ofNat] at this
  have := h i hi
  have := h j hj
  omega

theorem index_idtCfg : (idtCfg sym).map IdtConfig.index = (List.range 48).map (BitVec.ofNat 8) := by
  rw [idtCfg, List.map_append, List.map_map, List.map_map]
  rfl

theorem zero_configured (v : BitVec 8) : (cleared s v).zero = 0 ∧ (configured sym s v).zero = 0 := by
  have hclear : ∀ v, (cleared s v).zero = 0 := by
    intro v
    have hv : BitVec.ofNat 8 v.toNat = v := by rw [BitVec.ofNat_toNat, BitVec.setWidth_eq]
    have hmem : v.toNat ∈ List.range 256 := List.mem_range.mpr v.isLt
    rw [cleared, ← hv, assignAlong_of_mem _
      (nodup_vectors List.nodup_range fun i hi => List.mem_range.mp hi) hmem]
  refine ⟨hclear v, ?_⟩
  rw [configured]
  refine assignAlong_forall (P := fun d : IdtDesc => d.zero = 0) ?_ _ hclear v
  exact fun _ _ h => h

theorem set_eq {d : IdtDesc} (hd : d.zero = 0) (handler : Word) :
    d.set handler 0x08 0x8E = interruptDesc handler := by
  rw [interruptDesc, IdtDesc.set, IdtDesc.set, hd]

/-- **The descriptor of every vector.** -/
theorem desc_interruptInit (v : BitVec 8) :
    (interruptInit sym s).idt v = interruptDesc (entry sym v) := by
  obtain ⟨hclear, hconfig⟩ := zero_configured sym s v
  have hv : BitVec.ofNat 8 v.toNat = v := by rw [BitVec.ofNat_toNat, BitVec.setWidth_eq]
  have hlt := v.isLt
  rw [idt_interruptInit]
  by_cases h47 : 47 ≤ v.toNat
  · have hmem : v.toNat ∈ List.range' 47 209 := by
      rw [List.mem_range'_1]
      omega
    have hother := assignAlong_of_mem (w := BitVec.ofNat 8)
      (h := fun _ => IdtDesc.set sym.otherInterrupt 0x08 0x8E) (configured sym s)
      (nodup_vectors List.nodup_range' fun i hi => by rw [List.mem_range'_1] at hi; omega) hmem
    rw [hv] at hother
    rw [hother, set_eq hconfig, entry, dif_neg (by omega), dif_neg (by omega)]
  · rw [assignAlong_of_not_mem]
    · have hset : ∀ cfg ∈ idtCfg sym, cfg.index = v → cfg.segmentSelector = 0x08 → cfg.flags = 0x8E →
          configured sym s v = interruptDesc cfg.handler := by
        intro cfg hcfg hindex hseg hflags
        have hall := assignAlong_of_mem (w := IdtConfig.index)
          (h := fun cfg => IdtDesc.set cfg.handler (cfg.segmentSelector.setWidth 16) cfg.flags)
          (cleared s) (by
            rw [index_idtCfg]
            exact nodup_vectors List.nodup_range fun i hi => by
              have := List.mem_range.mp hi
              omega) hcfg
        rw [hindex] at hall
        rw [configured, hall, hseg, hflags]
        exact set_eq hclear _
      by_cases h32 : v.toNat < 32
      · rw [hset ⟨v, sym.isr ⟨v.toNat, h32⟩, kernelCodeSegment, 0x8E⟩ ?_ rfl rfl rfl, entry,
          dif_pos h32]
        refine List.mem_append_left _ (List.mem_map.mpr ⟨⟨v.toNat, h32⟩, List.mem_finRange _, ?_⟩)
        dsimp only
        rw [hv]
      · rw [hset ⟨v, sym.irq ⟨v.toNat - 32, by omega⟩, kernelCodeSegment, 0x8E⟩ ?_ rfl rfl rfl, entry,
          dif_neg h32, dif_pos (by omega)]
        refine List.mem_append_right _
          (List.mem_map.mpr ⟨⟨v.toNat - 32, by omega⟩, List.mem_finRange _, ?_⟩)
        dsimp only
        rw [Nat.add_sub_cancel' (not_lt.mp h32), hv]
    · intro i hi he
      rw [List.mem_range'_1] at hi
      have := congrArg BitVec.toNat he
      rw [BitVec.toNat_ofNat] at this
      omega

theorem gate_interruptInit (v : BitVec 8) :
    (interruptInit sym s).gate sym v = some (interruptGate (entry sym v)) := by
  have hidtr : (interruptInit sym s).idtr = ⟨2047, sym.idt⟩ := by
    have hidtp : ∀ t : IntState, ((List.range' 47 209).foldl (otherEntry sym)
        (((idtCfg sym).take 48).foldl configEntry t)).idtp = t.idtp := by
      intro t
      rw [foldl_keeps _ (otherEntry sym) IntState.idtp fun _ _ => rfl,
        foldl_keeps _ configEntry IntState.idtp fun _ _ => rfl]
    obtain ⟨t, ht, hinit⟩ := interruptInit_eq sym s
    rw [hinit]
    dsimp only
    rw [ht, hidtp]
    exact congrArg (IdtPointer.mk · sym.idt) (by decide)
  have hlt := v.isLt
  have hlimit : 8 * v.toNat + 7 ≤ (2047 : BitVec 16).toNat := by
    show 8 * v.toNat + 7 ≤ 2047
    omega
  rw [IntState.gate, hidtr, if_pos ⟨rfl, hlimit⟩, desc_interruptInit, ofBytes_interruptDesc]

theorem handlers_interruptInit (v : BitVec 8) : (interruptInit sym s).idtHandlers v =
    if v.toNat < 47 then none else some .otherInterrupt := by
  have hv : BitVec.ofNat 8 v.toNat = v := by rw [BitVec.ofNat_toNat, BitVec.setWidth_eq]
  have hlt := v.isLt
  have hclear : ((List.range 256).foldl clearEntry s).idtHandlers =
      assignAlong (BitVec.ofNat 8) (fun _ _ => none) (List.range 256) s.idtHandlers := by
    rw [assignAlong]
    exact (List.foldl_hom IntState.idtHandlers fun _ _ => rfl).symm
  have hother : ∀ t : IntState, ((List.range' 47 209).foldl (otherEntry sym) t).idtHandlers =
      assignAlong (BitVec.ofNat 8) (fun _ _ => some .otherInterrupt) (List.range' 47 209)
        t.idtHandlers := by
    intro t
    rw [assignAlong]
    exact (List.foldl_hom IntState.idtHandlers fun _ _ => rfl).symm
  obtain ⟨t, ht, hinit⟩ := interruptInit_eq sym s
  rw [hinit]
  dsimp only
  rw [ht, hother, foldl_keeps _ configEntry IntState.idtHandlers fun _ _ => rfl]
  dsimp only
  rw [hclear]
  split
  · rw [assignAlong_of_not_mem _ fun i hi he => ?_]
    · rw [← hv, assignAlong_of_mem _
        (nodup_vectors List.nodup_range fun i hi => List.mem_range.mp hi) (List.mem_range.mpr hlt)]
    · rw [List.mem_range'_1] at hi
      have := congrArg BitVec.toNat he
      rw [BitVec.toNat_ofNat] at this
      omega
  · have hmem : v.toNat ∈ List.range' 47 209 := by
      rw [List.mem_range'_1]
      omega
    rw [← hv, assignAlong_of_mem _
      (nodup_vectors List.nodup_range' fun i hi => by rw [List.mem_range'_1] at hi; omega) hmem]

theorem pics_interruptInit : (interruptInit sym s).pics = resting 0x20 0x28 fun _ => false := by
  obtain ⟨t, ht, hinit⟩ := interruptInit_eq sym s
  rw [hinit]
  dsimp only
  rw [ht, foldl_keeps _ (otherEntry sym) IntState.pics fun _ _ => rfl,
    foldl_keeps _ configEntry IntState.pics fun _ _ => rfl]
  exact programmed_resting _ 0x20 0x28

theorem vector_resting (pending : Line → Bool) (l : Line) :
    ((resting 0x20 0x28 pending).vector l).toNat = 32 + (lineNumber l).val := by
  have hmaster : ∀ i : Fin 8, (0x20 &&& 0xF8 ||| BitVec.ofNat 8 i.val : BitVec 8).toNat = 32 + i.val := by
    decide
  have hslave : ∀ i : Fin 8, (0x28 &&& 0xF8 ||| BitVec.ofNat 8 i.val : BitVec 8).toNat = 40 + i.val := by
    decide
  cases l with
  | master i => exact hmaster i
  | slave j =>
    refine (hslave j).trans ?_
    rw [lineNumber_slave]
    omega

theorem entry_vector (pending : Line → Bool) (l : Line) :
    entry sym ((resting 0x20 0x28 pending).vector l) =
      if l = .slave 7 then sym.otherInterrupt else sym.irq (lineNumber l) := by
  have hv := vector_resting pending l
  split
  · next hl =>
    have h7 : (7 : Fin 8).val = 7 := rfl
    rw [hl, lineNumber_slave] at hv
    rw [hl, entry, dif_neg (by omega), dif_neg (by omega)]
  · next hl =>
    have hlt := lineNumber_lt hl
    rw [entry, dif_neg (by omega), dif_pos (by omega)]
    exact congrArg sym.irq (Fin.ext (by dsimp only; omega))

/-- **The table and the interrupt controllers fit together**, whatever was in the table and whatever the
controllers did before. -/
theorem installed_interruptInit : Installed sym (interruptInit sym s) := by
  have hpics := pics_interruptInit sym s
  refine ⟨gate_interruptInit sym s, handlers_interruptInit sym s, hpics, rfl, fun l hl => ?_, ?_⟩
  · rw [hpics, entry_vector, if_neg hl]
  · rw [hpics, entry_vector, if_pos rfl]

end Table

end Aosis.Interrupt
