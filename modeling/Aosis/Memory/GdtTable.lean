import Aosis.Memory.Gdt

/-!
# The descriptor table and the task state segment

`gdt_init` of `kernel/memory/gdt.c`, the rules by which the processor takes a selector, and the ports
that the task state segment leaves to the user mode.

* `takes_iff`: which selectors each instruction takes, at each privilege level.
* `portsOpen_kernelTss`: the permission map of the ports is the task state segment itself.
-/

namespace Aosis.Memory.Gdt

/-! ### The source -/

/-- `struct tss`, which is `{ 0 }` at first. -/
structure Tss where
  backLink : Word := 0
  esp0 : Word := 0
  ss0 : Word := 0
  esp1 : Word := 0
  ss1 : Word := 0
  esp2 : Word := 0
  ss2 : Word := 0
  cr3 : Word := 0
  eip : Word := 0
  eflags : Word := 0
  eax : Word := 0
  ecx : Word := 0
  edx : Word := 0
  ebx : Word := 0
  esp : Word := 0
  ebp : Word := 0
  esi : Word := 0
  edi : Word := 0
  es : Word := 0
  cs : Word := 0
  ss : Word := 0
  ds : Word := 0
  fs : Word := 0
  gs : Word := 0
  ldt : Word := 0
  ioMapOffset : Word := 0

/-- `struct gdt_pointer`. -/
structure GdtPointer where
  size : BitVec 16 := 0
  addr : Word := 0

/-- The addresses of the variables of `gdt.c`. -/
structure Addresses where
  globalDescriptorTable : Word
  gdtDescriptor : Word
  tssRegion : Word

/-- The variables of `gdt.c`. -/
structure Tables where
  globalDescriptorTable : Vector GdtEntry 64
  gdtDescriptor : GdtPointer
  tssRegion : Tss

/-- The variables at first. -/
def Tables.zero : Tables where
  globalDescriptorTable := .replicate 64 ⟨0, 0, 0, AccessByte.ofByte 0, LimitAndFlags.ofByte 0, 0⟩
  gdtDescriptor := {}
  tssRegion := {}

/-- `sizeof(struct gdt_entry)`. -/
def sizeofGdtEntry : Word := 8

/-- `sizeof(tss_region)`: the structure is aligned to 128 bytes. -/
def sizeofTss : Word := 128

/-- `gdt_init`, with the address that it returns. -/
def gdtInit (addr : Addresses) (g : Tables) : Word × Tables :=
  let table := g.globalDescriptorTable.set 0 (gdtCreateEntry 0 0 0 0)
  let table := table.set 1 (gdtCreateEntry 0xFFFFF 0 0b10011010 0b1100)
  let table := table.set 2 (gdtCreateEntry 0xFFFFF 0 0b10010010 0b1100)
  let table := table.set 3 (gdtCreateEntry sizeofTss addr.tssRegion 0b10001001 0)
  let table := table.set 4 (gdtCreateEntry 0xFFFFF 0 0b11111010 0b1100)
  let table := table.set 5 (gdtCreateEntry 0xFFFFF 0 0b11110010 0b1100)
  let num_gdt_entires : Word := 6
  (addr.gdtDescriptor,
    { globalDescriptorTable := table
      gdtDescriptor :=
        { size := (num_gdt_entires * sizeofGdtEntry).setWidth 16, addr := addr.globalDescriptorTable }
      tssRegion := { g.tssRegion with ss0 := 0x10 } })

/-! ### The processor -/

/-- The requested privilege level of a selector. -/
def rpl (sel : BitVec 16) : BitVec 2 := sel.extractLsb' 0 2

/-- The selector is null. -/
def nullSelector (sel : BitVec 16) : Bool := sel >>> 2 == 0

/-- The descriptor that a selector names, when it names one in this table and all of its bytes are within
the limit. -/
def Tables.descriptor (g : Tables) (sel : BitVec 16) : Option Descriptor :=
  if !sel.getLsbD 2 && 8 * (sel >>> 3).toNat + 7 ≤ g.gdtDescriptor.size.toNat then
    g.globalDescriptorTable[(sel >>> 3).toNat]?.map fun entry => Descriptor.ofBytes entry.bytes
  else none

/-- `mov` to `ds`, `es`, `fs` or `gs` wants data, or code that may be read. -/
def dataRule (cpl rpl : BitVec 2) (a : AccessByte) : Bool :=
  a.s == 1 && (a.e == 0 || a.rW == 1) &&
    ((a.e == 1 && a.dc == 1) || (decide (rpl ≤ a.dpl) && decide (cpl ≤ a.dpl))) && a.p == 1

/-- `mov` to `ss` wants data of the same level that may be written. -/
def stackRule (cpl rpl : BitVec 2) (a : AccessByte) : Bool :=
  a.s == 1 && a.e == 0 && a.rW == 1 && rpl == cpl && a.dpl == cpl && a.p == 1

/-- A far jump stays at its level. -/
def jumpRule (cpl rpl : BitVec 2) (a : AccessByte) : Bool :=
  a.s == 1 && a.e == 1 &&
    (if a.dc == 1 then decide (a.dpl ≤ cpl) else decide (rpl ≤ cpl) && a.dpl == cpl) && a.p == 1

/-- `iret` goes to the level of the selector, which may be an outer one. -/
def returnRule (cpl rpl : BitVec 2) (a : AccessByte) : Bool :=
  a.s == 1 && a.e == 1 && decide (cpl ≤ rpl) &&
    (if a.dc == 1 then decide (a.dpl ≤ rpl) else a.dpl == rpl) && a.p == 1

/-- `ltr` wants a task state segment that is not busy. -/
def taskRule (cpl _rpl : BitVec 2) (a : AccessByte) : Bool :=
  cpl == 0 && a.s == 0 && a.dc == 0 && a.rW == 0 && a.accessed == 1 && a.p == 1

/-- The offset of the last byte of a segment, in units of pages when the granularity flag is set. -/
def Descriptor.lastByte (d : Descriptor) : Nat :=
  if d.flags.getLsbD 3 then 4096 * d.limit.toNat + 4095 else d.limit.toNat

/-- An instruction takes a selector that is not null when its rule allows the descriptor. -/
def Tables.takes (g : Tables) (rule : BitVec 2 → BitVec 2 → AccessByte → Bool) (cpl : BitVec 2)
    (sel : BitVec 16) : Bool :=
  !nullSelector sel && (g.descriptor sel).any fun d => rule cpl (rpl sel) (AccessByte.ofByte d.access)

/-- The data segment registers take null as well. -/
def Tables.takesData (g : Tables) (cpl : BitVec 2) (sel : BitVec 16) : Bool :=
  nullSelector sel || g.takes dataRule cpl sel

/-! ### The table -/

/-- The entries that `gdt_init` sets. -/
def kernelEntries (tss : Word) : List GdtEntry :=
  [gdtCreateEntry 0 0 0 0, gdtCreateEntry 0xFFFFF 0 0b10011010 0b1100,
    gdtCreateEntry 0xFFFFF 0 0b10010010 0b1100, gdtCreateEntry sizeofTss tss 0b10001001 0,
    gdtCreateEntry 0xFFFFF 0 0b11111010 0b1100, gdtCreateEntry 0xFFFFF 0 0b11110010 0b1100]

/-- What the processor reads from them. -/
def kernelDescriptors (tss : Word) : List Descriptor :=
  [⟨0, 0, 0, 0⟩, ⟨0xFFFFF, 0, 0b10011010, 0b1100⟩, ⟨0xFFFFF, 0, 0b10010010, 0b1100⟩,
    ⟨128, tss, 0b10001001, 0⟩, ⟨0xFFFFF, 0, 0b11111010, 0b1100⟩, ⟨0xFFFFF, 0, 0b11110010, 0b1100⟩]

/-- The limit of the task state segment is one more than its last byte, too. -/
theorem lastByte_tss (tss : Word) : Descriptor.lastByte ⟨128, tss, 0b10001001, 0⟩ = 128 :=
  if_neg (show ¬(0 : BitVec 4).getLsbD 3 = true by decide)

theorem entry_gdtInit (addr : Addresses) (g : Tables) {index : Nat} (h : index < 6) :
    (gdtInit addr g).2.globalDescriptorTable[index]? = (kernelEntries addr.tssRegion)[index]? := by
  simp only [gdtInit, Vector.getElem?_set]
  rcases (by omega : index = 0 ∨ index = 1 ∨ index = 2 ∨ index = 3 ∨ index = 4 ∨ index = 5) with
    rfl | rfl | rfl | rfl | rfl | rfl <;> rfl

theorem ofBytes_kernelEntries (tss : Word) :
    (kernelEntries tss).map (fun entry => Descriptor.ofBytes entry.bytes) = kernelDescriptors tss := by
  have hd := ofBytes_gdtCreateEntry
  have h0 := hd 0 0 0 0
  have h1 := hd 0xFFFFF 0 0b10011010 0b1100
  have h2 := hd 0xFFFFF 0 0b10010010 0b1100
  have h3 := hd 128 tss 0b10001001 0
  have h4 := hd 0xFFFFF 0 0b11111010 0b1100
  have h5 := hd 0xFFFFF 0 0b11110010 0b1100
  simp only [kernelEntries, List.map_cons, List.map_nil, kernelDescriptors, List.cons.injEq, and_true]
  exact ⟨h0, h1, h2, h3, h4, h5⟩

/-- The limit of the table is one more than its last byte, which is not enough for another entry. -/
theorem descriptor_gdtInit (addr : Addresses) (g : Tables) (sel : BitVec 16) :
    (gdtInit addr g).2.descriptor sel =
      if sel.getLsbD 2 then none else (kernelDescriptors addr.tssRegion)[(sel >>> 3).toNat]? := by
  have hsize : (gdtInit addr g).2.gdtDescriptor.size.toNat = 48 := rfl
  rw [Tables.descriptor, hsize]
  cases hti : sel.getLsbD 2 with
  | true => rfl
  | false =>
    generalize (sel >>> 3).toNat = index
    rw [if_neg Bool.false_ne_true]
    by_cases h : index < 6
    · have hlimit : (!false && decide (8 * index + 7 ≤ 48)) = true := decide_eq_true (by omega)
      rw [if_pos hlimit, entry_gdtInit addr g h, ← ofBytes_kernelEntries, List.getElem?_map]
    · have hlimit : ¬(!false && decide (8 * index + 7 ≤ 48)) = true := by
        rw [Bool.not_false, Bool.true_and, decide_eq_true_eq]
        omega
      have hlen : (kernelDescriptors addr.tssRegion).length ≤ index := by
        show 6 ≤ index
        omega
      rw [if_neg hlimit, List.getElem?_eq_none hlen]

/-- The access bytes of the table. -/
def kernelAccess : List (BitVec 8) := [0, 0b10011010, 0b10010010, 0b10001001, 0b11111010, 0b11110010]

/-- `Tables.takes` for this table, which depends on the access bytes only. -/
def taken (rule : BitVec 2 → BitVec 2 → AccessByte → Bool) (cpl : BitVec 2) (sel : BitVec 16) : Bool :=
  !nullSelector sel && !sel.getLsbD 2 &&
    kernelAccess[(sel >>> 3).toNat]?.any fun a => rule cpl (rpl sel) (AccessByte.ofByte a)

theorem takes_gdtInit (addr : Addresses) (g : Tables) (rule : BitVec 2 → BitVec 2 → AccessByte → Bool)
    (cpl : BitVec 2) (sel : BitVec 16) : (gdtInit addr g).2.takes rule cpl sel = taken rule cpl sel := by
  have haccess : kernelAccess = (kernelDescriptors addr.tssRegion).map (·.access) := rfl
  rw [Tables.takes, descriptor_gdtInit, taken, haccess, List.getElem?_map, Option.any_map, Bool.and_assoc]
  cases sel.getLsbD 2 <;> rfl

theorem lt_of_taken {rule : BitVec 2 → BitVec 2 → AccessByte → Bool} {cpl : BitVec 2} {sel : BitVec 16}
    (h : taken rule cpl sel = true) : sel.toNat < 48 := by
  by_contra hge
  have hindex : (sel >>> 3).toNat = sel.toNat / 8 := by
    rw [BitVec.toNat_ushiftRight, Nat.shiftRight_eq_div_pow]
  have hnone : kernelAccess[(sel >>> 3).toNat]? = none := by
    rw [hindex]
    exact List.getElem?_eq_none (by show 6 ≤ _; omega)
  rw [taken, hnone, Option.any_none, Bool.and_false] at h
  exact Bool.false_ne_true h

theorem taken_iff {rule : BitVec 2 → BitVec 2 → AccessByte → Bool} {p : BitVec 2 → BitVec 16 → Prop}
    (hlt : ∀ cpl sel, p cpl sel → sel.toNat < 48)
    (htry : ∀ c < 4, ∀ n < 48, taken rule (BitVec.ofNat 2 c) (BitVec.ofNat 16 n) = true ↔
      p (BitVec.ofNat 2 c) (BitVec.ofNat 16 n)) (cpl : BitVec 2) (sel : BitVec 16) :
    taken rule cpl sel = true ↔ p cpl sel := by
  have hiff (hsel : sel.toNat < 48) : taken rule cpl sel = true ↔ p cpl sel := by
    have h := htry cpl.toNat cpl.isLt sel.toNat hsel
    rwa [BitVec.ofNat_toNat, BitVec.setWidth_eq, BitVec.ofNat_toNat, BitVec.setWidth_eq] at h
  exact ⟨fun h => (hiff (lt_of_taken h)).mp h, fun h => (hiff (hlt cpl sel h)).mpr h⟩

theorem taken_dataRule : ∀ cpl sel, taken dataRule cpl sel = true ↔
    cpl = 0 ∧ (sel = 0x08 ∨ sel = 0x10) ∨ 0x20 ≤ sel.toNat ∧ sel.toNat < 0x24 ∨
      0x28 ≤ sel.toNat ∧ sel.toNat < 0x2C := by
  refine taken_iff ?_ ?_
  · rintro cpl sel (⟨-, rfl | rfl⟩ | h | h)
    · decide
    · decide
    · omega
    · omega
  · decide

theorem taken_stackRule : ∀ cpl sel, taken stackRule cpl sel = true ↔
    cpl = 0 ∧ sel = 0x10 ∨ cpl = 3 ∧ sel = 0x2B := by
  refine taken_iff ?_ ?_
  · rintro cpl sel (⟨-, rfl⟩ | ⟨-, rfl⟩) <;> decide
  · decide

theorem taken_jumpRule : ∀ cpl sel, taken jumpRule cpl sel = true ↔
    cpl = 0 ∧ sel = 0x08 ∨ cpl = 3 ∧ 0x20 ≤ sel.toNat ∧ sel.toNat < 0x24 := by
  refine taken_iff ?_ ?_
  · rintro cpl sel (⟨-, rfl⟩ | ⟨-, h⟩)
    · decide
    · omega
  · decide

theorem taken_returnRule : ∀ cpl sel, taken returnRule cpl sel = true ↔
    cpl = 0 ∧ sel = 0x08 ∨ sel = 0x23 := by
  refine taken_iff ?_ ?_
  · rintro cpl sel (⟨-, rfl⟩ | rfl) <;> decide
  · decide

theorem taken_taskRule : ∀ cpl sel, taken taskRule cpl sel = true ↔
    cpl = 0 ∧ 0x18 ≤ sel.toNat ∧ sel.toNat < 0x1C := by
  refine taken_iff ?_ ?_
  · rintro cpl sel ⟨-, h⟩
    omega
  · decide

theorem nullSelector_iff (sel : BitVec 16) : nullSelector sel = true ↔ sel.toNat < 4 := by
  rw [nullSelector, beq_iff_eq, ← BitVec.toNat_inj, BitVec.toNat_ushiftRight, Nat.shiftRight_eq_div_pow]
  show sel.toNat / 4 = 0 ↔ _
  omega

theorem takesData_iff (addr : Addresses) (g : Tables) (cpl : BitVec 2) (sel : BitVec 16) :
    (gdtInit addr g).2.takesData cpl sel = true ↔ sel.toNat < 4 ∨
      cpl = 0 ∧ (sel = 0x08 ∨ sel = 0x10) ∨ 0x20 ≤ sel.toNat ∧ sel.toNat < 0x24 ∨
        0x28 ≤ sel.toNat ∧ sel.toNat < 0x2C := by
  rw [Tables.takesData, Bool.or_eq_true, nullSelector_iff, takes_gdtInit, taken_dataRule]

theorem index_of_descriptor {sel : BitVec 16} {tss : Word} {d : Descriptor}
    (hd : (if sel.getLsbD 2 then none else (kernelDescriptors tss)[(sel >>> 3).toNat]?) = some d)
    (hnull : nullSelector sel = false) :
    0 < sel.toNat / 8 ∧ sel.toNat / 8 < 6 ∧ sel.toNat / 4 % 2 = 0 ∧
      (kernelDescriptors tss)[sel.toNat / 8]? = some d := by
  have hindex : (sel >>> 3).toNat = sel.toNat / 8 := by
    rw [BitVec.toNat_ushiftRight, Nat.shiftRight_eq_div_pow]
  have hge : ¬sel.toNat < 4 := by
    rw [← nullSelector_iff, hnull]
    exact Bool.false_ne_true
  rw [hindex] at hd
  split at hd
  · cases hd
  · next hti =>
    have hbit : sel.toNat / 4 % 2 = 0 := by
      have h := Bool.eq_false_of_not_eq_true hti
      rw [BitVec.getLsbD, Nat.testBit_eq_decide_div_mod_eq, decide_eq_false_iff_not] at h
      omega
    have hlt := (List.getElem?_eq_some_iff.mp hd).1
    exact ⟨by omega, hlt, hbit, hd⟩

/-- **The selectors that the processor takes** after `gdt_init`, at each privilege level: the kernel
has its code segment `0x08` and its data segment `0x10`, and the task state segment is the one of the
fourth entry; the code of the user mode is `0x23` and its stack is `0x2B`.  Every segment of code or
data has all addresses. -/
theorem takes_iff (addr : Addresses) (g : Tables) (cpl : BitVec 2) (sel : BitVec 16) :
    let g' := (gdtInit addr g).2
    (g'.takesData cpl sel = true ↔ sel.toNat < 4 ∨ cpl = 0 ∧ (sel = 0x08 ∨ sel = 0x10) ∨
      0x20 ≤ sel.toNat ∧ sel.toNat < 0x24 ∨ 0x28 ≤ sel.toNat ∧ sel.toNat < 0x2C) ∧
    (g'.takes stackRule cpl sel = true ↔ cpl = 0 ∧ sel = 0x10 ∨ cpl = 3 ∧ sel = 0x2B) ∧
    (g'.takes jumpRule cpl sel = true ↔
      cpl = 0 ∧ sel = 0x08 ∨ cpl = 3 ∧ 0x20 ≤ sel.toNat ∧ sel.toNat < 0x24) ∧
    (g'.takes returnRule cpl sel = true ↔ cpl = 0 ∧ sel = 0x08 ∨ sel = 0x23) ∧
    (g'.takes taskRule cpl sel = true ↔ cpl = 0 ∧ 0x18 ≤ sel.toNat ∧ sel.toNat < 0x1C) ∧
    ∀ d, g'.descriptor sel = some d → nullSelector sel = false →
      d.base = 0 ∧ d.lastByte = 2 ^ 32 - 1 ∨
        (0x18 ≤ sel.toNat ∧ sel.toNat < 0x1C) ∧ d.base = addr.tssRegion ∧ d.lastByte = 128 := by
  refine ⟨takesData_iff addr g cpl sel, ?_, ?_, ?_, ?_, fun d hd hnull => ?_⟩
  · rw [takes_gdtInit, taken_stackRule]
  · rw [takes_gdtInit, taken_jumpRule]
  · rw [takes_gdtInit, taken_returnRule]
  · rw [takes_gdtInit, taken_taskRule]
  · rw [descriptor_gdtInit] at hd
    obtain ⟨h0, h6, hbit, hget⟩ := index_of_descriptor hd hnull
    generalize hindex : sel.toNat / 8 = index at h0 h6 hget
    rcases (by omega : index = 1 ∨ index = 2 ∨ index = 3 ∨ index = 4 ∨ index = 5) with
      rfl | rfl | rfl | rfl | rfl <;> cases hget
    · exact Or.inl ⟨rfl, rfl⟩
    · exact Or.inl ⟨rfl, rfl⟩
    · exact Or.inr ⟨by omega, rfl, lastByte_tss addr.tssRegion⟩
    · exact Or.inl ⟨rfl, rfl⟩
    · exact Or.inl ⟨rfl, rfl⟩

/-! ### The ports of the user mode -/

/-- The words of the structure in memory. -/
def Tss.words (t : Tss) : List Word :=
  [t.backLink, t.esp0, t.ss0, t.esp1, t.ss1, t.esp2, t.ss2, t.cr3, t.eip, t.eflags, t.eax, t.ecx, t.edx,
    t.ebx, t.esp, t.ebp, t.esi, t.edi, t.es, t.cs, t.ss, t.ds, t.fs, t.gs, t.ldt, t.ioMapOffset]

/-- The byte at an offset from the structure: the rest of its 128 bytes is zero, and what lies behind is
not known. -/
def Tss.byte (t : Tss) (behind : Nat → BitVec 8) (i : Nat) : BitVec 8 :=
  if i < 128 then (t.words.getD (i / 4) 0).extractLsb' (8 * (i % 4)) 8 else behind i

/-- The processor finds the offset of a map of the ports in the last field of the task state segment, and
reads two bytes of the map, which have to lie within the limit.  A port is open when its bit is clear. -/
def portsOpen (limit : Nat) (byte : Nat → BitVec 8) (port width : Nat) : Bool :=
  let first := (byte 103 ++ byte 102).toNat + port / 8
  let permission := (byte (first + 1) ++ byte first) >>> (port % 8)
  decide (103 ≤ limit) && decide (first < limit) && permission &&& BitVec.ofNat 16 (2 ^ width - 1) == 0

/-- The bit of a port in a map that begins with the segment. -/
def mapBit (byte : Nat → BitVec 8) (port : Nat) : Bool := (byte (port / 8)).getLsbD (port % 8)

theorem getLsbD_permission (byte : Nat → BitVec 8) (port : Nat) {i : Nat} (hi : i < 4) :
    ((byte (port / 8 + 1) ++ byte (port / 8)) >>> (port % 8)).getLsbD i = mapBit byte (port + i) := by
  rw [BitVec.getLsbD_ushiftRight, BitVec.getLsbD_append, mapBit]
  split
  · next h =>
    have hbyte : (port + i) / 8 = port / 8 := by omega
    have hbit : (port + i) % 8 = port % 8 + i := by omega
    rw [hbyte, hbit]
  · next h =>
    have hbyte : (port + i) / 8 = port / 8 + 1 := by omega
    have hbit : (port + i) % 8 = port % 8 + i - 8 := by omega
    rw [hbyte, hbit]

theorem and_mask_eq_zero {w : Nat} (x : BitVec w) (n : Nat) :
    x &&& BitVec.ofNat w (2 ^ n - 1) = 0 ↔ ∀ i < n, x.getLsbD i = false := by
  have hmask : ∀ i < w,
      (x &&& BitVec.ofNat w (2 ^ n - 1)).getLsbD i = (x.getLsbD i && decide (i < n)) := by
    intro i hi
    rw [BitVec.getLsbD_and, BitVec.getLsbD_ofNat, Nat.testBit_two_pow_sub_one, decide_eq_true hi,
      Bool.true_and]
  constructor
  · intro h i hi
    by_cases hw : i < w
    · have hbit := hmask i hw
      rw [h, decide_eq_true hi, Bool.and_true] at hbit
      rw [← hbit]
      exact BitVec.getLsbD_zero
    · exact BitVec.getLsbD_of_ge x i (by omega)
  · intro h
    apply BitVec.eq_of_getLsbD_eq
    intro i hi
    rw [hmask i hi]
    by_cases hn : i < n
    · rw [h i hn]
      exact BitVec.getLsbD_zero.symm
    · rw [decide_eq_false hn, Bool.and_false]
      exact BitVec.getLsbD_zero.symm

theorem portsOpen_iff {limit : Nat} {byte : Nat → BitVec 8} (hlimit : 103 ≤ limit)
    (h102 : byte 102 = 0) (h103 : byte 103 = 0) {port width : Nat} (hw : width ≤ 4) :
    portsOpen limit byte port width = true ↔
      port / 8 < limit ∧ ∀ i < width, mapBit byte (port + i) = false := by
  have hbase : ((0 : BitVec 8) ++ (0 : BitVec 8)).toNat = 0 := rfl
  have hbits : (∀ i < width,
      ((byte (port / 8 + 1) ++ byte (port / 8)) >>> (port % 8)).getLsbD i = false) ↔
        ∀ i < width, mapBit byte (port + i) = false :=
    forall₂_congr fun i hi => by rw [getLsbD_permission byte port (by omega)]
  simp only [portsOpen, h102, h103, hbase, Nat.zero_add, Bool.and_eq_true, decide_eq_true_eq, beq_iff_eq,
    and_mask_eq_zero, hbits]
  exact ⟨fun h => ⟨h.1.2, h.2⟩, fun h => ⟨⟨hlimit, h.1⟩, h.2⟩⟩

/-- The task state segment of this kernel, which sets two fields of it. -/
def kernelTss (esp0 : Word) : Tss := { esp0 := esp0, ss0 := 0x10 }

theorem words_kernelTss (esp0 : Word) (k : Nat) : (kernelTss esp0).words.getD k 0 =
    if k = 1 then esp0 else if k = 2 then 0x10 else 0 := by
  have hwords : (kernelTss esp0).words = 0 :: esp0 :: 0x10 :: List.replicate 23 0 := rfl
  rw [hwords]
  match k with
  | 0 => rfl
  | 1 => rfl
  | 2 => rfl
  | k + 3 =>
    rw [if_neg (by omega), if_neg (by omega), List.getD_cons_succ, List.getD_cons_succ,
      List.getD_cons_succ, List.getD_eq_getElem?_getD, List.getElem?_replicate]
    split <;> rfl

/-- The bits of the map: those of `esp0`, and the one that is set in `ss0`. -/
theorem mapBit_kernelTss (esp0 : Word) (behind : Nat → BitVec 8) {port : Nat} (h : port < 1024) :
    mapBit ((kernelTss esp0).byte behind) port = true ↔
      port = 68 ∨ 32 ≤ port ∧ port < 64 ∧ esp0.getLsbD (port - 32) = true := by
  have hlt : port / 8 < 128 := by omega
  have hbit : port % 8 < 8 := by omega
  rw [mapBit, Tss.byte, if_pos hlt, BitVec.getLsbD_extractLsb', words_kernelTss, decide_eq_true hbit,
    Bool.true_and]
  split
  · next h1 =>
    have hoffset : 8 * (port / 8 % 4) + port % 8 = port - 32 := by omega
    rw [hoffset]
    exact ⟨fun hb => Or.inr ⟨by omega, by omega, hb⟩, fun hor => by
      rcases hor with rfl | ⟨-, -, hb⟩
      · omega
      · exact hb⟩
  · next h1 =>
    split
    · next h2 =>
      obtain ⟨k, hk, rfl⟩ : ∃ k < 32, port = 64 + k := ⟨port - 64, by omega, by omega⟩
      have hoffset : 8 * ((64 + k) / 8 % 4) + (64 + k) % 8 = k := by omega
      have hss : ∀ k < 32, (0x10 : Word).getLsbD k = decide (k = 4) := by decide
      rw [hoffset, hss k hk, decide_eq_true_eq]
      omega
    · next h2 =>
      have hclear : (0 : Word).getLsbD (8 * (port / 8 % 4) + port % 8) = false := BitVec.getLsbD_zero
      rw [hclear]
      exact ⟨fun hb => absurd hb Bool.false_ne_true, fun hor => by omega⟩

/-- **The ports that the task state segment leaves open.**  No field says where the map of the ports
begins, so that it begins with the segment: the ports below 1024 are open to the user mode, apart from
those whose bits are set in `esp0` and `ss0`.  An access that goes over the end of the segment reads
what lies behind it. -/
theorem portsOpen_kernelTss (esp0 : Word) (behind : Nat → BitVec 8) {port width : Nat} (hw : width ≤ 4) :
    portsOpen 128 ((kernelTss esp0).byte behind) port width = true ↔ port < 1024 ∧ ∀ i < width,
      port + i ≠ 68 ∧ (32 ≤ port + i → port + i < 64 → esp0.getLsbD (port + i - 32) = false) ∧
        (1024 ≤ port + i → (behind 128).getLsbD (port + i - 1024) = false) := by
  have hzero : ∀ i, 100 ≤ i → i < 104 → (kernelTss esp0).byte behind i = 0 := by
    intro i hi hi'
    have hlt : i < 128 := by omega
    have hword : i / 4 = 25 := by omega
    rw [Tss.byte, if_pos hlt, words_kernelTss, hword]
    exact BitVec.extractLsb'_zero
  rw [portsOpen_iff (by decide) (hzero 102 (by decide) (by decide))
    (hzero 103 (by decide) (by decide)) hw]
  have hlt : port / 8 < 128 ↔ port < 1024 := by omega
  rw [hlt]
  refine and_congr_right fun hport => forall₂_congr fun i hi => ?_
  by_cases h : port + i < 1024
  · rw [← Bool.not_eq_true, mapBit_kernelTss esp0 behind h]
    constructor
    · intro hn
      refine ⟨fun h68 => hn (Or.inl h68), fun h32 h64 => ?_, fun hge => absurd hge (by omega)⟩
      exact Bool.eq_false_of_not_eq_true fun hb => hn (Or.inr ⟨h32, h64, hb⟩)
    · rintro ⟨h68, hesp, -⟩ (heq | ⟨h32, h64, hb⟩)
      · exact h68 heq
      · rw [hesp h32 h64] at hb
        exact Bool.false_ne_true hb
  · have hbyte : (port + i) / 8 = 128 := by omega
    have hbit : (port + i) % 8 = port + i - 1024 := by omega
    rw [mapBit, hbyte, hbit, Tss.byte, if_neg (by decide)]
    refine ⟨fun hb => ⟨by omega, fun _ h64 => absurd h64 (by omega), fun _ => hb⟩, fun hb => ?_⟩
    exact hb.2.2 (by omega)

end Aosis.Memory.Gdt
