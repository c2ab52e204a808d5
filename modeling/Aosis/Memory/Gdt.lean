import Aosis.Common.Word

/-!
# Segment descriptors

`gdt_create_entry` of `kernel/memory/gdt.c` scatters the base and the limit of a segment over the eight
bytes of a descriptor.  `Descriptor` is what the processor reads from them.

* `decodes_gdtCreateEntry`: the processor reads what was encoded, so different arguments give different
  descriptors.
-/

namespace Aosis.Memory.Gdt

/-! ### The source -/

/-- `struct access_byte`; the first field is in the lowest bit. -/
structure AccessByte where
  accessed : BitVec 1
  rW : BitVec 1
  dc : BitVec 1
  e : BitVec 1
  s : BitVec 1
  dpl : BitVec 2
  p : BitVec 1

/-- `*(struct access_byte *)&byte`. -/
def AccessByte.ofByte (byte : BitVec 8) : AccessByte where
  accessed := byte.extractLsb' 0 1
  rW := byte.extractLsb' 1 1
  dc := byte.extractLsb' 2 1
  e := byte.extractLsb' 3 1
  s := byte.extractLsb' 4 1
  dpl := byte.extractLsb' 5 2
  p := byte.extractLsb' 7 1

/-- The byte in memory. -/
def AccessByte.byte (a : AccessByte) : BitVec 8 :=
  a.p ++ a.dpl ++ a.s ++ a.e ++ a.dc ++ a.rW ++ a.accessed

/-- `struct limit_and_flags`. -/
structure LimitAndFlags where
  segmentLimit2 : BitVec 4
  res : BitVec 1
  l : BitVec 1
  db : BitVec 1
  g : BitVec 1

/-- `*(struct limit_and_flags *)&byte`. -/
def LimitAndFlags.ofByte (byte : BitVec 8) : LimitAndFlags where
  segmentLimit2 := byte.extractLsb' 0 4
  res := byte.extractLsb' 4 1
  l := byte.extractLsb' 5 1
  db := byte.extractLsb' 6 1
  g := byte.extractLsb' 7 1

/-- The byte in memory. -/
def LimitAndFlags.byte (f : LimitAndFlags) : BitVec 8 :=
  f.g ++ f.db ++ f.l ++ f.res ++ f.segmentLimit2

/-- `struct gdt_entry`. -/
structure GdtEntry where
  segmentLimit1 : BitVec 16
  base1 : BitVec 16
  base2 : BitVec 8
  accessByte : AccessByte
  limitAndFlags : LimitAndFlags
  base3 : BitVec 8

/-- The eight bytes of the packed structure. -/
def GdtEntry.bytes (entry : GdtEntry) : Vector (BitVec 8) 8 :=
  #v[entry.segmentLimit1.extractLsb' 0 8, entry.segmentLimit1.extractLsb' 8 8,
    entry.base1.extractLsb' 0 8, entry.base1.extractLsb' 8 8, entry.base2, entry.accessByte.byte,
    entry.limitAndFlags.byte, entry.base3]

/-- `gdt_create_entry`. -/
def gdtCreateEntry (segment_limit base : Word) (access_byte flags : BitVec 8) : GdtEntry :=
  let flags_and_limit : BitVec 8 :=
    ((segment_limit >>> 16) &&& 0x0F).setWidth 8 ||| ((flags <<< 4) &&& 0xF0)
  { segmentLimit1 := (0xFFFF &&& segment_limit).setWidth 16
    base1 := (0x00FFFF &&& base).setWidth 16
    base2 := ((0xFF0000 &&& base) >>> 16).setWidth 8
    accessByte := AccessByte.ofByte access_byte
    limitAndFlags := LimitAndFlags.ofByte flags_and_limit
    base3 := ((base &&& 0xFF000000) >>> 24).setWidth 8 }

/-! ### The processor -/

/-- A descriptor as the processor reads it. -/
structure Descriptor where
  limit : BitVec 20
  base : Word
  access : BitVec 8
  flags : BitVec 4

/-- The limit is in bytes 0 and 1 and the low half of byte 6, the base in bytes 2 to 4 and 7, the access
byte is byte 5, and the flags are in the high half of byte 6. -/
def Descriptor.ofBytes (b : Vector (BitVec 8) 8) : Descriptor where
  limit := b[6].extractLsb' 0 4 ++ b[1] ++ b[0]
  base := b[7] ++ b[4] ++ b[3] ++ b[2]
  access := b[5]
  flags := b[6].extractLsb' 4 4

/-! ### The round trip -/

theorem ofBytes_eq (b₀ b₁ b₂ b₃ b₄ b₅ b₆ b₇ : BitVec 8) :
    Descriptor.ofBytes #v[b₀, b₁, b₂, b₃, b₄, b₅, b₆, b₇] =
      ⟨b₆.extractLsb' 0 4 ++ b₁ ++ b₀, b₇ ++ b₄ ++ b₃ ++ b₂, b₅, b₆.extractLsb' 4 4⟩ := rfl

theorem setWidth_mask {w : Nat} (x mask : BitVec w) (start len : Nat)
    (h : ∀ i < len, mask.getLsbD (start + i) = true) :
    ((mask &&& x) >>> start).setWidth len = x.extractLsb' start len := by
  ext i hi
  simp [h i hi]

theorem append_fields {w : Nat} (x : BitVec w) (start m n : Nat) :
    x.extractLsb' (start + n) m ++ x.extractLsb' start n = x.extractLsb' start (m + n) :=
  BitVec.extractLsb'_append_extractLsb'_eq_extractLsb' rfl

theorem byte_ofByte_access (byte : BitVec 8) : (AccessByte.ofByte byte).byte = byte := by
  have h := append_fields byte
  simp only [AccessByte.ofByte, AccessByte.byte]
  rw [h 5 1 2, h 4 3 1, h 3 4 1, h 2 5 1, h 1 6 1, h 0 7 1]
  exact BitVec.extractLsb'_eq_self

theorem byte_ofByte_limit (byte : BitVec 8) : (LimitAndFlags.ofByte byte).byte = byte := by
  have h := append_fields byte
  simp only [LimitAndFlags.ofByte, LimitAndFlags.byte]
  rw [h 6 1 1, h 5 2 1, h 4 3 1, h 0 4 4]
  exact BitVec.extractLsb'_eq_self

theorem flagsAndLimit_eq (segment_limit : BitVec 20) (flags : BitVec 4) :
    (((segment_limit.setWidth 32 >>> 16) &&& 0x0F).setWidth 8 |||
      ((flags.setWidth 8 <<< 4) &&& 0xF0) : BitVec 8) =
        flags ++ segment_limit.extractLsb' 16 4 := by
  have hlow : ∀ i < 8, (0x0F : Word).getLsbD i = decide (i < 4) := by decide
  have hhigh : ∀ i < 8, (0xF0 : BitVec 8).getLsbD i = decide (4 ≤ i) := by decide
  apply BitVec.eq_of_getLsbD_eq
  intro i hi
  rw [BitVec.getLsbD_or, BitVec.getLsbD_setWidth, BitVec.getLsbD_and, hlow i hi,
    BitVec.getLsbD_ushiftRight, BitVec.getLsbD_setWidth, BitVec.getLsbD_and, hhigh i hi,
    BitVec.getLsbD_shiftLeft, BitVec.getLsbD_setWidth, BitVec.getLsbD_append,
    BitVec.getLsbD_extractLsb']
  by_cases h4 : i < 4
  · simp [h4, hi, show 16 + i < 32 by omega]
  · simp [h4, hi, show i - 4 < 8 by omega, show 4 ≤ i by omega]

theorem ofBytes_gdtCreateEntry (segment_limit : BitVec 20) (base : Word) (access_byte : BitVec 8)
    (flags : BitVec 4) :
    Descriptor.ofBytes
        (gdtCreateEntry (segment_limit.setWidth 32) base access_byte (flags.setWidth 8)).bytes =
      ⟨segment_limit, base, access_byte, flags⟩ := by
  have hlimit : (0xFFFF &&& segment_limit.setWidth 32 : Word).setWidth 16 =
      (segment_limit.setWidth 32).extractLsb' 0 16 :=
    setWidth_mask (segment_limit.setWidth 32) 0xFFFF 0 16 (by decide)
  have hbase1 : (0x00FFFF &&& base).setWidth 16 = base.extractLsb' 0 16 :=
    setWidth_mask base 0x00FFFF 0 16 (by decide)
  have hbase2 : ((0xFF0000 &&& base) >>> 16).setWidth 8 = base.extractLsb' 16 8 :=
    setWidth_mask base 0xFF0000 16 8 (by decide)
  have hbase3 : ((base &&& 0xFF000000) >>> 24).setWidth 8 = base.extractLsb' 24 8 := by
    rw [BitVec.and_comm]
    exact setWidth_mask base 0xFF000000 24 8 (by decide)
  have hfield : (segment_limit.setWidth 32).extractLsb' 0 16 = segment_limit.extractLsb' 0 16 := by
    ext i hi
    simp
    omega
  have hl := append_fields segment_limit
  have hb := append_fields base
  have hlow : segment_limit.extractLsb' 16 4 ++ segment_limit.extractLsb' 8 8 ++
      segment_limit.extractLsb' 0 8 = segment_limit := by
    rw [hl 8 4 8, hl 0 12 8]
    exact BitVec.extractLsb'_eq_self
  have hhigh : base.extractLsb' 24 8 ++ base.extractLsb' 16 8 ++ base.extractLsb' 8 8 ++
      base.extractLsb' 0 8 = base := by
    rw [hb 16 8 8, hb 8 16 8, hb 0 24 8]
    exact BitVec.extractLsb'_eq_self
  have hbyte0 {w : Nat} (x : BitVec w) :
      (x.extractLsb' 0 16).extractLsb' 0 8 = x.extractLsb' 0 8 :=
    BitVec.extractLsb'_extractLsb'_of_le (by decide)
  have hbyte1 {w : Nat} (x : BitVec w) :
      (x.extractLsb' 0 16).extractLsb' 8 8 = x.extractLsb' 8 8 :=
    BitVec.extractLsb'_extractLsb'_of_le (by decide)
  rw [GdtEntry.bytes, ofBytes_eq]
  simp only [gdtCreateEntry, flagsAndLimit_eq, hlimit, hfield, hbase1, hbase2, hbase3,
    byte_ofByte_access, byte_ofByte_limit,
    BitVec.extractLsb'_append_eq_right, BitVec.extractLsb'_append_eq_left, hbyte0, hbyte1]
  rw [hlow, hhigh]

/-- **Descriptors decode to what was encoded**, for every limit of 20 bits, every base, access byte and
value of the four flags; so different arguments give different descriptors. -/
theorem decodes_gdtCreateEntry :
    (∀ (segment_limit : BitVec 20) (base : Word) (access_byte : BitVec 8) (flags : BitVec 4),
      Descriptor.ofBytes
          (gdtCreateEntry (segment_limit.setWidth 32) base access_byte (flags.setWidth 8)).bytes =
        ⟨segment_limit, base, access_byte, flags⟩) ∧
    Function.Injective fun d : Descriptor =>
      (gdtCreateEntry (d.limit.setWidth 32) d.base d.access (d.flags.setWidth 8)).bytes := by
  refine ⟨ofBytes_gdtCreateEntry, ?_⟩
  intro d d' h
  have hd := congrArg Descriptor.ofBytes h
  simp only [ofBytes_gdtCreateEntry] at hd
  exact hd

end Aosis.Memory.Gdt
