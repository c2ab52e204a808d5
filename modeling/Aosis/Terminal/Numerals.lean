import Aosis.Lib.Numeral
import Aosis.Libc.Str
import Aosis.Terminal.Print

/-!
# Printed numbers

`tty_printint` and `tty_printhex` with the arrays that they index: the buffer of 32 digits, which one
loop fills and another one empties with a signed index, and the table of the hexadecimal digits.

* `ttyPrintint_eq_ok`, `ttyPrinthex_eq_ok`: no index leaves its array, and the functions write what
  those of `Print` write.
* `readsBack_printed`: the characters read back as the number.
-/

namespace Aosis.Terminal.Buffered

open Aosis.Lib Aosis.Libc Aosis.Terminal.Print

/-! ### The source -/

/-- The array `hex`, with its terminating zero. -/
def hex : Vector (BitVec 8) 17 :=
  #v[48, 49, 50, 51, 52, 53, 54, 55, 56, 57, 97, 98, 99, 100, 101, 102, 0]

/-- The first loop of `tty_printint` from turn `i` on. -/
def ttyPrintintStore (num i : Nat) (s : Vector (BitVec 8) 32) :
    Except Fault (Nat × Vector (BitVec 8) 32) :=
  if 0 < num then
    if h : i < 32 then ttyPrintintStore (num / 10) (i + 1) (s.set i (BitVec.ofNat 8 (num % 10)))
    else .error .outOfBounds
  else .ok (i, s)

section Print

variable {σ : Type} (putc : BitVec 8 → σ → σ)

/-- The second loop of `tty_printint`. -/
def ttyPrintintEmit (s : Vector (BitVec 8) 32) (i : Int) (t : σ) : Except Fault σ :=
  if 0 ≤ i then
    if h : i.toNat < 32 then ttyPrintintEmit s (i - 1) (putc (48 + s[i.toNat]) t)
    else .error .outOfBounds
  else .ok t
termination_by (i + 1).toNat

/-- `tty_printint`. -/
def ttyPrintint (num : Word) (t : σ) : Except Fault σ :=
  if num = 0 then .ok (putc 48 t)
  else do
    let (i, s) ← ttyPrintintStore num.toNat 0 (Vector.replicate 32 0)
    ttyPrintintEmit putc s (i - 1) t

/-- The loop of `tty_printhex`, with `n` turns to go. -/
def ttyPrinthexLoop : Nat → Word → σ → Except Fault σ
  | 0, _, t => .ok t
  | n + 1, num, t =>
    let c := ((num &&& 0xF0000000) >>> 28) &&& 0x0F
    if h : c.toNat < 17 then ttyPrinthexLoop n (num <<< 4) (putc hex[c.toNat] t)
    else .error .outOfBounds

/-- `tty_printhex`. -/
def ttyPrinthex (num : Word) (t : σ) : Except Fault σ :=
  if num = 0 then .ok (putc 48 t) else ttyPrinthexLoop putc 8 num t

end Print

/-! ### The buffer of digits -/

theorem ttyPrintintDigits_eq (num : Nat) :
    ttyPrintintDigits num = (Nat.digits 10 num).map (BitVec.ofNat 8) := by
  induction num using Nat.strongRecOn with
  | ind num ih =>
    rw [ttyPrintintDigits]
    by_cases hnum : num = 0
    · rw [if_pos hnum, hnum]
      rfl
    · rw [if_neg hnum, Nat.digits_def' (by decide) (by omega), List.map_cons, ih _ (by omega)]

/-- **The first loop stores the digits**, the lowest one first. -/
theorem ttyPrintintStore_eq (num i : Nat) (s : Vector (BitVec 8) 32)
    (h : i + (ttyPrintintDigits num).length ≤ 32) : ∃ s',
      ttyPrintintStore num i s = .ok (i + (ttyPrintintDigits num).length, s') ∧
      s'.toList.take (i + (ttyPrintintDigits num).length) =
        s.toList.take i ++ ttyPrintintDigits num := by
  induction num using Nat.strongRecOn generalizing i s with
  | ind num ih =>
    rw [ttyPrintintStore]
    rw [ttyPrintintDigits] at h ⊢
    by_cases hnum : num = 0
    · simp [hnum]
    · rw [if_neg hnum, List.length_cons] at h ⊢
      rw [if_pos (by omega), dif_pos (by omega)]
      obtain ⟨s', hstore, htake⟩ := ih (num / 10) (by omega) (i + 1)
        (s.set i (BitVec.ofNat 8 (num % 10)) (by omega)) (by omega)
      rw [Nat.add_assoc, Nat.add_comm 1] at hstore htake
      refine ⟨s', hstore, ?_⟩
      rw [htake, take_toList_succ _ (by omega), take_toList_set _ _ (by omega),
        Vector.getElem_set_self, List.append_assoc, List.singleton_append]

/-- **The second loop writes what was stored**, the last one first. -/
theorem ttyPrintintEmit_eq {σ : Type} (putc : BitVec 8 → σ → σ) (s : Vector (BitVec 8) 32) {k : Nat}
    (hk : k ≤ 32) (t : σ) : ttyPrintintEmit putc s ((k : Int) - 1) t =
      .ok (ttyWrite putc ((s.toList.take k).reverse.map (48 + ·)) t) := by
  induction k generalizing t with
  | zero =>
    rw [ttyPrintintEmit, if_neg (by omega)]
    rfl
  | succ k ih =>
    have hcast : ((k + 1 : Nat) : Int) - 1 = k := by omega
    rw [hcast, ttyPrintintEmit, if_pos (by omega), dif_pos (by simpa using hk), ih (by omega),
      take_toList_succ s (by omega), List.reverse_append]
    rfl

/-- **`tty_printint` stays in its buffer**, since a word has ten digits at most. -/
theorem ttyPrintint_eq_ok {σ : Type} (putc : BitVec 8 → σ → σ) (num : Word) (t : σ) :
    ttyPrintint putc num t = .ok (ttyWrite putc (intChars num) t) := by
  rw [ttyPrintint, intChars]
  by_cases hnum : num = 0
  · rw [if_pos hnum, if_pos hnum]
    rfl
  · rw [if_neg hnum, if_neg hnum]
    have hlt : num.toNat < 10 ^ 32 := lt_trans num.isLt (by decide)
    have hlen : (ttyPrintintDigits num.toNat).length ≤ 32 := by
      rw [ttyPrintintDigits_eq, List.length_map]
      exact (Nat.digits_length_le_iff (by decide) _).mpr hlt
    obtain ⟨s', hstore, htake⟩ :=
      ttyPrintintStore_eq num.toNat 0 (Vector.replicate 32 0) (by omega)
    rw [Nat.zero_add] at hstore htake
    rw [hstore, Kern.ok_bind]
    dsimp only
    rw [ttyPrintintEmit_eq putc s' hlen t, htake]
    rfl

/-! ### The table of hexadecimal digits -/

/-- What the mask and the shifts leave is the first digit. -/
theorem nibble_eq (num : Word) :
    (((num &&& 0xF0000000) >>> 28) &&& 0x0F).toNat = num.toNat / 16 ^ 7 := by
  have hmask : ((num &&& 0xF0000000) >>> 28) &&& (0x0F : Word) = num >>> 28 := by
    have hlow : ∀ i < 32, (0x0F : Word).getLsbD i = decide (i < 4) := by decide
    have hhigh : ∀ i < 4, (0xF0000000 : Word).getLsbD (28 + i) = true := by decide
    apply BitVec.eq_of_getLsbD_eq
    intro i hi
    rw [BitVec.getLsbD_and, BitVec.getLsbD_ushiftRight, BitVec.getLsbD_and, hlow i hi,
      BitVec.getLsbD_ushiftRight]
    by_cases h4 : i < 4
    · rw [hhigh i h4, decide_eq_true h4, Bool.and_true, Bool.and_true]
    · rw [BitVec.getLsbD_of_ge num (28 + i) (by omega), Bool.false_and, Bool.false_and]
  rw [hmask, BitVec.toNat_ushiftRight, Nat.shiftRight_eq_div_pow]
  rfl

theorem shift_eq (num : Word) : (num <<< 4).toNat = num.toNat % 16 ^ 7 * 16 := by
  rw [BitVec.toNat_shiftLeft, Nat.shiftLeft_eq]
  omega

/-- **The loop of `tty_printhex` writes the digits from the top.** -/
theorem hexLoopChars_eq (n : Nat) (num : Word) :
    hexLoopChars n num = (topDigits 16 8 n num.toNat).map fun d => Print.hex.getD d 0 := by
  induction n generalizing num with
  | zero => rfl
  | succ n ih => rw [hexLoopChars, ih, nibble_eq, shift_eq, topDigits, List.map_cons]

theorem hex_getElem : ∀ d (h : d < 17), hex[d] = Print.hex.getD d 0 := by decide

theorem ttyPrinthexLoop_eq_ok {σ : Type} (putc : BitVec 8 → σ → σ) (n : Nat) (num : Word) (t : σ) :
    ttyPrinthexLoop putc n num t = .ok (ttyWrite putc (hexLoopChars n num) t) := by
  induction n generalizing num t with
  | zero => rfl
  | succ n ih =>
    have hlt : (((num &&& 0xF0000000) >>> 28) &&& 0x0F).toNat < 17 := by
      have hnum := num.isLt
      rw [nibble_eq]
      omega
    rw [ttyPrinthexLoop, dif_pos hlt, ih, hex_getElem]
    rfl

theorem ttyPrinthex_eq_ok {σ : Type} (putc : BitVec 8 → σ → σ) (num : Word) (t : σ) :
    ttyPrinthex putc num t = .ok (ttyWrite putc (hexChars num) t) := by
  rw [ttyPrinthex, hexChars]
  by_cases hnum : num = 0
  · rw [if_pos hnum, if_pos hnum]
    rfl
  · rw [if_neg hnum, if_neg hnum, ttyPrinthexLoop_eq_ok]

/-! ### Numerals -/

/-- The canonical decimal numeral of `n`. -/
structure DecimalNumeral (chars : List (BitVec 8)) (n : Nat) : Prop where
  digit : ∀ c ∈ chars, 48 ≤ c.toNat ∧ c.toNat ≤ 57
  leading : chars.head? = some 48 → n = 0 ∧ chars = [48]
  ne_nil : chars ≠ []
  value : Nat.ofDigits 10 (chars.map fun c => c.toNat - 48).reverse = n

/-- The value of a hexadecimal digit. -/
def hexValue (c : BitVec 8) : Nat := if c.toNat ≤ 57 then c.toNat - 48 else c.toNat - 87

/-- A numeral of `n` in lower-case hexadecimal digits. -/
structure HexNumeral (chars : List (BitVec 8)) (n : Nat) : Prop where
  digit : ∀ c ∈ chars, 48 ≤ c.toNat ∧ c.toNat ≤ 57 ∨ 97 ≤ c.toNat ∧ c.toNat ≤ 102
  ne_nil : chars ≠ []
  value : Nat.ofDigits 16 (chars.map hexValue).reverse = n

theorem decimalNumeral_digits {n : Nat} (hn : n ≠ 0) :
    DecimalNumeral ((Nat.digits 10 n).map (BitVec.ofNat 8) |>.reverse.map (48 + ·)) n := by
  have hchar : ∀ d < 10, (48 + BitVec.ofNat 8 d : BitVec 8).toNat = 48 + d := by decide
  have hlt : ∀ d ∈ Nat.digits 10 n, d < 10 := fun d hd => Nat.digits_lt_base (by decide) hd
  have hne : Nat.digits 10 n ≠ [] := Nat.digits_ne_nil_iff_ne_zero.mpr hn
  rw [← List.map_reverse, List.map_map]
  refine ⟨?_, ?_, ?_, ?_⟩
  · intro c hc
    obtain ⟨d, hd, rfl⟩ := List.mem_map.mp hc
    have hd' := hlt d (List.mem_reverse.mp hd)
    rw [Function.comp_apply, hchar d hd']
    omega
  · intro hhead
    rw [List.head?_map, List.head?_reverse, List.getLast?_eq_getLast_of_ne_nil hne, Option.map_some,
      Option.some.injEq] at hhead
    have hlast := hlt _ (List.getLast_mem hne)
    have hzero := congrArg BitVec.toNat hhead
    rw [Function.comp_apply, hchar _ hlast] at hzero
    exact absurd (Nat.add_left_cancel hzero) (Nat.getLast_digit_ne_zero 10 hn)
  · simpa using hne
  · have hmap : ((Nat.digits 10 n).reverse.map ((48 + ·) ∘ BitVec.ofNat 8)).map
        (fun c => c.toNat - 48) = (Nat.digits 10 n).reverse := by
      rw [List.map_map]
      refine (List.map_congr_left ?_).trans (List.map_id _)
      intro d hd
      show (48 + BitVec.ofNat 8 d : BitVec 8).toNat - 48 = d
      rw [hchar d (hlt d (List.mem_reverse.mp hd)), Nat.add_sub_cancel_left]
    rw [hmap, List.reverse_reverse, Nat.ofDigits_digits]

theorem decimalNumeral_intChars (num : Word) : DecimalNumeral (intChars num) num.toNat := by
  rw [intChars]
  by_cases hnum : num = 0
  · rw [if_pos hnum, hnum]
    exact ⟨by decide, fun _ => ⟨rfl, rfl⟩, by decide, by decide⟩
  · rw [if_neg hnum, ttyPrintintDigits_eq]
    apply decimalNumeral_digits
    intro hzero
    exact hnum (BitVec.eq_of_toNat_eq hzero)

theorem hexNumeral_hexChars (num : Word) : HexNumeral (hexChars num) num.toNat := by
  have hdigit : ∀ d < 16, (48 ≤ (Print.hex.getD d 0).toNat ∧ (Print.hex.getD d 0).toNat ≤ 57 ∨
      97 ≤ (Print.hex.getD d 0).toNat ∧ (Print.hex.getD d 0).toNat ≤ 102) ∧
        hexValue (Print.hex.getD d 0) = d := by decide
  rw [hexChars]
  by_cases hnum : num = 0
  · rw [if_pos hnum, hnum]
    exact ⟨by decide, by decide, by decide⟩
  · have hword : num.toNat < 16 ^ 8 := num.isLt
    have hlt : ∀ d ∈ topDigits 16 8 8 num.toNat, d < 16 := topDigits_lt (by decide) hword le_rfl
    rw [if_neg hnum, hexLoopChars_eq]
    refine ⟨?_, ?_, ?_⟩
    · intro c hc
      obtain ⟨d, hd, rfl⟩ := List.mem_map.mp hc
      exact (hdigit d (hlt d hd)).1
    · intro hnil
      have hlen := congrArg List.length hnil
      rw [List.length_map, length_topDigits] at hlen
      cases hlen
    · have hmap : ((topDigits 16 8 8 num.toNat).map fun d => Print.hex.getD d 0).map hexValue =
          topDigits 16 8 8 num.toNat := by
        rw [List.map_map]
        refine (List.map_congr_left ?_).trans (List.map_id _)
        intro d hd
        exact (hdigit d (hlt d hd)).2
      rw [hmap, ofDigits_topDigits (by decide) hword le_rfl, Nat.sub_self, Nat.pow_zero,
        Nat.div_one]

/-- **Printed numbers read back.**  Whatever `tty_putc` does, for every word the two functions stay in
their arrays, and the characters they send to it are the canonical decimal numeral of the word and a
hexadecimal numeral of it. -/
theorem readsBack_printed (num : Word) :
    (∃ chars, DecimalNumeral chars num.toNat ∧ ∀ {σ : Type} (putc : BitVec 8 → σ → σ) (t : σ),
      ttyPrintint putc num t = .ok (ttyWrite putc chars t)) ∧
    ∃ chars, HexNumeral chars num.toNat ∧ ∀ {σ : Type} (putc : BitVec 8 → σ → σ) (t : σ),
      ttyPrinthex putc num t = .ok (ttyWrite putc chars t) := by
  refine ⟨⟨intChars num, decimalNumeral_intChars num, ?_⟩,
    ⟨hexChars num, hexNumeral_hexChars num, ?_⟩⟩
  · intro σ putc t
    exact ttyPrintint_eq_ok putc num t
  · intro σ putc t
    exact ttyPrinthex_eq_ok putc num t

end Aosis.Terminal.Buffered
