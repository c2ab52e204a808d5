import Mathlib.Algebra.BigOperators.Group.List.Basic
import Aosis.Terminal.Numerals

/-!
# What `kprintf` returns

`kprintf` returns the number of characters of the format, with one more for each `%%`.  What a directive
expands to is not counted, but the directive itself is.

* `printfLaw_iff`: so the result is the number of characters that were printed when the expansions are
  as long, all together, as the directives.
-/

namespace Aosis.Terminal.Print

/-! ### Counting -/

/-- A `tty_putc` that only notes the characters. -/
def record (c : BitVec 8) (cs : List (BitVec 8)) : List (BitVec 8) := cs ++ [c]

/-- The `int` that `kprintf` returns is the number of the characters that it printed. -/
def PrintfLaw (strAt : Word → List (BitVec 8)) (format : List (BitVec 8)) (args : Nat → Word) : Prop :=
  (BitVec.ofNat 32 (kprintf record strAt format args []).1).toInt =
    (kprintf record strAt format args []).2.length

/-- The characters that stand for themselves; `%%` is one. -/
def Piece.plain : Piece → Nat
  | .char _ => 1
  | .percent => 1
  | _ => 0

/-- The characters of a directive, or the percent sign at the end. -/
def Piece.directive : Piece → Nat
  | .char _ => 0
  | .trailing => 1
  | _ => 2

/-- The length of what a directive expands to. -/
def Piece.expansion : Piece → Nat
  | .int num => Nat.log 10 num.toNat + 1
  | .hex num => if num = 0 then 1 else 8
  | .str s => (strChars s).length
  | _ => 0

/-- The sum over the pieces. -/
def total (f : Piece → Nat) (ps : List Piece) : Nat := (ps.map f).sum

theorem ttyWrite_record (cs ds : List (BitVec 8)) : ttyWrite record cs ds = ds ++ cs := by
  induction cs generalizing ds with
  | nil => rw [List.append_nil]; rfl
  | cons c cs ih =>
    rw [show ttyWrite record (c :: cs) ds = ttyWrite record cs (ds ++ [c]) from rfl, ih,
      List.append_assoc, List.singleton_append]

theorem length_intChars (num : Word) : (intChars num).length = Nat.log 10 num.toNat + 1 := by
  rw [intChars]
  by_cases hnum : num = 0
  · rw [if_pos hnum, hnum]
    rfl
  · have hne : num.toNat ≠ 0 := fun hzero => hnum (BitVec.eq_of_toNat_eq hzero)
    rw [if_neg hnum, List.length_map, List.length_reverse, Buffered.ttyPrintintDigits_eq,
      List.length_map, Nat.length_digits 10 _ (by decide) hne]

theorem length_hexChars (num : Word) : (hexChars num).length = if num = 0 then 1 else 8 := by
  rw [hexChars]
  by_cases hnum : num = 0
  · rw [if_pos hnum, if_pos hnum]
    rfl
  · rw [if_neg hnum, if_neg hnum, Buffered.hexLoopChars_eq, List.length_map, Lib.length_topDigits]

/-- **What a piece prints**, and what the loop counts for it. -/
theorem Piece.counts (p : Piece) : p.chars.length = p.plain + p.expansion ∧
    p.length + p.printed = p.plain + p.directive := by
  cases p with
  | char c => exact ⟨rfl, rfl⟩
  | percent => exact ⟨rfl, rfl⟩
  | int num => exact ⟨(length_intChars num).trans (Nat.zero_add _).symm, rfl⟩
  | hex num => exact ⟨(length_hexChars num).trans (Nat.zero_add _).symm, rfl⟩
  | str s => exact ⟨(Nat.zero_add _).symm, rfl⟩
  | unknown => exact ⟨rfl, rfl⟩
  | trailing => exact ⟨rfl, rfl⟩

theorem kprintf_record (strAt : Word → List (BitVec 8)) (format : List (BitVec 8)) (args : Nat → Word) :
    (kprintf record strAt format args []).1 =
        u32 (total Piece.plain (pieces strAt format args false) +
          total Piece.directive (pieces strAt format args false)) ∧
      (kprintf record strAt format args []).2.length =
        total Piece.plain (pieces strAt format args false) +
          total Piece.expansion (pieces strAt format args false) := by
  rw [kprintf_eq]
  generalize pieces strAt format args false = ps
  constructor
  · rw [returned, Nat.zero_add, total, total, ← List.sum_map_add,
      List.map_congr_left fun p _ => p.counts.2]
  · rw [ttyWrite_record, List.nil_append, List.length_flatMap, total, total, ← List.sum_map_add,
      List.map_congr_left fun p _ => p.counts.1]

/-- When a word, read with its sign, is a given number. -/
theorem toInt_u32_eq_iff (a b : Nat) :
    (BitVec.ofNat 32 (u32 a)).toInt = b ↔ b < 2 ^ 31 ∧ a % 2 ^ 32 = b % 2 ^ 32 := by
  rw [BitVec.toInt_eq_toNat_cond, BitVec.toNat_ofNat, u32]
  split <;> omega

/-- **When `kprintf` returns what it printed.**  This is so if and only if it printed fewer than 2^31
characters, and the expansions are as long, modulo 2^32, as the directives. -/
theorem printfLaw_iff (strAt : Word → List (BitVec 8)) (format : List (BitVec 8)) (args : Nat → Word) :
    PrintfLaw strAt format args ↔
      total Piece.plain (pieces strAt format args false) +
          total Piece.expansion (pieces strAt format args false) < 2 ^ 31 ∧
        total Piece.expansion (pieces strAt format args false) % 2 ^ 32 =
          total Piece.directive (pieces strAt format args false) % 2 ^ 32 := by
  obtain ⟨hreturned, hprinted⟩ := kprintf_record strAt format args
  rw [PrintfLaw, hreturned, hprinted, toInt_u32_eq_iff]
  omega

/-- For `"%d"` and 5 the function prints one character and returns two. -/
theorem not_printfLaw_int : ¬ PrintfLaw (fun _ => []) [37, 100] (fun _ => 5) := by
  obtain ⟨hreturned, hprinted⟩ := kprintf_record (fun _ => []) [37, 100] (fun _ => 5)
  rw [PrintfLaw, hreturned, hprinted, toInt_u32_eq_iff]
  decide

end Aosis.Terminal.Print
