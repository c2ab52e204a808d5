import Mathlib.Data.Nat.Digits.Lemmas

/-!
# Numerals from the top

`Nat.digits` gives the digits of a number from the lowest one on, and `Nat.ofDigits` reads them back.
A numeral of a fixed length `m` can also be made from the top: the first digit is the quotient by
`b ^ (m - 1)`, and the remainder moves up by one place.

* `ofDigits_topDigits`: the digits from the top read back as the number that they are the top of.
-/

namespace Aosis.Lib

/-- The first `k` of the `m` digits of `n` in base `b`. -/
def topDigits (b m : Nat) : Nat → Nat → List Nat
  | 0, _ => []
  | k + 1, n => n / b ^ (m - 1) :: topDigits b m k (n % b ^ (m - 1) * b)

section TopDigits

variable {b m k n : Nat}

theorem length_topDigits : (topDigits b m k n).length = k := by
  induction k generalizing n with
  | zero => rfl
  | succ k ih => rw [topDigits, List.length_cons, ih]

theorem rest_lt (hb : 0 < b) (hm : 0 < m) : n % b ^ (m - 1) * b < b ^ m := by
  have hpow : b ^ m = b ^ (m - 1) * b := by
    rw [← Nat.pow_succ, Nat.succ_eq_add_one, Nat.sub_add_cancel hm]
  rw [hpow]
  exact Nat.mul_lt_mul_of_pos_right (Nat.mod_lt n (Nat.pow_pos hb)) hb

theorem topDigits_lt (hb : 0 < b) (hn : n < b ^ m) (hk : k ≤ m) : ∀ d ∈ topDigits b m k n, d < b := by
  induction k generalizing n with
  | zero => intro d hd; exact absurd hd List.not_mem_nil
  | succ k ih =>
    intro d hd
    rcases List.mem_cons.mp hd with rfl | hd
    · apply Nat.div_lt_of_lt_mul
      rwa [← Nat.pow_succ, Nat.succ_eq_add_one, Nat.sub_add_cancel (by omega)]
    · exact ih (rest_lt hb (by omega)) (by omega) d hd

/-- **The first digits read back as the top of the number.** -/
theorem ofDigits_topDigits (hb : 0 < b) (hn : n < b ^ m) (hk : k ≤ m) :
    Nat.ofDigits b (topDigits b m k n).reverse = n / b ^ (m - k) := by
  induction k generalizing n with
  | zero =>
    rw [Nat.sub_zero, Nat.div_eq_of_lt hn]
    rfl
  | succ k ih =>
    have hlow : b ^ (m - k) = b ^ (m - (k + 1)) * b := by
      rw [← Nat.pow_succ]
      congr 1
      omega
    have hhigh : b ^ (m - 1) = b ^ k * b ^ (m - (k + 1)) := by
      rw [← Nat.pow_add]
      congr 1
      omega
    rw [topDigits, Nat.ofDigits_reverse_cons, length_topDigits, ih (rest_lt hb (by omega)) (by omega),
      hlow, Nat.mul_div_mul_right _ _ hb]
    calc n % b ^ (m - 1) / b ^ (m - (k + 1)) + b ^ k * (n / b ^ (m - 1))
        = (n % b ^ (m - 1) + b ^ (m - (k + 1)) * (b ^ k * (n / b ^ (m - 1)))) / b ^ (m - (k + 1)) := by
          rw [Nat.add_mul_div_left _ _ (Nat.pow_pos hb)]
      _ = (n % b ^ (m - 1) + b ^ (m - 1) * (n / b ^ (m - 1))) / b ^ (m - (k + 1)) := by
          rw [hhigh, ← Nat.mul_assoc, Nat.mul_comm (b ^ (m - (k + 1)))]
      _ = n / b ^ (m - (k + 1)) := by rw [Nat.mod_add_div]

end TopDigits

end Aosis.Lib
