import Aosis.Libc.Memory

/-!
# Strings one after the other

`libc/string/strcat.c`, whose second loop reads the byte of the source again after it has written the
one of the destination.

* `strcat_spec`: the loop ends exactly if it does not write over the source before it has read it, and
  then the destination is the first string with the second one behind it.
-/

namespace Aosis.Libc

open Aosis.Lib

/-! ### Addresses -/

section Index

variable {p : Word} {k : Nat}

theorem index_index (p : Word) (i j : Nat) : index (index p i) j = index p (i + j) := by
  apply BitVec.eq_of_toNat_eq
  rw [toNat_index_mod, toNat_index_mod, toNat_index_mod]
  omega

theorem FirstNul.lt {mem : Memory} (h : FirstNul mem p k) : k < 2 ^ 32 := by
  by_contra hge
  have hsame : index p (k - 2 ^ 32) = index p k := by
    apply BitVec.eq_of_toNat_eq
    rw [toNat_index_mod, toNat_index_mod]
    omega
  apply h.2 (k - 2 ^ 32) (by omega)
  rw [hsame]
  exact h.1

end Index

/-! ### `strcat` -/

/-- The second loop of `strcat` from `src[j]` on, for `fuel` turns. -/
def strcatLoop (dest src : Word) (i : Nat) : Nat → Nat → Memory → Except Fault Memory
  | 0, _, _ => .error .diverge
  | fuel + 1, j, mem =>
    let mem := Function.update mem (index dest (i + j)) (mem (index src j))
    if mem (index src j) ≠ 0 then strcatLoop dest src i fuel (j + 1) mem else .ok mem

/-- `strcat`, with the memory it leaves.  Its first loop is the one of `strlen`. -/
def strcat (fuel : Nat) (dest src : Word) (mem : Memory) : Except Fault (Word × Memory) := do
  let i ← strlen mem dest
  let mem ← strcatLoop dest src i fuel 0 mem
  .ok (dest, mem)

/-- The end of the first string, of length `k`, is the start of the second one, or is not in it. -/
def Ends (dest src : Word) (k l : Nat) : Prop :=
  gap (index dest k) src = 0 ∨ l < gap (index dest k) src

instance (dest src : Word) (k l : Nat) : Decidable (Ends dest src k l) :=
  inferInstanceAs (Decidable (_ ∨ _))

/-- The second string, of length `l`, is behind the first one, of length `k`. -/
structure Concatenated (mem mem' : Memory) (dest src : Word) (k l : Nat) : Prop where
  front : ∀ i < k, mem' (index dest i) = mem (index dest i)
  back : ∀ j ≤ l, mem' (index dest (k + j)) = mem (index src j)
  others : ∀ a, (∀ j ≤ l, a ≠ index dest (k + j)) → mem' a = mem a

section Strcat

variable {mem mem' : Memory} {dest src : Word} {j k l m fuel : Nat}

theorem source_update (hends : Ends dest src k l) (hl : l < 2 ^ 32) (hj : j ≤ m) (hm : m ≤ l) :
    Function.update mem (index dest (k + j)) (mem (index src j)) (index src m) =
      mem (index src m) := by
  by_cases he : index src m = index dest (k + j)
  · have hgap := gap_lt (index dest k) src
    have hmeet : index (index dest k) j = index src m := by rw [index_index, he]
    rw [index_eq_iff (by omega)] at hmeet
    have hjm : j = m := by
      rcases hends with hzero | hbehind
      · omega
      · omega
    rw [he, Function.update_self, ← he, hjm]
  · exact Function.update_of_ne he _ _

theorem strcatLoop_ok {r : Nat} (hends : Ends dest src k l) (hl : l < 2 ^ 32) (hr : j + r = l)
    (hfuel : r < fuel) (hne : ∀ m, j ≤ m → m < l → mem (index src m) ≠ 0)
    (hnul : mem (index src l) = 0) : strcatLoop dest src k fuel j mem =
      .ok (copyAlong (moves (index dest k) src (List.range' j (r + 1))) mem) := by
  induction r generalizing j mem fuel with
  | zero =>
    obtain ⟨fuel, rfl⟩ := Nat.exists_eq_add_of_lt hfuel
    obtain rfl : j = l := by omega
    rw [Nat.zero_add, strcatLoop]
    rw [source_update hends hl le_rfl le_rfl, if_neg (not_not.mpr hnul), ← index_index]
    rfl
  | succ r ih =>
    obtain ⟨fuel, rfl⟩ : ∃ f, fuel = f + 1 := ⟨fuel - 1, by omega⟩
    rw [strcatLoop]
    rw [source_update hends hl le_rfl (by omega), if_pos (hne j le_rfl (by omega)),
      ih (by omega) (by omega), List.range'_succ, ← index_index]
    · rfl
    · intro m hjm hml
      rw [source_update hends hl (by omega) (by omega)]
      exact hne m (by omega) hml
    · rw [source_update hends hl (by omega) le_rfl]
      exact hnul

/-- When the first string ends in the second one, its zero byte is gone before it is read. -/
theorem strcatLoop_diverge (hpos : 0 < gap (index dest k) src)
    (hne : ∀ m < j + gap (index dest k) src, mem (index src m) ≠ 0) :
    strcatLoop dest src k fuel j mem = .error .diverge := by
  induction fuel generalizing j mem with
  | zero => rfl
  | succ fuel ih =>
    have hnext : ∀ m < j + 1 + gap (index dest k) src,
        Function.update mem (index dest (k + j)) (mem (index src j)) (index src m) ≠ 0 := by
      intro m hm
      by_cases he : index src m = index dest (k + j)
      · rw [he, Function.update_self]
        exact hne j (by omega)
      · rw [Function.update_of_ne he]
        apply hne
        by_contra hge
        apply he
        obtain rfl : m = j + gap (index dest k) src := by omega
        rw [index_gap, index_index]
    rw [strcatLoop]
    rw [if_pos (hnext j (by omega))]
    exact ih hnext

theorem Ends.add_lt (h : Ends dest src k l) (hk : FirstNul mem dest k) (hl : FirstNul mem src l) :
    k + l < 2 ^ 32 := by
  have hklt := hk.lt
  have hllt := hl.lt
  have hgap := gap_lt (index dest k) src
  have hd := dest.isLt
  have hs := src.isLt
  by_contra hge
  have hbehind : l < gap (index dest k) src := by
    refine h.resolve_left fun hzero => ?_
    have hstart : index src 0 = index dest k := by
      apply BitVec.eq_of_toNat_eq
      rw [gap, BitVec.toNat_sub, toNat_index_mod] at hzero
      rw [toNat_index_mod, toNat_index_mod]
      omega
    apply hl.2 0 (by omega)
    rw [hstart]
    exact hk.1
  -- the second string would end in the first one
  apply hk.2 (k + l - gap (index dest k) src) (by omega)
  have hend : index dest (k + l - gap (index dest k) src) = index src l := by
    apply BitVec.eq_of_toNat_eq
    rw [gap, BitVec.toNat_sub, toNat_index_mod] at *
    rw [toNat_index_mod, toNat_index_mod]
    omega
  rw [hend]
  exact hl.1

theorem Ends.concatenated (h : Ends dest src k l) (hk : FirstNul mem dest k)
    (hl : FirstNul mem src l) :
    Concatenated mem (copyAlong (moves (index dest k) src (List.range (l + 1))) mem) dest src k l := by
  have hsum := h.add_lt hk hl
  have hothers : ∀ a, (∀ j ≤ l, a ≠ index dest (k + j)) →
      copyAlong (moves (index dest k) src (List.range (l + 1))) mem a = mem a := by
    intro a ha
    apply copyAlong_of_not_mem
    intro p hp
    obtain ⟨j, hj, rfl⟩ := List.mem_map.mp hp
    rw [index_index]
    exact ha j (Nat.le_of_lt_succ (List.mem_range.mp hj))
  refine ⟨fun i hi => hothers _ fun j hj he => ?_, fun j hj => ?_, hothers⟩
  · have hmeet := congrArg BitVec.toNat he
    rw [toNat_index_mod, toNat_index_mod] at hmeet
    omega
  · rw [← index_index]
    have hmem : (index (index dest k) j, index src j) ∈
        moves (index dest k) src (List.range (l + 1)) :=
      List.mem_map.mpr ⟨j, List.mem_range.mpr (by omega), rfl⟩
    have hllt := hl.lt
    exact copyAlong_of_mem mem (noClobber_of_gap (by omega) h) hmem

theorem Concatenated.firstNul (h : Concatenated mem mem' dest src k l) (hk : FirstNul mem dest k)
    (hl : FirstNul mem src l) : FirstNul mem' dest (k + l) := by
  refine ⟨(h.back l le_rfl).trans hl.1, fun i hi => ?_⟩
  by_cases hfront : i < k
  · rw [h.front i hfront]
    exact hk.2 i hfront
  · obtain ⟨j, rfl⟩ := Nat.exists_eq_add_of_le (Nat.le_of_not_lt hfront)
    rw [h.back j (by omega)]
    exact hl.2 j (by omega)

theorem strcat_eq (h : strlen mem dest = .ok k) : strcat fuel dest src mem =
    (strcatLoop dest src k fuel 0 mem).map fun mem => (dest, mem) := by
  rw [strcat, h]
  show (strcatLoop dest src k fuel 0 mem >>= fun mem => Except.ok (dest, mem)) = _
  cases strcatLoop dest src k fuel 0 mem with
  | ok mem => rfl
  | error e => rfl

/-- **When `strcat` ends, and with what.**  For two strings anywhere in memory it ends if and only if
the end of the first one is not in the second one, and then the first one is followed by the second
one as it was; otherwise no number of turns is enough. -/
theorem strcat_spec (hk : FirstNul mem dest k) (hl : FirstNul mem src l) :
    (Ends dest src k l → ∀ fuel > l, ∃ mem', strcat fuel dest src mem = .ok (dest, mem') ∧
      Concatenated mem mem' dest src k l ∧ FirstNul mem' dest (k + l)) ∧
      (¬Ends dest src k l → ∀ fuel, strcat fuel dest src mem = .error .diverge) := by
  have hlen : strlen mem dest = .ok k := (strlen_eq_ok_iff hk.lt).mpr hk
  refine ⟨fun hends fuel hfuel => ?_, fun hends fuel => ?_⟩
  · have hconcat := hends.concatenated hk hl
    refine ⟨_, ?_, hconcat, hconcat.firstNul hk hl⟩
    rw [strcat_eq hlen, List.range_eq_range',
      strcatLoop_ok hends hl.lt (Nat.zero_add l) hfuel (fun m _ => hl.2 m) hl.1]
    rfl
  · obtain ⟨hpos, hin⟩ := not_or.mp hends
    rw [strcat_eq hlen, strcatLoop_diverge (Nat.pos_of_ne_zero hpos)]
    · rfl
    · intro m hm
      exact hl.2 m (by omega)

end Strcat

/-- The strings `ab` at address 0x1000 and `c` at address 0x2000. -/
def twoStrings : Memory := fun a => if a = 0x2000 then 99 else abString a

/-- One behind the other, and one behind itself. -/
theorem strcat_twoStrings :
    (∃ mem', strcat 2 0x1000 0x2000 twoStrings = .ok (0x1000, mem') ∧
      Concatenated twoStrings mem' 0x1000 0x2000 2 1 ∧ FirstNul mem' 0x1000 3) ∧
      strcat 4096 0x1000 0x1000 twoStrings = .error .diverge := by
  have hab : FirstNul twoStrings 0x1000 2 := ⟨by decide, by decide⟩
  have hc : FirstNul twoStrings 0x2000 1 := ⟨by decide, by decide⟩
  exact ⟨(strcat_spec hab hc).1 (by decide) 2 (by decide), (strcat_spec hab hab).2 (by decide) 4096⟩

end Aosis.Libc
