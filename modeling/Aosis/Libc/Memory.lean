import Aosis.Common.Word
import Aosis.Lib.Copy

/-!
# Memory and the length of strings

`libc/string/memmove.c`, `memcpy.c`, `strlen.c` and `strnlen.c`, on a memory of bytes.
Addresses wrap at the end of the address space.

* `memmove_spec`: the bytes are copied whether or not the ranges overlap, because no turn of the loop
  overwrites a byte that a later one reads.
* `memcpy_iff`: `memcpy` does so when the destination does not begin inside the source.
* `strnlenLaw_iff`: `strnlen` never counts, so it is right for the empty string and for the bound zero
  only.
-/

namespace Aosis.Libc

open Aosis.Lib

/-- The bytes of the address space. -/
abbrev Memory := Word → BitVec 8

/-- `p[i]`, as an address. -/
def index (p : Word) (i : Nat) : Word := p + BitVec.ofNat 32 i

/-! ### `memmove` -/

/-- The loop of `memmove` that goes up, with `r` turns to go from `i` on. -/
def memmoveUp (destptr srcptr : Word) : Nat → Nat → Memory → Memory
  | 0, _, mem => mem
  | r + 1, i, mem =>
    memmoveUp destptr srcptr r (i + 1)
      (Function.update mem (index destptr i) (mem (index srcptr i)))

/-- The loop of `memmove` that goes down, from `i` on. -/
def memmoveDown (destptr srcptr : Word) : Nat → Memory → Memory
  | 0, mem => mem
  | i + 1, mem =>
    memmoveDown destptr srcptr i (Function.update mem (index destptr i) (mem (index srcptr i)))

/-- `memmove`, with the memory it leaves. -/
def memmove (dest src n : Word) (mem : Memory) : Word × Memory :=
  if dest < src then (dest, memmoveUp dest src n.toNat 0 mem)
  else (dest, memmoveDown dest src n.toNat mem)

section Memmove

variable {dest src : Word} {mem : Memory}

/-- The copies of a loop. -/
def moves (dest src : Word) (is : List Nat) : List (Word × Word) :=
  is.map fun i => (index dest i, index src i)

theorem memmoveUp_eq (r i : Nat) :
    memmoveUp dest src r i mem = copyAlong (moves dest src (List.range' i r)) mem := by
  induction r generalizing i mem with
  | zero => rfl
  | succ r ih =>
    rw [memmoveUp, ih, List.range'_succ]
    rfl

theorem memmoveDown_eq (n : Nat) :
    memmoveDown dest src n mem = copyAlong (moves dest src (List.range n).reverse) mem := by
  induction n generalizing mem with
  | zero => rfl
  | succ n ih =>
    rw [memmoveDown, ih, List.range_succ, List.reverse_append, List.reverse_singleton]
    rfl

theorem toNat_index {p : Word} {n i : Nat} (hp : p.toNat + n ≤ 2 ^ 32) (hi : i < n) :
    (index p i).toNat = p.toNat + i := by
  rw [index, BitVec.toNat_add, BitVec.toNat_ofNat]
  omega

/-- Two turns of a loop do not disturb each other when the cell that the first one writes is neither
the cell that the second one reads nor the one that it writes. -/
theorem noClobber_moves {n : Nat} {is : List Nat} (hd : dest.toNat + n ≤ 2 ^ 32)
    (hs : src.toNat + n ≤ 2 ^ 32) (hlt : ∀ i ∈ is, i < n)
    (hord : is.Pairwise fun i j => i ≠ j ∧ dest.toNat + i ≠ src.toNat + j) :
    NoClobber (moves dest src is) := by
  rw [NoClobber, moves, List.pairwise_map]
  apply hord.imp_of_mem
  intro i j hi hj ⟨hne, hcell⟩
  constructor
  · intro he
    have haddr := congrArg BitVec.toNat he
    rw [toNat_index hd (hlt i hi), toNat_index hd (hlt j hj)] at haddr
    omega
  · intro he
    have haddr := congrArg BitVec.toNat he
    rw [toNat_index hd (hlt i hi), toNat_index hs (hlt j hj)] at haddr
    exact hcell haddr

theorem copyAlong_moves {n : Nat} {is : List Nat} (hd : dest.toNat + n ≤ 2 ^ 32)
    (his : ∀ i, i ∈ is ↔ i < n) (h : NoClobber (moves dest src is)) :
    (∀ i < n, copyAlong (moves dest src is) mem (index dest i) = mem (index src i)) ∧
      ∀ a : Word, ¬ (dest.toNat ≤ a.toNat ∧ a.toNat < dest.toNat + n) →
        copyAlong (moves dest src is) mem a = mem a := by
  constructor
  · intro i hi
    exact copyAlong_of_mem mem h (List.mem_map.mpr ⟨i, (his i).mpr hi, rfl⟩)
  · intro a ha
    apply copyAlong_of_not_mem
    intro p hp he
    obtain ⟨i, hi, rfl⟩ := List.mem_map.mp hp
    have hlt := (his i).mp hi
    rw [he, toNat_index hd hlt] at ha
    omega

/-- **`memmove` is right for every overlap.**  When neither range wraps, every byte of the destination
is the byte that was at its place in the source, and no other byte changes. -/
theorem memmove_spec (dest src n : Word) (mem : Memory) (hd : dest.toNat + n.toNat ≤ 2 ^ 32)
    (hs : src.toNat + n.toNat ≤ 2 ^ 32) :
    (∀ i < n.toNat, (memmove dest src n mem).2 (index dest i) = mem (index src i)) ∧
      ∀ a : Word, ¬ (dest.toNat ≤ a.toNat ∧ a.toNat < dest.toNat + n.toNat) →
        (memmove dest src n mem).2 a = mem a := by
  rw [memmove]
  split
  · next hlt =>
    -- the byte that turn `i` writes lies before those that are still to be read
    have hless : dest.toNat < src.toNat := BitVec.lt_def.mp hlt
    rw [memmoveUp_eq]
    apply copyAlong_moves hd
    · intro i
      simp
    · apply noClobber_moves hd hs
      · intro i hi
        simpa using hi
      · apply (List.pairwise_lt_range' (s := 0) (n := n.toNat)).imp
        intro i j hij
        omega
  · next hle =>
    have hless : src.toNat ≤ dest.toNat := BitVec.not_lt.mp hle
    rw [memmoveDown_eq]
    apply copyAlong_moves hd
    · intro i
      simp
    · apply noClobber_moves hd hs
      · intro i hi
        simpa using hi
      · rw [List.pairwise_reverse]
        apply List.pairwise_lt_range.imp
        intro i j hij
        omega

end Memmove

/-- Three bytes moved up by one, onto a range that overlaps with theirs: the last one of them. -/
theorem memmove_overlap :
    (memmove 0x1001 0x1000 3 fun a => a.setWidth 8).2 (index 0x1001 2) =
      (index 0x1000 2).setWidth 8 :=
  (memmove_spec 0x1001 0x1000 3 (fun a => a.setWidth 8) (by decide) (by decide)).1 2 (by decide)

/-! ### `memcpy` -/

/-- `memcpy`, with the memory it leaves.  Its loop is the one of `memmove` that goes up. -/
def memcpy (dest src n : Word) (mem : Memory) : Word × Memory :=
  (dest, memmoveUp dest src n.toNat 0 mem)

/-- How far an address is behind another one. -/
def gap (p q : Word) : Nat := (p - q).toNat

section Gap

variable {p q dest src : Word} {i j n : Nat}

theorem gap_lt (p q : Word) : gap p q < 2 ^ 32 := (p - q).isLt

theorem toNat_index_mod (p : Word) (i : Nat) : (index p i).toNat = (p.toNat + i) % 2 ^ 32 := by
  rw [index, BitVec.toNat_add, BitVec.toNat_ofNat, Nat.add_mod_mod]

theorem index_eq_iff (hj : j < 2 ^ 32) : index p i = index q j ↔ (i + gap p q) % 2 ^ 32 = j := by
  have hp := p.isLt
  have hq := q.isLt
  rw [← BitVec.toNat_inj, toNat_index_mod, toNat_index_mod, gap, BitVec.toNat_sub]
  omega

theorem index_gap (p q : Word) (j : Nat) : index q (j + gap p q) = index p j := by
  have hp := p.isLt
  have hq := q.isLt
  apply BitVec.eq_of_toNat_eq
  rw [toNat_index_mod, toNat_index_mod, gap, BitVec.toNat_sub]
  omega

/-- A loop that goes up reads no byte that it has written, if the destination does not begin inside
the source. -/
theorem noClobber_of_gap (hn : n ≤ 2 ^ 32) (h : gap dest src = 0 ∨ n ≤ gap dest src) :
    NoClobber (moves dest src (List.range n)) := by
  rw [NoClobber, moves, List.pairwise_map]
  apply List.pairwise_lt_range.imp_of_mem
  intro i j hi hj hij
  have hgap := gap_lt dest src
  have hilt := List.mem_range.mp hi
  have hjlt := List.mem_range.mp hj
  constructor
  · intro he
    have hmeet : (index dest i).toNat = (index dest j).toNat := congrArg BitVec.toNat he
    rw [toNat_index_mod, toNat_index_mod] at hmeet
    omega
  · intro he
    rw [index_eq_iff (by omega)] at he
    rcases h with hzero | hbehind
    · omega
    · omega

theorem memmoveUp_const (r i : Nat) (c : BitVec 8) :
    memmoveUp dest src r i (fun _ => c) = fun _ => c := by
  induction r generalizing i with
  | zero => rfl
  | succ r ih =>
    have hsame : Function.update (fun _ => c) (index dest i) c = fun _ : Word => c :=
      Function.update_eq_self (index dest i) fun _ => c
    rw [memmoveUp, hsame, ih]

/-- **When `memcpy` copies.**  It does so in every memory if and only if the destination is the source
or does not begin inside it. -/
theorem memcpy_iff (dest src n : Word) :
    (∀ mem, ∀ i < n.toNat, (memcpy dest src n mem).2 (index dest i) = mem (index src i)) ↔
      gap dest src = 0 ∨ n.toNat ≤ gap dest src := by
  constructor
  · intro hcopy
    by_contra hno
    obtain ⟨hpos, hlt⟩ := not_or.mp hno
    -- the only byte that is not zero is the first one of the destination
    have hres := hcopy (fun a => if a = dest then 1 else 0) (gap dest src) (by omega)
    obtain ⟨r, hr⟩ : ∃ r, n.toNat = r + 1 := ⟨n.toNat - 1, by omega⟩
    have hdest : index dest 0 = dest := BitVec.add_zero dest
    have hsrc : index src 0 ≠ dest := by
      intro he
      rw [← hdest, eq_comm, index_eq_iff (by decide)] at he
      have hgap := gap_lt dest src
      omega
    have hread : index src (gap dest src) = dest :=
      calc index src (gap dest src) = index src (0 + gap dest src) := by rw [Nat.zero_add]
        _ = index dest 0 := index_gap dest src 0
        _ = dest := hdest
    have hfirst : Function.update (fun a => if a = dest then 1 else 0) dest 0 =
        fun _ : Word => (0 : BitVec 8) := by
      funext a
      by_cases he : a = dest
      · rw [he, Function.update_self]
      · rw [Function.update_of_ne he, if_neg he]
    rw [memcpy, hr, memmoveUp] at hres
    dsimp only at hres
    rw [if_neg hsrc, hdest, hfirst, memmoveUp_const, hread, if_pos rfl] at hres
    have hzero : (0 : BitVec 8) = 1 := hres
    exact absurd hzero (by decide)
  · intro h mem i hi
    rw [memcpy, memmoveUp_eq, ← List.range_eq_range']
    exact copyAlong_of_mem mem (noClobber_of_gap n.isLt.le h)
      (List.mem_map.mpr ⟨i, List.mem_range.mpr hi, rfl⟩)

end Gap

/-! ### `strlen` and `strnlen` -/

/-- The loop of `strlen` from `str[len]` on, for `fuel` turns. -/
def strlenLoop (mem : Memory) (str : Word) : Nat → Nat → Except Fault Nat
  | 0, _ => .error .diverge
  | fuel + 1, len =>
    if mem (index str len) ≠ 0 then strlenLoop mem str fuel (len + 1) else .ok len

/-- `strlen`.  After `2 ^ 32` turns `len` is zero again, and the loop does not end. -/
def strlen (mem : Memory) (str : Word) : Except Fault Nat := strlenLoop mem str (2 ^ 32) 0

/-- The loop of `strnlen` with `r` turns to go from `i` on: `len`, and the indices that it reads. -/
def strnlenLoop (mem : Memory) (str : Word) (len : Nat) : Nat → Nat → Nat × List Nat
  | 0, _ => (len, [])
  | r + 1, i =>
    if mem (index str i) = 0 then (len, [i])
    else
      let (len, reads) := strnlenLoop mem str len r (i + 1)
      (len, i :: reads)

/-- `strnlen`, with the indices that it reads.  No turn of the loop changes `len`. -/
def strnlen (mem : Memory) (str maxlen : Word) : Nat × List Nat :=
  strnlenLoop mem str 0 maxlen.toNat 0

/-- The first zero byte of the string. -/
def FirstNul (mem : Memory) (str : Word) (k : Nat) : Prop :=
  mem (index str k) = 0 ∧ ∀ j < k, mem (index str j) ≠ 0

/-- The result is the smaller one of the bound and the place of the first zero byte, which is what
`strlen` returns, and only bytes below the bound are read. -/
structure StrnlenLaw (mem : Memory) (str maxlen : Word) : Prop where
  nul : ∀ k, FirstNul mem str k → (strnlen mem str maxlen).1 = min maxlen.toNat k
  noNul : (∀ j < maxlen.toNat, mem (index str j) ≠ 0) →
    (strnlen mem str maxlen).1 = maxlen.toNat
  strlen : ∀ k, strlen mem str = .ok k → k ≤ maxlen.toNat → (strnlen mem str maxlen).1 = k
  reads : ∀ i ∈ (strnlen mem str maxlen).2, i < maxlen.toNat

section Strnlen

variable {mem : Memory} {str maxlen : Word}

theorem of_strlenLoop_eq_ok {fuel len k : Nat} (h : strlenLoop mem str fuel len = .ok k) :
    len ≤ k ∧ mem (index str k) = 0 ∧ ∀ j, len ≤ j → j < k → mem (index str j) ≠ 0 := by
  induction fuel generalizing len with
  | zero => cases h
  | succ fuel ih =>
    rw [strlenLoop] at h
    split at h
    · next hne =>
      obtain ⟨hle, hnul, hall⟩ := ih h
      refine ⟨by omega, hnul, ?_⟩
      intro j hlen hj
      by_cases he : j = len
      · rwa [he]
      · exact hall j (by omega) hj
    · next hnul =>
      cases h
      exact ⟨le_rfl, not_not.mp hnul, fun j hlen hj => absurd hj (by omega)⟩

theorem strlenLoop_ok {fuel len k : Nat} (hle : len ≤ k) (hfuel : k < len + fuel)
    (hnul : mem (index str k) = 0) (hall : ∀ j, len ≤ j → j < k → mem (index str j) ≠ 0) :
    strlenLoop mem str fuel len = .ok k := by
  induction fuel generalizing len with
  | zero => omega
  | succ fuel ih =>
    rw [strlenLoop]
    by_cases he : len = k
    · rw [he, if_neg (not_not.mpr hnul)]
    · rw [if_pos (hall len le_rfl (by omega))]
      exact ih (by omega) (by omega) fun j hj hjk => hall j (by omega) hjk

theorem firstNul_of_strlen {k : Nat} (h : strlen mem str = .ok k) : FirstNul mem str k := by
  obtain ⟨-, hnul, hall⟩ := of_strlenLoop_eq_ok h
  exact ⟨hnul, fun j hj => hall j (Nat.zero_le j) hj⟩

/-- **`strlen` finds the first zero byte.** -/
theorem strlen_eq_ok_iff {k : Nat} (hk : k < 2 ^ 32) :
    strlen mem str = .ok k ↔ FirstNul mem str k := by
  refine ⟨firstNul_of_strlen, ?_⟩
  intro ⟨hnul, hall⟩
  exact strlenLoop_ok (Nat.zero_le k) (by omega) hnul fun j _ hj => hall j hj

theorem exists_firstNul (h : ∃ k, mem (index str k) = 0) : ∃ k, FirstNul mem str k :=
  ⟨Nat.find h, Nat.find_spec h, fun _ hj => Nat.find_min h hj⟩

/-- `strnlen` never counts, and it reads below the bound. -/
theorem strnlenLoop_spec (len r i : Nat) : (strnlenLoop mem str len r i).1 = len ∧
    ∀ j ∈ (strnlenLoop mem str len r i).2, i ≤ j ∧ j < i + r := by
  induction r generalizing i with
  | zero => exact ⟨rfl, fun j hj => absurd hj List.not_mem_nil⟩
  | succ r ih =>
    obtain ⟨hlen, hreads⟩ := ih (i + 1)
    rw [strnlenLoop]
    split
    · refine ⟨rfl, ?_⟩
      intro j hj
      obtain rfl := List.mem_singleton.mp hj
      omega
    · refine ⟨hlen, ?_⟩
      intro j hj
      rcases List.mem_cons.mp hj with rfl | hj
      · omega
      · have := hreads j hj
        omega

theorem strnlen_fst : (strnlen mem str maxlen).1 = 0 := (strnlenLoop_spec 0 maxlen.toNat 0).1

theorem strnlen_reads : ∀ i ∈ (strnlen mem str maxlen).2, i < maxlen.toNat := by
  intro i hi
  have := (strnlenLoop_spec 0 maxlen.toNat 0).2 i hi
  omega

theorem index_zero : index str 0 = str := BitVec.add_zero str

theorem strnlenLaw_of (h : maxlen = 0 ∨ mem str = 0) : StrnlenLaw mem str maxlen := by
  have hzero : ∀ k, FirstNul mem str k → k = 0 ∨ maxlen.toNat = 0 := by
    intro k hk
    rcases h with rfl | hstr
    · exact Or.inr rfl
    · left
      by_contra hne
      exact hk.2 0 (Nat.pos_of_ne_zero hne) (by rw [index_zero, hstr])
  refine ⟨?_, ?_, ?_, strnlen_reads⟩
  · intro k hk
    have := hzero k hk
    rw [strnlen_fst]
    omega
  · intro hall
    rw [strnlen_fst]
    rcases h with rfl | hstr
    · rfl
    · by_contra hne
      exact hall 0 (by omega) (by rw [index_zero, hstr])
  · intro k hk hle
    have := hzero k (firstNul_of_strlen hk)
    rw [strnlen_fst]
    omega

theorem not_strnlenLaw_of (hmax : maxlen ≠ 0) (hstr : mem str ≠ 0) : ¬ StrnlenLaw mem str maxlen := by
  intro h
  have hpos : maxlen.toNat ≠ 0 := fun h0 => hmax (BitVec.eq_of_toNat_eq h0)
  by_cases hall : ∀ j < maxlen.toNat, mem (index str j) ≠ 0
  · have hres := h.noNul hall
    rw [strnlen_fst] at hres
    exact hpos hres.symm
  · have hex : ∃ k, mem (index str k) = 0 := by
      by_contra hnone
      exact hall fun j _ hj => hnone ⟨j, hj⟩
    obtain ⟨k, hk⟩ := exists_firstNul hex
    have hne : k ≠ 0 := by
      rintro rfl
      exact hstr (by simpa only [index_zero] using hk.1)
    have hres := h.nul k hk
    rw [strnlen_fst] at hres
    omega

/-- **When `strnlen` is right.**  For every memory, string and bound this is so if and only if the
bound is zero or the string is empty. -/
theorem strnlenLaw_iff (mem : Memory) (str maxlen : Word) :
    StrnlenLaw mem str maxlen ↔ maxlen = 0 ∨ mem str = 0 := by
  refine ⟨?_, strnlenLaw_of⟩
  intro h
  by_contra hno
  obtain ⟨hmax, hstr⟩ := not_or.mp hno
  exact not_strnlenLaw_of hmax hstr h

end Strnlen

/-- The string `ab` at address 0x1000. -/
def abString : Memory := fun a => if a = 0x1000 then 97 else if a = 0x1001 then 98 else 0

/-- Its length up to 8 is 2, and `strnlen` returns 0. -/
theorem not_strnlenLaw_abString : ¬ StrnlenLaw abString 0x1000 8 := by
  intro h
  have hfirst : FirstNul abString 0x1000 2 := ⟨by decide, by decide⟩
  have hres := h.nul 2 hfirst
  rw [strnlen_fst] at hres
  exact absurd hres (by decide)

end Aosis.Libc
