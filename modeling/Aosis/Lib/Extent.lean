import Mathlib.Data.Finset.Card
import Mathlib.Data.Nat.ModEq
import Mathlib.Order.Interval.Finset.Nat

/-!
# Extents

An extent is a range of addresses, given by its start and its length.  `Separate l` says
that the extents of the list `l` are pairwise apart.  Allocators cut an extent in two and
merge two extents that meet; `Separate.split` and `Separate.join` say that the others stay
apart, and `Separate.cons` that an extent from elsewhere may be added; `Covers.split` and
`Covers.join` say that no address is left out.
-/

namespace Aosis.Lib

/-- The addresses from `start` on, `len` of them. -/
structure Extent where
  start : Nat
  len : Nat
  deriving DecidableEq

namespace Extent

variable {a b c n : Extent} {l l' : List Extent} {S T : Nat → Prop}

/-- The address belongs to the extent. -/
def Mem (a : Extent) (x : Nat) : Prop := a.start ≤ x ∧ x < a.start + a.len

/-- One extent ends before the other begins. -/
def Apart (a b : Extent) : Prop := a.start + a.len ≤ b.start ∨ b.start + b.len ≤ a.start

/-- All addresses of the extent satisfy `S`. -/
def Within (a : Extent) (S : Nat → Prop) : Prop := ∀ x, a.Mem x → S x

/-- The extents of the list are pairwise apart. -/
def Separate (l : List Extent) : Prop := l.Pairwise Apart

theorem Apart.symm (h : Apart a b) : Apart b a := Or.symm h

instance : Std.Symm Apart := ⟨fun _ _ => Apart.symm⟩

theorem Apart.not_mem {x : Nat} (h : Apart a b) (hx : a.Mem x) : ¬ b.Mem x := by
  intro hb
  unfold Apart Mem at *
  omega

theorem apart_of_not_mem (ha : 0 < a.len) (hb : 0 < b.len)
    (h : ∀ x, a.Mem x → ¬ b.Mem x) : Apart a b := by
  have h₁ := h a.start
  have h₂ := h b.start
  unfold Apart Mem at *
  omega

theorem Within.mono (h : a.Within S) (hST : ∀ x, S x → T x) : a.Within T :=
  fun x hx => hST x (h x hx)

theorem Apart.of_le (h : Apart a c) (hs : a.start ≤ b.start)
    (he : b.start + b.len ≤ a.start + a.len) : Apart b c := by
  unfold Apart at *
  omega

theorem Apart.join (ha : Apart a c) (hb : Apart b c) (hc : 0 < c.len)
    (hab : a.start + a.len = b.start) : Apart ⟨a.start, a.len + b.len⟩ c := by
  unfold Apart at *
  dsimp only
  omega

namespace Separate

theorem perm (h : Separate l) (hp : l.Perm l') : Separate l' :=
  (hp.pairwise_iff Apart.symm).mp h

theorem sublist (h : Separate l) (hs : l'.Sublist l) : Separate l' := List.Pairwise.sublist hs h

theorem cons_iff : Separate (a :: l) ↔ (∀ c ∈ l, Apart a c) ∧ Separate l := List.pairwise_cons

theorem cons (h : Separate l) (ha : ∀ c ∈ l, Apart a c) : Separate (a :: l) :=
  cons_iff.mpr ⟨ha, h⟩

theorem eq_or_apart (h : Separate l) (ha : a ∈ l) (hb : b ∈ l) : a = b ∨ Apart a b := by
  by_cases hab : a = b
  · exact Or.inl hab
  · exact Or.inr (List.Pairwise.forall h ha hb hab)

theorem split (h : Separate (a :: l)) (hb : a.start ≤ b.start) (hbn : b.start + b.len ≤ n.start)
    (hn : n.start + n.len ≤ a.start + a.len) : Separate (b :: n :: l) := by
  obtain ⟨hal, hl⟩ := cons_iff.mp h
  apply (hl.cons fun c hc => (hal c hc).of_le (by omega) hn).cons
  intro c hc
  rcases List.mem_cons.mp hc with rfl | hc
  · exact Or.inl hbn
  · exact (hal c hc).of_le hb (by omega)

theorem join (h : Separate (a :: b :: l)) (hlen : ∀ c ∈ l, 0 < c.len)
    (hab : a.start + a.len = b.start) : Separate (⟨a.start, a.len + b.len⟩ :: l) := by
  obtain ⟨ha, hbl⟩ := cons_iff.mp h
  obtain ⟨hb, hl⟩ := cons_iff.mp hbl
  exact hl.cons fun c hc =>
    (ha c (List.mem_cons_of_mem b hc)).join (hb c hc) (hlen c hc) hab

theorem nodup_starts (h : Separate l) (hlen : ∀ c ∈ l, 0 < c.len) :
    (l.map Extent.start).Nodup := by
  rw [List.nodup_iff_pairwise_ne, List.pairwise_map]
  refine List.Pairwise.imp_of_mem ?_ h
  intro a b ha hb hab heq
  have := hlen a ha
  have := hlen b hb
  unfold Apart at hab
  omega

/-- There are fewer separate extents than addresses. -/
theorem length_lt {N : Nat} (h : Separate l) (hlen : ∀ c ∈ l, 0 < c.len)
    (hpos : ∀ c ∈ l, 0 < c.start) (hN : ∀ c ∈ l, c.start < N) (h0 : 0 < N) : l.length < N := by
  have hsub : (l.map Extent.start).toFinset ⊆ Finset.Ico 1 N := by
    intro x hx
    rw [List.mem_toFinset, List.mem_map] at hx
    obtain ⟨c, hc, rfl⟩ := hx
    rw [Finset.mem_Ico]
    exact ⟨hpos c hc, hN c hc⟩
  have hcard := Finset.card_le_card hsub
  rw [List.toFinset_card_of_nodup (h.nodup_starts hlen), List.length_map, Nat.card_Ico] at hcard
  omega

end Separate

/-- The address belongs to one of the extents. -/
def Covers (l : List Extent) (x : Nat) : Prop := ∃ b ∈ l, b.Mem x

namespace Covers

variable {x : Nat}

theorem mono (h : Covers l x) (hsub : ∀ b ∈ l, b ∈ l') : Covers l' x := by
  obtain ⟨b, hb, hx⟩ := h
  exact ⟨b, hsub b hb, hx⟩

theorem split (h : Covers (l ++ a :: l') x) (hb : b.start = a.start)
    (hbn : b.start + b.len = n.start) (hn : n.start + n.len = a.start + a.len) :
    Covers (n :: (l ++ b :: l')) x := by
  obtain ⟨c, hc, hx⟩ := h
  rcases List.mem_append.mp hc with hc | hc
  · exact ⟨c, List.mem_cons_of_mem n (List.mem_append_left _ hc), hx⟩
  rcases List.mem_cons.mp hc with rfl | hc
  · unfold Mem at hx
    by_cases hxn : x < n.start
    · refine ⟨b, List.mem_cons_of_mem n (List.mem_append_right l List.mem_cons_self), ?_⟩
      exact ⟨by omega, by omega⟩
    · exact ⟨n, List.mem_cons_self, by omega, by omega⟩
  · exact ⟨c, List.mem_cons_of_mem n (List.mem_append_right l (List.mem_cons_of_mem b hc)), hx⟩

theorem join (h : Covers (l ++ a :: b :: l') x) (hab : a.start + a.len = b.start) :
    Covers (l ++ ⟨a.start, a.len + b.len⟩ :: l') x := by
  have hnew : (⟨a.start, a.len + b.len⟩ : Extent) ∈ l ++ ⟨a.start, a.len + b.len⟩ :: l' :=
    List.mem_append_right l List.mem_cons_self
  obtain ⟨c, hc, hx⟩ := h
  rcases List.mem_append.mp hc with hc | hc
  · exact ⟨c, List.mem_append_left _ hc, hx⟩
  unfold Mem at hx
  rcases List.mem_cons.mp hc with rfl | hc
  · exact ⟨_, hnew, hx.1, by dsimp only; omega⟩
  rcases List.mem_cons.mp hc with rfl | hc
  · exact ⟨_, hnew, by dsimp only; omega, by dsimp only; omega⟩
  · exact ⟨c, List.mem_append_right l (List.mem_cons_of_mem _ hc), hx⟩

end Covers

end Extent

end Aosis.Lib
