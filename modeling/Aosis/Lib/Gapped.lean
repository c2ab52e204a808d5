import Aosis.Lib.Extent

/-!
# Sorted and merged lists of extents

A list of extents is `Gapped` when each extent ends before the later ones begin, with at
least one address in between: the list is sorted, and no two of its extents overlap or meet.

`release u l` puts the extent `u` into the list `l` and merges it with the neighbours that
meet it.

* `covers_release`: the list covers what it covered before, and `u`.
* `Gapped.release`: the list stays gapped.
* `Gapped.eq_of_covers`: a gapped list is determined by the addresses it covers.
-/

namespace Aosis.Lib

namespace Extent

variable {a b c u : Extent} {l l' l₁ l₂ : List Extent} {x : Nat}

/-! ### Merging and coverage -/

/-- The extent in front of a list, merged with the first one if the two meet. -/
def absorb (a : Extent) : List Extent → List Extent
  | [] => [a]
  | b :: l => if a.start + a.len = b.start then ⟨a.start, a.len + b.len⟩ :: l else a :: b :: l

/-- The extent put in before the first one that starts later, and merged with its
neighbours. -/
def release (u : Extent) : List Extent → List Extent
  | [] => [u]
  | p :: l => if u.start < p.start then absorb u (p :: l) else absorb p (release u l)

theorem not_covers_nil : ¬ Covers [] x := by
  rintro ⟨b, hb, -⟩
  exact absurd hb List.not_mem_nil

theorem covers_cons : Covers (a :: l) x ↔ a.Mem x ∨ Covers l x := by
  simp only [Covers, List.mem_cons, or_and_right, exists_or, exists_eq_left]

theorem mem_join (hab : a.start + a.len = b.start) :
    (⟨a.start, a.len + b.len⟩ : Extent).Mem x ↔ a.Mem x ∨ b.Mem x := by
  unfold Mem
  dsimp only
  omega

theorem covers_absorb : Covers (absorb a l) x ↔ a.Mem x ∨ Covers l x := by
  cases l with
  | nil => exact covers_cons
  | cons b l =>
    rw [absorb]
    split
    · next hab => rw [covers_cons, mem_join hab, covers_cons, or_assoc]
    · exact covers_cons

/-- **Releasing an extent adds its addresses.** -/
theorem covers_release : Covers (release u l) x ↔ u.Mem x ∨ Covers l x := by
  induction l with
  | nil => exact covers_cons
  | cons p l ih =>
    rw [release]
    split
    · exact covers_absorb
    · rw [covers_absorb, ih, covers_cons]
      exact or_left_comm

theorem exists_absorb (a : Extent) (l : List Extent) :
    ∃ n l', absorb a l = ⟨a.start, n⟩ :: l' ∧ ∀ c ∈ l', c ∈ l := by
  cases l with
  | nil => exact ⟨a.len, [], rfl, fun _ hc => hc⟩
  | cons b l =>
    rw [absorb]
    split
    · exact ⟨_, l, rfl, fun c hc => List.mem_cons_of_mem b hc⟩
    · exact ⟨_, _, rfl, fun c hc => hc⟩

theorem start_of_mem_release (hc : c ∈ release u l) :
    c.start = u.start ∨ ∃ d ∈ l, c.start = d.start := by
  induction l with
  | nil => exact Or.inl (congrArg Extent.start (List.mem_singleton.mp hc))
  | cons p l ih =>
    rw [release] at hc
    split at hc
    · obtain ⟨n, l', heq, hsub⟩ := exists_absorb u (p :: l)
      rw [heq] at hc
      rcases List.mem_cons.mp hc with rfl | hc
      · exact Or.inl rfl
      · exact Or.inr ⟨c, hsub c hc, rfl⟩
    · obtain ⟨n, l', heq, hsub⟩ := exists_absorb p (release u l)
      rw [heq] at hc
      rcases List.mem_cons.mp hc with rfl | hc
      · exact Or.inr ⟨p, List.mem_cons_self, rfl⟩
      · rcases ih (hsub c hc) with h | ⟨d, hd, h⟩
        · exact Or.inl h
        · exact Or.inr ⟨d, List.mem_cons_of_mem p hd, h⟩

/-! ### Gapped lists -/

/-- Each extent ends before the later ones begin, and does not meet them. -/
def Gapped (l : List Extent) : Prop := l.Pairwise fun a b => a.start + a.len < b.start

namespace Gapped

theorem cons_iff : Gapped (a :: l) ↔ (∀ c ∈ l, a.start + a.len < c.start) ∧ Gapped l :=
  List.pairwise_cons

theorem of_chain (hasc : l.Pairwise fun a b => a.start < b.start) (hsep : Separate l)
    (hchain : l.IsChain fun a b => a.start + a.len ≠ b.start) (hlen : ∀ c ∈ l, 0 < c.len) :
    Gapped l := by
  induction l with
  | nil => exact List.Pairwise.nil
  | cons a l ih =>
    obtain ⟨ha, hasc⟩ := List.pairwise_cons.mp hasc
    obtain ⟨hapart, hsep⟩ := Separate.cons_iff.mp hsep
    have hl := ih hasc hsep hchain.tail fun c hc => hlen c (List.mem_cons_of_mem a hc)
    refine cons_iff.mpr ⟨?_, hl⟩
    cases l with
    | nil => simp
    | cons b l =>
      have hab : a.start + a.len < b.start := by
        have h₁ := ha b List.mem_cons_self
        have h₂ := hapart b List.mem_cons_self
        have h₃ := hchain.rel
        have h₄ := hlen b (List.mem_cons_of_mem a List.mem_cons_self)
        unfold Apart at h₂
        omega
      intro c hc
      rcases List.mem_cons.mp hc with rfl | hc
      · exact hab
      · have := (cons_iff.mp hl).1 c hc
        omega

theorem ascending (hl : Gapped l) : l.Pairwise fun a b => a.start < b.start :=
  List.Pairwise.imp (fun hab => by omega) hl

theorem chain (hl : Gapped l) : l.IsChain fun a b => a.start + a.len ≠ b.start :=
  List.Pairwise.isChain (List.Pairwise.imp (fun hab => by omega) hl)

theorem absorb (hl : Gapped l) (ha : ∀ c ∈ l, a.start + a.len ≤ c.start) :
    Gapped (absorb a l) := by
  cases l with
  | nil => exact List.pairwise_singleton _ _
  | cons b l =>
    have hab := ha b List.mem_cons_self
    obtain ⟨hb, hrest⟩ := cons_iff.mp hl
    rw [Extent.absorb]
    split
    · next hmeet =>
      refine cons_iff.mpr ⟨?_, hrest⟩
      intro c hc
      have := hb c hc
      dsimp only
      omega
    · next hmeet =>
      refine cons_iff.mpr ⟨?_, hl⟩
      intro c hc
      rcases List.mem_cons.mp hc with rfl | hc
      · omega
      · have := hb c hc
        omega

/-- **Releasing an extent keeps the list sorted and merged.** -/
theorem release (hl : Gapped l) (hu : ∀ c ∈ l, Apart u c) (hlen : 0 < u.len) :
    Gapped (release u l) := by
  induction l with
  | nil => exact List.pairwise_singleton _ _
  | cons p l ih =>
    obtain ⟨hp, hrest⟩ := cons_iff.mp hl
    have hup := hu p List.mem_cons_self
    unfold Apart at hup
    rw [Extent.release]
    split
    · apply hl.absorb
      intro c hc
      rcases List.mem_cons.mp hc with rfl | hc
      · omega
      · have := hp c hc
        omega
    · apply (ih hrest fun c hc => hu c (List.mem_cons_of_mem p hc)).absorb
      intro c hc
      rcases start_of_mem_release hc with h | ⟨d, hd, h⟩
      · omega
      · have := hp d hd
        omega

theorem release_append {p : Extent} (hl : Gapped (l₁ ++ p :: l₂)) (hp : p.start < u.start)
    (hu : ∀ b ∈ l₂.head?, u.start < b.start) :
    Extent.release u (l₁ ++ p :: l₂) = l₁ ++ Extent.absorb p (Extent.absorb u l₂) := by
  induction l₁ with
  | nil =>
    rw [List.nil_append, List.nil_append, Extent.release, if_neg (by omega)]
    cases l₂ with
    | nil => rfl
    | cons b l₂ => rw [Extent.release, if_pos (hu b rfl)]
  | cons c l₁ ih =>
    obtain ⟨hc, hrest⟩ := cons_iff.mp hl
    have hcp := hc p (List.mem_append_right l₁ List.mem_cons_self)
    rw [List.cons_append, Extent.release, if_neg (by omega), ih hrest, List.cons_append]
    -- `c` does not meet what comes after it
    cases l₁ with
    | nil =>
      obtain ⟨n, l', heq, -⟩ := exists_absorb p (Extent.absorb u l₂)
      rw [List.nil_append, heq, Extent.absorb, if_neg (by dsimp only; omega)]
    | cons d l₁ =>
      have hcd := hc d List.mem_cons_self
      rw [List.cons_append, Extent.absorb, if_neg (by omega)]

theorem not_covers_end (hl : Gapped (a :: l)) : ¬ Covers (a :: l) (a.start + a.len) := by
  obtain ⟨ha, -⟩ := cons_iff.mp hl
  rw [covers_cons]
  rintro (hx | ⟨c, hc, hx⟩)
  · exact absurd hx.2 (lt_irrefl _)
  · have := ha c hc
    have := hx.1
    omega

theorem start_le_of_covers (hl : Gapped (a :: l)) (hx : Covers (a :: l) x) : a.start ≤ x := by
  obtain ⟨ha, -⟩ := cons_iff.mp hl
  rcases covers_cons.mp hx with hx | ⟨c, hc, hx⟩
  · exact hx.1
  · have := ha c hc
    have := hx.1
    omega

theorem covers_tail_iff (hl : Gapped (a :: l)) :
    Covers l x ↔ Covers (a :: l) x ∧ ¬ a.Mem x := by
  obtain ⟨ha, -⟩ := cons_iff.mp hl
  refine ⟨fun hx => ⟨covers_cons.mpr (Or.inr hx), fun hax => ?_⟩,
    fun ⟨hx, hax⟩ => (covers_cons.mp hx).resolve_left hax⟩
  obtain ⟨c, hc, hx⟩ := hx
  have := ha c hc
  have := hx.1
  have := hax.2
  omega

theorem head_eq_of_covers (hl : Gapped (a :: l)) (hl' : Gapped (b :: l')) (ha : 0 < a.len)
    (hb : 0 < b.len) (h : ∀ x, Covers (a :: l) x ↔ Covers (b :: l') x) : a = b := by
  have hmem : ∀ c : Extent, 0 < c.len → c.Mem c.start := fun c hc => ⟨le_rfl, by omega⟩
  have hstart : a.start = b.start := by
    have h₁ := hl'.start_le_of_covers ((h _).mp (covers_cons.mpr (Or.inl (hmem a ha))))
    have h₂ := hl.start_le_of_covers ((h _).mpr (covers_cons.mpr (Or.inl (hmem b hb))))
    omega
  -- the end of the shorter one would be covered by the longer one
  have hlen : a.len = b.len := by
    have h₁ := hl.not_covers_end
    have h₂ := hl'.not_covers_end
    rw [h, covers_cons, not_or] at h₁
    rw [← h, covers_cons, not_or] at h₂
    have h₃ := h₁.1
    have h₄ := h₂.1
    unfold Mem at h₃ h₄
    omega
  cases a
  cases b
  simp only at hstart hlen
  rw [hstart, hlen]

/-- **A gapped list is determined by the addresses it covers.** -/
theorem eq_of_covers (hl : Gapped l) (hl' : Gapped l') (hlen : ∀ c ∈ l, 0 < c.len)
    (hlen' : ∀ c ∈ l', 0 < c.len) (h : ∀ x, Covers l x ↔ Covers l' x) : l = l' := by
  induction l generalizing l' with
  | nil =>
    cases l' with
    | nil => rfl
    | cons b l' =>
      have hb := hlen' b List.mem_cons_self
      exact absurd ((h b.start).mpr ⟨b, List.mem_cons_self, le_rfl, by omega⟩) not_covers_nil
  | cons a l ih =>
    have ha := hlen a List.mem_cons_self
    cases l' with
    | nil =>
      exact absurd ((h a.start).mp ⟨a, List.mem_cons_self, le_rfl, by omega⟩) not_covers_nil
    | cons b l' =>
      obtain rfl := hl.head_eq_of_covers hl' ha (hlen' b List.mem_cons_self) h
      rw [ih (cons_iff.mp hl).2 (cons_iff.mp hl').2
        (fun c hc => hlen c (List.mem_cons_of_mem a hc))
        (fun c hc => hlen' c (List.mem_cons_of_mem a hc)) fun x => ?_]
      rw [hl.covers_tail_iff, hl'.covers_tail_iff, h]

end Gapped

end Extent

end Aosis.Lib
