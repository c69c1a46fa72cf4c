/-! Marks that come in pairs. A text is paired when nothing is closed before it was opened and
nothing stays open. What is paired can be put side by side and into another pair; what starts with
a paired piece and goes on behind it is not one pair with something paired inside. -/

namespace Scribe

/-- Every beginning has no fewer opening than closing marks, and the whole has as many of both. -/
structure Paired (opening closing : Char) (cs : List Char) : Prop where
  opened : ∀ front, front <+: cs → front.count closing ≤ front.count opening
  closed : cs.count closing = cs.count opening

namespace Paired

variable {opening closing : Char} {a b : List Char}

theorem of_notMem (hopening : opening ∉ a) (hclosing : closing ∉ a) : Paired opening closing a where
  opened front hfront := by
    rw [List.count_eq_zero_of_not_mem fun hmem => hclosing (hfront.subset hmem)]
    exact Nat.zero_le _
  closed := by
    rw [List.count_eq_zero_of_not_mem hclosing, List.count_eq_zero_of_not_mem hopening]

theorem append (ha : Paired opening closing a) (hb : Paired opening closing b) :
    Paired opening closing (a ++ b) where
  opened front hfront := by
    rw [List.prefix_iff_eq_take.mp hfront, List.take_append, List.count_append, List.count_append]
    exact Nat.add_le_add (ha.opened _ (List.take_prefix _ _)) (hb.opened _ (List.take_prefix _ _))
  closed := by rw [List.count_append, List.count_append, ha.closed, hb.closed]

theorem wrap (hne : opening ≠ closing) (h : Paired opening closing a) :
    Paired opening closing (opening :: (a ++ [closing])) where
  opened front hfront := by
    rcases List.prefix_cons_iff.mp hfront with rfl | ⟨rest, rfl, hrest⟩
    · exact Nat.le_refl _
    · rcases List.prefix_concat_iff.mp hrest with rfl | hrest
      · simp [h.closed, hne, hne.symm]
      · have hopened := h.opened rest hrest
        simp [hne]
        omega
  closed := by simp [h.closed, hne, hne.symm]

/-- Other characters are neither here nor there. -/
theorem filter_iff {p : Char → Bool} (hopening : p opening = true) (hclosing : p closing = true) :
    Paired opening closing (a.filter p) ↔ Paired opening closing a := by
  constructor
  · intro h
    constructor
    · intro front hfront
      have hopened := h.opened _ (hfront.filter p)
      rwa [List.count_filter hopening, List.count_filter hclosing] at hopened
    · have hclosed := h.closed
      rwa [List.count_filter hopening, List.count_filter hclosing] at hclosed
  · intro h
    constructor
    · intro front hfront
      obtain ⟨whole, hwhole, rfl⟩ := List.prefix_filter_iff.mp hfront
      rw [List.count_filter hopening, List.count_filter hclosing]
      exact h.opened whole hwhole
    · rw [List.count_filter hopening, List.count_filter hclosing]
      exact h.closed

end Paired

/-- Not a pair of marks with something paired between them. -/
def Unwrapped (opening closing : Char) (cs : List Char) : Prop :=
  ∀ inner, cs = opening :: (inner ++ [closing]) → ¬ Paired opening closing inner

section Unwrapped

variable {opening closing : Char} {a b : List Char}

theorem unwrapped_of_front (closing : Char) (hne : a ≠ []) (h : opening ∉ a) (b : List Char) :
    Unwrapped opening closing (a ++ b) := by
  intro inner heq
  cases a with
  | nil => exact absurd rfl hne
  | cons c a =>
    obtain ⟨rfl, -⟩ := List.cons.inj heq
    exact absurd (List.mem_cons_self ..) h

theorem unwrapped_of_back (opening : Char) (a : List Char) (hne : b ≠ []) (h : closing ∉ b) :
    Unwrapped opening closing (a ++ b) := by
  intro inner heq
  obtain ⟨front, last, rfl⟩ : ∃ front last, b = front ++ [last] :=
    ⟨_, _, (List.dropLast_concat_getLast hne).symm⟩
  rw [← List.append_assoc, ← List.cons_append] at heq
  obtain rfl : last = closing := (List.cons.inj (List.append_inj' heq rfl).2).1
  exact absurd (List.mem_concat_self ..) h

/-- The pair that a paired beginning opens is closed before the end. -/
theorem Paired.unwrapped_append (hdiffer : opening ≠ closing) (ha : Paired opening closing a)
    (hne : a ≠ []) (hb : b ≠ []) : Unwrapped opening closing (a ++ b) := by
  intro inner heq hinner
  obtain ⟨front, last, rfl⟩ : ∃ front last, b = front ++ [last] :=
    ⟨_, _, (List.dropLast_concat_getLast hb).symm⟩
  cases a with
  | nil => exact absurd rfl hne
  | cons c a =>
    rw [List.cons_append, ← List.append_assoc] at heq
    obtain ⟨rfl, hrest⟩ := List.cons.inj heq
    -- without its first mark, the beginning closes no more than it opens
    have hinside := hinner.opened a ⟨front, (List.append_inj' hrest rfl).1⟩
    have hclosed := ha.closed
    rw [List.count_cons_of_ne hdiffer, List.count_cons_self] at hclosed
    omega

end Unwrapped

end Scribe
