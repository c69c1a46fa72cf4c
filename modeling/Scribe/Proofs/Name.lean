import Scribe.Proofs.Word

/-! Names read back from where they stand. A reader takes the longest run of name characters, or
what stands between two double backticks, and leaves the rest of the text alone. Different names are
written differently, whatever they are made of. -/

namespace Scribe

namespace Name

/-- ASCII letters, digits and the underscore. -/
def IsNameChar (c : Char) : Prop :=
  ('a' ≤ c ∧ c ≤ 'z') ∨ ('A' ≤ c ∧ c ≤ 'Z') ∨ ('0' ≤ c ∧ c ≤ '9') ∨ c = '_'

/-- The name that a text starts with, and what is left of the text. -/
def read? : List Char → Option (String × List Char)
  | '`' :: '`' :: rest =>
    (throughDelimiter rest).map fun p => (String.ofList p.1.dropLast.dropLast, p.2)
  | cs =>
    if cs.takeWhile isTail = [] then none
    else some (String.ofList (cs.takeWhile isTail), cs.dropWhile isTail)

/-! ## Plain names -/

theorem isAlpha_iff (c : Char) :
    c.isAlpha = true ↔ ('a' ≤ c ∧ c ≤ 'z') ∨ ('A' ≤ c ∧ c ≤ 'Z') := by
  unfold Char.isAlpha Char.isUpper Char.isLower
  simp only [Bool.or_eq_true, Bool.and_eq_true, decide_eq_true_eq]
  exact or_comm

theorem isDigit_iff (c : Char) : c.isDigit = true ↔ '0' ≤ c ∧ c ≤ '9' := by
  unfold Char.isDigit
  simp only [Bool.and_eq_true, decide_eq_true_eq]
  exact Iff.rfl

theorem isTail_iff (c : Char) : isTail c = true ↔ IsNameChar c := by
  unfold isTail Char.isAlphanum IsNameChar
  simp only [Bool.or_eq_true, isAlpha_iff, isDigit_iff, beq_iff_eq, or_assoc]

theorem isHead_iff (c : Char) : isHead c = true ↔ IsNameChar c ∧ ¬ ('0' ≤ c ∧ c ≤ '9') := by
  rw [← isTail_iff, ← isDigit_iff, Bool.not_eq_true]
  constructor
  · intro h
    exact ⟨isTail_of_isHead h, isDigit_of_isHead h⟩
  · rintro ⟨htail, hdigit⟩
    unfold isTail Char.isAlphanum at htail
    unfold isHead
    simpa [hdigit] using htail

theorem isPlain_iff (name : String) :
    isPlain name = true ↔ name ≠ "" ∧ (∀ c ∈ name.toList, IsNameChar c) ∧
      ∀ c, name.toList.head? = some c → ¬ ('0' ≤ c ∧ c ≤ '9') := by
  rw [Ne, ← String.toList_eq_nil_iff, isPlain]
  cases name.toList with
  | nil => simp
  | cons c cs =>
    simp only [Bool.and_eq_true, isHead_iff, List.all_eq_true, isTail_iff, List.forall_mem_cons,
      List.head?_cons, Option.some.injEq, forall_eq', reduceCtorEq, not_false_eq_true, true_and]
    exact and_right_comm

/-! ## Reading -/

theorem written_injective : Function.Injective written := by
  intro a b h
  rw [← ofWritten_written a, h, ofWritten_written]

theorem read?_plain {name : String} (h : isPlain name = true) {rest : List Char}
    (hrest : ∀ c, rest.head? = some c → ¬ IsNameChar c) :
    read? (name.toList ++ rest) = some (name, rest) := by
  have htail : ∀ c ∈ name.toList, isTail c = true := fun c hc => isTail_of_mem h hc
  have hstop : rest.takeWhile isTail = [] ∧ rest.dropWhile isTail = rest := by
    cases rest with
    | nil => exact ⟨rfl, rfl⟩
    | cons c rest =>
      have hc : isTail c = false := by
        rw [← Bool.not_eq_true, isTail_iff]
        exact hrest c rfl
      exact ⟨List.takeWhile_cons_of_neg (by simp [hc]), List.dropWhile_cons_of_neg (by simp [hc])⟩
  have htake : (name.toList ++ rest).takeWhile isTail = name.toList := by
    rw [List.takeWhile_append_of_pos htail, hstop.1, List.append_nil]
  have hdrop : (name.toList ++ rest).dropWhile isTail = rest := by
    rw [List.dropWhile_append_of_pos htail, hstop.2]
  obtain ⟨c, cs, hcs, hc, -⟩ := exists_cons_of_isPlain h
  rw [read?, htake, hdrop, String.ofList_toList, if_neg (by simp [hcs])]
  intro rest' heq
  rw [hcs] at heq
  obtain ⟨rfl, -⟩ := List.cons.inj heq
  cases hc

theorem read?_delimited {name : String} (h : '`' ∉ name.toList) (rest : List Char) :
    read? ((delimiter ++ name ++ delimiter).toList ++ rest) = some (name, rest) := by
  rw [toList_delimited]
  simp [read?, throughDelimiter_append h]

/-- A plain name is a non-empty text of letters, digits and underscores without a digit in front. A
written name stands for one name only, and it is read back from before any text, where a plain one
must not be continued and any other must not hold the mark that it is enclosed in. -/
theorem names_read_back :
    (∀ name, isPlain name = true ↔ name ≠ "" ∧ (∀ c ∈ name.toList, IsNameChar c) ∧
      ∀ c, name.toList.head? = some c → ¬ ('0' ≤ c ∧ c ≤ '9')) ∧
    Function.Injective written ∧
    ∀ (name : String) (rest : List Char), isPlain name = true ∨ '`' ∉ name.toList →
      (isPlain name = true → ∀ c, rest.head? = some c → ¬ IsNameChar c) →
        read? ((written name).toList ++ rest) = some (name, rest) := by
  refine ⟨isPlain_iff, written_injective, fun name rest hname hrest => ?_⟩
  unfold written
  split
  · next h => exact read?_plain h (hrest h)
  · next h => exact read?_delimited (hname.resolve_left h) rest

/-- The empty name before a backtick, which the reader must leave alone, and a plain name before the
point of a member. -/
theorem names_read_back_empty :
    (isPlain "" = true ∨ '`' ∉ "".toList) ∧
      (isPlain "" = true → ∀ c, ['`', 'x'].head? = some c → ¬ IsNameChar c) ∧
      read? ((written "").toList ++ ['`', 'x']) = some ("", ['`', 'x']) ∧
      (isPlain "x1" = true → ∀ c, ['.', 'y'].head? = some c → ¬ IsNameChar c) ∧
      read? ((written "x1").toList ++ ['.', 'y']) = some ("x1", ['.', 'y']) := by
  have hempty : isPlain "" = true ∨ '`' ∉ "".toList := Or.inr (by decide)
  have hnone : isPlain "" = true → ∀ c, ['`', 'x'].head? = some c → ¬ IsNameChar c := by
    intro h
    exact absurd h (by decide)
  have hpoint : isPlain "x1" = true → ∀ c, ['.', 'y'].head? = some c → ¬ IsNameChar c := by
    rintro - c hc
    obtain rfl := Option.some.inj hc
    rw [← isTail_iff]
    decide
  exact ⟨hempty, hnone, names_read_back.2.2 "" ['`', 'x'] hempty hnone, hpoint,
    names_read_back.2.2 "x1" ['.', 'y'] (Or.inl (by decide)) hpoint⟩

end Name

end Scribe
