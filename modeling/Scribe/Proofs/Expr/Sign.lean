import Scribe.Proofs.Expr.Grouping
import Scribe.Proofs.Numeral

/-! Signs next to each other. Which sign the text of an expression starts with is foretold without
writing it, so that an operator can group an operand that would merge with it. What is foretold
agrees with the first command of the layout, as long as type names are plain and no field is taken
of an assignment; therefore a sign never meets its like. -/

namespace Scribe

/-- Whether the character can be taken for a sign. -/
def isSign (c : Char) : Bool := c == '+' || c == '-'

/-- No word starts with a sign. -/
theorem exists_cons_of_isWord {w : List Char} (h : IsWord w) :
    ∃ c cs, w = c :: cs ∧ isSign c = false := by
  have hscan := h [] stops_nil
  rw [List.append_nil] at hscan
  cases w with
  | nil => cases hscan
  | cons c cs =>
    refine ⟨c, cs, rfl, ?_⟩
    cases hc : isSign c with
    | false => rfl
    | true =>
      simp only [isSign, Bool.or_eq_true, beq_iff_eq] at hc
      rcases hc with rfl | rfl <;> cases hscan

/-! ## What a layout starts with -/

namespace Layout

/-- The first command stops, or writes something that starts with this sign or with none. -/
inductive Opens (sign : Option Char) : Layout → Prop
  | refuse (defect : Defect) (rest : Layout) : Opens sign (.refuse defect :: rest)
  | text {s : String} {c : Char} {t : List Char} (rest : Layout) :
      s.toList = c :: t → (isSign c = true → sign = some c) → Opens sign (.text s :: rest)

variable {sign : Option Char} {layout : Layout}

theorem Opens.append (h : Opens sign layout) (more : Layout) : Opens sign (layout ++ more) := by
  cases h with
  | refuse defect rest => exact .refuse defect (rest ++ more)
  | text rest hs hc => exact .text (rest ++ more) hs hc

theorem opens_text {s : String} {c : Char} {t : List Char} (hs : s.toList = c :: t)
    (hc : isSign c = false) (rest : Layout) : Opens sign (.text s :: rest) :=
  .text rest hs fun h => by rw [hc] at h; cases h

theorem opens_word {s : String} (h : IsWord s.toList) (rest : Layout) :
    Opens sign (.text s :: rest) := by
  obtain ⟨c, cs, hs, hc⟩ := exists_cons_of_isWord h
  exact opens_text hs hc rest

theorem opens_name (name : String) : Opens sign (Layout.name name) := by
  unfold Layout.name Name.written
  split
  · next h => exact opens_word (isWord_plain h) []
  · exact opens_text (Name.toList_delimited name) (by decide) []

theorem opens_parens (inner : Layout) : Opens sign (parens true inner) :=
  opens_text (c := '(') (t := []) rfl (by decide) (inner ++ [.text ")"])

theorem Opens.head_effect (h : Opens sign layout) (sheet : Sheet) (k : Cursor) {c : Char}
    (hc : isSign c = true) (hhead : (layout.effect sheet k).text.toList.head? = some c) :
    sign = some c := by
  cases h with
  | refuse defect rest =>
    rw [effect, Effect.andThen_of_stop rfl] at hhead
    cases hhead
  | @text s d ds rest hs hd =>
    rw [effect, Effect.andThen_of_none rfl, String.toList_append] at hhead
    change (s.toList ++ _).head? = some c at hhead
    rw [hs] at hhead
    obtain rfl : d = c := Option.some.inj hhead
    exact hd hc

end Layout

namespace Expr

open Layout (Opens)

/-! ## What an expression starts with -/

theorem opens_signed (value : Int32) :
    Opens (Expr.int value).leadingSign (Expr.int value).layout := by
  by_cases h : 0 ≤ value
  · exact Layout.opens_word (Literal.isWord_signed h) []
  · obtain ⟨w, hw, -⟩ := Literal.exists_isWord_signed h
    have hsign : (Expr.int value).leadingSign = some '-' := if_pos (Int32.not_le.mp h)
    exact .text [] hw fun _ => hsign

/-- A sign is foretold for a not-a-number pattern too, although none is written. -/
theorem opens_single (value : Single) :
    Opens (Expr.float value).leadingSign (Expr.float value).layout := by
  by_cases h : value.isNaN = true ∨ value.negative = false
  · exact Layout.opens_word (Literal.isWord_single h) []
  · rw [not_or, Bool.not_eq_true, Bool.not_eq_false] at h
    obtain ⟨w, hw, -⟩ := Literal.exists_isWord_single h.1 h.2
    have hsign : (Expr.float value).leadingSign = some '-' := if_pos h.2
    exact .text [] hw fun _ => hsign

theorem leadingSign_of_follows {op : UnaryOp} (h : op.followsOperand = true) (operand : Expr) :
    (Expr.unary op operand).leadingSign = operand.leadingSign := by
  cases op with
  | postIncrement => rfl
  | postDecrement => rfl
  | _ => cases h

/-- The leading sign is foretold along the operands on the left, down to the first that is grouped
or is not written first. -/
theorem opens_layout (e : Expr)
    (htypes : ∀ text, .typeName text ∈ e.parts → Name.isPlain text = true)
    (hfields : ∀ operand field, .member operand field ∈ e.parts → operand.isAssignment = false)
    (hassign : e.isAssignment = false) : Opens e.leadingSign e.layout := by
  match e with
  | .bool value => exact Layout.opens_word (Literal.isWord_bool value) []
  | .int value => exact opens_signed value
  | .uint value => exact Layout.opens_word (Literal.isWord_unsigned value) []
  | .float value => exact opens_single value
  | .string content =>
    have hquote : (Literal.quoted content).toList = '"' :: (content.toList ++ ['"']) := by
      simp [Literal.quoted]
    exact Layout.opens_text hquote (by decide) []
  | .name text => exact Layout.opens_name text
  | .typeName text => exact Layout.opens_word (isWord_plain (htypes text (mem_parts_self _))) []
  | .member operand field =>
    have hoperand := opens_layout operand (fun text h => htypes text (List.mem_cons_of_mem _ h))
      (fun inner f h => hfields inner f (List.mem_cons_of_mem _ h))
      (hfields operand field (mem_parts_self _))
    exact (hoperand.append [.text "."]).append (Layout.name field)
  | .call function arguments =>
    rw [layout]
    split
    · exact .refuse _ []
    · exact (((Layout.opens_name function).append _).append _).append _
  | .unary op operand =>
    rw [layout]
    cases hop : op.followsOperand with
    | true =>
      rw [if_pos rfl, leadingSign_of_follows hop]
      cases hgroup : operand.groupedUnder op with
      | true => exact (Layout.opens_parens operand.layout).append _
      | false =>
        have hoperand := opens_layout operand (fun text h => htypes text (List.mem_cons_of_mem _ h))
          (fun inner f h => hfields inner f (List.mem_cons_of_mem _ h))
          (isAssignment_of_groupedUnder_eq_false hgroup)
        exact hoperand.append _
    | false =>
      rw [if_neg Bool.false_ne_true]
      cases op with
      | not => exact Layout.opens_text (c := '!') (t := []) rfl (by decide) _
      | negate => exact .text (c := '-') (t := []) _ rfl fun _ => rfl
      | preIncrement => exact .text (c := '+') (t := ['+']) _ rfl fun _ => rfl
      | preDecrement => exact .text (c := '-') (t := ['-']) _ rfl fun _ => rfl
      | _ => cases hop
  | .binary op left right =>
    have hop : op.isAssignment = false := hassign
    rw [layout, hop]
    exact Layout.opens_parens _

/-! ## Parts of parts -/

mutual

theorem parts_subset (e : Expr) {part : Expr} (h : part ∈ e.parts) : part.parts ⊆ e.parts := by
  match e with
  | .member operand field =>
    rcases List.mem_cons.mp h with rfl | h
    · exact List.Subset.refl _
    · exact List.subset_cons_of_subset _ (parts_subset operand h)
  | .call function arguments =>
    rcases List.mem_cons.mp h with rfl | h
    · exact List.Subset.refl _
    · exact List.subset_cons_of_subset _ (partsAll_subset arguments h)
  | .unary op operand =>
    rcases List.mem_cons.mp h with rfl | h
    · exact List.Subset.refl _
    · exact List.subset_cons_of_subset _ (parts_subset operand h)
  | .binary op left right =>
    rcases List.mem_cons.mp h with rfl | h
    · exact List.Subset.refl _
    · refine List.subset_cons_of_subset _ ?_
      rcases List.mem_append.mp h with h | h
      · exact List.subset_append_of_subset_left _ (parts_subset left h)
      · exact List.subset_append_of_subset_right _ (parts_subset right h)
  | .bool _ | .int _ | .uint _ | .float _ | .string _ | .name _ | .typeName _ =>
    obtain rfl := List.mem_singleton.mp h
    exact List.Subset.refl _

theorem partsAll_subset (es : List Expr) {part : Expr} (h : part ∈ partsAll es) :
    part.parts ⊆ partsAll es := by
  match es with
  | [] => cases h
  | e :: es =>
    rcases List.mem_append.mp h with h | h
    · exact List.subset_append_of_subset_left _ (parts_subset e h)
    · exact List.subset_append_of_subset_right _ (partsAll_subset es h)

end

/-! ## Signs -/

/-- What an operator in front of its operand leaves to be written does not start with its sign. -/
theorem opens_operand {op : UnaryOp} (hop : op.followsOperand = false) {operand : Expr}
    (htypes : ∀ text, .typeName text ∈ operand.parts → Name.isPlain text = true)
    (hfields : ∀ inner field, .member inner field ∈ operand.parts → inner.isAssignment = false) :
    ∃ sign, Opens sign (Layout.parens (operand.groupedUnder op) operand.layout) ∧
      sign ≠ some op.sign := by
  cases hgroup : operand.groupedUnder op with
  | true => exact ⟨none, Layout.opens_parens _, nofun⟩
  | false =>
    have hopens := opens_layout operand htypes hfields
      (isAssignment_of_groupedUnder_eq_false hgroup)
    rw [groupedUnder_of_not_follows hop, Bool.or_eq_false_iff, beq_eq_false_iff_ne] at hgroup
    exact ⟨operand.leadingSign, hopens, hgroup.2⟩

/-- In an expression with plain type names and without fields of assignments, what is written
directly behind a sign that is an operator is not that sign again, wherever the operator stands and
whatever is written behind its operand. -/
theorem signs_apart (e : Expr)
    (htypes : ∀ text, .typeName text ∈ e.parts → Name.isPlain text = true)
    (hfields : ∀ operand field, .member operand field ∈ e.parts → operand.isAssignment = false)
    (op : UnaryOp) (hop : op = .negate ∨ op = .preIncrement ∨ op = .preDecrement) (operand : Expr)
    (hpart : .unary op operand ∈ e.parts) (behind : Layout) (p : Printer)
    (hroom : p.sink.writer.room = none) :
    ∃ rest : String,
      Printer.written (Printer.runKeepingDepth ((Expr.unary op operand).layout ++ behind)) p =
        (op.text ++ rest).toUTF8 ∧ rest.toList.head? ≠ some op.sign := by
  have hbefore : op.followsOperand = false := by rcases hop with rfl | rfl | rfl <;> rfl
  have hsign : isSign op.sign = true := by rcases hop with rfl | rfl | rfl <;> rfl
  have hinside : operand.parts ⊆ e.parts := fun part h =>
    parts_subset e hpart (List.mem_cons_of_mem _ h)
  obtain ⟨sign, hopens, hne⟩ := opens_operand hbefore (fun text h => htypes text (hinside h))
    fun inner field h => hfields inner field (hinside h)
  have hlayout : (Expr.unary op operand).layout ++ behind =
      .text op.text :: (Layout.parens (operand.groupedUnder op) operand.layout ++ behind) := by
    rw [layout, if_neg (by simp [hbefore])]
    rfl
  rw [Printer.written_runKeepingDepth hroom, hlayout, Layout.effect, Effect.andThen_of_none rfl]
  refine ⟨_, rfl, fun hhead => hne ?_⟩
  exact (hopens.append behind).head_effect _ _ hsign hhead

/-- Negations of negative zero, of negative infinity and of a decrement behind a field and a postfix
operator. -/
theorem signs_apart_chain :
    let decrement : Expr := .unary .preDecrement (.name "x")
    let chain : Expr := .unary .postIncrement (.member decrement "f")
    let e : Expr := .call "g" [.unary .negate (.float ⟨0x80000000⟩),
      .unary .negate (.float ⟨0xFF800000⟩), .unary .negate chain]
    (∀ text, .typeName text ∈ e.parts → Name.isPlain text = true) ∧
      (∀ operand field, .member operand field ∈ e.parts → operand.isAssignment = false) ∧
      .unary .negate chain ∈ e.parts ∧
      Printer.written (Printer.writeExpr e) (.start {} {}) =
        "g(-(-0f), -(-inff), -(--x.f++))".toUTF8 ∧
      ∃ rest : String, Printer.written (Printer.runKeepingDepth
        ((Expr.unary .negate chain).layout ++ [.text ")"])) (.start {} {}) =
          ("-" ++ rest).toUTF8 ∧ rest.toList.head? ≠ some '-' := by
  intro decrement chain e
  have htypes : ∀ text, .typeName text ∈ e.parts → Name.isPlain text = true := by
    simp [e, chain, decrement, parts, partsAll]
  have hfields : ∀ operand field, .member operand field ∈ e.parts →
      operand.isAssignment = false := by
    simp [e, chain, decrement, parts, partsAll, isAssignment]
  have hpart : .unary .negate chain ∈ e.parts := by
    simp [e, chain, decrement, parts, partsAll]
  exact ⟨htypes, hfields, hpart, by decide +kernel,
    signs_apart e htypes hfields .negate (Or.inl rfl) chain hpart [.text ")"] _ rfl⟩

end Expr

end Scribe
