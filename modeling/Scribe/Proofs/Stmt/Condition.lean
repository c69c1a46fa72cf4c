import Scribe.Proofs.Expr.Core
import Scribe.Proofs.Paired
import Scribe.Proofs.Page.Contents

/-! Conditions in parentheses. A binary condition brings its parentheses along and any other is
given them, so that in the end there is one pair around each. Both halves need that parentheses
balance: they do in every expression, and an operand that ends before the expression does closes
what it opened. -/

namespace Scribe

/-! ## Text without parentheses -/

def IsParenless (cs : List Char) : Prop := '(' ∉ cs ∧ ')' ∉ cs

instance (cs : List Char) : Decidable (IsParenless cs) := inferInstanceAs (Decidable (_ ∧ _))

theorem IsParenless.paired {cs : List Char} (h : IsParenless cs) : Paired '(' ')' cs :=
  .of_notMem h.1 h.2

theorem IsParenless.append {a b : List Char} (ha : IsParenless a) (hb : IsParenless b) :
    IsParenless (a ++ b) :=
  ⟨List.not_mem_append ha.1 hb.1, List.not_mem_append ha.2 hb.2⟩

theorem isParenless_of_isTail {cs : List Char} (h : ∀ c ∈ cs, Name.isTail c = true) :
    IsParenless cs := by
  constructor <;>
    · intro hmem
      have htail := h _ hmem
      revert htail
      decide

namespace Literal

theorem isParenless_decimal (n : Nat) : IsParenless (decimal n).toList := by
  rw [decimal, String.toList_ofList]
  exact isParenless_of_isTail fun c hc => isTail_of_isDigit (isDigit_of_mem_decimalDigits hc)

theorem isParenless_unsigned (v : UInt32) : IsParenless (unsigned v).toList := by
  unfold unsigned
  split
  · have hdigits : IsParenless (fixedDigits 16 (hexWidth v) v.toNat) :=
      isParenless_of_isTail fun c hc => isTail_of_mem_fixedDigits hc
    rw [hexadecimal, String.toList_append]
    refine .append (by decide) ?_
    rwa [String.toList_ofList]
  · exact isParenless_decimal _

theorem isParenless_signed (v : Int32) : IsParenless (signed v).toList := by
  unfold signed
  split
  · exact isParenless_unsigned _
  · rw [String.toList_append]
    exact .append (by decide) (isParenless_decimal _)

theorem isParenless_positional (d : Decimal) : IsParenless d.positional := by
  have hdigits : ∀ cs : List Char, (∀ c ∈ cs, c.isDigit = true) → IsParenless cs := fun cs h =>
    isParenless_of_isTail fun c hc => isTail_of_isDigit (h c hc)
  rcases positional_cases d with ⟨-, hall⟩ | ⟨a, b, heq, -, -, ha, hb⟩
  · exact hdigits _ hall
  · rw [heq]
    exact (hdigits a ha).append (.append (a := ['.']) (by decide) (hdigits b hb))

theorem isParenless_single (x : Single) : IsParenless (single x).toList := by
  have hmagnitude : IsParenless x.magnitudeText := by
    unfold Single.magnitudeText
    split
    · decide
    · split
      · decide
      · exact isParenless_positional _
  rw [single, String.toList_ofList, Single.text]
  refine .append ?_ (by decide)
  split
  · decide
  · split
    · exact .append (a := ['-']) (by decide) hmagnitude
    · exact hmagnitude

theorem isParenless_quoted {content : String} (h : IsParenless content.toList) :
    IsParenless (quoted content).toList := by
  rw [quoted, String.toList_append, String.toList_append]
  exact .append (.append (by decide) h) (by decide)

end Literal

namespace Name

theorem isParenless_written {name : String} (h : IsParenless name.toList) :
    IsParenless (written name).toList := by
  unfold written
  split
  · exact h
  · rw [String.toList_append, String.toList_append]
    exact .append (.append (by decide) h) (by decide)

theorem toList_written_ne_nil (name : String) : (written name).toList ≠ [] := by
  unfold written
  split
  · next h =>
    obtain ⟨c, cs, hcs, -⟩ := exists_cons_of_isPlain h
    simp [hcs]
  · rw [toList_delimited]
    exact List.cons_ne_nil _ _

end Name

/-! ## Expressions -/

theorem Layout.paired_parens {inner : Layout} (h : Paired '(' ')' inner.ink) (wanted : Bool) :
    Paired '(' ')' (parens wanted inner).ink := by
  cases wanted with
  | false => exact h
  | true => simpa [parens, Cmd.ink] using h.wrap (by decide)

namespace Expr

/-- No parenthesis in the names, type names and quoted texts of an expression. -/
def Parenless (e : Expr) : Prop := ∀ content ∈ e.contents, IsParenless content.toList

theorem isParenless_leafText {e : Expr} (h : e.Parenless) : IsParenless e.leafText.toList := by
  cases e with
  | bool value => cases value <;> decide
  | int value => exact Literal.isParenless_signed value
  | uint value => exact Literal.isParenless_unsigned value
  | float value => exact Literal.isParenless_single value
  | string content => exact Literal.isParenless_quoted (h content (List.mem_singleton_self _))
  | name text => exact Name.isParenless_written (h text (List.mem_singleton_self _))
  | typeName text => exact h text (List.mem_singleton_self _)
  | _ => exact ⟨List.not_mem_nil, List.not_mem_nil⟩

theorem ink_layout_of_isLeaf {e : Expr} (h : e.isLeaf = true) :
    e.layout.ink = e.leafText.toList := by
  cases e with
  | member | call | unary | binary => cases h
  | _ => exact List.append_nil _

theorem isParenless_unaryText (op : UnaryOp) : IsParenless op.text.toList := by
  cases op <;> decide

theorem isParenless_binaryText (op : BinaryOp) :
    IsParenless (" " ++ op.text ++ " ").toList := by
  cases op <;> decide

mutual

theorem paired_ink (e : Expr) (h : e.Parenless) : Paired '(' ')' e.layout.ink := by
  match e with
  | .member operand field =>
    have hoperand := paired_ink operand fun content hc => h content (List.mem_append_left _ hc)
    have hfield := Name.isParenless_written (h field (List.mem_append_right _ (by simp)))
    have hpoint : IsParenless ('.' :: (Name.written field).toList) :=
      .append (a := ['.']) (by decide) hfield
    simpa [layout, Layout.name, Cmd.ink] using hoperand.append hpoint.paired
  | .call function arguments =>
    have hfunction := Name.isParenless_written (h function (List.mem_cons_self ..))
    have harguments := paired_inkAll arguments fun content hc =>
      h content (List.mem_cons_of_mem _ hc)
    rw [layout]
    split
    · exact IsParenless.paired (by decide)
    · simpa [Layout.name, Cmd.ink] using hfunction.paired.append (harguments.wrap (by decide))
  | .unary op operand =>
    have hinner := Layout.paired_parens (paired_ink operand h) (operand.groupedUnder op)
    simp only [layout]
    split
    · simpa [Cmd.ink] using hinner.append (isParenless_unaryText op).paired
    · simpa [Cmd.ink] using (isParenless_unaryText op).paired.append hinner
  | .binary op left right =>
    have hleft := paired_ink left fun content hc => h content (List.mem_append_left _ hc)
    have hright := paired_ink right fun content hc => h content (List.mem_append_right _ hc)
    have hall := (hleft.append (isParenless_binaryText op).paired).append hright
    rw [layout]
    refine Layout.paired_parens ?_ _
    simpa [Cmd.ink] using hall
  | .bool _ | .int _ | .uint _ | .float _ | .string _ | .name _ | .typeName _ =>
    rw [ink_layout_of_isLeaf rfl]
    exact (isParenless_leafText h).paired

theorem paired_inkAll (es : List Expr)
    (h : ∀ content ∈ contentsAll es, IsParenless content.toList) :
    Paired '(' ')' (Layout.commaSeparated (layouts es)).ink := by
  match es with
  | [] => exact IsParenless.paired (by decide)
  | [e] =>
    have he := paired_ink e fun content hc => h content (List.mem_append_left _ hc)
    simpa [layouts] using he
  | e :: f :: es =>
    have he := paired_ink e fun content hc => h content (List.mem_append_left _ hc)
    have hes := paired_inkAll (f :: es) fun content hc => h content (List.mem_append_right _ hc)
    have hcomma : Paired '(' ')' [',', ' '] := IsParenless.paired (by decide)
    simp only [layouts] at hes
    simpa [layouts, Cmd.ink] using he.append (hcomma.append hes)

end

/-! ## The inside of a condition -/

/-- The text of an expression without the parentheses that it puts around itself. -/
def inside : Expr → List Char
  | .binary op left right =>
    Layout.ink (left.layout ++ [.text (" " ++ op.text ++ " ")] ++ right.layout)
  | e => e.layout.ink

theorem ink_parens_layout (e : Expr) :
    Layout.ink (Layout.parens (!e.selfGrouped) e.layout) = '(' :: (e.inside ++ [')']) := by
  cases e with
  | binary op left right =>
    cases hop : op.isAssignment <;>
      simp [selfGrouped, layout, Layout.parens, inside, Cmd.ink, hop]
  | _ => simp [selfGrouped, Layout.parens, inside, Cmd.ink]

theorem paired_inside {e : Expr} (h : e.Parenless) : Paired '(' ')' e.inside := by
  cases e with
  | binary op left right =>
    have hleft := paired_ink left fun content hc => h content (List.mem_append_left _ hc)
    have hright := paired_ink right fun content hc => h content (List.mem_append_right _ hc)
    simpa [inside, Cmd.ink] using (hleft.append (isParenless_binaryText op).paired).append hright
  | _ => exact paired_ink _ h

/-- What stands on the left of a binary operator closes what it opens, and the operator comes behind
it. In all other expressions something else than a parenthesis stands first or last. -/
theorem unwrapped_inside {e : Expr} (h : e.Parenless) (hcomplete : e.defects = []) :
    Unwrapped '(' ')' e.inside := by
  by_cases hleaf : e.isLeaf = true
  · have hinside : e.inside = e.leafText.toList := by
      cases e with
      | binary => cases hleaf
      | _ => exact ink_layout_of_isLeaf hleaf
    intro inner heq
    exact absurd (heq ▸ List.mem_cons_self ..) (hinside ▸ (isParenless_leafText h).1)
  · cases e with
    | member operand field =>
      have hfield := Name.isParenless_written (h field (List.mem_append_right _ (by simp)))
      have hback := unwrapped_of_back '(' (Layout.ink (operand.layout ++ [.text "."]))
        (Name.toList_written_ne_nil field) hfield.2
      simpa [inside, layout, Layout.name, Cmd.ink] using hback
    | call function arguments =>
      have hfunction := Name.isParenless_written (h function (List.mem_cons_self ..))
      have hnamed : function ≠ "" := by
        rintro rfl
        cases hcomplete
      have hfront := unwrapped_of_front ')' (Name.toList_written_ne_nil function)
        hfunction.1 ('(' :: (Layout.ink (Layout.commaSeparated (layouts arguments)) ++ [')']))
      simpa [inside, layout, hnamed, Layout.name, Cmd.ink] using hfront
    | unary op operand =>
      have hop : op.text.toList ≠ [] := by cases op <;> decide
      have hparenless := isParenless_unaryText op
      simp only [inside, layout]
      split
      · have hback := unwrapped_of_back '('
          (Layout.ink (Layout.parens (operand.groupedUnder op) operand.layout)) hop hparenless.2
        simpa [Cmd.ink] using hback
      · have hfront := unwrapped_of_front ')' hop hparenless.1
          (Layout.ink (Layout.parens (operand.groupedUnder op) operand.layout))
        simpa [Cmd.ink] using hfront
    | binary op left right =>
      have hleft := paired_ink left fun content hc => h content (List.mem_append_left _ hc)
      have hop := isParenless_binaryText op
      have hinside : (Expr.binary op left right).inside =
          left.layout.ink ++ ((" " ++ op.text ++ " ").toList ++ right.layout.ink) := by
        simp [inside, Cmd.ink]
      rw [hinside]
      by_cases hempty : left.layout.ink = []
      · rw [hempty]
        exact unwrapped_of_front ')' (by simp) hop.1 _
      · exact hleft.unwrapped_append (by decide) hempty (by simp)
    | _ => exact absurd rfl hleaf

end Expr

/-! ## Conditions -/

namespace Stmt

theorem isFlat_branchHead {condition : Expr} (h : condition.defects = []) :
    Layout.IsFlat (branchHead condition) :=
  (Layout.isFlat_text "if ").append ((condition.isFlat_layout h).parens _)

theorem ink_branchHead (condition : Expr) :
    (branchHead condition).ink = "if (".toList ++ condition.inside ++ ")".toList := by
  rw [branchHead, Layout.ink_append, condition.ink_parens_layout]
  simp [Cmd.ink]

/-- A condition in which nothing is refused, without parentheses in its names, type names and texts,
is written in one pair of them: what is inside is paired, and is not itself such a pair with
something paired inside. -/
theorem condition_enclosed (condition : Expr) (hparenless : condition.Parenless)
    (hcomplete : condition.defects = []) :
    ∃ m : String, Paired '(' ')' m.toList ∧ Unwrapped '(' ')' m.toList ∧
      ∀ (elide keepLine : Bool) (place : Place) (body : Option Stmt)
        (otherwise : Option (List Stmt)) (p : Printer),
        (body.isSome || otherwise.isSome) = true → p.sink.writer.room = none →
        Printer.run ((Stmt.branch condition body otherwise).core elide place keepLine) p =
          Printer.run ([.text "if ", .text ("(" ++ m ++ ")")] ++
            (consequent elide place.nested otherwise.isSome body ++
              alternative elide place.nested otherwise)) p := by
  refine ⟨String.ofList condition.inside, ?_, ?_, ?_⟩
  · rw [String.toList_ofList]
    exact Expr.paired_inside hparenless
  · rw [String.toList_ofList]
    exact Expr.unwrapped_inside hparenless hcomplete
  · intro elide keepLine place body otherwise p hpresent hroom
    have hcore : (Stmt.branch condition body otherwise).core elide place keepLine =
        branchHead condition ++ (consequent elide place.nested otherwise.isSome body ++
          alternative elide place.nested otherwise) := by
      rw [Stmt.core, if_neg, List.append_assoc]
      revert hpresent
      cases body <;> cases otherwise <;> simp
    have hpieces : Layout.IsFlat
        [.text "if ", .text ("(" ++ String.ofList condition.inside ++ ")")] :=
      Layout.isFlat_cons _ (Layout.isFlat_text _)
    have hink : (branchHead condition).ink =
        Layout.ink [.text "if ", .text ("(" ++ String.ofList condition.inside ++ ")")] := by
      rw [ink_branchHead]
      simp [Cmd.ink]
    rw [hcore, Printer.run_unlimited hroom, Printer.run_unlimited hroom, Layout.effect_append,
      Layout.effect_append,
      Layout.effect_eq_put (isFlat_branchHead hcomplete) (by simp [branchHead]),
      Layout.effect_eq_put hpieces (by simp), hink]

/-- A comparison whose operands start and end with parentheses of their own. -/
theorem condition_enclosed_comparison :
    let sum : Expr := .binary .add (.name "a") (.name "b")
    let condition : Expr := .binary .eq sum sum
    let s : Stmt := .branch condition none (some [])
    condition.Parenless ∧ condition.defects = [] ∧
      Printer.written (Printer.writeStmt .outside s) (.start {} {}) =
        "if ((a + b) == (a + b))\n\x7b\n\x7d\nelse\n\x7b\n\x7d\n".toUTF8 ∧
      ∃ m : String, Paired '(' ')' m.toList ∧ Unwrapped '(' ')' m.toList ∧
        Printer.run (s.core true .outside false) (.start {} {}) =
          Printer.run ([.text "if ", .text ("(" ++ m ++ ")")] ++
            (consequent true .outside true none ++ alternative true .outside (some [])))
            (.start {} {}) := by
  intro sum condition s
  have hparenless : condition.Parenless := by
    simp [Expr.Parenless, condition, sum, Expr.contents, IsParenless]
  obtain ⟨m, hpaired, hunwrapped, hrun⟩ := condition_enclosed condition hparenless rfl
  exact ⟨hparenless, rfl, by decide +kernel, m, hpaired, hunwrapped,
    hrun true false .outside none (some []) (.start {} {}) rfl rfl⟩

end Stmt

end Scribe
