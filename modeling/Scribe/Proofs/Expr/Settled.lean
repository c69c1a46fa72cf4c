import Scribe.Proofs.Expr.Token

/-! Settled expressions. A member access never groups its operand and an assignment never groups its
target, so a field behind an assignment or behind a bare prefix operator moves inwards, and chained
assignments lean to the right. A settled expression has neither pattern anywhere: it is grouped the
way its text is. The tokens of a settled expression whose leaves are words are legible. -/

namespace Scribe.Expr

def isAssignment : Expr → Bool
  | .binary op _ _ => op.isAssignment
  | _ => false

/-- Whether a field that is written behind the expression is a field of all of it. -/
def takesField : Expr → Bool
  | .binary op _ _ => !op.isAssignment
  | .unary op operand => op.followsOperand || operand.groupedUnder op
  | _ => true

mutual

def settled : Expr → Bool
  | .member operand _ => operand.settled && operand.takesField
  | .call _ arguments => settledAll arguments
  | .unary _ operand => operand.settled
  | .binary op left right =>
    left.settled && right.settled && !(op.isAssignment && left.isAssignment)
  | _ => true

def settledAll : List Expr → Bool
  | [] => true
  | e :: es => e.settled && settledAll es

end

/-- What a leaf is written as. -/
def leafText : Expr → String
  | .bool value => Literal.bool value
  | .int value => Literal.signed value
  | .uint value => Literal.unsigned value
  | .float value => Literal.single value
  | .string content => Literal.quoted content
  | .name text => Name.written text
  | .typeName text => text
  | _ => ""

mutual

/-- Every leaf is one word; every name can be read back. -/
def Worded : Expr → Prop
  | .member operand field => operand.Worded ∧ '`' ∉ field.toList
  | .call function arguments => '`' ∉ function.toList ∧ WordedAll arguments
  | .unary _ operand => operand.Worded
  | .binary _ left right => left.Worded ∧ right.Worded
  | e => IsWord e.leafText.toList

def WordedAll : List Expr → Prop
  | [] => True
  | e :: es => e.Worded ∧ WordedAll es

end

/-! ## Which operands are grouped -/

theorem groupedUnder_of_not_follows {op : UnaryOp} (h : op.followsOperand = false) (e : Expr) :
    e.groupedUnder op = (e.isAssignment || e.leadingSign == some op.sign) := by
  cases e with
  | binary inner left right => simp [groupedUnder, isAssignment, leadingSign]
  | _ => simp [groupedUnder, isAssignment, h]

theorem isAssignment_of_groupedUnder_eq_false {op : UnaryOp} {e : Expr}
    (h : e.groupedUnder op = false) : e.isAssignment = false := by
  cases e with
  | binary inner left right => exact h
  | _ => rfl

theorem isAssignment_of_takesField {e : Expr} (h : e.takesField = true) :
    e.isAssignment = false := by
  cases e with
  | binary inner left right => exact (Bool.not_eq_true' _).mp h
  | _ => rfl

/-! ## Legibility -/

theorem head_word {w : List Char} (h : IsWord w) (rest : List Char) :
    (w ++ rest).head? ≠ some '-' := by
  have hscan := h [] stops_nil
  rw [List.append_nil] at hscan
  cases w with
  | nil => cases hscan
  | cons c w =>
    intro hc
    obtain rfl : c = '-' := Option.some.inj hc
    cases hscan

/-- Only an expression with a leading minus sign starts with one. -/
theorem leadingSign_of_head (e : Expr) (hworded : e.Worded)
    (hset : e.settled = true) (hassign : e.isAssignment = false) {rest : List Char}
    (h : (Token.texts e.tokens ++ rest).head? = some '-') : e.leadingSign = some '-' := by
  match e with
  | .member operand field =>
    obtain ⟨hset, htakes⟩ := Bool.and_eq_true_iff.mp hset
    rw [tokens, Token.texts_append, List.append_assoc] at h
    exact leadingSign_of_head operand hworded.1 hset (isAssignment_of_takesField htakes) h
  | .call function arguments =>
    rw [tokens, Token.texts_cons, Token.text, List.append_assoc, List.append_assoc] at h
    exact absurd h (head_word (isWord_written hworded.1) _)
  | .unary op operand =>
    rw [tokens] at h
    cases hop : op.followsOperand with
    | true =>
      have hsign : (Expr.unary op operand).leadingSign = operand.leadingSign := by
        cases op with
        | postIncrement => rfl
        | postDecrement => rfl
        | _ => cases hop
      rw [if_pos hop, Token.texts_append, List.append_assoc] at h
      cases hgroup : operand.groupedUnder op with
      | true =>
        rw [hgroup] at h
        cases h
      | false =>
        have hbare := isAssignment_of_groupedUnder_eq_false hgroup
        rw [hgroup] at h
        rw [hsign]
        exact leadingSign_of_head operand hworded hset hbare h
    | false =>
      rw [if_neg (by simp [hop]), Token.texts_cons] at h
      cases op with
      | negate => rfl
      | preDecrement => rfl
      | not => cases h
      | preIncrement => cases h
      | _ => cases hop
  | .binary op left right =>
    rw [tokens, show op.isAssignment = false from hassign] at h
    cases h
  | .bool _ | .int _ | .uint _ | .float _ | .string _ | .name _ | .typeName _ =>
    rw [tokens, Token.texts_cons, Token.text, List.append_assoc] at h
    exact absurd h (head_word hworded _)

private theorem legible_parens {ts : List Token}
    (h : ∀ rest, Token.Legible false rest → Token.Legible true (ts ++ rest)) (wanted : Bool)
    {rest : List Token} (hrest : Token.Legible false rest) :
    Token.Legible true (Token.parens wanted ts ++ rest) := by
  cases wanted with
  | false => exact h rest hrest
  | true =>
    have hinner := h (.rightParen :: rest) ⟨rfl, trivial, hrest⟩
    rw [Token.parens, if_pos rfl, List.append_assoc]
    exact ⟨rfl, trivial, hinner⟩

private theorem clear_before {op : UnaryOp} (operand : Expr)
    (hop : op.followsOperand = false) (hworded : operand.Worded)
    (hset : operand.settled = true) (rest : List Token) :
    (Token.before op).Clear
      (Token.texts (Token.parens (operand.groupedUnder op) operand.tokens ++ rest)) := by
  cases op with
  | negate =>
    cases hgroup : operand.groupedUnder .negate with
    | true => exact nofun
    | false =>
      rw [groupedUnder_of_not_follows hop, Bool.or_eq_false_iff] at hgroup
      intro hhead
      rw [Token.texts_append] at hhead
      have hsign := leadingSign_of_head operand hworded hset hgroup.1 hhead
      rw [hsign] at hgroup
      cases hgroup.2
  | _ => trivial

mutual

theorem legible_tokens (e : Expr) (hworded : e.Worded)
    (hset : e.settled = true) {rest : List Token} (hrest : Token.Legible false rest) :
    Token.Legible true (e.tokens ++ rest) := by
  match e with
  | .member operand field =>
    have hfield : Token.Legible false (.field (Name.written field).toList :: rest) :=
      ⟨rfl, ⟨isWord_written hworded.2, stops_field field⟩, hrest⟩
    rw [tokens, List.append_assoc]
    exact legible_tokens operand hworded.1 (Bool.and_eq_true_iff.mp hset).1 hfield
  | .call function arguments =>
    have hargs := legible_tokensAll arguments hworded.2 hset hrest
    rw [tokens, List.cons_append, List.append_assoc]
    exact ⟨rfl, isWord_written hworded.1, hargs⟩
  | .unary op operand =>
    have hinner : ∀ rest, Token.Legible false rest → Token.Legible true (operand.tokens ++ rest) :=
      fun _ h => legible_tokens operand hworded hset h
    rw [tokens]
    cases hop : op.followsOperand with
    | true =>
      have hafter : Token.Legible false (.after op :: rest) := ⟨hop, trivial, hrest⟩
      rw [if_pos rfl, List.append_assoc]
      exact legible_parens hinner _ hafter
    | false =>
      have hfits : (Token.before op).fits true = true := by rw [Token.fits, hop]; rfl
      have hclear := clear_before operand hop hworded hset rest
      exact ⟨hfits, hclear, legible_parens hinner _ hrest⟩
  | .binary op left right =>
    rw [settled, Bool.and_eq_true, Bool.and_eq_true] at hset
    rw [tokens]
    refine legible_parens (fun rest hrest => ?_) _ hrest
    have hright := legible_tokens right hworded.2 hset.1.2 hrest
    have hbetween : Token.Legible false (.between op :: (right.tokens ++ rest)) :=
      ⟨rfl, trivial, hright⟩
    rw [List.append_assoc]
    exact legible_tokens left hworded.1 hset.1.1 hbetween
  | .bool _ | .int _ | .uint _ | .float _ | .string _ | .name _ | .typeName _ =>
    exact ⟨rfl, hworded, hrest⟩

theorem legible_tokensAll (es : List Expr) (hworded : WordedAll es)
    (hset : settledAll es = true) {rest : List Token} (hrest : Token.Legible false rest) :
    Token.Legible true (Token.commaSeparated (tokensAll es) ++ .rightParen :: rest) := by
  match es with
  | [] => exact ⟨rfl, trivial, hrest⟩
  | [e] =>
    have hparen : Token.Legible false (.rightParen :: rest) := ⟨rfl, trivial, hrest⟩
    exact legible_tokens e hworded.1 (Bool.and_eq_true_iff.mp hset).1 hparen
  | e :: f :: es =>
    obtain ⟨he, hes⟩ := Bool.and_eq_true_iff.mp hset
    have hcomma : Token.Legible false
        (.comma :: (Token.commaSeparated (tokensAll (f :: es)) ++ .rightParen :: rest)) :=
      ⟨rfl, trivial, legible_tokensAll (f :: es) hworded.2 hes hrest⟩
    have happ : Token.commaSeparated (tokensAll (e :: f :: es)) ++ .rightParen :: rest =
        e.tokens ++ (.comma ::
          (Token.commaSeparated (tokensAll (f :: es)) ++ .rightParen :: rest)) := by
      simp [tokensAll, Token.commaSeparated]
    rw [happ]
    exact legible_tokens e hworded.1 he hcomma

end

end Scribe.Expr
