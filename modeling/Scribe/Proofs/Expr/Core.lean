import Scribe.Proofs.Expr.Grouping
import Scribe.Proofs.Numeral

/-! How much of an expression its text tells when leaves may be of any kind. Of a leaf nothing is
seen but its text, so a float that is infinite and a name can be written alike; and the sign of a
literal cannot be told from a negation. The core of an expression is what is left: each leaf stands
for its text, and a sign is an operator. For the proof the signs are split off first, without
changing the text; what results is settled and made of words, so it is read back. -/

namespace Scribe.Expr

/-! ## Cores -/

/-- The leaf that is written like this: type names are written as they stand. -/
def ofText (text : List Char) : Expr := .typeName (String.ofList text)

/-- A minus sign in front is taken for a negation. -/
def ofSignedText : List Char → Expr
  | '-' :: rest => .unary .negate (ofText rest)
  | text => ofText text

mutual

def core : Expr → Expr
  | .member operand field => .member operand.core field
  | .call function arguments => .call function (coreAll arguments)
  | .unary op operand => .unary op operand.core
  | .binary op left right => .binary op left.core right.core
  | leaf => ofSignedText leaf.leafText.toList

def coreAll : List Expr → List Expr
  | [] => []
  | e :: es => e.core :: coreAll es

end

/-! ## Which expressions are told apart -/

/-- A literal that is written with a minus sign. -/
def isSigned (e : Expr) : Bool := e.leafText.toList.head? == some '-'

/-- A prefix operator with its operand. -/
def isPrefixed : Expr → Bool
  | .unary op _ => !op.followsOperand
  | _ => false

mutual

/-- Names are free of backticks and texts of quotes, and no call lacks its name. An assignment
stands nowhere but as a whole, as an argument, under a unary operator or to the right of another; a
field is taken neither of an assignment nor of a prefix operator or of a literal with a sign, and no
postfix operator follows a literal with a sign. -/
def legible : Expr → Bool
  | .string content => !content.toList.contains '"'
  | .name text => Name.delimitable text
  | .typeName text => Name.isPlain text
  | .member operand field =>
    operand.legible && Name.delimitable field &&
      !(operand.isAssignment || operand.isPrefixed || operand.isSigned)
  | .call function arguments =>
    function != "" && Name.delimitable function && legibleAll arguments
  | .unary op operand => operand.legible && !(op.followsOperand && operand.isSigned)
  | .binary op left right =>
    left.legible && right.legible && !left.isAssignment &&
      (op.isAssignment || !right.isAssignment)
  | _ => true

def legibleAll : List Expr → Bool
  | [] => true
  | e :: es => e.legible && legibleAll es

end

/-! ## Splitting signs off -/

/-- The leaf itself, unless a minus sign stands in front. -/
def splitLeaf (leaf : Expr) : List Char → Expr
  | '-' :: rest => .unary .negate (ofText rest)
  | _ => leaf

mutual

/-- Literals with a minus sign become negations of what stands behind the sign. -/
def split : Expr → Expr
  | .member operand field => .member operand.split field
  | .call function arguments => .call function (splitAll arguments)
  | .unary op operand => .unary op operand.split
  | .binary op left right => .binary op left.split right.split
  | leaf => splitLeaf leaf leaf.leafText.toList

def splitAll : List Expr → List Expr
  | [] => []
  | e :: es => e.split :: splitAll es

end

def isLeaf : Expr → Bool
  | .member .. | .call .. | .unary .. | .binary .. => false
  | _ => true

theorem split_of_isLeaf {e : Expr} (h : e.isLeaf = true) :
    e.split = splitLeaf e e.leafText.toList := by
  cases e with
  | member | call | unary | binary => cases h
  | _ => rfl

theorem core_of_isLeaf {e : Expr} (h : e.isLeaf = true) :
    e.core = ofSignedText e.leafText.toList := by
  cases e with
  | member | call | unary | binary => cases h
  | _ => rfl

theorem recast_of_isLeaf {e : Expr} (h : e.isLeaf = true) (leaf : List Char → Expr) :
    e.recast leaf = leaf e.leafText.toList := by
  cases e with
  | member | call | unary | binary => cases h
  | _ => rfl

theorem tokens_of_isLeaf {e : Expr} (h : e.isLeaf = true) :
    e.tokens = [.word e.leafText.toList] := by
  cases e with
  | member | call | unary | binary => cases h
  | _ => rfl

theorem splitLeaf_of_head {text : List Char} (h : text.head? ≠ some '-') (leaf : Expr) :
    splitLeaf leaf text = leaf := by
  unfold splitLeaf
  split
  · exact absurd rfl h
  · rfl

theorem split_of_not_isSigned {e : Expr} (h : e.isLeaf = true) (hs : e.isSigned = false) :
    e.split = e := by
  rw [split_of_isLeaf h]
  apply splitLeaf_of_head
  simpa [isSigned] using hs

private theorem recast_split_leaf {e : Expr} (h : e.isLeaf = true) :
    e.split.recast ofText = e.core := by
  rw [split_of_isLeaf h, core_of_isLeaf h]
  unfold splitLeaf ofSignedText
  split
  · next rest => simp [recast, ofText, leafText]
  · exact recast_of_isLeaf h ofText

mutual

/-- Once the signs are split off, only the leaves remain to be replaced by their texts. -/
theorem recast_split (e : Expr) : e.split.recast ofText = e.core := by
  match e with
  | .member operand field => rw [split, recast, recast_split operand, core]
  | .call function arguments => rw [split, recast, recastAll_splitAll arguments, core]
  | .unary op operand => rw [split, recast, recast_split operand, core]
  | .binary op left right => rw [split, recast, recast_split left, recast_split right, core]
  | .bool _ | .int _ | .uint _ | .float _ | .string _ | .name _ | .typeName _ =>
    exact recast_split_leaf rfl

theorem recastAll_splitAll (es : List Expr) : recastAll ofText (splitAll es) = coreAll es := by
  match es with
  | [] => rfl
  | e :: es => rw [splitAll, recastAll, recast_split e, recastAll_splitAll es, coreAll]

end

/-! ## Leaves -/

/-- A leaf is a word, or a minus sign before a word; then it is known to start with the sign. -/
theorem leaf_cases {e : Expr} (hleaf : e.isLeaf = true) (h : e.legible = true) :
    IsWord e.leafText.toList ∨
      ∃ w, e.leafText.toList = '-' :: w ∧ IsWord w ∧ e.leadingSign = some '-' := by
  cases e with
  | member | call | unary | binary => cases hleaf
  | bool value => exact Or.inl (Literal.isWord_bool value)
  | uint value => exact Or.inl (Literal.isWord_unsigned value)
  | string content =>
    refine Or.inl (Literal.isWord_quoted fun hmem => ?_)
    rw [legible, List.contains_iff_mem.mpr hmem] at h
    cases h
  | name text => exact Or.inl (isWord_written (not_mem_of_delimitable h))
  | typeName text => exact Or.inl (isWord_plain h)
  | int value =>
    by_cases hv : 0 ≤ value
    · exact Or.inl (Literal.isWord_signed hv)
    · obtain ⟨w, htext, hw⟩ := Literal.exists_isWord_signed hv
      have hneg : value < 0 := Int32.not_le.mp hv
      exact Or.inr ⟨w, htext, hw, by rw [leadingSign, if_pos hneg]⟩
  | float value =>
    by_cases hv : value.isNaN = true ∨ value.negative = false
    · exact Or.inl (Literal.isWord_single hv)
    · rw [not_or, Bool.not_eq_true, Bool.not_eq_false] at hv
      obtain ⟨w, htext, hw⟩ := Literal.exists_isWord_single hv.1 hv.2
      exact Or.inr ⟨w, htext, hw, by rw [leadingSign, hv.2]; rfl⟩

/-! ## What splitting keeps -/

theorem isAssignment_split (e : Expr) : e.split.isAssignment = e.isAssignment := by
  by_cases hleaf : e.isLeaf = true
  · have hbare : e.isAssignment = false := by
      cases e with
      | binary => cases hleaf
      | _ => rfl
    rw [split_of_isLeaf hleaf, hbare]
    unfold splitLeaf
    split
    · rfl
    · exact hbare
  · cases e with
    | member | call | unary | binary => rfl
    | _ => exact absurd rfl hleaf

/-- The text, the words, the grouping and the sign in front. -/
structure Kept (e : Expr) : Prop where
  texts : Token.texts e.split.tokens = Token.texts e.tokens
  worded : e.split.Worded
  settled : e.split.settled = true
  leadingSign : e.split.leadingSign = e.leadingSign

theorem Kept.groupedUnder {e : Expr} (h : Kept e) {op : UnaryOp}
    (hsigned : op.followsOperand = true → e.isSigned = false) :
    e.split.groupedUnder op = e.groupedUnder op := by
  -- in front of its operand an operator looks for a sign, behind it at the shape of the operand
  cases hop : op.followsOperand with
  | false =>
    rw [groupedUnder_of_not_follows hop, groupedUnder_of_not_follows hop, isAssignment_split,
      h.leadingSign]
  | true =>
    by_cases hleaf : e.isLeaf = true
    · rw [split_of_not_isSigned hleaf (hsigned hop)]
    · cases e with
      | call | binary => rfl
      | member | unary => simp [split, Expr.groupedUnder, hop]
      | _ => exact absurd rfl hleaf

theorem takesField_split {e : Expr}
    (h : (e.isAssignment || e.isPrefixed || e.isSigned) = false) : e.split.takesField = true := by
  simp only [Bool.or_eq_false_iff] at h
  obtain ⟨⟨hassign, hprefixed⟩, hsigned⟩ := h
  by_cases hleaf : e.isLeaf = true
  · rw [split_of_not_isSigned hleaf hsigned]
    cases e with
    | member | call | unary | binary => cases hleaf
    | _ => rfl
  · cases e with
    | member | call => rfl
    | unary op operand =>
      have hop : op.followsOperand = true := by simpa [isPrefixed] using hprefixed
      rw [split, takesField, hop]
      rfl
    | binary op left right =>
      have hop : op.isAssignment = false := hassign
      rw [split, takesField, hop]
      rfl
    | _ => exact absurd rfl hleaf

theorem kept_leaf {e : Expr} (hleaf : e.isLeaf = true) (h : e.legible = true) : Kept e := by
  rcases leaf_cases hleaf h with hword | ⟨w, htext, hw, hsign⟩
  · have hhead := head_word hword []
    rw [List.append_nil] at hhead
    -- no word starts with a minus sign, so there is nothing to split off
    have hsame : e.split = e := by rw [split_of_isLeaf hleaf, splitLeaf_of_head hhead]
    have hworded : e.Worded ∧ e.settled = true := by
      cases e with
      | member | call | unary | binary => cases hleaf
      | _ => exact ⟨hword, rfl⟩
    refine ⟨?_, ?_, ?_, ?_⟩ <;> rw [hsame]
    · exact hworded.1
    · exact hworded.2
  · have hsplit : e.split = .unary .negate (ofText w) := by
      rw [split_of_isLeaf hleaf, htext]
      rfl
    have hofText : (ofText w).leafText.toList = w := by simp [ofText, leafText]
    have hworded : (ofText w).Worded := by
      show IsWord (ofText w).leafText.toList
      rw [hofText]
      exact hw
    refine ⟨?_, hsplit ▸ hworded, hsplit ▸ rfl, ?_⟩
    · have htokens : (Expr.unary .negate (ofText w)).tokens = [.before .negate, .word w] := by
        simp [tokens, ofText, groupedUnder, leadingSign, Token.parens, UnaryOp.followsOperand]
      rw [hsplit, htokens, tokens_of_isLeaf hleaf, htext]
      rfl
    · rw [hsplit, hsign]
      rfl

theorem kept_unary {op : UnaryOp} {operand : Expr} (h : Kept operand)
    (hsigned : op.followsOperand = true → operand.isSigned = false) : Kept (.unary op operand) := by
  have hgroup := h.groupedUnder hsigned
  refine ⟨?_, h.worded, h.settled, ?_⟩
  · have hparens : ∀ wanted, Token.texts (Token.parens wanted operand.split.tokens) =
        Token.texts (Token.parens wanted operand.tokens) := by
      intro wanted
      cases wanted <;> simp [Token.parens, h.texts]
    rw [split, tokens, tokens, hgroup]
    cases op.followsOperand <;> simp [hparens]
  · cases op with
    | postIncrement => exact h.leadingSign
    | postDecrement => exact h.leadingSign
    | _ => rfl

theorem kept_binary {op : BinaryOp} {left right : Expr} (hleft : Kept left) (hright : Kept right)
    (htarget : left.isAssignment = false) : Kept (.binary op left right) := by
  refine ⟨?_, ⟨hleft.worded, hright.worded⟩, ?_, rfl⟩
  · rw [split, tokens, tokens]
    cases op.isAssignment <;> simp [Token.parens, hleft.texts, hright.texts]
  · rw [split, Expr.settled, hleft.settled, hright.settled, isAssignment_split, htarget]
    simp

mutual

theorem kept_of_legible (e : Expr) (h : e.legible = true) : Kept e := by
  match e with
  | .member operand field =>
    simp only [legible, Bool.and_eq_true, Bool.not_eq_true'] at h
    obtain ⟨⟨hoperand, hfield⟩, hbare⟩ := h
    have hkept := kept_of_legible operand hoperand
    refine ⟨?_, ⟨hkept.worded, not_mem_of_delimitable hfield⟩, ?_, hkept.leadingSign⟩
    · rw [split, tokens, tokens, Token.texts_append, Token.texts_append, hkept.texts]
    · rw [split, Expr.settled, hkept.settled, takesField_split hbare]
      rfl
  | .call function arguments =>
    simp only [legible, Bool.and_eq_true] at h
    obtain ⟨⟨-, hfunction⟩, harguments⟩ := h
    obtain ⟨htexts, hworded, hsettled⟩ := keptAll_of_legible arguments harguments
    refine ⟨?_, ⟨not_mem_of_delimitable hfunction, hworded⟩, hsettled, rfl⟩
    rw [split, tokens, tokens, Token.texts_cons, Token.texts_cons, Token.texts_append,
      Token.texts_append, htexts]
  | .unary op operand =>
    simp only [legible, Bool.and_eq_true, Bool.not_eq_true'] at h
    refine kept_unary (kept_of_legible operand h.1) fun hop => ?_
    simpa [hop] using h.2
  | .binary op left right =>
    simp only [legible, Bool.and_eq_true, Bool.not_eq_true'] at h
    obtain ⟨⟨⟨hleft, hright⟩, htarget⟩, -⟩ := h
    exact kept_binary (kept_of_legible left hleft) (kept_of_legible right hright) htarget
  | .bool _ | .int _ | .uint _ | .float _ | .string _ | .name _ | .typeName _ =>
    exact kept_leaf rfl h

theorem keptAll_of_legible (es : List Expr) (h : legibleAll es = true) :
    Token.texts (Token.commaSeparated (tokensAll (splitAll es))) =
        Token.texts (Token.commaSeparated (tokensAll es)) ∧
      WordedAll (splitAll es) ∧ settledAll (splitAll es) = true := by
  match es with
  | [] => exact ⟨rfl, trivial, rfl⟩
  | [e] =>
    obtain ⟨hhead, -⟩ := Bool.and_eq_true_iff.mp h
    have he := kept_of_legible e hhead
    refine ⟨he.texts, ⟨he.worded, trivial⟩, ?_⟩
    simp [splitAll, settledAll, he.settled]
  | e :: f :: es =>
    obtain ⟨hhead, hrest⟩ := Bool.and_eq_true_iff.mp h
    have he := kept_of_legible e hhead
    obtain ⟨htexts, hworded, hsettled⟩ := keptAll_of_legible (f :: es) hrest
    simp only [splitAll, tokensAll] at htexts hworded hsettled
    refine ⟨?_, ⟨he.worded, hworded⟩, ?_⟩
    · simp only [splitAll, tokensAll, Token.commaSeparated, Token.texts_append, Token.texts_cons,
        he.texts, htexts]
    · rw [splitAll, settledAll, he.settled, splitAll, hsettled]
      rfl

end

mutual

theorem defects_of_legible (e : Expr) (h : e.legible = true) : e.defects = [] := by
  match e with
  | .member operand field =>
    simp only [legible, Bool.and_eq_true] at h
    exact defects_of_legible operand h.1.1
  | .call function arguments =>
    simp only [legible, Bool.and_eq_true, bne_iff_ne] at h
    rw [defects, if_neg h.1.1]
    exact defectsAll_of_legible arguments h.2
  | .unary op operand => exact defects_of_legible operand (Bool.and_eq_true_iff.mp h).1
  | .binary op left right =>
    simp only [legible, Bool.and_eq_true] at h
    rw [defects, defects_of_legible left h.1.1.1, defects_of_legible right h.1.1.2]
    rfl
  | .bool _ | .int _ | .uint _ | .float _ | .string _ | .name _ | .typeName _ => rfl

theorem defectsAll_of_legible (es : List Expr) (h : legibleAll es = true) :
    defectsAll es = [] := by
  match es with
  | [] => rfl
  | e :: es =>
    obtain ⟨he, hes⟩ := Bool.and_eq_true_iff.mp h
    rw [defectsAll, defects_of_legible e he, defectsAll_of_legible es hes]
    rfl

end

/-! ## The text of an expression -/

theorem core_eq_of_texts_eq {a b : Expr} (ha : a.legible = true) (hb : b.legible = true)
    (h : Token.texts a.tokens = Token.texts b.tokens) : a.core = b.core := by
  have hka := kept_of_legible a ha
  have hkb := kept_of_legible b hb
  have htexts : Token.texts a.split.tokens = Token.texts b.split.tokens := by
    rw [hka.texts, h, hkb.texts]
  rw [← recast_split a, ← recast_split b]
  exact recast_eq_of_texts_eq ofText hka.worded hkb.worded hka.settled hkb.settled htexts

/-- Legible expressions with the same text have the same core. -/
theorem written_determines_core (a b : Expr) (p q : Printer) (ha : a.legible = true)
    (hb : b.legible = true) (hp : p.sink.writer.room = none) (hq : q.sink.writer.room = none)
    (h : Printer.written (Printer.writeExpr a) p = Printer.written (Printer.writeExpr b) q) :
    a.core = b.core := by
  rw [written_eq_texts (defects_of_legible a ha) hp,
    written_eq_texts (defects_of_legible b hb) hq] at h
  exact core_eq_of_texts_eq ha hb (String.ofList_injective (String.toByteArray_inj.mp h))

/-- Two calls that differ in the pattern behind a `NaNf`, in the kind of the name `x` and in whose
sign the minus before `5` is. -/
theorem written_determines_core_signs :
    let a : Expr := .call "f" [.unary .negate (.float ⟨0xFFC00000⟩),
      .binary .assign (.name "x") (.unary .not (.int (-5)))]
    let b : Expr := .call "f" [.unary .negate (.float ⟨0xFFC00001⟩),
      .binary .assign (.typeName "x") (.unary .not (.unary .negate (.uint 5)))]
    let text : String := "f(-(NaNf), x = !-5)"
    a.legible = true ∧ b.legible = true ∧ a ≠ b ∧
      Printer.written (Printer.writeExpr a) (.start {} {}) = text.toUTF8 ∧
      Printer.written (Printer.writeExpr b) (.start {} {}) = text.toUTF8 ∧ a.core = b.core := by
  intro a b text
  have ha : a.legible = true := by decide +kernel
  have hb : b.legible = true := by decide +kernel
  have hta : Printer.written (Printer.writeExpr a) (.start {} {}) = text.toUTF8 := by
    decide +kernel
  have htb : Printer.written (Printer.writeExpr b) (.start {} {}) = text.toUTF8 := by
    decide +kernel
  refine ⟨ha, hb, fun h => ?_, hta, htb, ?_⟩
  · simp [a, b] at h
  · exact written_determines_core a b (.start {} {}) (.start {} {}) ha hb rfl rfl
      (hta.trans htb.symm)

end Scribe.Expr
