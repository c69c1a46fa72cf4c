import Scribe.Proofs.Expr.Reader

/-! How much of its grouping an expression keeps in writing. Among expressions over plain names, the
text of a settled one is that of no other settled one. An expression that is not settled has a part,
not always the whole, that is written exactly like another, settled expression, which is found by
moving a field inwards or by letting chained assignments lean to the right. -/

namespace Scribe

def Name.delimitable (name : String) : Bool := !name.toList.contains '`'

namespace Expr

mutual

/-- Plain names for leaves and functions, and no backtick in the name of a member. -/
def named : Expr → Bool
  | .name text => Name.isPlain text
  | .member operand field => operand.named && Name.delimitable field
  | .call function arguments => Name.isPlain function && namedAll arguments
  | .unary _ operand => operand.named
  | .binary _ left right => left.named && right.named
  | _ => false

def namedAll : List Expr → Bool
  | [] => true
  | e :: es => e.named && namedAll es

end

mutual

/-- The expression and everything in it. -/
def parts : Expr → List Expr
  | .member operand field => .member operand field :: operand.parts
  | .call function arguments => .call function arguments :: partsAll arguments
  | .unary op operand => .unary op operand :: operand.parts
  | .binary op left right => .binary op left right :: (left.parts ++ right.parts)
  | e => [e]

def partsAll : List Expr → List Expr
  | [] => []
  | e :: es => e.parts ++ partsAll es

end

/-- Both are written alike on every destination without a limit. -/
def WrittenAlike (a b : Expr) : Prop :=
  ∀ p : Printer, p.sink.writer.room = none →
    Printer.written (Printer.writeExpr a) p = Printer.written (Printer.writeExpr b) p

/-! ## Named expressions are made of words -/

def leafName (w : List Char) : Expr := .name (String.ofList w)

theorem not_mem_of_delimitable {name : String} (h : Name.delimitable name = true) :
    '`' ∉ name.toList := by
  intro hmem
  rw [Name.delimitable, List.contains_iff_mem.mpr hmem] at h
  cases h

private theorem not_mem_of_isPlain {name : String} (h : Name.isPlain name = true) :
    '`' ∉ name.toList := by
  intro hmem
  cases Name.isTail_of_mem h hmem

private theorem ne_empty_of_isPlain {name : String} (h : Name.isPlain name = true) : name ≠ "" := by
  rintro rfl
  cases h

mutual

theorem worded_of_named (e : Expr) (h : e.named = true) :
    e.Worded ∧ e.recast leafName = e := by
  match e with
  | .name text =>
    have hplain : Name.isPlain text = true := h
    have hwritten : (Expr.name text).leafText = text := by
      rw [leafText, Name.written, if_pos hplain]
    refine ⟨?_, ?_⟩
    · show IsWord (Expr.name text).leafText.toList
      rw [hwritten]
      exact isWord_plain hplain
    · show leafName (Expr.name text).leafText.toList = _
      rw [hwritten, leafName, String.ofList_toList]
  | .member operand field =>
    obtain ⟨hoperand, hfield⟩ := Bool.and_eq_true_iff.mp h
    obtain ⟨hworded, hsame⟩ := worded_of_named operand hoperand
    refine ⟨⟨hworded, not_mem_of_delimitable hfield⟩, ?_⟩
    rw [recast, hsame]
  | .call function arguments =>
    obtain ⟨hfunction, hargs⟩ := Bool.and_eq_true_iff.mp h
    obtain ⟨hworded, hsame⟩ := wordedAll_of_named arguments hargs
    refine ⟨⟨not_mem_of_isPlain hfunction, hworded⟩, ?_⟩
    rw [recast, hsame]
  | .unary _ operand =>
    obtain ⟨hworded, hsame⟩ := worded_of_named operand h
    refine ⟨hworded, ?_⟩
    rw [recast, hsame]
  | .binary _ left right =>
    obtain ⟨hleft, hright⟩ := Bool.and_eq_true_iff.mp h
    obtain ⟨hlw, hls⟩ := worded_of_named left hleft
    obtain ⟨hrw, hrs⟩ := worded_of_named right hright
    refine ⟨⟨hlw, hrw⟩, ?_⟩
    rw [recast, hls, hrs]
  | .bool _ | .int _ | .uint _ | .float _ | .string _ | .typeName _ => cases h

theorem wordedAll_of_named (es : List Expr) (h : namedAll es = true) :
    WordedAll es ∧ recastAll leafName es = es := by
  match es with
  | [] => exact ⟨trivial, rfl⟩
  | e :: es =>
    obtain ⟨he, hes⟩ := Bool.and_eq_true_iff.mp h
    obtain ⟨hworded, hsame⟩ := worded_of_named e he
    obtain ⟨hall, hsames⟩ := wordedAll_of_named es hes
    refine ⟨⟨hworded, hall⟩, ?_⟩
    rw [recastAll, hsame, hsames]

end

mutual

theorem defects_of_named (e : Expr) (h : e.named = true) :
    e.defects = [] := by
  match e with
  | .name _ => rfl
  | .member operand _ => exact defects_of_named operand (Bool.and_eq_true_iff.mp h).1
  | .call function arguments =>
    obtain ⟨hfunction, hargs⟩ := Bool.and_eq_true_iff.mp h
    rw [defects, if_neg (ne_empty_of_isPlain hfunction)]
    exact defectsAll_of_named arguments hargs
  | .unary _ operand => exact defects_of_named operand h
  | .binary _ left right =>
    obtain ⟨hleft, hright⟩ := Bool.and_eq_true_iff.mp h
    rw [defects, defects_of_named left hleft, defects_of_named right hright]
    rfl
  | .bool _ | .int _ | .uint _ | .float _ | .string _ | .typeName _ => rfl

theorem defectsAll_of_named (es : List Expr)
    (h : namedAll es = true) : defectsAll es = [] := by
  match es with
  | [] => rfl
  | e :: es =>
    obtain ⟨he, hes⟩ := Bool.and_eq_true_iff.mp h
    rw [defectsAll, defects_of_named e he, defectsAll_of_named es hes]
    rfl

end

theorem written_eq_texts {e : Expr} (h : e.defects = []) {p : Printer}
    (hp : p.sink.writer.room = none) :
    Printer.written (Printer.writeExpr e) p = (String.ofList (Token.texts e.tokens)).toUTF8 := by
  rw [written_writeExpr h hp, ink_layout e h]

/-! ## Regrouping -/

/-- The settled expression with the text of a field behind `e`. -/
def suffixed (field : String) : Expr → Expr
  | .binary op left right =>
    if op.isAssignment then .binary op left (right.suffixed field)
    else .member (.binary op left right) field
  | .unary op operand =>
    if op.followsOperand || operand.groupedUnder op then .member (.unary op operand) field
    else .unary op (operand.suffixed field)
  | e => .member e field

/-- The settled expression with the text of an assignment of `value` behind `e`. -/
def reassigned (op : BinaryOp) (value : Expr) : Expr → Expr
  | .binary inner left right =>
    if inner.isAssignment then .binary inner left (reassigned op value right)
    else .binary op (.binary inner left right) value
  | e => .binary op e value

theorem isAssignment_suffixed (field : String) (e : Expr) :
    (e.suffixed field).isAssignment = e.isAssignment := by
  fun_cases suffixed field e with
  | case1 op left right hop => rfl
  | case2 op left right hop => exact ((Bool.not_eq_true _).mp hop).symm
  | case3 op operand htakes => rfl
  | case4 op operand htakes => rfl
  | case5 e hbinary hunary =>
    cases e with
    | binary op left right => exact absurd rfl (hbinary op left right)
    | _ => rfl

theorem leadingSign_suffixed (field : String) (e : Expr) :
    (e.suffixed field).leadingSign = e.leadingSign := by
  fun_cases suffixed field e with
  | case4 op operand htakes =>
    cases op with
    | postIncrement => exact absurd rfl htakes
    | postDecrement => exact absurd rfl htakes
    | _ => rfl
  | _ => rfl

theorem tokens_suffixed (field : String) (e : Expr) :
    (e.suffixed field).tokens = e.tokens ++ [.field (Name.written field).toList] := by
  fun_induction suffixed field e with
  | case1 op left right hop ih =>
    simp [tokens, Token.parens, hop, ih]
  | case4 op operand htakes ih =>
    obtain ⟨hop, hgroup⟩ : op.followsOperand = false ∧ operand.groupedUnder op = false := by
      simpa using htakes
    have hgroup' : (operand.suffixed field).groupedUnder op = false := by
      rw [groupedUnder_of_not_follows hop] at hgroup ⊢
      rw [isAssignment_suffixed, leadingSign_suffixed, hgroup]
    simp [tokens, Token.parens, hop, hgroup, hgroup', ih]
  | _ => rw [tokens]

theorem settled_suffixed (field : String) (e : Expr) (h : e.settled = true) :
    (e.suffixed field).settled = true := by
  fun_induction suffixed field e with
  | case1 op left right hop ih =>
    rw [settled, Bool.and_eq_true, Bool.and_eq_true] at h ⊢
    exact ⟨⟨h.1.1, ih h.1.2⟩, h.2⟩
  | case2 op left right hop =>
    rw [settled, h, takesField]
    simpa using hop
  | case3 op operand htakes =>
    rw [settled, h, takesField, htakes]
    rfl
  | case4 op operand htakes ih => exact ih h
  | case5 e hbinary hunary =>
    have htakes : e.takesField = true := by
      cases e with
      | binary op left right => exact absurd rfl (hbinary op left right)
      | unary op operand => exact absurd rfl (hunary op operand)
      | _ => rfl
    rw [settled, h, htakes]
    rfl

theorem named_suffixed {field : String} (hfield : Name.delimitable field = true)
    (e : Expr) (h : e.named = true) : (e.suffixed field).named = true := by
  fun_induction suffixed field e with
  | case1 op left right hop ih =>
    rw [named, Bool.and_eq_true] at h ⊢
    exact ⟨h.1, ih h.2⟩
  | case4 op operand htakes ih => exact ih h
  | _ =>
    rw [named, h, hfield]
    rfl

theorem suffixed_ne_member {field : String} {e : Expr} (h : e.takesField = false) :
    e.suffixed field ≠ .member e field := by
  fun_cases suffixed field e with
  | case1 op left right hop =>
    intro heq
    cases heq
  | case2 op left right hop =>
    rw [takesField, (Bool.not_eq_true _).mp hop] at h
    cases h
  | case3 op operand htakes =>
    rw [takesField, htakes] at h
    cases h
  | case4 op operand htakes =>
    intro heq
    cases heq
  | case5 e hbinary hunary =>
    cases e with
    | binary op left right => exact absurd rfl (hbinary op left right)
    | unary op operand => exact absurd rfl (hunary op operand)
    | _ => cases h

theorem tokens_reassigned {op : BinaryOp} (hop : op.isAssignment = true) (value e : Expr) :
    (reassigned op value e).tokens = e.tokens ++ .between op :: value.tokens := by
  fun_induction reassigned op value e with
  | case1 inner left right hinner ih => simp [tokens, Token.parens, hinner, ih]
  | _ => simp [tokens, Token.parens, hop]

theorem settled_reassigned {op : BinaryOp} {value : Expr} (hvalue : value.settled = true)
    (e : Expr) (h : e.settled = true) : (reassigned op value e).settled = true := by
  fun_induction reassigned op value e with
  | case1 inner left right hinner ih =>
    rw [settled, Bool.and_eq_true, Bool.and_eq_true] at h ⊢
    exact ⟨⟨h.1.1, ih h.1.2⟩, h.2⟩
  | case2 inner left right hinner =>
    rw [settled, h, hvalue, isAssignment, (Bool.not_eq_true _).mp hinner, Bool.and_false]
    rfl
  | case3 e hbinary =>
    have hbare : e.isAssignment = false := by
      cases e with
      | binary inner left right => exact absurd rfl (hbinary inner left right)
      | _ => rfl
    rw [settled, h, hvalue, hbare, Bool.and_false]
    rfl

theorem named_reassigned {op : BinaryOp} {value : Expr}
    (hvalue : value.named = true) (e : Expr) (h : e.named = true) :
    (reassigned op value e).named = true := by
  fun_induction reassigned op value e with
  | case1 inner left right hinner ih =>
    rw [named, Bool.and_eq_true] at h ⊢
    exact ⟨h.1, ih h.2⟩
  | _ =>
    rw [named, h, hvalue]
    rfl

/-! ## Twins -/

/-- Another expression, a settled one, with the same tokens. -/
def HasTwin (e : Expr) : Prop :=
  ∃ twin : Expr, twin.named = true ∧ twin.settled = true ∧ twin ≠ e ∧
    twin.tokens = e.tokens

theorem hasTwin_member {operand : Expr} {field : String}
    (hnamed : (Expr.member operand field).named = true) (hset : operand.settled = true)
    (htakes : operand.takesField = false) : HasTwin (.member operand field) := by
  obtain ⟨hoperand, hfield⟩ := Bool.and_eq_true_iff.mp hnamed
  exact ⟨operand.suffixed field, named_suffixed hfield operand hoperand,
    settled_suffixed field operand hset, suffixed_ne_member htakes, tokens_suffixed field operand⟩

theorem hasTwin_assignment {op : BinaryOp} {left right : Expr}
    (hop : op.isAssignment = true) (hnamed : (Expr.binary op left right).named = true)
    (hleft : left.settled = true) (hright : right.settled = true)
    (hassign : left.isAssignment = true) : HasTwin (.binary op left right) := by
  obtain ⟨hln, hrn⟩ := Bool.and_eq_true_iff.mp hnamed
  refine ⟨reassigned op right left, named_reassigned hrn left hln,
    settled_reassigned hright left hleft, ?_, ?_⟩
  · cases left with
    | binary inner first second =>
      have hinner : inner.isAssignment = true := hassign
      have hfirst : first.isAssignment = false := by
        rw [settled, Bool.and_eq_true, hinner] at hleft
        simpa using hleft.2
      -- the twin is assigned to the first target, which is no assignment itself
      rw [reassigned, if_pos hinner]
      intro heq
      have hsame : first = .binary inner first second := (Expr.binary.inj heq).2.1
      rw [hsame, isAssignment, hinner] at hfirst
      cases hfirst
    | _ => cases hassign
  · rw [tokens_reassigned hop]
    simp [tokens, Token.parens, hop]

theorem mem_parts_self (e : Expr) : e ∈ e.parts := by
  cases e <;> simp [parts]

mutual

/-- The innermost part that is not settled has a twin. -/
theorem exists_part_hasTwin (e : Expr) (hnamed : e.named = true)
    (hset : e.settled = false) : ∃ x ∈ e.parts, x.named = true ∧ HasTwin x := by
  match e with
  | .member operand field =>
    have hoperand := (Bool.and_eq_true_iff.mp hnamed).1
    cases hs : operand.settled with
    | true =>
      have htakes : operand.takesField = false := by
        rw [settled, hs] at hset
        exact hset
      exact ⟨_, mem_parts_self _, hnamed, hasTwin_member hnamed hs htakes⟩
    | false =>
      obtain ⟨x, hx, htwin⟩ := exists_part_hasTwin operand hoperand hs
      exact ⟨x, List.mem_cons_of_mem _ hx, htwin⟩
  | .call function arguments =>
    have hargs := (Bool.and_eq_true_iff.mp hnamed).2
    obtain ⟨x, hx, htwin⟩ := exists_partAll_hasTwin arguments hargs hset
    exact ⟨x, List.mem_cons_of_mem _ hx, htwin⟩
  | .unary op operand =>
    obtain ⟨x, hx, htwin⟩ := exists_part_hasTwin operand hnamed hset
    exact ⟨x, List.mem_cons_of_mem _ hx, htwin⟩
  | .binary op left right =>
    obtain ⟨hln, hrn⟩ := Bool.and_eq_true_iff.mp hnamed
    cases hl : left.settled with
    | false =>
      obtain ⟨x, hx, htwin⟩ := exists_part_hasTwin left hln hl
      exact ⟨x, List.mem_cons_of_mem _ (List.mem_append_left _ hx), htwin⟩
    | true =>
      cases hr : right.settled with
      | false =>
        obtain ⟨x, hx, htwin⟩ := exists_part_hasTwin right hrn hr
        exact ⟨x, List.mem_cons_of_mem _ (List.mem_append_right _ hx), htwin⟩
      | true =>
        obtain ⟨hop, hassign⟩ : op.isAssignment = true ∧ left.isAssignment = true := by
          rw [settled, hl, hr] at hset
          simpa using hset
        exact ⟨_, mem_parts_self _, hnamed, hasTwin_assignment hop hnamed hl hr hassign⟩
  | .bool _ | .int _ | .uint _ | .float _ | .string _ | .name _ | .typeName _ => cases hset

theorem exists_partAll_hasTwin (es : List Expr)
    (hnamed : namedAll es = true) (hset : settledAll es = false) :
    ∃ x ∈ partsAll es, x.named = true ∧ HasTwin x := by
  match es with
  | [] => cases hset
  | e :: es =>
    obtain ⟨hen, hesn⟩ := Bool.and_eq_true_iff.mp hnamed
    cases he : e.settled with
    | false =>
      obtain ⟨x, hx, htwin⟩ := exists_part_hasTwin e hen he
      exact ⟨x, List.mem_append_left _ hx, htwin⟩
    | true =>
      rw [settledAll, he] at hset
      obtain ⟨x, hx, htwin⟩ := exists_partAll_hasTwin es hesn hset
      exact ⟨x, List.mem_append_right _ hx, htwin⟩

end

/-! ## The text of an expression -/

theorem eq_of_written_eq {a b : Expr} {p q : Printer} (hp : p.sink.writer.room = none)
    (hq : q.sink.writer.room = none) (ha : a.named = true) (hb : b.named = true)
    (hsa : a.settled = true) (hsb : b.settled = true)
    (h : Printer.written (Printer.writeExpr a) p = Printer.written (Printer.writeExpr b) q) :
    a = b := by
  rw [written_eq_texts (defects_of_named a ha) hp, written_eq_texts (defects_of_named b hb) hq] at h
  have htexts : Token.texts a.tokens = Token.texts b.tokens :=
    String.ofList_injective (String.toByteArray_inj.mp h)
  obtain ⟨hwa, hra⟩ := worded_of_named a ha
  obtain ⟨hwb, hrb⟩ := worded_of_named b hb
  rw [← hra, ← hrb]
  exact recast_eq_of_texts_eq leafName hwa hwb hsa hsb htexts

private theorem toList_written_of_not_isPlain {name : String} (h : Name.isPlain name = false) :
    (Name.written name).toList = '`' :: '`' :: (name.toList ++ ['`', '`']) := by
  rw [Name.written, h]
  exact Name.toList_delimited name

/-- With backticks in it, one member name is written like two. -/
theorem writtenAlike_backticks {e : Expr} (he : e.defects = []) {f g : String}
    (hf : Name.isPlain f = false) (hg : Name.isPlain g = false) :
    WrittenAlike (.member e (f ++ "``.``" ++ g)) (.member (.member e f) g) := by
  intro p hp
  have hone : (Expr.member e (f ++ "``.``" ++ g)).defects = [] := he
  have htwo : (Expr.member (.member e f) g).defects = [] := he
  have hjoint : Name.isPlain (f ++ "``.``" ++ g) = false := by
    cases h : Name.isPlain (f ++ "``.``" ++ g) with
    | false => rfl
    | true => exact absurd (by simp) (not_mem_of_isPlain h)
  rw [written_eq_texts hone hp, written_eq_texts htwo hp]
  simp [tokens, Token.text, toList_written_of_not_isPlain hf, toList_written_of_not_isPlain hg,
    toList_written_of_not_isPlain hjoint]

/-- Over plain names, the text of a settled expression is that of no other settled one, and an
expression that is not settled has a part whose text is also that of a settled one. Member names
must be free of backticks for this: with them, one name can be written like two. -/
theorem written_determines_settled (e : Expr) (h : e.named = true) :
    (e.settled = true → ∀ (other : Expr) (p q : Printer), p.sink.writer.room = none →
      q.sink.writer.room = none → other.named = true → other.settled = true →
      Printer.written (Printer.writeExpr e) p = Printer.written (Printer.writeExpr other) q →
      e = other) ∧
    (e.settled = false → ∃ x ∈ e.parts, ∃ y : Expr, y.named = true ∧ y.settled = true ∧ y ≠ x ∧
      WrittenAlike y x) ∧
    ∀ f g : String, Name.isPlain f = false → Name.isPlain g = false →
      WrittenAlike (.member e (f ++ "``.``" ++ g)) (.member (.member e f) g) := by
  refine ⟨?_, ?_, ?_⟩
  · intro hset other p q hp hq hother hsettled hwritten
    exact eq_of_written_eq hp hq h hother hset hsettled hwritten
  · intro hset
    obtain ⟨x, hx, hxn, y, hyn, hys, hne, htokens⟩ := exists_part_hasTwin e h hset
    refine ⟨x, hx, y, hyn, hys, hne, ?_⟩
    intro p hp
    rw [written_eq_texts (defects_of_named y hyn) hp, written_eq_texts (defects_of_named x hxn) hp,
      htokens]
  · intro f g hf hg
    exact writtenAlike_backticks (defects_of_named e h) hf hg

/-- `-x.f` is the text of a negated member and of a member of a negation; only the first is
settled. -/
theorem written_determines_settled_negation :
    let negated : Expr := .unary .negate (.member (.name "x") "f")
    let member : Expr := .member (.unary .negate (.name "x")) "f"
    (∀ other : Expr, other.named = true → other.settled = true →
      "-x.f".toUTF8 = Printer.written (Printer.writeExpr other) (Printer.start {} {}) →
      negated = other) ∧
    ∃ x ∈ member.parts, ∃ y : Expr, y.named = true ∧ y.settled = true ∧ y ≠ x ∧
      WrittenAlike y x := by
  intro negated member
  have hstart : (Printer.start {} {}).sink.writer.room = none := rfl
  have hnegated : negated.named = true := by decide +kernel
  have hmember : member.named = true := by decide +kernel
  have htext : Printer.written (Printer.writeExpr negated) (Printer.start {} {}) =
      "-x.f".toUTF8 := by decide +kernel
  refine ⟨?_, ?_⟩
  · intro other hother hsettled h
    exact (written_determines_settled negated hnegated).1 (by decide) other _ _ hstart hstart
      hother hsettled (htext.trans h)
  · exact (written_determines_settled member hmember).2.1 (by decide)

end Expr

end Scribe
