import Scribe.Proofs.Expr.Settled

/-! A reader of tokens. It keeps a stack of what is still open and one expression in focus; a prefix
operator waits on the stack until its operand has taken its suffixes, and an assignment waits until
its right side is over. A settled expression is read back from its tokens, whatever is open around
it; only its leaves are up to the reader, who sees no more of them than their text. So two settled
expressions with the same text are the same tree, once their leaves are replaced by what the reader
makes of them. -/

namespace Scribe

inductive Frame where
  | sign (op : UnaryOp)
  | target (op : BinaryOp) (left : Expr)
  | paren
  /-- The left side of an operation in parentheses; the parenthesis lies below. -/
  | operand (op : BinaryOp) (left : Expr)
  | arguments (function : String) (done : List Expr)

inductive Focus where
  | empty
  | whole (e : Expr)
  /-- An expression in parentheses that are not its own, to be taken by an operator. -/
  | group (e : Expr)

namespace Reader

def nameOf (w : List Char) : String := Name.ofWritten (String.ofList w)

def closeSigns : List Frame → Expr → List Frame × Expr
  | .sign op :: frames, e => closeSigns frames (.unary op e)
  | frames, e => (frames, e)

def close : List Frame → Expr → List Frame × Expr
  | .sign op :: frames, e => close frames (.unary op e)
  | .target op left :: frames, e => close frames (.binary op left e)
  | frames, e => (frames, e)

def endArgument : List Frame × Expr → Option (List Frame × Focus)
  | (.arguments f done :: frames, e) => some (.arguments f (done ++ [e]) :: frames, .empty)
  | _ => none

def endParen : List Frame × Expr → Option (List Frame × Focus)
  | (.paren :: frames, e) => some (frames, .group e)
  | (.operand op left :: .paren :: frames, e) => some (frames, .whole (.binary op left e))
  | (.arguments f done :: frames, e) => some (frames, .whole (.call f (done ++ [e])))
  | _ => none

def endAll : List Frame × Expr → Option Expr
  | ([], e) => some e
  | _ => none

def stepEmpty (leaf : List Char → Expr) (frames : List Frame) :
    Token → Option (List Frame × Focus)
  | .word w => some (frames, .whole (leaf w))
  | .function w => some (.arguments (nameOf w) [] :: frames, .empty)
  | .leftParen => some (.paren :: frames, .empty)
  | .before op => some (.sign op :: frames, .empty)
  | .rightParen =>
    match frames with
    | .arguments f done :: frames => some (frames, .whole (.call f done))
    | _ => none
  | _ => none

def stepWhole (frames : List Frame) (e : Expr) : Token → Option (List Frame × Focus)
  | .field w => some (frames, .whole (.member e (nameOf w)))
  | .after op => some (frames, .whole (.unary op e))
  | .between op =>
    if op.isAssignment then
      some (.target op (closeSigns frames e).2 :: (closeSigns frames e).1, .empty)
    else some (.operand op (close frames e).2 :: (close frames e).1, .empty)
  | .comma => endArgument (close frames e)
  | .rightParen => endParen (close frames e)
  | _ => none

/-- The prefix operator before a group takes it, unless a postfix operator follows. -/
def takeGroup : List Frame → Expr → Option (List Frame × Expr)
  | .sign op :: frames, e => some (frames, .unary op e)
  | _, _ => none

def step (leaf : List Char → Expr) (frames : List Frame) (t : Token) :
    Focus → Option (List Frame × Focus)
  | .empty => stepEmpty leaf frames t
  | .whole e => stepWhole frames e t
  | .group e =>
    match t with
    | .after op => some (frames, .whole (.unary op e))
    | t => (takeGroup frames e).bind fun p => stepWhole p.1 p.2 t

def finish (frames : List Frame) : Focus → Option Expr
  | .empty => none
  | .whole e => endAll (close frames e)
  | .group e => (takeGroup frames e).bind fun p => endAll (close p.1 p.2)

def read (leaf : List Char → Expr) : List Token → List Frame → Focus → Option Expr
  | [], frames, focus => finish frames focus
  | t :: ts, frames, focus => (step leaf frames t focus).bind fun p => read leaf ts p.1 p.2

/-! ## Where operands end -/

/-- What may follow the expression without changing how it is grouped. -/
def Follows (e : Expr) : List Token → Prop
  | .field _ :: _ => e.takesField = true
  | .after op :: _ => op.followsOperand = true ∧ e.groupedUnder op = false
  | .between op :: _ => ¬ (op.isAssignment = true ∧ e.isAssignment = true)
  | .comma :: _ | .rightParen :: _ | [] => True
  | _ => False

def startsWithSign : List Frame → Bool
  | .sign _ :: _ => true
  | _ => false

theorem closeSigns_of_not_startsWithSign {frames : List Frame}
    (h : startsWithSign frames = false) (e : Expr) : closeSigns frames e = (frames, e) := by
  cases frames with
  | nil => rfl
  | cons frame frames =>
    cases frame with
    | sign op => cases h
    | _ => rfl

/-- A postfix operator always groups a prefix one. -/
theorem not_follows_after {op : UnaryOp} (hop : op.followsOperand = false) (operand : Expr)
    (post : UnaryOp) (rest : List Token) :
    ¬ Follows (.unary op operand) (.after post :: rest) := by
  rintro ⟨hpost, hgroup⟩
  rw [Expr.groupedUnder, if_pos hpost, hop] at hgroup
  cases hgroup

variable {leaf : List Char → Expr}

theorem read_sign {op : UnaryOp} (hop : op.followsOperand = false) {operand : Expr}
    (hgroup : operand.groupedUnder op = false) {rest : List Token}
    (h : Follows (.unary op operand) rest) (frames : List Frame) (x : Expr) :
    read leaf rest (.sign op :: frames) (.whole x) =
      read leaf rest frames (.whole (.unary op x)) := by
  cases rest with
  | nil => rfl
  | cons t rest =>
    cases t with
    | field w =>
      rw [Follows, Expr.takesField, hop, hgroup] at h
      cases h
    | after post => exact absurd h (not_follows_after hop operand post rest)
    | comma => rfl
    | rightParen => rfl
    | between inner => rfl
    | _ => exact h.elim

theorem read_target {op : BinaryOp} (hop : op.isAssignment = true) {left right : Expr}
    {rest : List Token} (h : Follows (.binary op left right) rest) (frames : List Frame)
    (x y : Expr) :
    read leaf rest (.target op x :: frames) (.whole y) =
      read leaf rest frames (.whole (.binary op x y)) := by
  cases rest with
  | nil => rfl
  | cons t rest =>
    cases t with
    | field w =>
      rw [Follows, Expr.takesField, hop] at h
      cases h
    | after post =>
      rw [Follows, Expr.groupedUnder, hop] at h
      cases h.2
    | comma => rfl
    | rightParen => rfl
    | between inner =>
      have hinner : inner.isAssignment = false := by
        cases hi : inner.isAssignment with
        | false => rfl
        | true => exact absurd ⟨hi, hop⟩ h
      simp only [read, step, stepWhole, hinner, Bool.false_eq_true, if_false]
      rfl
    | _ => exact h.elim

theorem read_group {op : UnaryOp} (hop : op.followsOperand = false) {operand : Expr}
    {rest : List Token} (h : Follows (.unary op operand) rest) (frames : List Frame) (x : Expr) :
    read leaf rest (.sign op :: frames) (.group x) =
      read leaf rest frames (.whole (.unary op x)) := by
  cases rest with
  | nil => rfl
  | cons t rest =>
    cases t with
    | after post => exact absurd h (not_follows_after hop operand post rest)
    | _ => rfl

/-! ## Reading back -/

theorem nameOf_written (name : String) : nameOf (Name.written name).toList = name := by
  rw [nameOf, String.ofList_toList, Name.ofWritten_written]

theorem follows_of_before {op : UnaryOp} (hop : op.followsOperand = false) {operand : Expr}
    (hgroup : operand.groupedUnder op = false) {rest : List Token}
    (h : Follows (.unary op operand) rest) : Follows operand rest := by
  cases rest with
  | nil => trivial
  | cons t rest =>
    cases t with
    | field w =>
      rw [Follows, Expr.takesField, hop, hgroup] at h
      cases h
    | after post => exact absurd h (not_follows_after hop operand post rest)
    | between inner =>
      rintro ⟨-, hassign⟩
      rw [Expr.isAssignment_of_groupedUnder_eq_false hgroup] at hassign
      cases hassign
    | comma => trivial
    | rightParen => trivial
    | _ => exact h

theorem follows_of_assignment {op : BinaryOp} (hop : op.isAssignment = true) {left right : Expr}
    {rest : List Token} (h : Follows (.binary op left right) rest) : Follows right rest := by
  cases rest with
  | nil => trivial
  | cons t rest =>
    cases t with
    | field w =>
      rw [Follows, Expr.takesField, hop] at h
      cases h
    | after post =>
      rw [Follows, Expr.groupedUnder, hop] at h
      cases h.2
    | between inner => exact fun hboth => h ⟨hboth.1, hop⟩
    | comma => trivial
    | rightParen => trivial
    | _ => exact h

/-- Reading makes `x` of the expression, with everything around it as it was. An assignment does not
stand behind a waiting prefix operator, which would have grouped it. -/
def ReadsAs (leaf : List Char → Expr) (e x : Expr) : Prop :=
  ∀ (rest : List Token) (frames : List Frame), Follows e rest →
    (e.isAssignment = true → startsWithSign frames = false) →
    read leaf (e.tokens ++ rest) frames .empty = read leaf rest frames (.whole x)

theorem ReadsAs.of_bare {e x : Expr} (h : ReadsAs leaf e x) (hbare : e.isAssignment = false)
    {rest : List Token} (hrest : Follows e rest) (frames : List Frame) :
    read leaf (e.tokens ++ rest) frames .empty = read leaf rest frames (.whole x) := by
  refine h rest frames hrest fun hassign => ?_
  rw [hbare] at hassign
  cases hassign

theorem ReadsAs.grouped {e x : Expr} (h : ReadsAs leaf e x) (rest : List Token)
    (frames : List Frame) :
    read leaf (Token.parens true e.tokens ++ rest) frames .empty =
      read leaf rest frames (.group x) := by
  have hinner := h (.rightParen :: rest) (.paren :: frames) trivial fun _ => rfl
  rw [Token.parens, if_pos rfl, List.append_assoc]
  exact hinner

theorem readsAs_member {operand x : Expr} (h : ReadsAs leaf operand x)
    (htakes : operand.takesField = true) (field : String) :
    ReadsAs leaf (.member operand field) (.member x field) := by
  intro rest frames _ _
  have hbare := Expr.isAssignment_of_takesField htakes
  have hfollows : Follows operand (.field (Name.written field).toList :: rest) := htakes
  rw [Expr.tokens, List.append_assoc]
  refine (h.of_bare hbare hfollows frames).trans ?_
  show read leaf rest frames (.whole (.member x (nameOf _))) = _
  rw [nameOf_written]

theorem readsAs_before {op : UnaryOp} (hop : op.followsOperand = false) {operand x : Expr}
    (h : ReadsAs leaf operand x) : ReadsAs leaf (.unary op operand) (.unary op x) := by
  intro rest frames hrest _
  rw [Expr.tokens, hop]
  show read leaf (Token.parens _ operand.tokens ++ rest) (.sign op :: frames) .empty = _
  cases hgroup : operand.groupedUnder op with
  | true =>
    rw [h.grouped]
    exact read_group hop hrest frames x
  | false =>
    have hbare := Expr.isAssignment_of_groupedUnder_eq_false hgroup
    have hfollows := follows_of_before hop hgroup hrest
    exact (h.of_bare hbare hfollows _).trans (read_sign hop hgroup hrest frames x)

theorem readsAs_after {op : UnaryOp} (hop : op.followsOperand = true) {operand x : Expr}
    (h : ReadsAs leaf operand x) : ReadsAs leaf (.unary op operand) (.unary op x) := by
  intro rest frames _ _
  simp only [Expr.tokens, hop, if_true, List.append_assoc]
  cases hgroup : operand.groupedUnder op with
  | true => exact h.grouped _ frames
  | false =>
    have hbare := Expr.isAssignment_of_groupedUnder_eq_false hgroup
    have hfollows : Follows operand (.after op :: rest) := ⟨hop, hgroup⟩
    exact h.of_bare hbare hfollows frames

theorem readsAs_operation {op : BinaryOp} (hop : op.isAssignment = false) {left right x y : Expr}
    (hleft : ReadsAs leaf left x) (hright : ReadsAs leaf right y) :
    ReadsAs leaf (.binary op left right) (.binary op x y) := by
  intro rest frames _ _
  have hbetween : Follows left (.between op :: (right.tokens ++ .rightParen :: rest)) := by
    rintro ⟨hassign, -⟩
    rw [hop] at hassign
    cases hassign
  have htokens : (Expr.binary op left right).tokens ++ rest =
      .leftParen :: (left.tokens ++ .between op :: (right.tokens ++ .rightParen :: rest)) := by
    simp [Expr.tokens, Token.parens, hop]
  have hstep : step leaf (.paren :: frames) (.between op) (.whole x) =
      some (.operand op x :: .paren :: frames, .empty) := by
    simp [step, stepWhole, hop, close]
  rw [htokens]
  show read leaf _ (.paren :: frames) .empty = _
  rw [hleft _ _ hbetween fun _ => rfl, read, hstep]
  show read leaf (right.tokens ++ _) (.operand op x :: .paren :: frames) .empty = _
  rw [hright (.rightParen :: rest) _ trivial fun _ => rfl]
  rfl

theorem readsAs_assignment {op : BinaryOp} (hop : op.isAssignment = true) {left right x y : Expr}
    (htarget : left.isAssignment = false) (hleft : ReadsAs leaf left x)
    (hright : ReadsAs leaf right y) : ReadsAs leaf (.binary op left right) (.binary op x y) := by
  intro rest frames hrest hsign
  have hbetween : Follows left (.between op :: (right.tokens ++ rest)) := by
    rintro ⟨-, hassign⟩
    rw [htarget] at hassign
    cases hassign
  have htokens : (Expr.binary op left right).tokens ++ rest =
      left.tokens ++ .between op :: (right.tokens ++ rest) := by
    simp [Expr.tokens, Token.parens, hop]
  -- no prefix operator waits in front of the target, so it is the whole of what was read
  have hstep : step leaf frames (.between op) (.whole x) =
      some (.target op x :: frames, .empty) := by
    simp only [step, stepWhole, hop, if_true, closeSigns_of_not_startsWithSign (hsign hop)]
  rw [htokens, hleft.of_bare htarget hbetween, read, hstep]
  show read leaf (right.tokens ++ _) (.target op x :: frames) .empty = _
  rw [hright rest _ (follows_of_assignment hop hrest) fun _ => rfl]
  exact read_target hop hrest frames x y

end Reader

mutual

/-- The same tree over other leaves, which see nothing of the old ones but their text. -/
def Expr.recast (leaf : List Char → Expr) : Expr → Expr
  | .member operand field => .member (operand.recast leaf) field
  | .call function arguments => .call function (Expr.recastAll leaf arguments)
  | .unary op operand => .unary op (operand.recast leaf)
  | .binary op left right => .binary op (left.recast leaf) (right.recast leaf)
  | e => leaf e.leafText.toList

def Expr.recastAll (leaf : List Char → Expr) : List Expr → List Expr
  | [] => []
  | e :: es => e.recast leaf :: Expr.recastAll leaf es

end

namespace Reader

variable {leaf : List Char → Expr}

mutual

theorem readsAs_recast (e : Expr) (hset : e.settled = true) : ReadsAs leaf e (e.recast leaf) := by
  match e with
  | .member operand field =>
    obtain ⟨hset, htakes⟩ := Bool.and_eq_true_iff.mp hset
    exact readsAs_member (readsAs_recast operand hset) htakes field
  | .call function arguments =>
    intro rest frames _ _
    have hargs := read_arguments arguments hset (nameOf (Name.written function).toList) [] rest
      frames
    rw [Expr.tokens, List.cons_append, List.append_assoc]
    refine hargs.trans ?_
    rw [nameOf_written, List.nil_append]
    rfl
  | .unary op operand =>
    have hoperand := readsAs_recast operand hset
    cases hop : op.followsOperand with
    | true => exact readsAs_after hop hoperand
    | false => exact readsAs_before hop hoperand
  | .binary op left right =>
    rw [Expr.settled, Bool.and_eq_true, Bool.and_eq_true] at hset
    have hleft := readsAs_recast left hset.1.1
    have hright := readsAs_recast right hset.1.2
    cases hop : op.isAssignment with
    | true =>
      have htarget : left.isAssignment = false := by simpa [hop] using hset.2
      exact readsAs_assignment hop htarget hleft hright
    | false => exact readsAs_operation hop hleft hright
  | .bool _ | .int _ | .uint _ | .float _ | .string _ | .name _ | .typeName _ =>
    exact fun _ _ _ _ => rfl

theorem read_arguments (es : List Expr) (hset : Expr.settledAll es = true) (f : String)
    (done : List Expr) (rest : List Token) (frames : List Frame) :
    read leaf (Token.commaSeparated (Expr.tokensAll es) ++ ([.rightParen] ++ rest))
        (.arguments f done :: frames) .empty =
      read leaf rest frames (.whole (.call f (done ++ Expr.recastAll leaf es))) := by
  match es with
  | [] =>
    rw [Expr.recastAll, List.append_nil]
    rfl
  | [e] =>
    have he := readsAs_recast e (Bool.and_eq_true_iff.mp hset).1
    exact he (.rightParen :: rest) _ trivial fun _ => rfl
  | e :: g :: es =>
    obtain ⟨hse, hses⟩ := Bool.and_eq_true_iff.mp hset
    have he := readsAs_recast e hse
    have hes := read_arguments (g :: es) hses f (done ++ [e.recast leaf]) rest frames
    have htokens : Token.commaSeparated (Expr.tokensAll (e :: g :: es)) ++ ([.rightParen] ++ rest) =
        e.tokens ++ .comma ::
          (Token.commaSeparated (Expr.tokensAll (g :: es)) ++ ([.rightParen] ++ rest)) := by
      simp [Expr.tokensAll, Token.commaSeparated]
    rw [htokens, he (.comma :: _) _ trivial fun _ => rfl]
    refine hes.trans ?_
    rw [List.append_assoc]
    rfl

end

end Reader

namespace Expr

theorem read_tokens (leaf : List Char → Expr) {e : Expr} (hset : e.settled = true) :
    Reader.read leaf e.tokens [] .empty = some (e.recast leaf) := by
  have hreads : Reader.ReadsAs leaf e (e.recast leaf) := Reader.readsAs_recast e hset
  have hread := hreads [] [] trivial fun _ => rfl
  rw [List.append_nil] at hread
  rw [hread]
  rfl

theorem recast_eq_of_texts_eq (leaf : List Char → Expr) {a b : Expr} (ha : a.Worded)
    (hb : b.Worded) (hsa : a.settled = true) (hsb : b.settled = true)
    (h : Token.texts a.tokens = Token.texts b.tokens) : a.recast leaf = b.recast leaf := by
  have hnil : Token.Legible false [] := trivial
  have hla := legible_tokens a ha hsa hnil
  have hlb := legible_tokens b hb hsb hnil
  rw [List.append_nil] at hla hlb
  have htokens := Token.eq_of_texts_eq hla hlb h
  have hread := read_tokens leaf hsa
  rw [htokens, read_tokens leaf hsb] at hread
  exact (Option.some.inj hread).symm

end Expr

end Scribe
