import Scribe.Proofs.Ink
import Scribe.Proofs.Word

/-! Expressions as tokens. What an expression writes is the text of its tokens, and a text is the
text of at most one sequence of tokens, as long as the sequence is legible: words are told apart,
and a minus sign does not stand before another. Whether a sign stands before an operand or after it
is seen from what came before, so scanning knows whether an operand is due. -/

namespace Scribe

inductive Token where
  /-- A leaf, spelled as it is written. -/
  | word (text : List Char)
  /-- The written name of a function, with the parenthesis of its arguments. -/
  | function (written : List Char)
  | comma
  | leftParen
  | rightParen
  | before (op : UnaryOp)
  | after (op : UnaryOp)
  /-- A point and the written name of a member. -/
  | field (written : List Char)
  | between (op : BinaryOp)
  deriving DecidableEq

namespace Token

def text : Token → List Char
  | .word text => text
  | .function written => written ++ ['(']
  | .comma => [',', ' ']
  | .leftParen => ['(']
  | .rightParen => [')']
  | .before op => op.text.toList
  | .after op => op.text.toList
  | .field written => '.' :: written
  | .between op => ' ' :: (op.text.toList ++ [' '])

def texts (ts : List Token) : List Char := ts.flatMap text

@[simp] theorem texts_nil : texts [] = [] := rfl

@[simp] theorem texts_cons (t : Token) (ts : List Token) : texts (t :: ts) = t.text ++ texts ts :=
  List.flatMap_cons

@[simp] theorem texts_append (ts us : List Token) : texts (ts ++ us) = texts ts ++ texts us :=
  List.flatMap_append

def commaSeparated : List (List Token) → List Token
  | [] => []
  | [ts] => ts
  | ts :: us :: rest => ts ++ .comma :: commaSeparated (us :: rest)

def parens (wanted : Bool) (inner : List Token) : List Token :=
  if wanted then .leftParen :: inner ++ [.rightParen] else inner

end Token

/-! ## The tokens of an expression -/

mutual

def Expr.tokens : Expr → List Token
  | .bool value => [.word (Literal.bool value).toList]
  | .int value => [.word (Literal.signed value).toList]
  | .uint value => [.word (Literal.unsigned value).toList]
  | .float value => [.word (Literal.single value).toList]
  | .string content => [.word (Literal.quoted content).toList]
  | .name text => [.word (Name.written text).toList]
  | .typeName text => [.word text.toList]
  | .member operand field => operand.tokens ++ [.field (Name.written field).toList]
  | .call function arguments =>
    .function (Name.written function).toList ::
      (Token.commaSeparated (Expr.tokensAll arguments) ++ [.rightParen])
  | .unary op operand =>
    let inner := Token.parens (operand.groupedUnder op) operand.tokens
    if op.followsOperand then inner ++ [.after op] else .before op :: inner
  | .binary op left right =>
    Token.parens (!op.isAssignment) (left.tokens ++ .between op :: right.tokens)

def Expr.tokensAll : List Expr → List (List Token)
  | [] => []
  | e :: es => e.tokens :: Expr.tokensAll es

end

theorem Layout.ink_parens (wanted : Bool) (inner : Layout) {ts : List Token}
    (h : Layout.ink inner = Token.texts ts) :
    Layout.ink (Layout.parens wanted inner) = Token.texts (Token.parens wanted ts) := by
  cases wanted <;> simp [Layout.parens, Token.parens, Cmd.ink, Token.text, h]

mutual

theorem Expr.ink_layout (e : Expr) (h : e.defects = []) :
    Layout.ink e.layout = Token.texts e.tokens := by
  cases e with
  | member operand field =>
    have ho := ink_layout operand h
    simp [Expr.layout, Expr.tokens, Layout.name, Cmd.ink, Token.text, ho]
  | call function arguments =>
    obtain ⟨hname, hall⟩ := List.append_eq_nil_iff.mp h
    have hfunction : function ≠ "" := by
      intro hf
      rw [if_pos hf] at hname
      cases hname
    have ha := ink_layouts arguments hall
    rw [Expr.layout, if_neg hfunction]
    simp [Expr.tokens, Layout.name, Cmd.ink, Token.text, ha]
  | unary op operand =>
    have ho := Layout.ink_parens (operand.groupedUnder op) _ (ink_layout operand h)
    simp only [Expr.layout, Expr.tokens]
    split <;> simp [Cmd.ink, Token.text, ho]
  | binary op left right =>
    obtain ⟨hl, hr⟩ := List.append_eq_nil_iff.mp h
    rw [Expr.layout, Expr.tokens]
    apply Layout.ink_parens
    simp [Cmd.ink, Token.text, ink_layout left hl, ink_layout right hr]
  | _ => simp [Expr.layout, Expr.tokens, Layout.name, Cmd.ink, Token.text]

theorem Expr.ink_layouts (es : List Expr) (h : Expr.defectsAll es = []) :
    Layout.ink (Layout.commaSeparated (Expr.layouts es)) =
      Token.texts (Token.commaSeparated (Expr.tokensAll es)) := by
  match es, h with
  | [], _ => rfl
  | [e], h =>
    have he := ink_layout e (List.append_eq_nil_iff.mp h).1
    simpa [Expr.layouts, Expr.tokensAll, Token.commaSeparated] using he
  | e :: f :: es, h =>
    obtain ⟨he, hes⟩ := List.append_eq_nil_iff.mp h
    have ih := ink_layouts (f :: es) hes
    simp only [Expr.layouts, Expr.tokensAll] at ih
    simp [Expr.layouts, Expr.tokensAll, Token.commaSeparated, Cmd.ink, Token.text,
      ink_layout e he, ih]

end

/-! ## Scanning -/

namespace Token

/-- Whether an operand is due behind the token. -/
def leavesDue : Token → Bool
  | .function _ | .comma | .leftParen | .before _ | .between _ => true
  | _ => false

/-- Whether the token may stand where an operand is due, or where none is. A closing parenthesis may
stand in both places, as a call may have no arguments. -/
def fits (due : Bool) : Token → Bool
  | .word _ | .function _ | .leftParen => due
  | .before op => due && !op.followsOperand
  | .after op => !due && op.followsOperand
  | .comma | .field _ | .between _ => !due
  | .rightParen => true

/-- A word is the name of a function when a parenthesis follows at once. -/
def ofWord (w : List Char) : List Char → Token × List Char
  | '(' :: rest => (.function w, rest)
  | rest => (.word w, rest)

def scanMark : List Char → Option (Token × List Char)
  | '!' :: rest => some (.before .not, rest)
  | '-' :: '-' :: rest => some (.before .preDecrement, rest)
  | '-' :: rest => some (.before .negate, rest)
  | '+' :: '+' :: rest => some (.before .preIncrement, rest)
  | '(' :: rest => some (.leftParen, rest)
  | ')' :: rest => some (.rightParen, rest)
  | _ => none

def scanOperand (cs : List Char) : Option (Token × List Char) :=
  match scanWord cs with
  | some (w, rest) => some (ofWord w rest)
  | none => scanMark cs

def binaryOps : List BinaryOp :=
  [.add, .sub, .mul, .div, .eq, .ne, .lt, .le, .gt, .ge, .and, .or, .assign, .addAssign, .subAssign,
    .mulAssign, .divAssign]

def scanBetween (cs : List Char) : Option (Token × List Char) :=
  binaryOps.findSome? fun op =>
    ((op.text.toList ++ [' ']).isPrefixOf? cs).map fun rest => (.between op, rest)

def scanSuffix : List Char → Option (Token × List Char)
  | '+' :: '+' :: rest => some (.after .postIncrement, rest)
  | '-' :: '-' :: rest => some (.after .postDecrement, rest)
  | '.' :: rest => (scanWord rest).map fun p => (.field p.1, p.2)
  | ',' :: ' ' :: rest => some (.comma, rest)
  | ')' :: rest => some (.rightParen, rest)
  | ' ' :: rest => scanBetween rest
  | _ => none

/-- The token that a text starts with, and what is left. -/
def scan (due : Bool) (cs : List Char) : Option (Token × List Char) :=
  if due then scanOperand cs else scanSuffix cs

/-- The token is told apart from the text behind it. -/
def Clear (rest : List Char) : Token → Prop
  | .word w => IsWord w
  | .function w => IsWord w
  | .field w => IsWord w ∧ ∀ more, Stops ('.' :: (w ++ more))
  | .before .negate => rest.head? ≠ some '-'
  | _ => True

def Legible : Bool → List Token → Prop
  | _, [] => True
  | due, t :: ts => t.fits due = true ∧ t.Clear (texts ts) ∧ Legible t.leavesDue ts

/-- What may stand behind an operand. -/
def Ends (cs : List Char) : Prop := Stops cs ∧ cs.head? ≠ some '('

theorem ends_of_legible {ts : List Token} (h : Legible false ts) : Ends (texts ts) := by
  cases ts with
  | nil => exact ⟨stops_nil, nofun⟩
  | cons t ts =>
    obtain ⟨hfits, hclear, -⟩ := h
    rw [texts_cons]
    cases t with
    | comma => exact ⟨stops_cons (by decide) (by decide), by simp [text]⟩
    | rightParen => exact ⟨stops_cons (by decide) (by decide), by simp [text]⟩
    | between op => exact ⟨stops_cons (by decide) (by decide), by simp [text]⟩
    | field w => exact ⟨hclear.2 _, by simp [text]⟩
    | after op =>
      cases op with
      | postIncrement => exact ⟨stops_cons (by decide) (by decide), by simp [text, UnaryOp.text]⟩
      | postDecrement => exact ⟨stops_cons (by decide) (by decide), by simp [text, UnaryOp.text]⟩
      | _ => cases hfits
    | _ => cases hfits

theorem scanBetween_text (op : BinaryOp) (rest : List Char) :
    scanBetween (op.text.toList ++ ' ' :: rest) = some (.between op, rest) := by
  cases op <;> rfl

theorem ofWord_of_ends (w : List Char) {rest : List Char} (h : Ends rest) :
    ofWord w rest = (.word w, rest) := by
  unfold ofWord
  split
  · exact absurd rfl h.2
  · rfl

theorem scanOperand_word {w rest : List Char} (hw : IsWord w) (hr : Ends rest) :
    scanOperand (w ++ rest) = some (.word w, rest) := by
  rw [scanOperand, hw rest hr.1]
  exact congrArg some (ofWord_of_ends w hr)

theorem scanOperand_function {w : List Char} (hw : IsWord w) (rest : List Char) :
    scanOperand (w ++ '(' :: rest) = some (.function w, rest) := by
  rw [scanOperand, hw _ (stops_cons (by decide) (by decide))]
  rfl

theorem scanMark_before {op : UnaryOp} (hop : op.followsOperand = false) {rest : List Char}
    (h : (Token.before op).Clear rest) :
    scanMark (op.text.toList ++ rest) = some (.before op, rest) := by
  cases op with
  | negate =>
    show scanMark ('-' :: rest) = _
    unfold scanMark
    split
    · next heq => cases heq
    · next heq =>
      obtain ⟨-, rfl⟩ := List.cons.inj heq
      exact absurd rfl h
    · next heq =>
      obtain ⟨-, rfl⟩ := List.cons.inj heq
      rfl
    · next heq => cases heq
    · next heq => cases heq
    · next heq => cases heq
    · next hminus _ _ _ => exact absurd rfl (hminus rest)
  | postIncrement => cases hop
  | postDecrement => cases hop
  | _ => rfl

theorem scan_text {due : Bool} {t : Token} {rest : List Char} (hfits : t.fits due = true)
    (hclear : t.Clear rest) (hends : t.leavesDue = false → Ends rest) :
    scan due (t.text ++ rest) = some (t, rest) := by
  cases t with
  | word w =>
    cases hfits
    exact scanOperand_word hclear (hends rfl)
  | function w =>
    cases hfits
    rw [text, List.append_assoc]
    exact scanOperand_function hclear rest
  | leftParen =>
    cases hfits
    rfl
  | rightParen => cases due <;> rfl
  | before op =>
    obtain ⟨rfl, hop⟩ := Bool.and_eq_true_iff.mp hfits
    have hmark := scanMark_before (Bool.not_eq_true' _ ▸ hop) hclear
    rw [← hmark]
    cases op <;> rfl
  | comma =>
    cases due
    · rfl
    · cases hfits
  | after op =>
    cases due
    · cases op with
      | postIncrement => rfl
      | postDecrement => rfl
      | _ => cases hfits
    · cases hfits
  | field w =>
    cases due
    · show (scanWord (w ++ rest)).map (fun p => (Token.field p.1, p.2)) = _
      rw [hclear.1 rest (hends rfl).1]
      rfl
    · cases hfits
  | between op =>
    cases due
    · show scanBetween ((op.text.toList ++ [' ']) ++ rest) = _
      rw [List.append_assoc]
      exact scanBetween_text op rest
    · cases hfits

theorem scan_nil (due : Bool) : scan due [] = none := by cases due <;> rfl

theorem scan_texts {due : Bool} {t : Token} {ts : List Token} (h : Legible due (t :: ts)) :
    scan due (texts (t :: ts)) = some (t, texts ts) := by
  obtain ⟨hfits, hclear, hlegible⟩ := h
  rw [texts_cons]
  exact scan_text hfits hclear fun hdue => ends_of_legible (hdue ▸ hlegible)

theorem eq_of_texts_eq {due : Bool} {ts us : List Token} (ht : Legible due ts)
    (hu : Legible due us) (h : texts ts = texts us) : ts = us := by
  induction ts generalizing due us with
  | nil =>
    cases us with
    | nil => rfl
    | cons u us =>
      have hscan := scan_texts hu
      rw [← h, texts_nil, scan_nil] at hscan
      cases hscan
  | cons t ts ih =>
    have hscan := scan_texts ht
    cases us with
    | nil =>
      rw [h, texts_nil, scan_nil] at hscan
      cases hscan
    | cons u us =>
      rw [h, scan_texts hu] at hscan
      obtain ⟨rfl, hrest⟩ := Prod.mk.inj (Option.some.inj hscan)
      rw [ih ht.2.2 hu.2.2 hrest.symm]

end Token

end Scribe
