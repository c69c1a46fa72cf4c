import Scribe.Proofs.Numeral
import Scribe.Layout.Script

/-! What the texts of a tree are made of. A tree brings along names, type names, quoted text, file
names and comments, which can be anything; all else that is written on a line is fixed and holds
neither braces nor newlines. So a line is made of the characters that a vocabulary has as soon as
the contents of the tree are. -/

namespace Scribe

/-! ## The statements of a tree -/

mutual

/-- A statement and all statements inside it, in the order of the text. -/
def Stmt.statements : Stmt → List Stmt
  | .block body => .block body :: Stmt.statementsAll body
  | .branch condition body otherwise =>
    .branch condition body otherwise ::
      (Stmt.statementsOption body ++ Stmt.statementsElse otherwise)
  | .whileLoop condition body => .whileLoop condition body :: body.statements
  | .forLoop init condition after body => .forLoop init condition after body :: body.statements
  | .switch scrutinee arms => .switch scrutinee arms :: Arm.statementsAll arms
  | .decl d => .decl d :: d.statements
  | s => [s]

def Stmt.statementsAll : List Stmt → List Stmt
  | [] => []
  | s :: rest => s.statements ++ Stmt.statementsAll rest

def Stmt.statementsOption : Option Stmt → List Stmt
  | none => []
  | some body => body.statements

def Stmt.statementsElse : Option (List Stmt) → List Stmt
  | none => []
  | some body => Stmt.statementsAll body

def Arm.statements : Arm → List Stmt
  | .onCase _ body => Stmt.statementsAll body
  | .onDefault body => Stmt.statementsAll body

def Arm.statementsAll : List Arm → List Stmt
  | [] => []
  | arm :: rest => arm.statements ++ Arm.statementsAll rest

def Decl.statements : Decl → List Stmt
  | .procedure _ body => Stmt.statementsElse body
  | _ => []

end

def Script.statements (s : Script) : List Stmt := s.declarations.flatMap Decl.statements

namespace Stmt

def isFor : Stmt → Bool
  | .forLoop .. => true
  | _ => false

/-- A comment that shares its line with other statements. -/
def isInlineComment : Stmt → Bool
  | .comment c => c.inline
  | _ => false

end Stmt

/-! ## The contents of a tree -/

mutual

def Expr.contents : Expr → List String
  | .string content => [content]
  | .name text => [text]
  | .typeName text => [text]
  | .member operand field => operand.contents ++ [field]
  | .call function arguments => function :: Expr.contentsAll arguments
  | .unary _ operand => operand.contents
  | .binary _ left right => left.contents ++ right.contents
  | _ => []

def Expr.contentsAll : List Expr → List String
  | [] => []
  | e :: es => e.contents ++ Expr.contentsAll es

end

def Expr.contentsOption : Option Expr → List String
  | none => []
  | some e => e.contents

def Param.contents (p : Param) : List String := [p.type, p.name]

def Signature.contents (s : Signature) : List String :=
  s.returnType :: s.name :: s.params.flatMap Param.contents

def Variable.contents (v : Variable) : List String :=
  v.type :: v.name :: Expr.contentsOption v.init

def EnumValue.contents (v : EnumValue) : List String := v.name :: v.value.contents

/-- The contents of a declaration but for the statements of its body. -/
def Decl.ownContents : Decl → List String
  | .prototype _ signature => signature.contents
  | .var declared => declared.contents
  | .procedure signature _ => signature.contents
  | .enum name values => name :: values.flatMap EnumValue.contents
  | .enumValue value => value.contents

def Arm.ownContents : Arm → List String
  | .onCase value _ => value.contents
  | .onDefault _ => []

/-- The contents of a statement but for the statements inside it. -/
def Stmt.ownContents : Stmt → List String
  | .block _ => []
  | .branch condition _ _ => condition.contents
  | .whileLoop condition _ => condition.contents
  | .forLoop init condition after _ => init.contents ++ condition.contents ++ after.contents
  | .switch scrutinee arms => scrutinee.contents ++ arms.flatMap Arm.ownContents
  | .ret value => Expr.contentsOption value
  | .breakLoop => []
  | .continueLoop => []
  | .goto target => [target]
  | .label name => [name]
  | .comment c => [c.content]
  | .expr e => e.contents
  | .decl d => d.ownContents

def Stmt.contents (s : Stmt) : List String := s.statements.flatMap Stmt.ownContents

def Decl.contents (d : Decl) : List String :=
  d.ownContents ++ d.statements.flatMap Stmt.ownContents

/-- All names, type names, quoted text, file names and comments of a script. -/
def Script.contents (s : Script) : List String := s.imports ++ s.declarations.flatMap Decl.contents

/-! ## Vocabularies -/

/-- Neither the end of a line nor a brace. -/
def isOrdinary (c : Char) : Bool := c != '\n' && c != '\x7b' && c != '\x7d'

/-- What the contents of a tree may be made of. -/
structure Vocabulary where
  admits : Char → Bool
  /-- Whether text may stand where no indentation was written for it: comments that share the line
  of another statement, and what is outside of all procedures. -/
  loose : Bool
  admits_ordinary : ∀ c, isOrdinary c = true → admits c = true
  admits_newline : admits '\n' = false

namespace Vocabulary

/-- Anything that stays on its line. -/
def oneLine (loose : Bool) : Vocabulary where
  admits c := c != '\n'
  loose := loose
  admits_ordinary _ h := (Bool.and_eq_true_iff.mp (Bool.and_eq_true_iff.mp h).1).1
  admits_newline := rfl

/-- What stays on its line and is no brace. -/
def braceless : Vocabulary where
  admits := isOrdinary
  loose := true
  admits_ordinary _ h := h
  admits_newline := rfl

variable (v : Vocabulary)

def spells (s : String) : Bool := s.toList.all v.admits

@[simp] theorem spells_append (a b : String) : v.spells (a ++ b) = (v.spells a && v.spells b) := by
  simp [spells]

theorem spells_of_isOrdinary {s : String} (h : s.toList.all isOrdinary = true) :
    v.spells s = true := by
  rw [List.all_eq_true] at h
  rw [spells, List.all_eq_true]
  exact fun c hc => v.admits_ordinary c (h c hc)

theorem spells_oneLine {loose : Bool} {s : String} (h : '\n' ∉ s.toList) :
    (oneLine loose).spells s = true := by
  refine List.all_eq_true.mpr fun c hc => ?_
  rw [oneLine, bne_iff_ne]
  rintro rfl
  exact h hc

theorem spells_written {name : String} (h : v.spells name = true) :
    v.spells (Name.written name) = true := by
  have hdelimiter : v.spells Name.delimiter = true := v.spells_of_isOrdinary (by decide)
  unfold Name.written
  split
  · exact h
  · simp [h, hdelimiter]

/-- Letters, digits and underscores are ordinary. -/
theorem isOrdinary_of_isTail {c : Char} (h : Name.isTail c = true) : isOrdinary c = true := by
  simp only [isOrdinary, Bool.and_eq_true, bne_iff_ne]
  refine ⟨⟨?_, ?_⟩, ?_⟩ <;>
    · rintro rfl
      revert h
      decide

theorem spells_of_isTail {s : String} (h : ∀ c ∈ s.toList, Name.isTail c = true) :
    v.spells s = true :=
  v.spells_of_isOrdinary (List.all_eq_true.mpr fun c hc => isOrdinary_of_isTail (h c hc))

end Vocabulary

/-! ## Literals -/

namespace Literal

variable (v : Vocabulary)

theorem spells_bool (b : Bool) : v.spells (bool b) = true := by
  cases b <;> exact v.spells_of_isOrdinary (by decide)

theorem spells_decimal (n : Nat) : v.spells (decimal n) = true := by
  apply v.spells_of_isTail
  intro c hc
  rw [decimal, String.toList_ofList] at hc
  exact isTail_of_isDigit (isDigit_of_mem_decimalDigits hc)

theorem spells_hexadecimal (n : UInt32) : v.spells (hexadecimal n) = true := by
  have hmark : v.spells "0x" = true := v.spells_of_isOrdinary (by decide)
  rw [hexadecimal, v.spells_append, hmark, Bool.true_and]
  apply v.spells_of_isTail
  intro c hc
  rw [String.toList_ofList] at hc
  exact isTail_of_mem_fixedDigits hc

theorem spells_unsigned (n : UInt32) : v.spells (unsigned n) = true := by
  unfold unsigned
  split
  · exact spells_hexadecimal v n
  · exact spells_decimal v _

theorem spells_signed (n : Int32) : v.spells (signed n) = true := by
  have hsign : v.spells "-" = true := v.spells_of_isOrdinary (by decide)
  unfold signed
  split
  · exact spells_unsigned v _
  · rw [v.spells_append, hsign, spells_decimal]
    rfl

theorem isOrdinary_of_mem_positional {d : Decimal} {c : Char} (h : c ∈ d.positional) :
    isOrdinary c = true := by
  have hdigit : ∀ x : Char, x.isDigit = true → isOrdinary x = true := fun x hx =>
    Vocabulary.isOrdinary_of_isTail (isTail_of_isDigit hx)
  rcases positional_cases d with ⟨-, hdigits⟩ | ⟨a, b, heq, -, -, ha, hb⟩
  · exact hdigit c (hdigits c h)
  · rw [heq, List.mem_append, List.mem_cons] at h
    rcases h with h | rfl | h
    · exact hdigit c (ha c h)
    · decide
    · exact hdigit c (hb c h)

theorem spells_single (x : Single) : v.spells (single x) = true := by
  have hmagnitude : x.magnitudeText.all isOrdinary = true := by
    unfold Single.magnitudeText
    split
    · decide
    · split
      · decide
      · exact List.all_eq_true.mpr fun c hc => isOrdinary_of_mem_positional hc
  apply v.spells_of_isOrdinary
  rw [single, String.toList_ofList, List.all_append, Single.text]
  split
  · decide
  · split
    · rw [List.all_cons, hmagnitude]
      decide
    · rw [hmagnitude]
      decide

theorem spells_quoted {content : String} (h : v.spells content = true) :
    v.spells (quoted content) = true := by
  have hquote : v.spells "\"" = true := v.spells_of_isOrdinary (by decide)
  rw [quoted, v.spells_append, v.spells_append, hquote, h]
  rfl

end Literal

/-! ## Text on one line -/

def Cmd.isSpelled (v : Vocabulary) : Cmd → Bool
  | .text s => v.spells s
  | .refuse _ => true
  | _ => false

namespace Layout

variable (v : Vocabulary)

/-- Nothing but text within the vocabulary, as far as nothing is refused. -/
def spelled (layout : Layout) : Bool := layout.all (Cmd.isSpelled v)

@[simp] theorem spelled_nil : spelled v [] = true := rfl

@[simp] theorem spelled_cons (c : Cmd) (layout : Layout) :
    spelled v (c :: layout) = (c.isSpelled v && spelled v layout) := List.all_cons

@[simp] theorem spelled_append (a b : Layout) :
    spelled v (a ++ b) = (spelled v a && spelled v b) := List.all_append

/-- Fixed text is within every vocabulary. -/
theorem isSpelled_fixed {s : String} (h : s.toList.all isOrdinary = true) :
    (Cmd.text s).isSpelled v = true := v.spells_of_isOrdinary h

theorem spelled_name {s : String} (h : v.spells s = true) : spelled v (name s) = true := by
  simp [name, Cmd.isSpelled, v.spells_written h]

theorem spelled_parens {inner : Layout} (h : spelled v inner = true) (wanted : Bool) :
    spelled v (parens wanted inner) = true := by
  cases wanted with
  | false => exact h
  | true => simp (disch := decide) [parens, h, isSpelled_fixed]

theorem spelled_commaSeparated {items : List Layout} (h : ∀ item ∈ items, spelled v item = true) :
    spelled v (commaSeparated items) = true := by
  induction items with
  | nil => rfl
  | cons a rest ih =>
    have ha := h a (List.mem_cons_self ..)
    have hrest := ih fun item hi => h item (List.mem_cons_of_mem _ hi)
    cases rest with
    | nil =>
      rw [commaSeparated_singleton]
      exact ha
    | cons b rest =>
      rw [commaSeparated_cons_cons]
      simp (disch := decide) [ha, hrest, isSpelled_fixed]

end Layout

variable {v : Vocabulary}

mutual

theorem Expr.spelled_layout (e : Expr) (h : e.contents.all v.spells = true) :
    Layout.spelled v e.layout = true := by
  cases e with
  | bool value => simp [Expr.layout, Cmd.isSpelled, Literal.spells_bool]
  | int value => simp [Expr.layout, Cmd.isSpelled, Literal.spells_signed]
  | uint value => simp [Expr.layout, Cmd.isSpelled, Literal.spells_unsigned]
  | float value => simp [Expr.layout, Cmd.isSpelled, Literal.spells_single]
  | string content =>
    simp only [Expr.contents, List.all_cons, List.all_nil, Bool.and_true] at h
    simp [Expr.layout, Cmd.isSpelled, Literal.spells_quoted v h]
  | name text =>
    simp only [Expr.contents, List.all_cons, List.all_nil, Bool.and_true] at h
    exact Layout.spelled_name v h
  | typeName text =>
    simp only [Expr.contents, List.all_cons, List.all_nil, Bool.and_true] at h
    simp [Expr.layout, Cmd.isSpelled, h]
  | member operand field =>
    simp only [Expr.contents, List.all_append, List.all_cons, List.all_nil, Bool.and_true,
      Bool.and_eq_true] at h
    have hoperand := spelled_layout operand h.1
    have hfield := Layout.spelled_name v h.2
    simp (disch := decide) [Expr.layout, hoperand, hfield, Layout.isSpelled_fixed]
  | call function arguments =>
    simp only [Expr.contents, List.all_cons, Bool.and_eq_true] at h
    have hname := Layout.spelled_name v h.1
    have harguments := Layout.spelled_commaSeparated v (spelled_layouts arguments h.2)
    rw [Expr.layout]
    split
    · rfl
    · simp (disch := decide) [hname, harguments, Layout.isSpelled_fixed]
  | unary op operand =>
    have hinner := Layout.spelled_parens v (spelled_layout operand h) (operand.groupedUnder op)
    have hop : (Cmd.text op.text).isSpelled v = true := by
      cases op <;> exact Layout.isSpelled_fixed v (by decide)
    simp only [Expr.layout]
    split <;> simp [hinner, hop]
  | binary op left right =>
    simp only [Expr.contents, List.all_append, Bool.and_eq_true] at h
    have hleft := spelled_layout left h.1
    have hright := spelled_layout right h.2
    have hop : (Cmd.text (" " ++ op.text ++ " ")).isSpelled v = true := by
      cases op <;> exact Layout.isSpelled_fixed v (by decide)
    rw [Expr.layout]
    apply Layout.spelled_parens
    simp [hleft, hright, hop]

theorem Expr.spelled_layouts (es : List Expr) (h : (Expr.contentsAll es).all v.spells = true) :
    ∀ item ∈ Expr.layouts es, Layout.spelled v item = true := by
  cases es with
  | nil => exact nofun
  | cons e es =>
    simp only [Expr.contentsAll, List.all_append, Bool.and_eq_true] at h
    intro item hi
    rcases List.mem_cons.mp hi with rfl | hi
    · exact spelled_layout e h.1
    · exact spelled_layouts es h.2 item hi

end

theorem Param.spelled_layout {p : Param} (h : p.contents.all v.spells = true) :
    Layout.spelled v p.layout = true := by
  simp only [Param.contents, List.all_cons, List.all_nil, Bool.and_true, Bool.and_eq_true] at h
  have htype : (Cmd.text p.type).isSpelled v = true := h.1
  simp (disch := decide) [Param.layout, htype, Layout.spelled_name v h.2, Layout.isSpelled_fixed]

theorem EnumValue.spelled_layout {value : EnumValue} (h : value.contents.all v.spells = true) :
    Layout.spelled v value.layout = true := by
  simp only [EnumValue.contents, List.all_cons, Bool.and_eq_true] at h
  have hvalue := value.value.spelled_layout h.2
  simp (disch := decide) [EnumValue.layout, Layout.spelled_name v h.1, hvalue,
    Layout.isSpelled_fixed]

theorem Modifier.spelled_layout (m : Modifier) : Layout.spelled v m.layout = true := by
  have hkeyword : (Cmd.text m.storage.keyword).isSpelled v = true := by
    cases m.storage <;> exact Layout.isSpelled_fixed v (by decide)
  have hslot : ∀ n, (Cmd.text (Literal.unsigned n)).isSpelled v = true := fun n =>
    Literal.spells_unsigned v n
  unfold Modifier.layout
  cases m.slot with
  | none => simp (disch := decide) [hkeyword, Layout.isSpelled_fixed]
  | some slot => simp (disch := decide) [hkeyword, hslot, Layout.isSpelled_fixed]

theorem Variable.spelled_layout {declared : Variable}
    (h : declared.contents.all v.spells = true) : Layout.spelled v declared.layout = true := by
  obtain ⟨modifier, type, name, init⟩ := declared
  simp only [Variable.contents, List.all_cons, Bool.and_eq_true] at h
  obtain ⟨htype, hname, hinit⟩ := h
  have htext : (Cmd.text type).isSpelled v = true := htype
  have hwritten := Layout.spelled_name v hname
  cases init with
  | none =>
    cases modifier <;>
      simp (disch := decide) [Variable.layout, htext, hwritten, Modifier.spelled_layout,
        Layout.isSpelled_fixed]
  | some e =>
    have he := e.spelled_layout hinit
    cases modifier <;>
      simp (disch := decide) [Variable.layout, htext, hwritten, he, Modifier.spelled_layout,
        Layout.isSpelled_fixed]

end Scribe
