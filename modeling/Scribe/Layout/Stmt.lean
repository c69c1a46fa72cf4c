import Scribe.Layout.Expr
import Scribe.Layout.Place

/-! Layout of statements and declarations. Most statements start a line at the current depth;
`lead` is that start and `core` all the rest, because an `if` that continues an `else` has the one
and not the other. -/

namespace Scribe

/-! ## Pieces that hold no statements -/

namespace Comment

/-- Several lines are closed by the same mark that opens them, which is how scripts are found
written and what reads back. -/
def ownLine (content : String) : Layout :=
  if content.toList.contains '\n' then [.indent, .text "/* ", .text content, .line " /*"]
  else if content = "" then [.indent, .text "//", .newline]
  else [.indent, .text "// ", .line content]

def layout (c : Comment) : Layout :=
  if c.inline then [.text "/* ", .text c.content, .text " */"] else ownLine c.content

end Comment

def Param.layout (p : Param) : Layout := [.text p.type, .text " "] ++ Layout.name p.name

def Signature.layout (s : Signature) : Layout :=
  [.text s.returnType, .text " "] ++ Layout.name s.name ++ [.text "("] ++
    Layout.commaSeparated (s.params.map Param.layout) ++ [.text ")"]

def Modifier.layout (m : Modifier) : Layout :=
  [.text m.storage.keyword] ++
    (match m.slot with
      | none => []
      | some slot => [.text "(", .text (Literal.unsigned slot), .text ")"]) ++
    [.text " "]

def Variable.layout (v : Variable) : Layout :=
  (match v.modifier with
    | none => []
    | some m => m.layout) ++
  [.text v.type, .text " "] ++ Layout.name v.name ++
  (match v.init with
    | none => []
    | some e => [.text " = "] ++ e.layout)

namespace EnumValue

def layout (v : EnumValue) : Layout := Layout.name v.name ++ [.text " = "] ++ v.value.layout

/-- One value a line, with a comma after each but the last. -/
def lines : List EnumValue → Layout
  | [] => []
  | v :: vs =>
    [.indent] ++ v.layout ++ [if vs.isEmpty then .newline else .line ","] ++ lines vs

end EnumValue

/-- A procedure ends in its closing brace, or writes its own semicolon when it has no body. -/
def Decl.terminator (d : Decl) : Layout := if d.isProcedure then [] else Layout.semicolon

/-! ## Statements -/

namespace Stmt

/-- Whether the statement finds its own place on the page: a `return` may not be written at all, a
block may continue a line, a `for` stands behind a blank line, a comment may stay on the line. -/
def placesItself : Stmt → Bool
  | .ret _ | .comment _ | .block _ | .forLoop .. => true
  | _ => false

def lead (s : Stmt) : Layout := if s.placesItself then [] else [.indent]

/-- The condition of an `if` stands in one pair of parentheses, its own if it has one. -/
def branchHead (condition : Expr) : Layout :=
  [.text "if "] ++ Layout.parens (!condition.selfGrouped) condition.layout

/-- A body under a loop or branch, given its core: a block follows directly, any other statement
goes one level deeper on a line of its own. -/
def attached (s : Stmt) (core : Layout) : Layout :=
  if s.isBlock then core else [.breakLine, .deeper] ++ s.lead ++ core ++ [.shallower]

/-- An `else` that holds nothing but another `if` continues as `else if`. -/
def isChained : List Stmt → Bool
  | [s] => s.isBranch
  | _ => false

theorem isChained_map {f : Stmt → Stmt} (h : ∀ s, (f s).isBranch = s.isBranch)
    (body : List Stmt) : isChained (body.map f) = isChained body := by
  match body with
  | [] => rfl
  | [s] => exact h s
  | _ :: _ :: _ => rfl

def bareReturn (elide : Bool) : Place → Layout
  | .outside => [.refuse .returnOutsideProcedure]
  | .inside _ => [.indent, .text "return"] ++ Layout.semicolon
  | .last procedure =>
    if elide then [.note (.elidedReturn procedure)]
    else [.indent, .text "return"] ++ Layout.semicolon

/-- How many labels of a `switch` are `default`. -/
def defaultCount (arms : List Arm) : Nat := arms.countP Arm.isDefault

theorem defaultCount_map {f : Arm → Arm} (h : ∀ arm, (f arm).isDefault = arm.isDefault)
    (arms : List Arm) : defaultCount (arms.map f) = defaultCount arms := by
  have hf : Arm.isDefault ∘ f = Arm.isDefault := funext h
  rw [defaultCount, List.countP_map, hf, defaultCount]

end Stmt

mutual

/-- Everything of a statement but its leading indentation. With `keepLine` the cursor stays behind
the closing brace of a block. -/
def Stmt.core (elide : Bool) (place : Place) (keepLine : Bool) : Stmt → Layout
  | .block body => Layout.braces keepLine (Stmt.layouts elide place.nested place.nested body)
  | .branch condition body otherwise =>
    if body.isNone && otherwise.isNone then [.refuse .emptyIf]
    else
      Stmt.branchHead condition ++ Stmt.consequent elide place.nested otherwise.isSome body ++
        Stmt.alternative elide place.nested otherwise
  | .whileLoop condition body =>
    [.text "while ("] ++ condition.layout ++ [.text ")"] ++
      body.attached (body.core elide place.nested false)
  | .forLoop init condition after body =>
    [.breakLine, .newline, .indent, .text "for ("] ++ init.layout ++ [.text "; "] ++
      condition.layout ++ [.text "; "] ++ after.layout ++ [.text ")"] ++
      body.attached (body.core elide place.nested false)
  | .switch scrutinee arms =>
    if 1 < Stmt.defaultCount arms then [.refuse (.defaultLabels (Stmt.defaultCount arms))]
    else
      [.text "switch ("] ++ scrutinee.layout ++ [.text ")"] ++
        Layout.braces false (Arm.layouts elide place.nested arms)
  | .ret none => Stmt.bareReturn elide place
  | .ret (some value) => [.indent, .text "return "] ++ value.layout ++ Layout.semicolon
  | .breakLoop => [.text "break"] ++ Layout.semicolon
  | .continueLoop => [.text "continue"] ++ Layout.semicolon
  | .goto label => [.text "goto "] ++ Layout.name label ++ Layout.semicolon
  | .label name => Layout.name name ++ [.line ":"]
  | .comment comment => comment.layout
  | .expr expr => expr.layout ++ Layout.semicolon
  | .decl decl => decl.layout elide ++ decl.terminator

/-- The statements of a list, where the last one may have a place of its own. -/
def Stmt.layouts (elide : Bool) (place final : Place) : List Stmt → Layout
  | [] => []
  | s :: rest =>
    s.lead ++ s.core elide (if rest.isEmpty then final else place) false ++
      Stmt.layouts elide place final rest

/-- What follows a condition. An absent body is written as an empty block. -/
def Stmt.consequent (elide : Bool) (place : Place) (keepLine : Bool) : Option Stmt → Layout
  | none => Layout.braces keepLine []
  | some body => body.attached (body.core elide place keepLine)

def Stmt.alternative (elide : Bool) (place : Place) : Option (List Stmt) → Layout
  | none => []
  | some body =>
    [.elseWord] ++
      if Stmt.isChained body then [.text " "] ++ Stmt.firstCore elide place body
      else Layout.braces false (Stmt.layouts elide place place body)

def Stmt.firstCore (elide : Bool) (place : Place) : List Stmt → Layout
  | [] => []
  | s :: _ => s.core elide place false

def Arm.layouts (elide : Bool) (place : Place) : List Arm → Layout
  | [] => []
  | arm :: rest => arm.layout elide place ++ Arm.layouts elide place rest

def Arm.layout (elide : Bool) (place : Place) : Arm → Layout
  | .onCase value body =>
    [.indent, .text "case "] ++ value.layout ++ [.line ":", .deeper] ++
      Stmt.layouts elide place place body ++ [.shallower]
  | .onDefault body =>
    [.indent, .text "default:", .newline, .deeper] ++ Stmt.layouts elide place place body ++
      [.shallower]

/-- A declaration without the terminator that all but procedures are given. -/
def Decl.layout (elide : Bool) : Decl → Layout
  | .prototype index signature =>
    if signature.name = "" then [.refuse (.unnamedPrototype index)]
    else
      [.text "function(", .text (Literal.hexadecimal index), .text ") "] ++ signature.layout
  | .var declared => declared.layout
  | .procedure signature body =>
    if signature.name = "" then [.refuse .unnamedProcedure]
    else
      [.note (.procedure signature.name (body.getD []).length)] ++ signature.layout ++
        Decl.bodyLayout elide signature.name body
  | .enum name values =>
    [.text "enum "] ++ Layout.name name ++ Layout.braces true (EnumValue.lines values)
  | .enumValue value => value.layout

def Decl.bodyLayout (elide : Bool) (procedure : String) : Option (List Stmt) → Layout
  | none => Layout.semicolon
  | some body => Layout.braces false (Stmt.layouts elide (.inside procedure) (.last procedure) body)

end

def Stmt.layout (elide : Bool) (place : Place) (s : Stmt) : Layout :=
  s.lead ++ s.core elide place false

/-- A declaration as it stands in a script. -/
def Decl.terminated (elide : Bool) (d : Decl) : Layout :=
  d.layout elide ++ d.terminator

end Scribe
