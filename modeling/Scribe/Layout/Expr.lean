import Scribe.Layout.Cmd
import Scribe.Tree.Basic

/-! Layout of expressions. There is no table of precedences: every binary expression but an
assignment encloses itself in parentheses, so an operator has to group only operands that are
assignments and operands whose first character would merge with it. -/

namespace Scribe.Expr

/-- The sign that the text of an expression starts with. -/
def leadingSign : Expr → Option Char
  | .int value => if value < 0 then some '-' else none
  | .float value => if value.negative then some '-' else none
  | .unary .negate _ => some '-'
  | .unary .preDecrement _ => some '-'
  | .unary .preIncrement _ => some '+'
  | .unary .postIncrement operand => operand.leadingSign
  | .unary .postDecrement operand => operand.leadingSign
  | .member operand _ => operand.leadingSign
  | _ => none

/-- Whether `op` puts parentheses around this operand. -/
def groupedUnder (op : UnaryOp) : Expr → Bool
  | .binary inner _ _ => inner.isAssignment
  | .unary inner operand =>
    if op.followsOperand then !inner.followsOperand
    else (Expr.unary inner operand).leadingSign == some op.sign
  | operand => !op.followsOperand && operand.leadingSign == some op.sign

/-- Whether the expression writes parentheses around itself. -/
def selfGrouped : Expr → Bool
  | .binary op _ _ => !op.isAssignment
  | _ => false

mutual

def layout : Expr → Layout
  | .bool value => [.text (Literal.bool value)]
  | .int value => [.text (Literal.signed value)]
  | .uint value => [.text (Literal.unsigned value)]
  | .float value => [.text (Literal.single value)]
  | .string content => [.text (Literal.quoted content)]
  | .name text => Layout.name text
  | .typeName text => [.text text]
  | .member operand field => operand.layout ++ [.text "."] ++ Layout.name field
  | .call function arguments =>
    if function = "" then [.refuse .unnamedCall]
    else
      Layout.name function ++ [.text "("] ++ Layout.commaSeparated (layouts arguments) ++
        [.text ")"]
  | .unary op operand =>
    let inner := Layout.parens (operand.groupedUnder op) operand.layout
    if op.followsOperand then inner ++ [.text op.text] else [.text op.text] ++ inner
  | .binary op left right =>
    Layout.parens (!op.isAssignment)
      (left.layout ++ [.text (" " ++ op.text ++ " ")] ++ right.layout)

def layouts : List Expr → List Layout
  | [] => []
  | e :: es => e.layout :: layouts es

end

end Scribe.Expr
