/-! Operators of the script language and their spelling. -/

namespace Scribe

inductive UnaryOp where
  | not
  | negate
  | preIncrement
  | preDecrement
  | postIncrement
  | postDecrement
  deriving DecidableEq

namespace UnaryOp

/-- Whether the operator is written after its operand. -/
def followsOperand : UnaryOp → Bool
  | .postIncrement | .postDecrement => true
  | _ => false

def text : UnaryOp → String
  | .not => "!"
  | .negate => "-"
  | .preIncrement | .postIncrement => "++"
  | .preDecrement | .postDecrement => "--"

/-- The character that an operand must not start with, or the two would read as another token.
It is the last character of the operator. -/
def sign : UnaryOp → Char
  | .not => '!'
  | .negate => '-'
  | .preIncrement | .postIncrement => '+'
  | .preDecrement | .postDecrement => '-'

theorem getLast?_text (op : UnaryOp) : op.text.toList.getLast? = some op.sign := by
  cases op <;> rfl

end UnaryOp

inductive BinaryOp where
  | add
  | sub
  | mul
  | div
  | eq
  | ne
  | lt
  | le
  | gt
  | ge
  | and
  | or
  | assign
  | addAssign
  | subAssign
  | mulAssign
  | divAssign
  deriving DecidableEq

namespace BinaryOp

/-- Plain and compound assignment. -/
def isAssignment : BinaryOp → Bool
  | .assign | .addAssign | .subAssign | .mulAssign | .divAssign => true
  | _ => false

def text : BinaryOp → String
  | .add => "+"
  | .sub => "-"
  | .mul => "*"
  | .div => "/"
  | .eq => "=="
  | .ne => "!="
  | .lt => "<"
  | .le => "<="
  | .gt => ">"
  | .ge => ">="
  | .and => "&&"
  | .or => "||"
  | .assign => "="
  | .addAssign => "+="
  | .subAssign => "-="
  | .mulAssign => "*="
  | .divAssign => "/="

end BinaryOp

end Scribe
