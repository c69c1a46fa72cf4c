import Scribe.Literal

/-! Why writing stops. A tree can miss a piece, the destination can refuse bytes, bytes can fail to
be text: these are errors, after which a printer goes on with its next call. An indentation that
cannot be counted or written aborts instead. -/

namespace Scribe

/-- What is wrong with a tree that cannot be written. -/
inductive Defect where
  | returnOutsideProcedure
  | unnamedCall
  | unnamedPrototype (index : UInt32)
  | unnamedProcedure
  | emptyIf
  | defaultLabels (count : Nat)
  deriving DecidableEq

def Defect.detail : Defect → String
  | .returnOutsideProcedure => "return statement outside of a procedure"
  | .unnamedCall => "call without a function name"
  | .unnamedPrototype index => "function prototype " ++ Literal.hexadecimal index ++ " has no name"
  | .unnamedProcedure => "procedure without a name"
  | .emptyIf => "if statement with neither a body nor an else branch"
  | .defaultLabels count => "switch statement has " ++ decimal count ++ " default labels"

/-- A failure of the destination: its kind and its own description. -/
structure WriteError where
  kind : String
  text : String
  deriving DecidableEq

namespace WriteError

/-- The destination took none of the bytes offered to it. -/
def nothingAccepted : WriteError := ⟨"WriteZero", "failed to write whole buffer"⟩

/-- An interrupted write is repeated and not reported. -/
def isInterruption (e : WriteError) : Bool := e.kind == "Interrupted"

end WriteError

inductive Error where
  | malformed (defect : Defect)
  | write (cause : WriteError)
  | notText
  deriving DecidableEq

def Error.message : Error → String
  | .malformed defect => "malformed syntax tree: " ++ defect.detail
  | .write cause => "could not write output: " ++ cause.text
  | .notText => "rendered output was not valid UTF-8"

inductive Abort where
  | unbalancedDepth
  | depthOverflow
  | widthOverflow
  | widthTooLarge
  deriving DecidableEq

def Abort.message : Abort → String
  | .unbalancedDepth => "unbalanced indentation"
  | .depthOverflow => "attempt to add with overflow"
  | .widthOverflow => "attempt to multiply with overflow"
  | .widthTooLarge => "Formatting argument out of range"

inductive Stop where
  | error (cause : Error)
  | abort (cause : Abort)
  deriving DecidableEq

end Scribe
