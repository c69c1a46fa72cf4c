import Scribe.Stop

/-! Log events: the start of a script, the start of a procedure, a return that was left out, a tree
that was refused. -/

namespace Scribe

inductive Level where
  | debug
  | trace
  | warn
  deriving DecidableEq

def Level.text : Level → String
  | .debug => "DEBUG"
  | .trace => "TRACE"
  | .warn => "WARN"

inductive Event where
  | script (imports declarations : Nat)
  | procedure (name : String) (statements : Nat)
  | elidedReturn (name : String)
  | refused (defect : Defect)
  deriving DecidableEq

namespace Event

def level : Event → Level
  | .script .. => .debug
  | .procedure .. => .debug
  | .elidedReturn _ => .trace
  | .refused _ => .warn

inductive Value where
  | text (s : String)
  | count (n : Nat)
  deriving DecidableEq

/-- Named values in the order in which they are logged. A name can occur twice. -/
def fields : Event → List (String × Value)
  | .script imports declarations =>
    [("message", .text "unparsing compilation unit"), ("imports", .count imports),
      ("declarations", .count declarations)]
  | .procedure name statements =>
    [("message", .text "unparsing procedure"), ("procedure", .text name),
      ("statements", .count statements)]
  | .elidedReturn name =>
    [("message", .text "eliding trailing return"), ("procedure", .text name)]
  | .refused defect =>
    [("message", .text "refusing to unparse malformed tree"), ("message", .text defect.detail)]

end Event

end Scribe
