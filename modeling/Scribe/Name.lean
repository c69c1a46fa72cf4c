/-! Names in source text. A plain name stands as it is; any other text, the empty one included, is
enclosed in double backticks and otherwise left alone. -/

namespace Scribe.Name

def isHead (c : Char) : Bool := c.isAlpha || c == '_'

def isTail (c : Char) : Bool := c.isAlphanum || c == '_'

/-- ASCII letters, digits and underscores, not starting with a digit. -/
def isPlain (name : String) : Bool :=
  match name.toList with
  | [] => false
  | c :: cs => isHead c && cs.all isTail

def delimiter : String := "``"

def written (name : String) : String :=
  if isPlain name then name else delimiter ++ name ++ delimiter

end Scribe.Name
