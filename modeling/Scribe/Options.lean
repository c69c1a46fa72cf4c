/-! Layout options. -/

namespace Scribe

/-- Where the opening brace of a block goes when the block follows other text on its line. -/
inductive BraceStyle where
  | nextLine
  | sameLine
  deriving DecidableEq

structure Options where
  /-- Spaces per nesting level. -/
  indentWidth : Nat := 2
  braceStyle : BraceStyle := .nextLine
  /-- Whether each section of a script starts with a banner comment. -/
  sectionBanners : Bool := true
  /-- Whether a bare `return;` that closes a procedure body is left implicit. -/
  elideTrailingReturn : Bool := true
  deriving DecidableEq

end Scribe
