import Scribe.Options
import Scribe.Writer

/-! Line-aware output. A sink knows how deeply the text is nested and whether the cursor stands in
the middle of a line; nothing is buffered. Depth and mid-line mark change only after the bytes they
describe have been taken. -/

namespace Scribe

structure Sink where
  writer : Writer := {}
  /-- Spaces per level. -/
  width : Nat := 2
  depth : Nat := 0
  midLine : Bool := false

/-- Actions that can stop. What they changed before stopping stays changed. -/
abbrev SinkM := EStateM Stop Sink

namespace Sink

/-- Machine words count levels and spaces. -/
def wordLimit : Nat := 0x10000000000000000

/-- The most spaces that one indentation can have. -/
def widestIndent : Nat := 65535

/-- Bytes only; the cursor mark is up to the caller. -/
def emit (s : String) : SinkM Unit
  | ⟨writer, width, depth, midLine⟩ =>
    match writer.write s.toUTF8 with
    | .ok () writer => .ok () ⟨writer, width, depth, midLine⟩
    | .error e writer => .error (.error (.write e)) ⟨writer, width, depth, midLine⟩

def mark (midLine : Bool) : SinkM Unit := modify fun s => { s with midLine }

/-- Also an empty text leaves the cursor mid-line. -/
def text (s : String) : SinkM Unit := do
  emit s
  mark true

def newline : SinkM Unit := do
  emit "\n"
  mark false

/-- The end of a line. The cursor mark does not move between the text and the line break. -/
def line (s : String) : SinkM Unit := do
  emit s
  newline

/-- Ends the current line if anything has been written to it. -/
def breakLine : SinkM Unit := do
  if (← get).midLine then newline

def spaces (n : Nat) : String := String.ofList (List.replicate n ' ')

/-- One write of `depth * width` spaces, after which the cursor is mid-line even if there were
none. -/
def indent : SinkM Unit := do
  let s ← get
  let n := s.depth * s.width
  if wordLimit ≤ n then throw (.abort .widthOverflow)
  else if widestIndent < n then throw (.abort .widthTooLarge)
  else text (spaces n)

def deeper : SinkM Unit := do
  let s ← get
  if wordLimit ≤ s.depth + 1 then throw (.abort .depthOverflow)
  else set { s with depth := s.depth + 1 }

def shallower : SinkM Unit := do
  let s ← get
  if s.depth = 0 then throw (.abort .unbalancedDepth)
  else set { s with depth := s.depth - 1 }

def setDepth (depth : Nat) : SinkM Unit := modify fun s => { s with depth }

def flush : SinkM Unit
  | ⟨writer, width, depth, midLine⟩ =>
    match writer.flush with
    | .ok () writer => .ok () ⟨writer, width, depth, midLine⟩
    | .error e writer => .error (.error (.write e)) ⟨writer, width, depth, midLine⟩

/-- On the same line only if there is something on it already. -/
def openBrace (style : BraceStyle) : SinkM Unit := do
  if style = .sameLine && (← get).midLine then line " \x7b"
  else
    breakLine
    indent
    text "\x7b"
    newline

/-- Like `openBrace`, but the line goes on afterwards. -/
def elseWord (style : BraceStyle) : SinkM Unit := do
  if style = .sameLine && (← get).midLine then text " else"
  else
    breakLine
    indent
    text "else"

end Sink

end Scribe
