import Scribe.Event
import Scribe.Name

/-! Layout commands. A tree is written in two stages: it becomes a list of commands, which depends
on the tree alone, and the commands are performed one after another, which is where brace style,
indentation and the destination come in. -/

namespace Scribe

inductive Cmd where
  | text (s : String)
  | line (s : String)
  | newline
  | breakLine
  | indent
  | deeper
  | shallower
  | openBrace
  | elseWord
  | note (event : Event)
  /-- Nothing after this command is performed. -/
  | refuse (defect : Defect)
  deriving DecidableEq

abbrev Layout := List Cmd

namespace Layout

def name (s : String) : Layout := [.text (Name.written s)]

def parens (wanted : Bool) (inner : Layout) : Layout :=
  if wanted then [.text "("] ++ inner ++ [.text ")"] else inner

def commaSeparated (items : List Layout) : Layout := List.intercalate [.text ", "] items

@[simp] theorem commaSeparated_nil : commaSeparated [] = [] := rfl

@[simp] theorem commaSeparated_singleton (a : Layout) : commaSeparated [a] = a :=
  List.append_nil a

@[simp] theorem commaSeparated_cons_cons (a b : Layout) (rest : List Layout) :
    commaSeparated (a :: b :: rest) = a ++ [.text ", "] ++ commaSeparated (b :: rest) := by
  simp [commaSeparated, List.intercalate]

def semicolon : Layout := [.line ";"]

/-- Braces around `inner`, one level deeper. With `keepLine` the cursor stays behind the closing
brace. -/
def braces (keepLine : Bool) (inner : Layout) : Layout :=
  [.openBrace, .deeper] ++ inner ++ [.shallower, .breakLine, .indent, .text "\x7d"] ++
    if keepLine then [] else [.newline]

end Layout

end Scribe
