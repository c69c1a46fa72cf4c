import Scribe.Printer.Render

/-! Sessions: several calls on one printer, each reported with what it added. Procedures that live
as long as the session are known by their position; a statement can be written as if it stood in
one of them, and a statement of one can be written itself. -/

namespace Scribe.Session

inductive Step where
  | script (s : Script)
  | decl (d : Decl)
  | expr (e : Expr)
  /-- A statement that is part of no procedure, written under `scope`. -/
  | stmt (s : Stmt) (scope : Option Nat)
  /-- The statement at `index` in the body of a procedure, written under `scope`. -/
  | body (procedure index : Nat) (scope : Option Nat)
  /-- Asks for the procedure that a scope stands for. -/
  | scope (scope : Option Nat)

/-- The procedure that a scope stands for, if any. -/
def enclosing (procedures : List Procedure) (scope : Option Nat) : Option Procedure :=
  scope.bind fun i => procedures[i]?

def freshPlace (procedures : List Procedure) (scope : Option Nat) : Place :=
  match enclosing procedures scope with
  | none => .outside
  | some p => .inside p.name

/-- A statement is the last of its own procedure only, however much another one looks like it. -/
def bodyPlace (procedures : List Procedure) (procedure index : Nat) (scope : Option Nat) : Place :=
  match enclosing procedures scope with
  | none => .outside
  | some p =>
    if scope = some procedure ∧ index + 1 = p.statements.length then .last p.name
    else .inside p.name

def statementAt (procedures : List Procedure) (procedure index : Nat) : Option Stmt :=
  procedures[procedure]?.bind fun p => p.statements[index]?

inductive Report where
  | written (result : Except Stop Unit) (bytes : ByteArray) (events : List Event)
  | scope (procedure : Option String)

/-- What the end of a session shows of its destination. -/
structure Closing where
  result : Except Stop Unit
  flushes : Nat
  total : Nat

/-- The call that a step makes; a question makes none. -/
def call (procedures : List Procedure) : Step → PrinterM Unit
  | .script s => Printer.writeScript s
  | .decl d => Printer.writeDecl d
  | .expr e => Printer.writeExpr e
  | .stmt s scope => Printer.writeStmt (freshPlace procedures scope) s
  | .body procedure index scope =>
    match statementAt procedures procedure index with
    | none => pure ()
    | some s => Printer.writeStmt (bodyPlace procedures procedure index scope) s
  | .scope _ => pure ()

/-- What a call changed between two states of the printer. -/
def report (result : Except Stop Unit) (size logged : Nat) (p : Printer) : Report :=
  .written result (p.sink.writer.heldFrom size) (p.log.drop logged)

def close (p : Printer) : Closing :=
  match Printer.finish p with
  | .ok () q => ⟨.ok (), q.sink.writer.flushes, q.sink.writer.held.size⟩
  | .error e q => ⟨.error e, q.sink.writer.flushes, q.sink.writer.held.size⟩

/-- Errors are reported and the session goes on; an abort ends it without a closing. -/
def run (procedures : List Procedure) : List Step → Printer → List Report × Option Closing
  | [], p => ([], some (close p))
  | .scope scope :: rest, p =>
    let (reports, closing) := run procedures rest p
    (.scope ((enclosing procedures scope).map Procedure.name) :: reports, closing)
  | step :: rest, p =>
    let size := p.sink.writer.held.size
    let logged := p.log.length
    match call procedures step p with
    | .ok () q =>
      let (reports, closing) := run procedures rest q
      (report (.ok ()) size logged q :: reports, closing)
    | .error (.error e) q =>
      let (reports, closing) := run procedures rest q
      (report (.error (.error e)) size logged q :: reports, closing)
    | .error (.abort a) q => ([report (.error (.abort a)) size logged q], none)

end Scribe.Session
