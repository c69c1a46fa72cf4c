import Scribe.Layout.Script
import Scribe.Printer.Basic

/-! Writing trees: onto a printer, to a destination, or as text. -/

namespace Scribe

namespace Printer

def writeExpr (e : Expr) : PrinterM Unit := runKeepingDepth e.layout

def writeStmt (place : Place) (s : Stmt) : PrinterM Unit := fun p =>
  runKeepingDepth (s.layout p.options.elideTrailingReturn place) p

/-- Only the declaration itself; inside a script all but procedures are terminated. -/
def writeDecl (d : Decl) : PrinterM Unit := fun p =>
  runKeepingDepth (d.layout p.options.elideTrailingReturn) p

def writeScript (s : Script) : PrinterM Unit := fun p =>
  runKeepingDepth (s.layout p.options) p

/-- The last call of a printer. -/
def finish : PrinterM Unit := onSink Sink.flush

end Printer

/-- Bytes as text, if they are UTF-8 throughout. -/
def decodeText (bytes : ByteArray) : Except Error String :=
  match String.fromUTF8? bytes with
  | some s => .ok s
  | none => .error .notText

namespace Script

/-- Writes a script to a destination, which is flushed only after all of it has been written. -/
def writeTo (s : Script) (writer : Writer) (o : Options) : EStateM.Result Stop Printer Unit :=
  (do Printer.writeScript s; Printer.finish : PrinterM Unit) (Printer.start writer o)

/-- The text of a script, with the log. -/
def toText (s : Script) (o : Options) : Except Stop String × List Event :=
  match s.writeTo {} o with
  | .ok () p => ((decodeText p.sink.writer.held).mapError .error, p.log)
  | .error e p => (.error e, p.log)

end Script

end Scribe
