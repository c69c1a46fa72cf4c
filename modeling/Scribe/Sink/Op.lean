import Scribe.Sink.Basic

/-! Sink operations as data, and runs of them. A run goes on after a failure, from whatever state
the failed operation left. -/

namespace Scribe.Sink

inductive Op where
  | text (s : String)
  | line (s : String)
  | indentedText (s : String)
  | indentedLine (s : String)
  | newline
  | breakLine
  | indent
  | flush
  | deeper
  | shallower
  | setDepth (depth : Nat)
  deriving DecidableEq

def Op.perform : Op → SinkM Unit
  | .text s => Sink.text s
  | .line s => Sink.line s
  | .indentedText s => do Sink.indent; Sink.text s
  | .indentedLine s => do Sink.indent; Sink.text s; Sink.newline
  | .newline => Sink.newline
  | .breakLine => Sink.breakLine
  | .indent => Sink.indent
  | .flush => Sink.flush
  | .deeper => Sink.deeper
  | .shallower => Sink.shallower
  | .setDepth depth => Sink.setDepth depth

/-- What one operation did, and where it left the sink. -/
structure Op.Report where
  result : Except Stop Unit
  written : ByteArray
  depth : Nat
  midLine : Bool

/-- The state after an operation, whether or not it stopped. -/
def after (op : Op) (s : Sink) : Sink :=
  match op.perform s with
  | .ok () t => t
  | .error _ t => t

def Op.report (op : Op) (s : Sink) : Op.Report :=
  let start := s.writer.held.size
  match op.perform s with
  | .ok () t => ⟨.ok (), t.writer.heldFrom start, t.depth, t.midLine⟩
  | .error e t => ⟨.error e, t.writer.heldFrom start, t.depth, t.midLine⟩

def run (ops : List Op) (s : Sink) : Sink := ops.foldl (fun s op => s.after op) s

def reports : List Op → Sink → List Op.Report
  | [], _ => []
  | op :: ops, s => op.report s :: reports ops (s.after op)

@[simp] theorem run_nil (s : Sink) : run [] s = s := rfl

@[simp] theorem run_append (a b : List Op) (s : Sink) : run (a ++ b) s = run b (run a s) :=
  List.foldl_append

end Scribe.Sink
