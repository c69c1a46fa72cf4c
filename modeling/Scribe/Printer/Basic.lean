import Scribe.Layout.Cmd
import Scribe.Sink.Basic

/-! A printer owns one destination and performs layout commands on it, keeping a log. Commands run
until one stops; what was written and logged before that stays. -/

namespace Scribe

structure Printer where
  options : Options
  sink : Sink
  /-- Oldest event first. -/
  log : List Event := []

abbrev PrinterM := EStateM Stop Printer

namespace Printer

/-- A printer at the start of an empty page. -/
def start (writer : Writer) (options : Options) : Printer where
  options := options
  sink := { writer, width := options.indentWidth }

def onSink (action : SinkM Unit) : PrinterM Unit
  | ⟨options, sink, log⟩ =>
    match action sink with
    | .ok () sink => .ok () ⟨options, sink, log⟩
    | .error e sink => .error e ⟨options, sink, log⟩

def note (event : Event) : PrinterM Unit := modify fun p => { p with log := p.log ++ [event] }

def perform : Cmd → PrinterM Unit
  | .text s => onSink (Sink.text s)
  | .line s => onSink (Sink.line s)
  | .newline => onSink Sink.newline
  | .breakLine => onSink Sink.breakLine
  | .indent => onSink Sink.indent
  | .deeper => onSink Sink.deeper
  | .shallower => onSink Sink.shallower
  | .openBrace => do onSink (Sink.openBrace (← get).options.braceStyle)
  | .elseWord => do onSink (Sink.elseWord (← get).options.braceStyle)
  | .note event => note event
  | .refuse defect => do
    note (.refused defect)
    throw (.error (.malformed defect))

def run : Layout → PrinterM Unit
  | [], p => .ok () p
  | c :: rest, p =>
    match perform c p with
    | .ok () q => run rest q
    | .error e q => .error e q

@[simp] theorem run_nil (p : Printer) : run [] p = .ok () p := rfl

theorem run_append (a b : Layout) (p : Printer) :
    run (a ++ b) p = match run a p with
      | .ok () q => run b q
      | .error e q => .error e q := by
  induction a generalizing p with
  | nil => rfl
  | cons c a ih =>
    simp only [List.cons_append, run]
    cases h : perform c p with
    | ok u q => exact ih q
    | error e q => rfl

/-- Commands that stop halfway leave the depth where they found it, so that the printer can go on
with something else. -/
def runKeepingDepth (layout : Layout) (p : Printer) : EStateM.Result Stop Printer Unit :=
  match run layout p with
  | .ok () q => .ok () q
  | .error e q => .error e { q with sink := { q.sink with depth := p.sink.depth } }

end Printer

end Scribe
