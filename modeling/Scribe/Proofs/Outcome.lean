import Scribe.Proofs.Effect

/-! What can be seen of a call from outside. A destination without a limit takes the whole text of
an effect, so calls on it end as their effect says; the text of a script is the text of its effect,
because what was text when it was written is text when it is read. -/

namespace Scribe

namespace Effect

/-- The text of an effect, or why there is none. -/
def told (e : Effect) : Except Stop String :=
  match e.stop with
  | none => .ok e.text
  | some x => .error x

theorem told_of_stop {e : Effect} {x : Stop} (h : e.stop = some x) : e.told = .error x := by
  rw [told, h]

theorem told_of_none {e : Effect} (h : e.stop = none) : e.told = .ok e.text := by
  rw [told, h]

theorem stop_eq_none_of_told {e : Effect} {t : String} (h : e.told = .ok t) : e.stop = none := by
  cases hs : e.stop with
  | none => rfl
  | some x =>
    rw [told_of_stop hs] at h
    cases h

theorem text_of_told {e : Effect} {t : String} (h : e.told = .ok t) : e.text = t := by
  rw [told_of_none (stop_eq_none_of_told h)] at h
  exact Except.ok.inj h

theorem told_andThen {e : Effect} (h : e.stop = none) (f : Cursor → Effect) :
    (e.andThen f).told = (f e.cursor).told.map (e.text ++ ·) := by
  rw [andThen_of_none h]
  cases hs : (f e.cursor).stop with
  | some x => rw [told_of_stop hs, told_of_stop rfl]; rfl
  | none => rw [told_of_none hs, told_of_none rfl]; rfl

end Effect

namespace Printer

/-- How an action ends, leaving aside where. -/
def verdict (x : PrinterM Unit) (p : Printer) : Except Stop Unit :=
  match x p with
  | .ok () _ => .ok ()
  | .error e _ => .error e

/-- The bytes that an action adds to the destination. -/
def written (x : PrinterM Unit) (p : Printer) : ByteArray :=
  match x p with
  | .ok () q => q.sink.writer.heldFrom p.sink.writer.held.size
  | .error _ q => q.sink.writer.heldFrom p.sink.writer.held.size

theorem run_unlimited {p : Printer} (h : p.sink.writer.room = none) (layout : Layout) :
    let e := layout.effect p.sheet p.sink.cursor
    run layout p = e.result (p.moved
      { p.sink.writer with held := p.sink.writer.held ++ e.text.toUTF8 } e.cursor e.events) :=
  (run_obeys layout p).done _ (Writer.write_unlimited h _)

theorem verdict_runKeepingDepth {p : Printer} (h : p.sink.writer.room = none) (layout : Layout) :
    verdict (runKeepingDepth layout) p = match (layout.effect p.sheet p.sink.cursor).stop with
      | none => .ok ()
      | some e => .error e := by
  simp only [verdict, runKeepingDepth, run_unlimited h layout, Effect.result]
  cases (layout.effect p.sheet p.sink.cursor).stop <;> rfl

theorem written_runKeepingDepth {p : Printer} (h : p.sink.writer.room = none) (layout : Layout) :
    written (runKeepingDepth layout) p =
      (layout.effect p.sheet p.sink.cursor).text.toUTF8 := by
  simp only [written, runKeepingDepth, run_unlimited h layout, Effect.result]
  cases (layout.effect p.sheet p.sink.cursor).stop <;> exact Writer.heldFrom_of_held rfl

end Printer

theorem ne_abort {result : Except Stop Unit}
    (h : (result matches .error (.abort _)) = false) (a : Abort) : result ≠ .error (.abort a) := by
  rintro rfl
  cases h

namespace Script

/-- Everything that can be seen of writing a script. -/
structure Outcome where
  result : Except Stop Unit
  bytes : ByteArray
  events : List Event
  flushes : Nat

def outcome (s : Script) (w : Writer) (o : Options) : Outcome :=
  match s.writeTo w o with
  | .ok () p => ⟨.ok (), p.sink.writer.held, p.log, p.sink.writer.flushes⟩
  | .error e p => ⟨.error e, p.sink.writer.held, p.log, p.sink.writer.flushes⟩

/-- Whether the script was written to its end, which is all that comes before the flush. -/
def isWritten (s : Script) (w : Writer) (o : Options) : Bool :=
  match Printer.writeScript s (Printer.start w o) with
  | .ok () _ => true
  | .error _ _ => false

/-- The effect of a script at the start of an empty page. -/
def effect (s : Script) (o : Options) : Effect :=
  (s.layout o).effect ⟨o.braceStyle, o.indentWidth⟩ ⟨0, false⟩

private theorem run_start_obeys (s : Script) (w : Writer) (o : Options) :
    Printer.Obeys (Printer.run (s.layout o)) (Printer.start w o) (s.effect o) :=
  Printer.run_obeys (s.layout o) (Printer.start w o)

theorem isWritten_of_taken {s : Script} {w v : Writer} {o : Options}
    (h : w.write (s.effect o).text.toUTF8 = .ok () v) :
    s.isWritten w o = (s.effect o).stop.isNone := by
  have hrun := (run_start_obeys s w o).done v h
  have hscript : Printer.writeScript s (Printer.start w o) =
      Printer.runKeepingDepth (s.layout o) (Printer.start w o) := rfl
  cases hs : (s.effect o).stop <;>
    simp [isWritten, hscript, Printer.runKeepingDepth, hrun, Effect.result, hs]

theorem outcome_of_taken {s : Script} {w v : Writer} {o : Options}
    (h : w.write (s.effect o).text.toUTF8 = .ok () v) :
    s.outcome w o = match (s.effect o).stop with
      | some x => ⟨.error x, v.held, (s.effect o).events, v.flushes⟩
      | none => ⟨if v.flushFails then .error (.error (.write v.failure)) else .ok (), v.held,
          (s.effect o).events, v.flushes + 1⟩ := by
  have hrun := (run_start_obeys s w o).done v h
  have hscript : Printer.writeScript s (Printer.start w o) =
      Printer.runKeepingDepth (s.layout o) (Printer.start w o) := rfl
  cases hs : (s.effect o).stop with
  | some x =>
    simp only [outcome, writeTo, bind, EStateM.bind, hscript, Printer.runKeepingDepth, hrun,
      Effect.result, hs]
    rfl
  | none =>
    simp only [outcome, writeTo, bind, EStateM.bind, hscript, Printer.runKeepingDepth, hrun,
      Effect.result, hs]
    cases hf : v.flushFails <;>
      simp [Printer.finish, Printer.onSink, Printer.moved, Sink.moved, Sink.flush, Writer.flush,
        hf, Printer.start]

theorem result_outcome {w : Writer} (hroom : w.room = none) (hflush : w.flushFails = false)
    (s : Script) (o : Options) :
    (s.outcome w o).result = match (s.effect o).stop with
      | none => .ok ()
      | some x => .error x := by
  rw [outcome_of_taken (Writer.write_unlimited hroom _)]
  cases (s.effect o).stop <;> simp [hflush]

/-- Aborts come from the page, never from the flush at the end. -/
theorem result_eq_abort_iff {w : Writer} (hroom : w.room = none) (s : Script) (o : Options)
    (a : Abort) :
    (s.outcome w o).result = .error (.abort a) ↔ (s.effect o).stop = some (.abort a) := by
  rw [outcome_of_taken (Writer.write_unlimited hroom _)]
  cases (s.effect o).stop with
  | none => cases w.flushFails <;> simp
  | some x => simp

theorem bytes_outcome {w : Writer} (hroom : w.room = none) (s : Script) (o : Options) :
    (s.outcome w o).bytes = w.held ++ (s.effect o).text.toUTF8 := by
  rw [outcome_of_taken (Writer.write_unlimited hroom _)]
  cases (s.effect o).stop <;> simp only

theorem events_outcome {w : Writer} (hroom : w.room = none) (s : Script) (o : Options) :
    (s.outcome w o).events = (s.effect o).events := by
  rw [outcome_of_taken (Writer.write_unlimited hroom _)]
  cases (s.effect o).stop <;> simp only

/-- Bytes that come from a text are that text, whatever is to be said of other bytes. -/
theorem decodeText_toByteArray (t : String) : decodeText t.toByteArray = .ok t := by
  rw [decodeText, String.fromUTF8?, dif_pos t.isValidUTF8]
  rfl

theorem toText_eq (s : Script) (o : Options) :
    s.toText o = ((s.effect o).told, (s.effect o).events) := by
  have htaken : ({} : Writer).write (s.effect o).text.toUTF8 =
      .ok () { held := .empty ++ (s.effect o).text.toUTF8 } :=
    Writer.write_unlimited rfl _
  have hrun := (run_start_obeys s {} o).done _ htaken
  have hscript : Printer.writeScript s (Printer.start {} o) =
      Printer.runKeepingDepth (s.layout o) (Printer.start {} o) := rfl
  cases hs : (s.effect o).stop with
  | some x =>
    simp only [toText, writeTo, bind, EStateM.bind, hscript, Printer.runKeepingDepth, hrun,
      Effect.result, hs, Effect.told]
    rfl
  | none =>
    simp only [toText, writeTo, bind, EStateM.bind, hscript, Printer.runKeepingDepth, hrun,
      Effect.result, hs, Effect.told]
    simp [Printer.finish, Printer.onSink, Printer.moved, Sink.moved, Sink.flush, Writer.flush,
      Printer.start, decodeText_toByteArray]
    rfl

theorem toText_eq_ok {s : Script} {o : Options} {t : String} (hstop : (s.effect o).stop = none)
    (htext : (s.effect o).text = t) : (s.toText o).1 = .ok t := by
  rw [toText_eq, Effect.told_of_none hstop, htext]

theorem outcome_of_failed {s : Script} {w v : Writer} {o : Options} {f : WriteError}
    (h : w.write (s.effect o).text.toUTF8 = .error f v) :
    s.isWritten w o = false ∧ ∃ events, events <+: (s.effect o).events ∧
      s.outcome w o = ⟨.error (.error (.write f)), v.held, events, v.flushes⟩ := by
  obtain ⟨k, events, hpre, hrun⟩ := (run_start_obeys s w o).failed f v h
  have hscript : Printer.writeScript s (Printer.start w o) =
      Printer.runKeepingDepth (s.layout o) (Printer.start w o) := rfl
  refine ⟨?_, events, hpre, ?_⟩
  · simp [isWritten, hscript, Printer.runKeepingDepth, hrun]
  · simp only [outcome, writeTo, bind, EStateM.bind, hscript, Printer.runKeepingDepth, hrun]
    rfl

end Script

end Scribe
