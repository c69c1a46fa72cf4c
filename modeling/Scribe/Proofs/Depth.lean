import Scribe.Proofs.Nesting
import Scribe.Proofs.Outcome
import Scribe.Session

/-! The depth of a printer through a session. Calls come back to the depth at which they started,
also when they fail, so a printer that started at depth zero is there before every call. Nothing is
assumed of the destination: a call ends with the first failure, so whatever a destination does
during one call, some writer does too, and between calls it may turn into any other. The depth is
put back behind single declarations and statements only: expressions do not touch it, and a script
needs nothing beyond what its declarations do. -/

namespace Scribe

/-- Where an action left its state, whether or not it stopped. -/
def endState {σ : Type} : EStateM.Result Stop σ Unit → σ
  | .ok () t => t
  | .error _ t => t

/-! ## Actions that leave the depth alone -/

namespace Sink

def KeepsDepth (x : SinkM Unit) : Prop := ∀ s, (endState (x s)).depth = s.depth

theorem KeepsDepth.bind {x y : SinkM Unit} (hx : KeepsDepth x) (hy : KeepsDepth y) :
    KeepsDepth (x >>= fun _ => y) := by
  intro s
  have hs := hx s
  simp only [Bind.bind, EStateM.bind]
  cases h : x s with
  | ok u t =>
    rw [h] at hs
    exact (hy t).trans hs
  | error e t =>
    rw [h] at hs
    exact hs

theorem KeepsDepth.get_bind {f : Sink → SinkM Unit} (h : ∀ s, KeepsDepth (f s)) :
    KeepsDepth (get >>= f) :=
  fun s => h s s

theorem keepsDepth_emit (t : String) : KeepsDepth (emit t) := by
  rintro ⟨writer, width, depth, midLine⟩
  simp only [emit]
  cases writer.write t.toUTF8 <;> rfl

theorem keepsDepth_text (t : String) : KeepsDepth (text t) :=
  (keepsDepth_emit t).bind fun _ => rfl

theorem keepsDepth_newline : KeepsDepth newline := (keepsDepth_emit "\n").bind fun _ => rfl

theorem keepsDepth_line (t : String) : KeepsDepth (line t) :=
  (keepsDepth_emit t).bind keepsDepth_newline

theorem keepsDepth_breakLine : KeepsDepth breakLine := by
  refine KeepsDepth.get_bind fun s => ?_
  split
  · exact keepsDepth_newline
  · exact fun _ => rfl

theorem keepsDepth_indent : KeepsDepth indent := by
  refine KeepsDepth.get_bind fun s => ?_
  dsimp only
  split
  · exact fun _ => rfl
  · split
    · exact fun _ => rfl
    · exact keepsDepth_text _

theorem keepsDepth_openBrace (style : BraceStyle) : KeepsDepth (openBrace style) := by
  refine KeepsDepth.get_bind fun s => ?_
  split
  · exact keepsDepth_line _
  · exact keepsDepth_breakLine.bind (keepsDepth_indent.bind
      ((keepsDepth_text _).bind keepsDepth_newline))

theorem keepsDepth_elseWord (style : BraceStyle) : KeepsDepth (elseWord style) := by
  refine KeepsDepth.get_bind fun s => ?_
  split
  · exact keepsDepth_text _
  · exact keepsDepth_breakLine.bind (keepsDepth_indent.bind (keepsDepth_text _))

end Sink

namespace Printer

private theorem depth_onSink {x : SinkM Unit} (hx : Sink.KeepsDepth x) (p : Printer) :
    (endState (onSink x p)).sink.depth = p.sink.depth := by
  obtain ⟨options, sink, log⟩ := p
  have hs := hx sink
  simp only [onSink]
  cases h : x sink <;> rw [h] at hs <;> exact hs

theorem depth_perform {c : Cmd} (h : c.isSteady = true) (p : Printer) :
    (endState (perform c p)).sink.depth = p.sink.depth := by
  cases c with
  | text s => exact depth_onSink (Sink.keepsDepth_text s) p
  | line s => exact depth_onSink (Sink.keepsDepth_line s) p
  | newline => exact depth_onSink Sink.keepsDepth_newline p
  | breakLine => exact depth_onSink Sink.keepsDepth_breakLine p
  | indent => exact depth_onSink Sink.keepsDepth_indent p
  | deeper => cases h
  | shallower => cases h
  | openBrace => exact depth_onSink (Sink.keepsDepth_openBrace p.options.braceStyle) p
  | elseWord => exact depth_onSink (Sink.keepsDepth_elseWord p.options.braceStyle) p
  | note event => rfl
  | refuse defect => rfl

theorem depth_run_of_steady {layout : Layout} (h : layout.steady = true) (p : Printer) :
    (endState (run layout p)).sink.depth = p.sink.depth := by
  induction layout generalizing p with
  | nil => rfl
  | cons c rest ih =>
    obtain ⟨hc, hrest⟩ := Bool.and_eq_true_iff.mp h
    have hcmd := depth_perform hc p
    rw [run]
    cases hp : perform c p with
    | ok u q =>
      rw [hp] at hcmd
      exact (ih hrest q).trans hcmd
    | error e q =>
      rw [hp] at hcmd
      exact hcmd

/-! ## Runs on any destination -/

/-- However a run ends, it has moved the cursor, written and logged, and changed nothing else. -/
theorem run_cases (layout : Layout) (p : Printer) :
    let e := layout.effect p.sheet p.sink.cursor
    (∃ w, p.sink.writer.write e.text.toUTF8 = .ok () w ∧ e.stop = none ∧
      run layout p = .ok () (p.moved w e.cursor e.events)) ∨
    (∃ w x, p.sink.writer.write e.text.toUTF8 = .ok () w ∧ e.stop = some x ∧
      run layout p = .error x (p.moved w e.cursor e.events)) ∨
    ∃ f w k events, run layout p = .error (.error (.write f)) (p.moved w k events) := by
  intro e
  have hobeys := run_obeys layout p
  cases hw : p.sink.writer.write e.text.toUTF8 with
  | ok u w =>
    have hrun : run layout p = e.result (p.moved w e.cursor e.events) := hobeys.done w hw
    cases hs : e.stop with
    | none => exact Or.inl ⟨w, rfl, rfl, by rw [hrun, Effect.result, hs]⟩
    | some x => exact Or.inr (Or.inl ⟨w, x, rfl, rfl, by rw [hrun, Effect.result, hs]⟩)
  | error f w =>
    obtain ⟨k, events, -, hrun⟩ := hobeys.failed f w hw
    exact Or.inr (Or.inr ⟨f, w, k, events, hrun⟩)

theorem run_ok {layout : Layout} {p q : Printer} (h : run layout p = .ok () q) :
    ∃ w, (layout.effect p.sheet p.sink.cursor).stop = none ∧
      q = p.moved w (layout.effect p.sheet p.sink.cursor).cursor
        (layout.effect p.sheet p.sink.cursor).events := by
  rcases run_cases layout p with ⟨w, -, hs, hrun⟩ | ⟨w, x, -, -, hrun⟩ | ⟨f, w, k, events, hrun⟩ <;>
    rw [h] at hrun
  · cases hrun
    exact ⟨w, hs, rfl⟩
  · cases hrun
  · cases hrun

theorem depth_of_run_ok {layout : Layout} (hn : layout.Nested) {p q : Printer}
    (h : run layout p = .ok () q) : q.sink.depth = p.sink.depth := by
  obtain ⟨w, hstop, rfl⟩ := run_ok h
  exact (hn.level_effect _ _).returns hstop

/-- What a run leaves alone. -/
theorem frame_run (layout : Layout) (p : Printer) :
    (endState (run layout p)).options = p.options ∧
      (endState (run layout p)).sink.width = p.sink.width := by
  rcases run_cases layout p with ⟨w, -, -, hrun⟩ | ⟨w, x, -, -, hrun⟩ | ⟨f, w, k, events, hrun⟩ <;>
    rw [hrun] <;> exact ⟨rfl, rfl⟩

theorem options_of_run_ok {layout : Layout} {p q : Printer} (h : run layout p = .ok () q) :
    q.options = p.options := by
  have hframe := (frame_run layout p).1
  rwa [h] at hframe

theorem run_ne_unbalanced {layout : Layout} (hn : layout.Nested) (p q : Printer) :
    run layout p ≠ .error (.abort .unbalancedDepth) q := by
  intro h
  rcases run_cases layout p with ⟨w, -, -, hrun⟩ | ⟨w, x, -, hs, hrun⟩ | ⟨f, w, k, events, hrun⟩ <;>
    rw [h] at hrun
  · cases hrun
  · cases hrun
    exact (hn.level_effect p.sheet p.sink.cursor).balanced hs
  · cases hrun

theorem run_eq_ok_of_runKeepingDepth {layout : Layout} {p q : Printer}
    (h : runKeepingDepth layout p = .ok () q) : run layout p = .ok () q := by
  unfold runKeepingDepth at h
  cases hr : run layout p <;> rw [hr] at h
  · exact h
  · cases h

theorem depth_runKeepingDepth {layout : Layout} (hn : layout.Nested) (p : Printer) :
    (endState (runKeepingDepth layout p)).sink.depth = p.sink.depth := by
  unfold runKeepingDepth
  cases h : run layout p with
  | ok u q => exact depth_of_run_ok hn h
  | error e q => rfl

theorem frame_runKeepingDepth (layout : Layout) (p : Printer) :
    (endState (runKeepingDepth layout p)).options = p.options ∧
      (endState (runKeepingDepth layout p)).sink.width = p.sink.width := by
  have hframe := frame_run layout p
  unfold runKeepingDepth
  cases h : run layout p <;> rw [h] at hframe <;> exact hframe

theorem runKeepingDepth_ne_unbalanced {layout : Layout} (hn : layout.Nested) (p q : Printer) :
    runKeepingDepth layout p ≠ .error (.abort .unbalancedDepth) q := by
  unfold runKeepingDepth
  cases h : run layout p with
  | ok u r => exact nofun
  | error e r =>
    intro heq
    cases heq
    exact run_ne_unbalanced hn p r h

/-! ## Where the depth is put back -/

/-- What does not touch the depth has nothing to put back. -/
theorem runKeepingDepth_of_steady {layout : Layout} (h : layout.steady = true) (p : Printer) :
    runKeepingDepth layout p = run layout p := by
  have hdepth := depth_run_of_steady h p
  unfold runKeepingDepth
  cases hr : run layout p with
  | ok u q => rfl
  | error e q =>
    rw [hr] at hdepth
    simp only
    rw [← hdepth]
    rfl

theorem writeExpr_eq_run (e : Expr) (p : Printer) : writeExpr e p = run e.layout p :=
  runKeepingDepth_of_steady e.steady_layout p

/-- The first part comes back to where the second should return to. -/
theorem runKeepingDepth_append {a : Layout} (ha : a.Nested) (b : Layout) (p : Printer) :
    runKeepingDepth (a ++ b) p =
      (do runKeepingDepth a; runKeepingDepth b : PrinterM Unit) p := by
  simp only [bind, EStateM.bind]
  unfold runKeepingDepth
  rw [run_append]
  cases h : run a p with
  | error e q => rfl
  | ok u q =>
    have hdepth := depth_of_run_ok ha h
    simp only
    cases run b q <;> simp [hdepth]

theorem bind_congr {x y z : PrinterM Unit} {p : Printer}
    (h : ∀ q, x p = .ok () q → y q = z q) : (x >>= fun _ => y) p = (x >>= fun _ => z) p := by
  simp only [bind, EStateM.bind]
  cases hx : x p with
  | ok u q => exact h q hx
  | error e q => rfl

/-- Declarations one after another, each with its heading and terminator. -/
def writeDeclarations (o : Options) : (earlier rest : List Decl) → PrinterM Unit
  | _, [] => pure ()
  | earlier, d :: rest => do
    run (Script.heading o earlier d)
    writeDecl d
    run d.terminator
    writeDeclarations o (d :: earlier) rest

/-- A script in parts. Only `writeDecl` puts the depth back. -/
def writeInParts (s : Script) : PrinterM Unit := fun p => (do
  run ([.note (.script s.imports.length s.declarations.length)] ++
    Script.importSection p.options s.imports)
  writeDeclarations p.options [] s.declarations : PrinterM Unit) p

theorem writeDeclarations_eq (o : Options) (earlier ds : List Decl) {p : Printer}
    (hp : p.options = o) :
    writeDeclarations o earlier ds p =
      runKeepingDepth (Script.declarationSections o earlier ds) p := by
  induction ds generalizing earlier p with
  | nil => rfl
  | cons d ds ih =>
    have hheading := Script.steady_heading o earlier d
    have hd := Decl.nested_layout o.elideTrailingReturn d
    have hend := d.steady_terminator
    rw [Script.declarationSections, Decl.terminated, List.append_assoc, List.append_assoc,
      runKeepingDepth_append (Layout.nested_of_steady hheading), writeDeclarations,
      funext (runKeepingDepth_of_steady hheading)]
    refine bind_congr fun q hq => ?_
    -- each part reads its options off the printer, where they are still the first ones
    have hqo : q.options = o := (options_of_run_ok hq).trans hp
    have hdecl : writeDecl d q = runKeepingDepth (d.layout o.elideTrailingReturn) q := by
      rw [writeDecl, hqo]
    rw [runKeepingDepth_append hd]
    simp only [bind, EStateM.bind]
    rw [hdecl]
    cases hr : runKeepingDepth (d.layout o.elideTrailingReturn) q with
    | error e r => rfl
    | ok u r =>
      have hro := options_of_run_ok (run_eq_ok_of_runKeepingDepth hr)
      simp only
      rw [runKeepingDepth_append (Layout.nested_of_steady hend),
        funext (runKeepingDepth_of_steady hend)]
      refine bind_congr fun t ht => ?_
      have hto := options_of_run_ok ht
      exact ih (d :: earlier) (hto.trans (hro.trans hqo))

theorem writeScript_eq_writeInParts (s : Script) (p : Printer) :
    writeScript s p = writeInParts s p := by
  let front : Layout := [.note (.script s.imports.length s.declarations.length)] ++
    Script.importSection p.options s.imports
  have hfront : front.steady = true := by
    simp [front, Cmd.isSteady, Script.steady_importSection]
  have hlayout : s.layout p.options =
      front ++ Script.declarationSections p.options [] s.declarations := rfl
  rw [writeScript, hlayout, runKeepingDepth_append (Layout.nested_of_steady hfront),
    funext (runKeepingDepth_of_steady hfront), writeInParts]
  refine bind_congr fun q hq => ?_
  exact (writeDeclarations_eq p.options [] s.declarations (options_of_run_ok hq)).symm

/-- The same printer with another destination. -/
def onto (p : Printer) (w : Writer) : Printer := { p with sink := { p.sink with writer := w } }

@[simp] theorem onto_options (p : Printer) (w : Writer) : (p.onto w).options = p.options := rfl

@[simp] theorem onto_depth (p : Printer) (w : Writer) :
    (p.onto w).sink.depth = p.sink.depth := rfl

@[simp] theorem onto_width (p : Printer) (w : Writer) :
    (p.onto w).sink.width = p.sink.width := rfl

end Printer

/-! ## Sessions -/

namespace Session

/-- The commands that a step has performed. -/
def Step.layout (procedures : List Procedure) (o : Options) : Step → Layout
  | .script s => s.layout o
  | .decl d => d.layout o.elideTrailingReturn
  | .expr e => e.layout
  | .stmt s under => s.layout o.elideTrailingReturn (freshPlace procedures under)
  | .body procedure index under =>
    match statementAt procedures procedure index with
    | none => []
    | some s => s.layout o.elideTrailingReturn (bodyPlace procedures procedure index under)
  | .scope _ => []

theorem call_eq (procedures : List Procedure) (step : Step) (p : Printer) :
    call procedures step p = Printer.runKeepingDepth (step.layout procedures p.options) p := by
  cases step with
  | body procedure index scope =>
    simp only [call, Step.layout]
    cases statementAt procedures procedure index <;> rfl
  | _ => rfl

theorem Step.nested_layout (procedures : List Procedure) (o : Options) (step : Step) :
    Layout.Nested (step.layout procedures o) := by
  cases step with
  | script s => exact s.nested_layout o
  | decl d => exact d.nested_layout o.elideTrailingReturn
  | expr e => exact Layout.nested_of_steady e.steady_layout
  | stmt s under => exact s.nested_layout o.elideTrailingReturn _
  | body procedure index under =>
    simp only [Step.layout]
    cases statementAt procedures procedure index with
    | none => exact .nil
    | some s => exact s.nested_layout o.elideTrailingReturn _
  | scope under => exact .nil

/-- The call came back, well or with an error, and left the printer like this. -/
def Returns (result : EStateM.Result Stop Printer Unit) (q : Printer) : Prop :=
  result = .ok () q ∨ ∃ e, result = .error (.error e) q

theorem Returns.endState_eq {result : EStateM.Result Stop Printer Unit} {q : Printer}
    (h : Returns result q) : endState result = q := by
  rcases h with rfl | ⟨e, rfl⟩ <;> rfl

theorem returns_endState {result : EStateM.Result Stop Printer Unit}
    (h : (result matches .error (.abort _) _) = false) : Returns result (endState result) := by
  cases result with
  | ok u q => exact Or.inl rfl
  | error e q =>
    cases e with
    | error cause => exact Or.inr ⟨cause, rfl⟩
    | abort cause => cases h

/-- The printers that a session can come to. Before each call the destination may have changed in
any way. -/
inductive Reached (procedures : List Procedure) (start : Printer) : Printer → Prop
  | start : Reached procedures start start
  | call {p q : Printer} (w : Writer) (step : Step) : Reached procedures start p →
      Returns (call procedures step (p.onto w)) q → Reached procedures start q

/-- What a session leaves alone. -/
theorem Reached.frame {procedures : List Procedure} {start p : Printer}
    (h : Reached procedures start p) :
    p.sink.depth = start.sink.depth ∧ p.options = start.options ∧
      p.sink.width = start.sink.width := by
  induction h with
  | start => exact ⟨rfl, rfl, rfl⟩
  | @call p q w step _ hreturns ih =>
    have hend := hreturns.endState_eq
    rw [call_eq] at hend
    have hdepth := Printer.depth_runKeepingDepth
      (step.nested_layout procedures (p.onto w).options) (p.onto w)
    have hframe := Printer.frame_runKeepingDepth
      (step.layout procedures (p.onto w).options) (p.onto w)
    rw [hend] at hdepth hframe
    exact ⟨hdepth.trans ih.1, hframe.1.trans ih.2.1, hframe.2.trans ih.2.2⟩

theorem verdict_ne_unbalanced (procedures : List Procedure) (step : Step) (p : Printer) :
    Printer.verdict (call procedures step) p ≠ .error (.abort .unbalancedDepth) := by
  have hnot := Printer.runKeepingDepth_ne_unbalanced
    (step.nested_layout procedures p.options) p
  intro h
  unfold Printer.verdict at h
  rw [call_eq] at h
  cases hr : Printer.runKeepingDepth (step.layout procedures p.options) p with
  | ok u q =>
    rw [hr] at h
    cases h
  | error e q =>
    rw [hr] at h
    cases h
    exact hnot q hr

/-- Between calls a session is always at the depth where it started, and no call leaves a level
that was not entered, whatever the destination does. Of all calls only the writing of a declaration
or statement puts the depth back after a failure: expressions and scripts get along without it. -/
theorem depth_kept (procedures : List Procedure) (start : Printer) :
    (∀ p, Reached procedures start p → p.sink.depth = start.sink.depth ∧
      ∀ (w : Writer) (step : Step), Printer.verdict (call procedures step) (p.onto w) ≠
        .error (.abort .unbalancedDepth)) ∧
    (∀ w o p, Reached procedures (Printer.start w o) p → p.sink.depth = 0) ∧
    (∀ (e : Expr) (p : Printer), Printer.writeExpr e p = Printer.run e.layout p) ∧
    ∀ (s : Script) (p : Printer), Printer.writeScript s p = Printer.writeInParts s p := by
  refine ⟨fun p hp => ⟨hp.frame.1, fun w step => ?_⟩, fun w o p hp => hp.frame.1,
    Printer.writeExpr_eq_run, Printer.writeScript_eq_writeInParts⟩
  exact verdict_ne_unbalanced procedures step (p.onto w)

/-- Two calls fail inside a block inside a block, the first because the destination fails once, the
second at a call without a name. Without putting it back, the depth would be two by then. -/
theorem depth_kept_failing :
    let step : Step := .stmt (.block [.block [.expr (.call "" [])]]) none
    let start : Printer := .start { room := some 3, beyond := .failOnce } {}
    let p : Printer := endState (call [] step start)
    let q : Printer := endState (call [] step p)
    (endState (Printer.run (step.layout [] {}) p)).sink.depth = 2 ∧
      Reached [] start q ∧ q.sink.depth = 0 ∧
      ∀ w step, Printer.verdict (call [] step) (q.onto w) ≠ .error (.abort .unbalancedDepth) := by
  intro step start p q
  have hp : Reached [] start p :=
    .call start.sink.writer step .start (returns_endState (by decide +kernel))
  have hq : Reached [] start q :=
    .call p.sink.writer step hp (returns_endState (by decide +kernel))
  exact ⟨by decide +kernel, hq, ((depth_kept [] start).1 q hq).1, ((depth_kept [] start).1 q hq).2⟩

end Session

end Scribe
