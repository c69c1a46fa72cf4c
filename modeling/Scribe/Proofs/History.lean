import Scribe.Proofs.Depth

/-! Calls and the history of their session. All that earlier calls leave behind is the cursor, and
of the cursor only whether it stands mid-line, since the depth is always put back. Most layouts
place the cursor before they look where it is, so they are written as on an empty page; a block and
a `for` look first, and behind an unfinished line they have one character in front of them. -/

namespace Scribe

/-! ## Effects apart from the cursor -/

namespace Effect

/-- As far as it is seen, `e` is `f` with `extra` in front. -/
structure SeenBehind (extra : String) (e f : Effect) : Prop where
  text : e.text = extra ++ f.text
  events : e.events = f.events
  stop : e.stop = f.stop

theorem SeenBehind.andThen {extra : String} {e f : Effect} (h : SeenBehind extra e f)
    (hcursor : f.stop = none → e.cursor = f.cursor) (g : Cursor → Effect) :
    SeenBehind extra (e.andThen g) (f.andThen g) := by
  cases hf : f.stop with
  | some x =>
    rw [andThen_of_stop hf, andThen_of_stop (h.stop.trans hf)]
    exact h
  | none =>
    rw [andThen_of_none hf, andThen_of_none (h.stop.trans hf), hcursor hf]
    refine ⟨?_, by rw [h.events], rfl⟩
    show e.text ++ _ = extra ++ (f.text ++ _)
    rw [h.text, String.append_assoc]

theorem seenBehind_refl (e : Effect) : SeenBehind "" e e := ⟨String.empty_append.symm, rfl, rfl⟩

theorem seenBehind_indent (width depth : Nat) :
    SeenBehind "" (indent width ⟨depth, true⟩) (indent width ⟨depth, false⟩) ∧
      ((indent width ⟨depth, false⟩).stop = none →
        (indent width ⟨depth, true⟩).cursor = (indent width ⟨depth, false⟩).cursor) := by
  unfold indent
  split
  · exact ⟨⟨rfl, rfl, rfl⟩, nofun⟩
  · split
    · exact ⟨⟨rfl, rfl, rfl⟩, nofun⟩
    · exact ⟨seenBehind_refl _, fun _ => rfl⟩

end Effect

/-! ## Layouts that place the cursor first -/

namespace Layout

/-- The first command that has to do with the cursor, if any, does not look where it stands. -/
def startsAfresh : Layout → Bool
  | [] => true
  | .note _ :: rest => startsAfresh rest
  | .text _ :: _ | .line _ :: _ | .newline :: _ | .indent :: _ | .refuse _ :: _ => true
  | _ => false

theorem startsAfresh_append {a b : Layout} (ha : a.startsAfresh = true)
    (hb : b.startsAfresh = true) : startsAfresh (a ++ b) = true := by
  induction a with
  | nil => exact hb
  | cons c a ih =>
    cases c with
    | note event => exact ih ha
    | _ => exact ha

theorem seenBehind_of_startsAfresh {layout : Layout} (h : layout.startsAfresh = true)
    (sheet : Sheet) (depth : Nat) :
    Effect.SeenBehind "" (layout.effect sheet ⟨depth, true⟩)
      (layout.effect sheet ⟨depth, false⟩) := by
  induction layout with
  | nil => exact ⟨rfl, rfl, rfl⟩
  | cons c rest ih =>
    cases c with
    | note event =>
      obtain ⟨htext, hevents, hstop⟩ := ih h
      rw [effect, effect, Effect.andThen_of_none rfl, Effect.andThen_of_none rfl]
      exact ⟨congrArg ("" ++ ·) htext, congrArg ([event] ++ ·) hevents, hstop⟩
    | indent =>
      obtain ⟨hseen, hcursor⟩ := Effect.seenBehind_indent sheet.width depth
      exact hseen.andThen hcursor _
    | text s => exact Effect.seenBehind_refl _
    | line s => exact Effect.seenBehind_refl _
    | newline => exact Effect.seenBehind_refl _
    | refuse defect => exact ⟨rfl, rfl, rfl⟩
    | _ => cases h

end Layout

theorem Expr.startsAfresh_layout (e : Expr) : Layout.startsAfresh e.layout = true := by
  match e with
  | .bool _ | .int _ | .uint _ | .float _ | .string _ | .name _ | .typeName _ => rfl
  | .member operand field =>
    have hoperand := startsAfresh_layout operand
    exact Layout.startsAfresh_append (Layout.startsAfresh_append hoperand rfl) rfl
  | .call function arguments =>
    rw [Expr.layout]
    split <;> rfl
  | .unary op operand =>
    have hoperand := startsAfresh_layout operand
    rw [Expr.layout]
    cases op.followsOperand with
    | false => rfl
    | true =>
      refine Layout.startsAfresh_append ?_ rfl
      cases operand.groupedUnder op with
      | false => exact hoperand
      | true => rfl
  | .binary op left right =>
    have hleft := startsAfresh_layout left
    rw [Expr.layout]
    cases op.isAssignment with
    | false => rfl
    | true =>
      refine Layout.startsAfresh_append (Layout.startsAfresh_append hleft rfl) ?_
      exact startsAfresh_layout right

theorem Decl.startsAfresh_layout (elide : Bool) (d : Decl) :
    Layout.startsAfresh (d.layout elide) = true := by
  cases d with
  | prototype index signature =>
    rw [Decl.layout]
    split <;> rfl
  | var declared =>
    obtain ⟨modifier, type, name, init⟩ := declared
    rw [Decl.layout]
    cases modifier <;> rfl
  | procedure signature body =>
    rw [Decl.layout]
    split <;> rfl
  | enum name values => rfl
  | enumValue value => rfl

theorem Layout.startsAfresh_banner (o : Options) (title : String) :
    Layout.startsAfresh (Layout.banner o title) = true := by
  unfold Layout.banner
  split <;> rfl

theorem Script.startsAfresh_declarationSections (o : Options) (earlier ds : List Decl) :
    Layout.startsAfresh (Script.declarationSections o earlier ds) = true := by
  induction ds generalizing earlier with
  | nil => rfl
  | cons d ds ih =>
    have hheading : Layout.startsAfresh (Script.heading o earlier d) = true := by
      unfold Script.heading
      split
      · exact Layout.startsAfresh_banner _ _
      · split
        · exact Layout.startsAfresh_banner _ _
        · rfl
    have hend : Layout.startsAfresh d.terminator = true := by
      unfold Decl.terminator
      split <;> rfl
    have hd := Layout.startsAfresh_append (d.startsAfresh_layout o.elideTrailingReturn) hend
    exact Layout.startsAfresh_append (Layout.startsAfresh_append hheading hd) (ih (d :: earlier))

theorem Script.startsAfresh_layout (o : Options) (s : Script) :
    Layout.startsAfresh (s.layout o) = true := by
  have himports : Layout.startsAfresh (Script.importSection o s.imports) = true := by
    unfold Script.importSection
    split
    · rfl
    · refine Layout.startsAfresh_append (Layout.startsAfresh_banner _ _) ?_
      cases s.imports <;> rfl
  exact Layout.startsAfresh_append himports (Script.startsAfresh_declarationSections o [] _)

/-! ## What a statement puts behind an unfinished line -/

namespace Stmt

/-- What comes in front of the statement when the line before it is unfinished. -/
def link (style : BraceStyle) : Stmt → String
  | .block _ =>
    match style with
    | .nextLine => "\n"
    | .sameLine => " "
  | .forLoop .. => "\n"
  | _ => ""

theorem startsAfresh_layout (elide : Bool) (place : Place) {s : Stmt}
    (hblock : ∀ body, s ≠ .block body)
    (hloop : ∀ init condition after body, s ≠ .forLoop init condition after body) :
    Layout.startsAfresh (s.layout elide place) = true := by
  cases s with
  | block body => exact absurd rfl (hblock body)
  | forLoop init condition after body => exact absurd rfl (hloop init condition after body)
  | ret value =>
    cases value with
    | none => cases place <;> cases elide <;> rfl
    | some value => rfl
  | comment comment =>
    show Layout.startsAfresh comment.layout = true
    unfold Comment.layout Comment.ownLine
    split
    · rfl
    · split
      · rfl
      · split <;> rfl
  | _ => rfl

private theorem seenBehind_openBrace (sheet : Sheet) :
    Effect.SeenBehind (link sheet.style (.block [])) (Effect.openBrace sheet ⟨0, true⟩)
        (Effect.openBrace sheet ⟨0, false⟩) ∧
      (Effect.openBrace sheet ⟨0, true⟩).cursor = (Effect.openBrace sheet ⟨0, false⟩).cursor := by
  obtain ⟨style, width⟩ := sheet
  -- at depth zero no indentation is written and none can be too wide
  have hindent : ∀ midLine, Effect.indent width ⟨0, midLine⟩ = .put "" true ⟨0, midLine⟩ := by
    intro midLine
    simp [Effect.indent, Sink.wordLimit, Sink.widestIndent, Sink.spaces]
  cases style <;>
    simp [Effect.openBrace, Effect.freshLine, Effect.breakLine, Effect.newline, Effect.stay,
      Effect.put, Effect.andThen, hindent, link] <;>
    exact ⟨rfl, rfl, rfl⟩

/-- At depth zero a statement is written behind an unfinished line as at the start of one, but for
its link. -/
theorem seenBehind_layout (sheet : Sheet) (elide : Bool) (place : Place) (s : Stmt) :
    Effect.SeenBehind (s.link sheet.style) ((s.layout elide place).effect sheet ⟨0, true⟩)
      ((s.layout elide place).effect sheet ⟨0, false⟩) := by
  by_cases hblock : ∃ body, s = .block body
  · obtain ⟨body, rfl⟩ := hblock
    obtain ⟨hseen, hcursor⟩ := seenBehind_openBrace sheet
    exact hseen.andThen (fun _ => hcursor) _
  · by_cases hloop : ∃ init condition after body, s = .forLoop init condition after body
    · obtain ⟨init, condition, after, body, rfl⟩ := hloop
      have hbreak : Effect.SeenBehind "\n" (Effect.breakLine ⟨0, true⟩)
          (Effect.breakLine ⟨0, false⟩) := ⟨rfl, rfl, rfl⟩
      exact hbreak.andThen (fun _ => rfl) _
    · have hlink : s.link sheet.style = "" := by
        cases s with
        | block body => exact absurd ⟨body, rfl⟩ hblock
        | forLoop init condition after body =>
          exact absurd ⟨init, condition, after, body, rfl⟩ hloop
        | _ => rfl
      have hafresh := startsAfresh_layout elide place (fun body h => hblock ⟨body, h⟩)
        fun init condition after body h => hloop ⟨init, condition, after, body, h⟩
      rw [hlink]
      exact Layout.seenBehind_of_startsAfresh hafresh sheet 0

end Stmt

/-! ## Reports -/

theorem Writer.held_write {w v : Writer} {bytes : ByteArray} (h : w.write bytes = .ok () v) :
    v.held = w.held ++ bytes := by
  obtain ⟨held, room, beyond, failure, flushFails, flushes, ends⟩ := w
  cases room with
  | none =>
    cases h
    rfl
  | some room =>
    simp only [Writer.write] at h
    split at h
    · cases h
      rfl
    · split at h
      · cases h
      · cases h
      · split at h
        · cases h
          rfl
        · cases h

namespace Session

/-- What comes in front of what the step writes when the line before it is unfinished. -/
def Step.link (procedures : List Procedure) (style : BraceStyle) : Step → String
  | .stmt s _ => s.link style
  | .body procedure index _ =>
    match statementAt procedures procedure index with
    | none => ""
    | some s => s.link style
  | _ => ""

/-- The same report with more bytes in front. -/
def Report.behind (extra : String) : Report → Report
  | .written result bytes events => .written result (extra.toUTF8 ++ bytes) events
  | .scope procedure => .scope procedure

/-- The report of a call with this effect on a destination that takes everything. -/
def Report.ofEffect (e : Effect) : Report :=
  .written (match e.stop with
    | none => .ok ()
    | some x => .error x) e.text.toUTF8 e.events

theorem Step.seenBehind_layout (procedures : List Procedure) (o : Options) (sheet : Sheet)
    (step : Step) :
    Effect.SeenBehind (step.link procedures sheet.style)
      ((step.layout procedures o).effect sheet ⟨0, true⟩)
      ((step.layout procedures o).effect sheet ⟨0, false⟩) := by
  cases step with
  | script s => exact Layout.seenBehind_of_startsAfresh (s.startsAfresh_layout o) sheet 0
  | decl d => exact Layout.seenBehind_of_startsAfresh (d.startsAfresh_layout _) sheet 0
  | expr e => exact Layout.seenBehind_of_startsAfresh e.startsAfresh_layout sheet 0
  | stmt s under => exact s.seenBehind_layout sheet _ _
  | body procedure index under =>
    simp only [Step.layout, Step.link]
    cases statementAt procedures procedure index with
    | none => exact Layout.seenBehind_of_startsAfresh rfl sheet 0
    | some s => exact s.seenBehind_layout sheet _ _
  | scope under => exact Layout.seenBehind_of_startsAfresh rfl sheet 0

theorem Report.ofEffect_of_seenBehind {extra : String} {e f : Effect}
    (h : Effect.SeenBehind extra e f) : Report.ofEffect e = (Report.ofEffect f).behind extra := by
  unfold Report.ofEffect
  rw [h.text, h.events, h.stop]
  simp [Report.behind]

/-- What a step does when nothing fails it, from where the printer stands. -/
def Step.effect (procedures : List Procedure) (step : Step) (p : Printer) : Effect :=
  (step.layout procedures p.options).effect p.sheet p.sink.cursor

theorem call_of_taken {procedures : List Procedure} {step : Step} {p : Printer} {w : Writer}
    (h : p.sink.writer.write (step.effect procedures p).text.toUTF8 = .ok () w) :
    ∃ k, call procedures step p = (step.effect procedures p).result
      (p.moved w k (step.effect procedures p).events) := by
  have hrun : Printer.run (step.layout procedures p.options) p = (step.effect procedures p).result
      (p.moved w (step.effect procedures p).cursor (step.effect procedures p).events) :=
    (Printer.run_obeys _ p).done w h
  rw [call_eq, Printer.runKeepingDepth, hrun]
  cases hs : (step.effect procedures p).stop with
  | none => exact ⟨(step.effect procedures p).cursor, by simp [Effect.result, hs]⟩
  | some x =>
    refine ⟨⟨p.sink.depth, (step.effect procedures p).cursor.midLine⟩, ?_⟩
    simp [Effect.result, hs, Printer.moved, Sink.moved]

/-- A call that does not end with a failure of the destination has been taken as a whole. -/
theorem exists_taken {procedures : List Procedure} {step : Step} {p : Printer}
    (h : ∀ f, Printer.verdict (call procedures step) p ≠ .error (.error (.write f))) :
    ∃ w, p.sink.writer.write (step.effect procedures p).text.toUTF8 = .ok () w := by
  rcases Printer.run_cases (step.layout procedures p.options) p with
    ⟨w, hw, -⟩ | ⟨w, -, hw, -⟩ | ⟨f, w, k, events, hrun⟩
  · exact ⟨w, hw⟩
  · exact ⟨w, hw⟩
  · refine absurd ?_ (h f)
    unfold Printer.verdict
    rw [call_eq, Printer.runKeepingDepth, hrun]

theorem report_moved {p : Printer} {w : Writer} {k : Cursor} {e : Effect}
    (h : w.held = p.sink.writer.held ++ e.text.toUTF8) (result : Except Stop Unit) :
    report result p.sink.writer.held.size p.log.length (p.moved w k e.events) =
      .written result e.text.toUTF8 e.events := by
  simp [report, Printer.moved, Writer.heldFrom_of_held h]

/-- The one report of a session of one call that is taken as a whole. -/
theorem run_of_taken {procedures : List Procedure} {step : Step} {p : Printer} {w : Writer}
    (hstep : ∀ under, step ≠ .scope under)
    (h : p.sink.writer.write (step.effect procedures p).text.toUTF8 = .ok () w) :
    (run procedures [step] p).1 = [Report.ofEffect (step.effect procedures p)] := by
  obtain ⟨k, hcall⟩ := call_of_taken h
  have hreport := fun result => report_moved (k := k) (Writer.held_write h) result
  rw [run]
  · rw [hcall]
    unfold Effect.result Report.ofEffect
    cases (step.effect procedures p).stop with
    | none => simp [run, hreport]
    | some x => cases x <;> simp [run, hreport]
  · exact fun under hs => hstep under hs

theorem run_scope (procedures : List Procedure) (under : Option Nat) (p : Printer) :
    (run procedures [.scope under] p).1 =
      [.scope ((enclosing procedures under).map Procedure.name)] := rfl

/-! ## Sessions -/

theorem Reached.trans {procedures : List Procedure} {start p q : Printer}
    (hp : Reached procedures start p) (hq : Reached procedures p q) :
    Reached procedures start q := by
  induction hq with
  | start => exact hp
  | call w step _ hreturns ih => exact .call w step ih hreturns

theorem run_cons_of_returns {procedures : List Procedure} {step : Step} {p q : Printer}
    (h : Returns (call procedures step p) q) (rest : List Step) :
    run procedures (step :: rest) p =
      ((run procedures [step] p).1 ++ (run procedures rest q).1, (run procedures rest q).2) := by
  by_cases hscope : ∃ under, step = .scope under
  · obtain ⟨under, rfl⟩ := hscope
    have hq : p = q := h.endState_eq
    subst hq
    rw [run_scope, run]
    rfl
  · have hstep : ∀ under, step ≠ .scope under := fun under hs => hscope ⟨under, hs⟩
    rw [run, run]
    · rcases h with h | ⟨e, h⟩ <;> rw [h] <;> rfl
    · exact fun under hs => hstep under hs
    · exact fun under hs => hstep under hs

/-- A session that ended without an abort can be continued where it ended. -/
theorem exists_reached_run_append (procedures : List Procedure) (earlier : List Step)
    (p : Printer) (h : (run procedures earlier p).2.isSome = true) :
    ∃ q, Reached procedures p q ∧ ∀ later, (run procedures (earlier ++ later) p).1 =
      (run procedures earlier p).1 ++ (run procedures later q).1 := by
  induction earlier generalizing p with
  | nil => exact ⟨p, .start, fun _ => rfl⟩
  | cons step rest ih =>
    by_cases hreturns : ∃ q, Returns (call procedures step p) q
    · obtain ⟨q, hq⟩ := hreturns
      rw [run_cons_of_returns hq] at h
      obtain ⟨r, hr, hrun⟩ := ih q h
      have hreached : Reached procedures p q := .call p.sink.writer step .start hq
      refine ⟨r, hreached.trans hr, fun later => ?_⟩
      rw [List.cons_append, run_cons_of_returns hq (rest ++ later), run_cons_of_returns hq rest,
        hrun later, List.append_assoc]
    · -- a call that does not return aborts, and then there is no closing
      have hstep : ∀ under, step ≠ .scope under := by
        rintro under rfl
        exact hreturns ⟨p, Or.inl rfl⟩
      rw [run] at h
      · cases hc : call procedures step p with
        | ok u q => exact absurd ⟨q, Or.inl hc⟩ hreturns
        | error e q =>
          cases e with
          | error cause => exact absurd ⟨q, Or.inr ⟨cause, hc⟩⟩ hreturns
          | abort cause =>
            rw [hc] at h
            cases h
      · exact fun under hs => hstep under hs

/-- The reports of a session are those of its calls, each on a printer that the session has come
to. There, a call that the destination does not fail is reported as if it were the first call of
all; only behind an unfinished line, what it writes has its link in front. -/
theorem run_eq_fresh (procedures : List Procedure) (w : Writer) (o : Options) :
    (∀ earlier, (run procedures earlier (.start w o)).2.isSome = true →
      ∃ p, Reached procedures (.start w o) p ∧
        ∀ later, (run procedures (earlier ++ later) (.start w o)).1 =
          (run procedures earlier (.start w o)).1 ++ (run procedures later p).1) ∧
    ∀ p, Reached procedures (.start w o) p → ∀ (v : Writer) (step : Step),
      (∀ f, Printer.verdict (call procedures step) (p.onto v) ≠ .error (.error (.write f))) →
      (run procedures [step] (p.onto v)).1 = (run procedures [step] (.start {} o)).1.map
        (Report.behind (if p.sink.midLine then step.link procedures o.braceStyle else "")) := by
  refine ⟨fun earlier h => exists_reached_run_append procedures earlier _ h, ?_⟩
  intro p hp v step haccepted
  obtain ⟨hdepth, hoptions, hwidth⟩ := hp.frame
  by_cases hscope : ∃ under, step = .scope under
  · obtain ⟨under, rfl⟩ := hscope
    rfl
  · have hstep : ∀ under, step ≠ .scope under := fun under hs => hscope ⟨under, hs⟩
    obtain ⟨u, hu⟩ := exists_taken haccepted
    have hfresh := Writer.write_unlimited (w := (Printer.start {} o).sink.writer) rfl
      (step.effect procedures (.start {} o)).text.toUTF8
    rw [run_of_taken hstep hu, run_of_taken hstep hfresh, List.map_singleton]
    -- the printer differs from a fresh one only in whether the line is unfinished
    have hnow : step.effect procedures (p.onto v) =
        (step.layout procedures o).effect ⟨o.braceStyle, o.indentWidth⟩ ⟨0, p.sink.midLine⟩ := by
      have ho : p.options = o := hoptions
      have hsheet : (p.onto v).sheet = ⟨o.braceStyle, o.indentWidth⟩ := by
        rw [Printer.sheet, Printer.onto_options, ho, Printer.onto_width, hwidth]
        rfl
      have hcursor : (p.onto v).sink.cursor = ⟨0, p.sink.midLine⟩ := by
        rw [Sink.cursor, Printer.onto_depth, hdepth]
        rfl
      rw [Step.effect, hsheet, hcursor, Printer.onto_options, ho]
    refine congrArg (fun r => [r]) (Report.ofEffect_of_seenBehind ?_)
    rw [hnow]
    cases p.sink.midLine with
    | false => exact Effect.seenBehind_refl _
    | true => exact step.seenBehind_layout procedures o ⟨o.braceStyle, o.indentWidth⟩

/-- The destination fails once, behind `x.`, so the block that is written next has a space in
front. -/
theorem run_eq_fresh_unfinished :
    let o : Options := { braceStyle := .sameLine }
    let start : Printer := .start { room := some 2, beyond := .failOnce } o
    let member : Step := .expr (.member (.name "x") "f")
    let block : Step := .stmt (.block []) none
    let p : Printer := endState (call [] member start)
    (run [] [member] start).2.isSome = true ∧ Reached [] start p ∧ p.sink.midLine = true ∧
      (∀ f, Printer.verdict (call [] block) p ≠ .error (.error (.write f))) ∧
      (∃ q, Reached [] start q ∧ (run [] [member, block] start).1 =
        (run [] [member] start).1 ++ (run [] [block] q).1) ∧
      (run [] [block] p).1 = (run [] [block] (.start {} o)).1.map (Report.behind " ") := by
  intro o start member block p
  have hclosed : (run [] [member] start).2.isSome = true := by decide +kernel
  have hp : Reached [] start p :=
    .call start.sink.writer member .start (returns_endState (by decide +kernel))
  have hmid : p.sink.midLine = true := by decide +kernel
  have haccepted : ∀ f, Printer.verdict (call [] block) p ≠ .error (.error (.write f)) := by
    have hok : (Printer.verdict (call [] block) p).isOk = true := by decide +kernel
    intro f hf
    rw [hf] at hok
    cases hok
  obtain ⟨q, hq, hrun⟩ := (run_eq_fresh [] start.sink.writer o).1 [member] hclosed
  have hfresh := (run_eq_fresh [] start.sink.writer o).2 p hp p.sink.writer block haccepted
  rw [hmid] at hfresh
  exact ⟨hclosed, hp, hmid, haccepted, ⟨q, hq, hrun [block]⟩, hfresh⟩

end Session

end Scribe
