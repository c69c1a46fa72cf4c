import Scribe.Proofs.Blanks
import Scribe.Proofs.Elision
import Scribe.Proofs.Nesting

/-! The log of a script. What is logged is read off the tree: `log` lists it in the order of the
text, procedures inside procedures where they stand, and goes on past defects as if nothing had
happened. The main statement says that a script that does not abort logs this list up to the first
defect, which closes the log with the one warning there ever is, and what is on record of each
event. -/

namespace Scribe

/-! ## The events of a tree -/

namespace Event

def defect? : Event → Option Defect
  | .refused defect => some defect
  | _ => none

/-- The events up to the first refusal, with the refusal. -/
def upToRefusal : List Event → List Event
  | [] => []
  | .refused defect :: _ => [.refused defect]
  | e :: rest => e :: upToRefusal rest

/-- One refusal for each defect. -/
def refusals (defects : List Defect) : List Event := defects.map .refused

/-- What is on record of an event: its level and its named values. Procedures go by the name that
the tree has for them, quoted or not. -/
inductive Records : Event → String → List (String × Value) → Prop
  | script (imports declarations : Nat) : Records (.script imports declarations) "DEBUG"
      [("message", .text "unparsing compilation unit"), ("imports", .count imports),
        ("declarations", .count declarations)]
  | procedure (name : String) (statements : Nat) : Records (.procedure name statements) "DEBUG"
      [("message", .text "unparsing procedure"), ("procedure", .text name),
        ("statements", .count statements)]
  | elidedReturn (name : String) : Records (.elidedReturn name) "TRACE"
      [("message", .text "eliding trailing return"), ("procedure", .text name)]
  | refused {defect : Defect} {detail : String} (h : defect.Says detail) :
    Records (.refused defect) "WARN"
      [("message", .text "refusing to unparse malformed tree"), ("message", .text detail)]

theorem records_iff (e : Event) (level : String) (fields : List (String × Value)) :
    e.Records level fields ↔ e.level.text = level ∧ e.fields = fields := by
  constructor
  · intro h
    cases h with
    | refused h =>
      obtain rfl := (Defect.says_iff _ _).mp h
      exact ⟨rfl, rfl⟩
    | _ => exact ⟨rfl, rfl⟩
  · rintro ⟨rfl, rfl⟩
    cases e with
    | script imports declarations => exact .script imports declarations
    | procedure name statements => exact .procedure name statements
    | elidedReturn name => exact .elidedReturn name
    | refused defect => exact .refused ((defect.says_iff _).mpr rfl)

end Event

mutual

/-- What a statement inside a procedure has to tell. That it closes the procedure is not its own
business but that of the body. -/
def Stmt.log (elide : Bool) : Stmt → List Event
  | .block body => Stmt.logAll elide body
  | .branch condition body otherwise =>
    (if body.isNone && otherwise.isNone then [.refused .emptyIf] else []) ++
      Event.refusals condition.defects ++ Stmt.logOption elide body ++
      Stmt.logAllOption elide otherwise
  | .whileLoop condition body => Event.refusals condition.defects ++ body.log elide
  | .forLoop init condition after body =>
    Event.refusals init.defects ++ Event.refusals condition.defects ++
      Event.refusals after.defects ++ body.log elide
  | .switch scrutinee arms =>
    (if 1 < Stmt.defaultCount arms then [.refused (.defaultLabels (Stmt.defaultCount arms))]
      else []) ++
      Event.refusals scrutinee.defects ++ Arm.logAll elide arms
  | .ret (some value) => Event.refusals value.defects
  | .expr expr => Event.refusals expr.defects
  | .decl decl => decl.log elide
  | _ => []

def Stmt.logAll (elide : Bool) : List Stmt → List Event
  | [] => []
  | s :: rest => s.log elide ++ Stmt.logAll elide rest

def Stmt.logOption (elide : Bool) : Option Stmt → List Event
  | none => []
  | some s => s.log elide

def Stmt.logAllOption (elide : Bool) : Option (List Stmt) → List Event
  | none => []
  | some body => Stmt.logAll elide body

def Arm.log (elide : Bool) : Arm → List Event
  | .onCase value body => Event.refusals value.defects ++ Stmt.logAll elide body
  | .onDefault body => Stmt.logAll elide body

def Arm.logAll (elide : Bool) : List Arm → List Event
  | [] => []
  | arm :: rest => arm.log elide ++ Arm.logAll elide rest

/-- A procedure is announced with the number of its statements, and a closing `return` that is left
out is mentioned behind everything that its body has to tell. -/
def Decl.log (elide : Bool) : Decl → List Event
  | .prototype index signature =>
    if signature.name = "" then [.refused (.unnamedPrototype index)] else []
  | .var declared => Event.refusals (Expr.defectsOption declared.init)
  | .procedure signature body =>
    [if signature.name = "" then .refused .unnamedProcedure
      else .procedure signature.name (body.getD []).length] ++
      Stmt.logAllOption elide body ++
      if elide && (body.getD []).getLast?.any Stmt.isBareReturn then [.elidedReturn signature.name]
      else []
  | .enum _ values => Event.refusals (EnumValue.defectsAll values)
  | .enumValue value => Event.refusals value.value.defects

end

def Script.log (elide : Bool) (s : Script) : List Event :=
  .script s.imports.length s.declarations.length :: s.declarations.flatMap (Decl.log elide)

/-! ## Cutting off -/

namespace Event

theorem upToRefusal_append (x y : List Event) :
    upToRefusal (x ++ y) =
      upToRefusal x ++ if (x.findSome? defect?).isNone then upToRefusal y else [] := by
  induction x with
  | nil => rfl
  | cons e x ih => cases e <;> simp [upToRefusal, defect?, ih]

theorem upToRefusal_refusals (defects : List Defect) :
    upToRefusal (refusals defects) = refusals defects.head?.toList := by
  cases defects <;> rfl

theorem findSome?_refusals (defects : List Defect) :
    (refusals defects).findSome? defect? = defects.head? := by
  cases defects <;> rfl

/-- What is cut off at a refusal ends in that refusal, and it is the only one. -/
theorem exists_upToRefusal_eq {events : List Event} {d : Defect}
    (h : events.findSome? defect? = some d) :
    ∃ before, upToRefusal events = before ++ [.refused d] ∧ ∀ e ∈ before, e.defect? = none := by
  induction events with
  | nil => cases h
  | cons e events ih =>
    cases e with
    | refused defect =>
      cases h
      exact ⟨[], rfl, nofun⟩
    | _ =>
      obtain ⟨before, hcut, hbefore⟩ := ih h
      refine ⟨_ :: before, congrArg (_ :: ·) hcut, ?_⟩
      simpa [defect?] using hbefore

theorem not_refused_of_findSome?_eq_none {events : List Event}
    (h : events.findSome? defect? = none) : ∀ e ∈ upToRefusal events, e.defect? = none := by
  induction events with
  | nil => exact nofun
  | cons e events ih =>
    cases e with
    | refused defect => cases h
    | _ => simpa [upToRefusal, defect?] using ih h

theorem level_eq_warn_iff (e : Event) : e.level = .warn ↔ e.defect? ≠ none := by
  cases e <;> simp [level, defect?]

end Event

/-! ## What layouts tell -/

namespace Layout

theorem logged_append (a b : Layout) :
    logged (a ++ b) = logged a ++ if a.refusal.isNone then logged b else [] := by
  induction a with
  | nil => rfl
  | cons c a ih => cases c <;> simp [logged, Cmd.refusal, ih]

/-- The layout logs these events, as far as it gets. -/
structure Tells (layout : Layout) (events : List Event) : Prop where
  logged : layout.logged = Event.upToRefusal events
  refusal : layout.refusal = events.findSome? Event.defect?

theorem Tells.append {a b : Layout} {x y : List Event} (ha : Tells a x) (hb : Tells b y) :
    Tells (a ++ b) (x ++ y) where
  logged := by
    rw [logged_append, Event.upToRefusal_append, ha.logged, ha.refusal, hb.logged]
  refusal := by rw [refusal_append, List.findSome?_append, ha.refusal, hb.refusal]

theorem tells_nil : Tells [] [] := ⟨rfl, rfl⟩

/-- Nothing behind a refusal is told. -/
theorem tells_refuse (defect : Defect) (events : List Event) :
    Tells [.refuse defect] (.refused defect :: events) :=
  ⟨rfl, rfl⟩

def isQuiet (layout : Layout) : Bool := layout.all fun c => !c.isNote && c.refusal.isNone

theorem tells_of_isQuiet {layout : Layout} (h : layout.isQuiet = true) : Tells layout [] := by
  induction layout with
  | nil => exact tells_nil
  | cons c rest ih =>
    obtain ⟨hc, hrest⟩ := Bool.and_eq_true_iff.mp h
    obtain ⟨hlogged, hrefusal⟩ := ih hrest
    cases c with
    | note event => cases hc
    | refuse defect => cases hc
    | _ => exact ⟨hlogged, hrefusal⟩

/-- What is quiet tells nothing and can as well be missing. -/
theorem Tells.of_append {a b : Layout} {events : List Event} (h : Tells (a ++ b) events)
    (hb : b.isQuiet = true) : Tells a events := by
  obtain ⟨hlogged, hrefusal⟩ := h
  have hquiet := tells_of_isQuiet hb
  rw [logged_append, hquiet.logged, Event.upToRefusal, ite_self, List.append_nil] at hlogged
  rw [refusal_append, hquiet.refusal, List.findSome?_nil, Option.or_none] at hrefusal
  exact ⟨hlogged, hrefusal⟩

theorem tells_of_inline {layout : Layout} {defects : List Defect} (h : layout.inline = true)
    (hrefusal : layout.refusal = defects.head?) : Tells layout (Event.refusals defects) := by
  have hlogged : layout.logged = Event.refusals layout.refusal.toList := by
    clear hrefusal
    induction layout with
    | nil => rfl
    | cons c rest ih =>
      obtain ⟨hc, hrest⟩ := Bool.and_eq_true_iff.mp h
      cases c with
      | text s => exact ih hrest
      | refuse defect => rfl
      | _ => cases hc
  refine ⟨?_, ?_⟩
  · rw [hlogged, hrefusal, Event.upToRefusal_refusals]
  · rw [hrefusal, Event.findSome?_refusals]

theorem Tells.braces {inner : Layout} {events : List Event} (h : Tells inner events)
    (keepLine : Bool) : Tells (braces keepLine inner) events := by
  have hopen : Tells [.openBrace, .deeper] [] := tells_of_isQuiet rfl
  have hclose : Tells [.shallower, .breakLine, .indent, .text "\x7d"] [] := tells_of_isQuiet rfl
  have hend : Tells (if keepLine then [] else [.newline]) [] := by
    cases keepLine <;> exact tells_of_isQuiet rfl
  simpa [Layout.braces] using ((hopen.append h).append hclose).append hend

end Layout

/-! ## What trees tell -/

theorem Expr.tells_layout (e : Expr) : Layout.Tells e.layout (Event.refusals e.defects) :=
  Layout.tells_of_inline e.inline_layout (by rw [e.refusal_layout .outside, Place.find?_outside])

theorem Signature.tells_layout (s : Signature) : Layout.Tells s.layout [] := by
  have hrefusal : Layout.refusal s.layout = ([] : List Defect).head? := s.refusal_layout
  exact Layout.tells_of_inline s.inline_layout hrefusal

theorem Variable.tells_layout (v : Variable) :
    Layout.Tells v.layout (Event.refusals (Expr.defectsOption v.init)) :=
  Layout.tells_of_inline v.inline_layout (by rw [v.refusal_layout .outside, Place.find?_outside])

theorem EnumValue.tells_layout (v : EnumValue) :
    Layout.Tells v.layout (Event.refusals v.value.defects) :=
  Layout.tells_of_inline v.inline_layout (by rw [v.refusal_layout .outside, Place.find?_outside])

theorem EnumValue.tells_lines (values : List EnumValue) :
    Layout.Tells (EnumValue.lines values) (Event.refusals (EnumValue.defectsAll values)) := by
  induction values with
  | nil => exact Layout.tells_nil
  | cons v vs ih =>
    have hstart : Layout.Tells [.indent] [] := Layout.tells_of_isQuiet rfl
    have hend : Layout.Tells [if vs.isEmpty then .newline else .line ","] [] := by
      cases vs <;> exact Layout.tells_of_isQuiet rfl
    have hline := (hstart.append v.tells_layout).append hend
    simpa [EnumValue.lines, EnumValue.defectsAll, Event.refusals] using hline.append ih

theorem Comment.tells_ownLine (content : String) : Layout.Tells (Comment.ownLine content) [] := by
  unfold Comment.ownLine
  split
  · exact Layout.tells_of_isQuiet rfl
  · split <;> exact Layout.tells_of_isQuiet rfl

theorem Comment.tells_layout (c : Comment) : Layout.Tells c.layout [] := by
  unfold Comment.layout
  split
  · exact Layout.tells_of_isQuiet rfl
  · exact Comment.tells_ownLine c.content

theorem Decl.tells_terminator (d : Decl) : Layout.Tells d.terminator [] := by
  unfold Decl.terminator
  split <;> exact Layout.tells_of_isQuiet rfl

theorem Stmt.tells_lead (s : Stmt) : Layout.Tells s.lead [] := by
  unfold Stmt.lead
  split <;> exact Layout.tells_of_isQuiet rfl

theorem Stmt.tells_attached {core : Layout} {events : List Event} (h : Layout.Tells core events)
    (s : Stmt) : Layout.Tells (s.attached core) events := by
  unfold Stmt.attached
  split
  · exact h
  · have hstart : Layout.Tells [.breakLine, .deeper] [] := Layout.tells_of_isQuiet rfl
    have hend : Layout.Tells [.shallower] [] := Layout.tells_of_isQuiet rfl
    simpa using ((hstart.append s.tells_lead).append h).append hend

theorem Stmt.tells_branchHead (condition : Expr) :
    Layout.Tells (Stmt.branchHead condition) (Event.refusals condition.defects) := by
  apply Layout.tells_of_inline (Stmt.inline_branchHead condition)
  simp [Stmt.branchHead, Cmd.refusal, condition.refusal_layout .outside, Place.find?_outside]

theorem Stmt.logAll_concat (elide : Bool) (init : List Stmt) (s : Stmt) :
    Stmt.logAll elide (init ++ [s]) = Stmt.logAll elide init ++ s.log elide := by
  induction init with
  | nil => simp [Stmt.logAll]
  | cons t rest ih => simp [Stmt.logAll, ih]

/-- What a closing `return` adds to what is told in any case. -/
theorem Stmt.tells_layouts_last {elide : Bool} {procedure : String} {body : List Stmt}
    (h : Layout.Tells (Stmt.layouts elide (.inside procedure) (.inside procedure) body)
      (Stmt.logAll elide body)) :
    Layout.Tells (Stmt.layouts elide (.inside procedure) (.last procedure) body)
      (Stmt.logAll elide body ++
        if elide && body.getLast?.any Stmt.isBareReturn then [.elidedReturn procedure]
        else []) := by
  cases hreturn : (elide && body.getLast?.any Stmt.isBareReturn) with
  | false => simpa [Stmt.layouts_last hreturn procedure] using h
  | true =>
    obtain ⟨rfl, hlast⟩ := Bool.and_eq_true_iff.mp hreturn
    obtain ⟨init, rfl⟩ := Stmt.exists_concat_of_isBareReturn hlast
    rw [Stmt.layouts_concat, Stmt.logAll_concat] at h
    rw [Stmt.layouts_concat, Stmt.logAll_concat]
    -- if it were not left out, the `return` would be written, which is no event
    have hinit := h.of_append rfl
    have hnote : Layout.Tells (Stmt.lead (.ret none) ++ Stmt.core true (.last procedure) false
        (.ret none)) [.elidedReturn procedure] := ⟨rfl, rfl⟩
    simpa [Stmt.log] using hinit.append hnote

mutual

theorem Stmt.tells_core (elide : Bool) (procedure : String) (keepLine : Bool) (s : Stmt) :
    Layout.Tells (s.core elide (.inside procedure) keepLine) (s.log elide) := by
  cases s with
  | block body => exact (Stmt.tells_layouts elide procedure body).braces keepLine
  | branch condition body otherwise =>
    rw [Stmt.core, Stmt.log]
    split
    · exact Layout.tells_refuse _ _
    · have hbody := Stmt.tells_consequent elide procedure otherwise.isSome body
      have helse := Stmt.tells_alternative elide procedure otherwise
      exact ((Stmt.tells_branchHead condition).append hbody).append helse
  | whileLoop condition body =>
    have hstart : Layout.Tells [.text "while ("] [] := Layout.tells_of_isQuiet rfl
    have hend : Layout.Tells [.text ")"] [] := Layout.tells_of_isQuiet rfl
    have hhead := (hstart.append condition.tells_layout).append hend
    have hbody := Stmt.tells_attached (Stmt.tells_core elide procedure false body) body
    simpa [Stmt.core, Stmt.log, Place.nested] using hhead.append hbody
  | forLoop init condition after body =>
    have hstart : Layout.Tells [.breakLine, .newline, .indent, .text "for ("] [] :=
      Layout.tells_of_isQuiet rfl
    have hnext : Layout.Tells [.text "; "] [] := Layout.tells_of_isQuiet rfl
    have hend : Layout.Tells [.text ")"] [] := Layout.tells_of_isQuiet rfl
    have hinit := (hstart.append init.tells_layout).append hnext
    have hcondition := (hinit.append condition.tells_layout).append hnext
    have hhead := (hcondition.append after.tells_layout).append hend
    have hbody := Stmt.tells_attached (Stmt.tells_core elide procedure false body) body
    simpa [Stmt.core, Stmt.log, Place.nested] using hhead.append hbody
  | switch scrutinee arms =>
    rw [Stmt.core, Stmt.log]
    split
    · exact Layout.tells_refuse _ _
    · have hstart : Layout.Tells [.text "switch ("] [] := Layout.tells_of_isQuiet rfl
      have hend : Layout.Tells [.text ")"] [] := Layout.tells_of_isQuiet rfl
      have hhead := (hstart.append scrutinee.tells_layout).append hend
      have harms := (Arm.tells_layouts elide procedure arms).braces false
      simpa [Place.nested] using hhead.append harms
  | ret value =>
    cases value with
    | none => exact Layout.tells_of_isQuiet rfl
    | some value =>
      have hstart : Layout.Tells [.indent, .text "return "] [] := Layout.tells_of_isQuiet rfl
      have hend : Layout.Tells Layout.semicolon [] := Layout.tells_of_isQuiet rfl
      simpa [Stmt.core, Stmt.log] using (hstart.append value.tells_layout).append hend
  | comment comment => exact comment.tells_layout
  | expr expr =>
    have hend : Layout.Tells Layout.semicolon [] := Layout.tells_of_isQuiet rfl
    simpa [Stmt.core, Stmt.log] using expr.tells_layout.append hend
  | decl decl =>
    simpa [Stmt.core, Stmt.log] using (Decl.tells_layout elide decl).append decl.tells_terminator
  | _ => exact Layout.tells_of_isQuiet rfl

theorem Stmt.tells_layouts (elide : Bool) (procedure : String) (body : List Stmt) :
    Layout.Tells (Stmt.layouts elide (.inside procedure) (.inside procedure) body)
      (Stmt.logAll elide body) := by
  cases body with
  | nil => exact Layout.tells_nil
  | cons s rest =>
    have hs := s.tells_lead.append (Stmt.tells_core elide procedure false s)
    simpa [Stmt.layouts, Stmt.logAll] using hs.append (Stmt.tells_layouts elide procedure rest)

theorem Stmt.tells_consequent (elide : Bool) (procedure : String) (keepLine : Bool)
    (body : Option Stmt) :
    Layout.Tells (Stmt.consequent elide (.inside procedure) keepLine body)
      (Stmt.logOption elide body) := by
  cases body with
  | none => exact Layout.tells_nil.braces keepLine
  | some body => exact Stmt.tells_attached (Stmt.tells_core elide procedure keepLine body) body

theorem Stmt.tells_alternative (elide : Bool) (procedure : String) (body : Option (List Stmt)) :
    Layout.Tells (Stmt.alternative elide (.inside procedure) body)
      (Stmt.logAllOption elide body) := by
  cases body with
  | none => exact Layout.tells_nil
  | some body =>
    have helse : Layout.Tells [.elseWord] [] := Layout.tells_of_isQuiet rfl
    rw [Stmt.alternative, Stmt.logAllOption]
    split
    · next h =>
      have hblank : Layout.Tells [.text " "] [] := Layout.tells_of_isQuiet rfl
      exact helse.append (hblank.append (Stmt.tells_firstCore elide procedure body h))
    · exact helse.append ((Stmt.tells_layouts elide procedure body).braces false)

theorem Stmt.tells_firstCore (elide : Bool) (procedure : String) (body : List Stmt)
    (h : Stmt.isChained body = true) :
    Layout.Tells (Stmt.firstCore elide (.inside procedure) body) (Stmt.logAll elide body) := by
  match body, h with
  | [s], _ => simpa [Stmt.firstCore, Stmt.logAll] using Stmt.tells_core elide procedure false s

theorem Arm.tells_layouts (elide : Bool) (procedure : String) (arms : List Arm) :
    Layout.Tells (Arm.layouts elide (.inside procedure) arms) (Arm.logAll elide arms) := by
  cases arms with
  | nil => exact Layout.tells_nil
  | cons arm rest =>
    exact (Arm.tells_layout elide procedure arm).append (Arm.tells_layouts elide procedure rest)

theorem Arm.tells_layout (elide : Bool) (procedure : String) (arm : Arm) :
    Layout.Tells (arm.layout elide (.inside procedure)) (arm.log elide) := by
  have hend : Layout.Tells [.shallower] [] := Layout.tells_of_isQuiet rfl
  cases arm with
  | onCase value body =>
    have hstart : Layout.Tells [.indent, .text "case "] [] := Layout.tells_of_isQuiet rfl
    have hcolon : Layout.Tells [.line ":", .deeper] [] := Layout.tells_of_isQuiet rfl
    have hhead := (hstart.append value.tells_layout).append hcolon
    have hbody := (Stmt.tells_layouts elide procedure body).append hend
    simpa [Arm.layout, Arm.log] using hhead.append hbody
  | onDefault body =>
    have hhead : Layout.Tells [.indent, .text "default:", .newline, .deeper] [] :=
      Layout.tells_of_isQuiet rfl
    have hbody := (Stmt.tells_layouts elide procedure body).append hend
    simpa [Arm.layout, Arm.log] using hhead.append hbody

theorem Decl.tells_layout (elide : Bool) (d : Decl) :
    Layout.Tells (d.layout elide) (d.log elide) := by
  cases d with
  | prototype index signature =>
    rw [Decl.layout, Decl.log]
    split
    · exact Layout.tells_refuse _ _
    · have hstart : Layout.Tells
          [.text "function(", .text (Literal.hexadecimal index), .text ") "] [] :=
        Layout.tells_of_isQuiet rfl
      exact hstart.append signature.tells_layout
  | var declared => exact declared.tells_layout
  | procedure signature body =>
    rw [Decl.layout, Decl.log]
    split
    · exact Layout.tells_refuse _ _
    · have hnote : Layout.Tells [.note (.procedure signature.name (body.getD []).length)]
          [.procedure signature.name (body.getD []).length] := ⟨rfl, rfl⟩
      have hhead := hnote.append signature.tells_layout
      simpa using hhead.append (Decl.tells_bodyLayout elide signature.name body)
  | enum name values =>
    have hhead : Layout.Tells ([Cmd.text "enum "] ++ Layout.name name) [] :=
      Layout.tells_of_isQuiet rfl
    exact hhead.append ((EnumValue.tells_lines values).braces true)
  | enumValue value => exact value.tells_layout

theorem Decl.tells_bodyLayout (elide : Bool) (procedure : String) (body : Option (List Stmt)) :
    Layout.Tells (Decl.bodyLayout elide procedure body) (Stmt.logAllOption elide body ++
      if elide && (body.getD []).getLast?.any Stmt.isBareReturn then [.elidedReturn procedure]
      else []) := by
  cases body with
  | none =>
    have hend : Layout.Tells Layout.semicolon [] := Layout.tells_of_isQuiet rfl
    simpa [Decl.bodyLayout, Stmt.logAllOption] using hend
  | some body =>
    exact (Stmt.tells_layouts_last (Stmt.tells_layouts elide procedure body)).braces false

end

/-! ## What scripts tell -/

theorem Layout.tells_banner (o : Options) (title : String) :
    Layout.Tells (Layout.banner o title) [] := by
  have hnewline : Layout.Tells [.newline] [] := Layout.tells_of_isQuiet rfl
  have hline := Comment.tells_ownLine
  unfold Layout.banner
  split
  · exact (((hnewline.append (hline "")).append (hline title)).append (hline "")).append hnewline
  · exact Layout.tells_nil

namespace Script

theorem tells_importSection (o : Options) (imports : List String) :
    Layout.Tells (importSection o imports) [] := by
  have hlines : ∀ files : List String, Layout.Tells (files.flatMap Layout.importLine) [] := by
    intro files
    induction files with
    | nil => exact Layout.tells_nil
    | cons file files ih =>
      have hline : Layout.Tells (Layout.importLine file) [] := Layout.tells_of_isQuiet rfl
      exact hline.append ih
  unfold importSection
  split
  · exact Layout.tells_nil
  · exact (Layout.tells_banner o "Imports").append (hlines imports)

theorem tells_heading (o : Options) (earlier : List Decl) (d : Decl) :
    Layout.Tells (heading o earlier d) [] := by
  unfold heading
  split
  · exact Layout.tells_banner _ _
  · split
    · exact Layout.tells_banner _ _
    · exact Layout.tells_nil

theorem tells_declarationSections (o : Options) (earlier ds : List Decl) :
    Layout.Tells (declarationSections o earlier ds)
      (ds.flatMap (Decl.log o.elideTrailingReturn)) := by
  induction ds generalizing earlier with
  | nil => exact Layout.tells_nil
  | cons d ds ih =>
    have hd := (Decl.tells_layout o.elideTrailingReturn d).append d.tells_terminator
    have hfirst := (tells_heading o earlier d).append hd
    simpa [declarationSections, Decl.terminated] using hfirst.append (ih (d :: earlier))

theorem tells_layout (o : Options) (s : Script) :
    Layout.Tells (s.layout o) (s.log o.elideTrailingReturn) := by
  have hnote : Layout.Tells [.note (.script s.imports.length s.declarations.length)]
      [.script s.imports.length s.declarations.length] := ⟨rfl, rfl⟩
  have hfront := hnote.append (tells_importSection o s.imports)
  exact hfront.append (tells_declarationSections o [] s.declarations)

/-! ## Logs -/

/-- How a script ends that does not abort. -/
private theorem result_eq_malformed_iff {s : Script} {w : Writer} {o : Options}
    (hroom : w.room = none) (hcalm : ∀ a, (s.outcome w o).result ≠ .error (.abort a))
    (d : Defect) : (s.outcome w o).result = .error (.error (.malformed d)) ↔
      s.firstDefect = some d := by
  have hstop := stop_of_calm (calm_of_outcome hroom hcalm)
  rw [refusal_eq_firstDefect] at hstop
  rw [outcome_of_taken (Writer.write_unlimited hroom _), hstop]
  cases s.firstDefect with
  | none => cases w.flushFails <;> simp
  | some defect => simp

/-- A script that does not abort logs what its tree has to tell, up to the first defect, whatever
the style, the width and the banners. It warns if and only if it is refused, and then once, at the
very end, of the first defect. Each event is on record with its level, its counts, names and
texts. -/
theorem events_eq_upToRefusal_log (s : Script) (w : Writer) (o : Options) (hroom : w.room = none)
    (hcalm : ∀ a, (s.outcome w o).result ≠ .error (.abort a)) :
    (s.outcome w o).events = Event.upToRefusal (s.log o.elideTrailingReturn) ∧
    ((∃ e ∈ (s.outcome w o).events, e.level = .warn) ↔
      ∃ d, (s.outcome w o).result = .error (.error (.malformed d))) ∧
    (∀ d, (s.outcome w o).result = .error (.error (.malformed d)) →
      s.firstDefect = some d ∧ ∃ before, (s.outcome w o).events = before ++ [.refused d] ∧
        ∀ e ∈ before, e.level ≠ .warn) ∧
    (∀ o' : Options, o'.elideTrailingReturn = o.elideTrailingReturn →
      (∀ a, (s.outcome w o').result ≠ .error (.abort a)) →
        (s.outcome w o').events = (s.outcome w o).events) ∧
    ∀ (e : Event) (level : String) (fields : List (String × Event.Value)),
      e.Records level fields ↔ e.level.text = level ∧ e.fields = fields := by
  have hlog : ∀ o : Options, (∀ a, (s.outcome w o).result ≠ .error (.abort a)) →
      (s.outcome w o).events = Event.upToRefusal (s.log o.elideTrailingReturn) := by
    intro o hcalm
    rw [events_outcome hroom, (seen_of_calm (calm_of_outcome hroom hcalm)).2,
      (tells_layout o s).logged]
  have hevents := hlog o hcalm
  have hdefect : (s.log o.elideTrailingReturn).findSome? Event.defect? = s.firstDefect := by
    rw [← (tells_layout o s).refusal, refusal_eq_firstDefect]
  have hresult := result_eq_malformed_iff hroom hcalm
  have hwarning : ∀ d, s.firstDefect = some d → ∃ before,
      (s.outcome w o).events = before ++ [.refused d] ∧ ∀ e ∈ before, e.level ≠ .warn := by
    intro d hd
    obtain ⟨before, hcut, hbefore⟩ := Event.exists_upToRefusal_eq (hdefect.trans hd)
    refine ⟨before, hevents.trans hcut, fun e he hwarn => ?_⟩
    exact e.level_eq_warn_iff.mp hwarn (hbefore e he)
  refine ⟨hevents, ⟨?_, ?_⟩, fun d hd => ?_, fun o' helide hcalm' => ?_, Event.records_iff⟩
  · rintro ⟨e, he, hwarn⟩
    cases hd : s.firstDefect with
    | some d => exact ⟨d, (hresult d).mpr hd⟩
    | none =>
      rw [hevents] at he
      have hnone := Event.not_refused_of_findSome?_eq_none (hdefect.trans hd) e he
      exact absurd hnone (e.level_eq_warn_iff.mp hwarn)
  · rintro ⟨d, hd⟩
    obtain ⟨before, hall, -⟩ := hwarning d ((hresult d).mp hd)
    rw [hall]
    exact ⟨.refused d, List.mem_append_right _ (List.mem_singleton_self _), rfl⟩
  · have hfirst := (hresult d).mp hd
    exact ⟨hfirst, hwarning d hfirst⟩
  · rw [hlog o' hcalm', helide, hevents]

/-- Both procedures end in a `return`, but the outer one does not get there. The name of the inner
one is quoted in the text, but not in the log. -/
theorem events_eq_upToRefusal_log_nested :
    let inner : Decl := .procedure ⟨"void", "on load", []⟩ (some [.ret none])
    let body : List Stmt := [.decl inner, .expr (.call "" []), .ret none]
    let s : Script := ⟨[], [.procedure ⟨"void", "main", []⟩ (some body)]⟩
    (∀ a, (s.outcome {} {}).result ≠ .error (.abort a)) ∧
      (s.outcome {} {}).events = [.script 0 1, .procedure "main" 3, .procedure "on load" 1,
        .elidedReturn "on load", .refused .unnamedCall] ∧
      s.log true = [.script 0 1, .procedure "main" 3, .procedure "on load" 1,
        .elidedReturn "on load", .refused .unnamedCall, .elidedReturn "main"] ∧
      (s.outcome {} {}).events.map (fun e => (e.level.text, e.fields)) =
        [("DEBUG", [("message", .text "unparsing compilation unit"), ("imports", .count 0),
            ("declarations", .count 1)]),
          ("DEBUG", [("message", .text "unparsing procedure"), ("procedure", .text "main"),
            ("statements", .count 3)]),
          ("DEBUG", [("message", .text "unparsing procedure"), ("procedure", .text "on load"),
            ("statements", .count 1)]),
          ("TRACE", [("message", .text "eliding trailing return"),
            ("procedure", .text "on load")]),
          ("WARN", [("message", .text "refusing to unparse malformed tree"),
            ("message", .text "call without a function name")])] ∧
      ∃ e ∈ (s.outcome {} {}).events, e.level = .warn := by
  intro inner body s
  have hcalm : ∀ a, (s.outcome {} {}).result ≠ .error (.abort a) := ne_abort (by decide +kernel)
  have hlog : s.log true = [.script 0 1, .procedure "main" 3, .procedure "on load" 1,
      .elidedReturn "on load", .refused .unnamedCall, .elidedReturn "main"] := by decide +kernel
  obtain ⟨hevents, hwarn, -, -, hrecords⟩ := events_eq_upToRefusal_log s {} {} rfl hcalm
  have hresult : (s.outcome {} {}).result = .error (.error (.malformed .unnamedCall)) :=
    (result_eq_malformed_iff rfl hcalm _).mpr (by decide +kernel)
  have hcut := hevents.trans (congrArg Event.upToRefusal hlog)
  have hrecord : ∀ {e : Event} {level : String} {fields : List (String × Event.Value)},
      e.Records level fields → (e.level.text, e.fields) = (level, fields) := by
    intro e level fields h
    obtain ⟨hlevel, hfields⟩ := (hrecords e level fields).mp h
    rw [hlevel, hfields]
  refine ⟨hcalm, hcut, hlog, ?_, hwarn.mpr ⟨_, hresult⟩⟩
  rw [hcut]
  simp only [Event.upToRefusal, List.map_cons, List.map_nil, hrecord (.script 0 1),
    hrecord (.procedure "main" 3), hrecord (.procedure "on load" 1),
    hrecord (.elidedReturn "on load"), hrecord (.refused .unnamedCall)]

end Script

end Scribe
