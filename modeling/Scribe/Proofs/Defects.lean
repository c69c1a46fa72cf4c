import Scribe.Proofs.Outcome

/-! What is wrong with a tree is a matter of the tree alone. `defects` lists it in the order of the
text, a node before its parts, without writing anything; the main statement says that a call on a
destination without a limit ends with the first of these, and well if there is none, unless an
indentation aborts it. -/

namespace Scribe

/-! ## The defects of a tree -/

mutual

def Expr.defects : Expr → List Defect
  | .member operand _ => operand.defects
  | .call function arguments =>
    (if function = "" then [.unnamedCall] else []) ++ Expr.defectsAll arguments
  | .unary _ operand => operand.defects
  | .binary _ left right => left.defects ++ right.defects
  | _ => []

def Expr.defectsAll : List Expr → List Defect
  | [] => []
  | e :: es => e.defects ++ Expr.defectsAll es

end

def Expr.defectsOption : Option Expr → List Defect
  | none => []
  | some e => e.defects

def EnumValue.defectsAll : List EnumValue → List Defect
  | [] => []
  | v :: vs => v.value.defects ++ EnumValue.defectsAll vs

mutual

/-- A bare `return` is listed as if it stood outside of all procedures. Whether it counts depends on
where the statement stands; inside a procedure that is part of the statement it never does. -/
def Stmt.defects : Stmt → List Defect
  | .block body => Stmt.defectsAll body
  | .branch condition body otherwise =>
    (if body.isNone && otherwise.isNone then [.emptyIf] else []) ++ condition.defects ++
      Stmt.defectsOption body ++ Stmt.defectsAllOption otherwise
  | .whileLoop condition body => condition.defects ++ body.defects
  | .forLoop init condition after body =>
    init.defects ++ condition.defects ++ after.defects ++ body.defects
  | .switch scrutinee arms =>
    (if 1 < Stmt.defaultCount arms then [.defaultLabels (Stmt.defaultCount arms)] else []) ++
      scrutinee.defects ++ Arm.defectsAll arms
  | .ret none => [.returnOutsideProcedure]
  | .ret (some value) => value.defects
  | .expr expr => expr.defects
  | .decl decl => decl.defects
  | _ => []

def Stmt.defectsAll : List Stmt → List Defect
  | [] => []
  | s :: rest => s.defects ++ Stmt.defectsAll rest

def Stmt.defectsOption : Option Stmt → List Defect
  | none => []
  | some s => s.defects

def Stmt.defectsAllOption : Option (List Stmt) → List Defect
  | none => []
  | some body => Stmt.defectsAll body

def Arm.defects : Arm → List Defect
  | .onCase value body => value.defects ++ Stmt.defectsAll body
  | .onDefault body => Stmt.defectsAll body

def Arm.defectsAll : List Arm → List Defect
  | [] => []
  | arm :: rest => arm.defects ++ Arm.defectsAll rest

def Decl.defects : Decl → List Defect
  | .prototype index signature =>
    if signature.name = "" then [.unnamedPrototype index] else []
  | .var declared => Expr.defectsOption declared.init
  | .procedure signature body =>
    (if signature.name = "" then [.unnamedProcedure] else []) ++
      (Stmt.defectsAllOption body).filter (· ≠ .returnOutsideProcedure)
  | .enum _ values => EnumValue.defectsAll values
  | .enumValue value => value.value.defects

end

/-- Which defects matter for a statement at this place. -/
def Place.minds : Place → Defect → Bool
  | .outside, _ => true
  | _, defect => defect ≠ .returnOutsideProcedure

/-- The first node in the order of the text that cannot be written. -/
def Stmt.firstDefect (place : Place) (s : Stmt) : Option Defect := s.defects.find? place.minds

def Script.defects (s : Script) : List Defect := s.declarations.flatMap Decl.defects

def Script.firstDefect (s : Script) : Option Defect := s.defects.head?

/-- How a call ends when this is the first defect of its tree. -/
def Defect.verdict : Option Defect → Except Stop Unit
  | none => .ok ()
  | some defect => .error (.error (.malformed defect))

/-! ## The refusals of a layout -/

def Cmd.refusal : Cmd → Option Defect
  | .refuse defect => some defect
  | _ => none

namespace Layout

def refusal (layout : Layout) : Option Defect := layout.findSome? Cmd.refusal

@[simp] theorem refusal_nil : refusal [] = none := rfl

@[simp] theorem refusal_cons (c : Cmd) (layout : Layout) :
    refusal (c :: layout) = c.refusal.or (refusal layout) := by
  cases h : c.refusal <;> simp [refusal, h]

@[simp] theorem refusal_append (a b : Layout) : refusal (a ++ b) = (refusal a).or (refusal b) :=
  List.findSome?_append

@[simp] theorem refusal_commaSeparated_cons (a : Layout) (rest : List Layout) :
    refusal (commaSeparated (a :: rest)) = (refusal a).or (refusal (commaSeparated rest)) := by
  cases rest <;> simp [Cmd.refusal]

@[simp] theorem refusal_parens (wanted : Bool) (inner : Layout) :
    refusal (parens wanted inner) = refusal inner := by
  cases wanted <;> simp [parens, Cmd.refusal]

@[simp] theorem refusal_braces (keepLine : Bool) (inner : Layout) :
    refusal (braces keepLine inner) = refusal inner := by
  cases keepLine <;> simp [braces, Cmd.refusal]

end Layout

/-! ## What stops a run -/

namespace Effect

/-- Stops, if at all, by an abort. -/
def Calm (e : Effect) : Prop := ∀ x, e.stop = some x → ∃ a, x = .abort a

theorem Calm.andThen {e : Effect} {f : Cursor → Effect} (he : e.Calm) (hf : ∀ k, (f k).Calm) :
    (e.andThen f).Calm := by
  intro x hx
  cases hs : e.stop with
  | some y =>
    rw [andThen_of_stop hs] at hx
    exact he x hx
  | none =>
    rw [andThen_of_none hs] at hx
    exact hf e.cursor x hx

theorem calm_put (s : String) (midLine : Bool) (k : Cursor) : (put s midLine k).Calm :=
  nofun

theorem calm_stay (k : Cursor) : (stay k).Calm := nofun

theorem calm_halt (a : Abort) (k : Cursor) : (halt a k).Calm := by
  intro x hx
  cases hx
  exact ⟨a, rfl⟩

theorem calm_breakLine (k : Cursor) : (breakLine k).Calm := by
  unfold breakLine
  split
  · exact calm_put _ _ _
  · exact calm_stay _

theorem calm_indent (width : Nat) (k : Cursor) : (indent width k).Calm := by
  rcases indent_cases width k with ⟨a, -, ha⟩ | hput
  · rw [ha]
    exact calm_halt _ _
  · rw [hput]
    exact calm_put _ _ _

theorem calm_freshLine (width : Nat) (s : String) (midLine : Bool) (k : Cursor) :
    (freshLine width s midLine k).Calm :=
  ((calm_breakLine k).andThen (calm_indent width)).andThen (calm_put s midLine)

end Effect

theorem Cmd.calm_effect (sheet : Sheet) (k : Cursor) {c : Cmd} (h : c.refusal = none) :
    (c.effect sheet k).Calm := by
  cases c with
  | text s => exact Effect.calm_put _ _ _
  | line s => exact Effect.calm_put _ _ _
  | newline => exact Effect.calm_put _ _ _
  | breakLine => exact Effect.calm_breakLine k
  | indent => exact Effect.calm_indent _ _
  | deeper =>
    simp only [Cmd.effect, Effect.deeper]
    split
    · exact Effect.calm_halt _ _
    · exact Effect.calm_stay _
  | shallower =>
    simp only [Cmd.effect, Effect.shallower]
    split
    · exact Effect.calm_halt _ _
    · exact Effect.calm_stay _
  | openBrace =>
    simp only [Cmd.effect, Effect.openBrace]
    split
    · exact Effect.calm_put _ _ _
    · exact Effect.calm_freshLine _ _ _ _
  | elseWord =>
    simp only [Cmd.effect, Effect.elseWord]
    split
    · exact Effect.calm_put _ _ _
    · exact Effect.calm_freshLine _ _ _ _
  | note event => exact nofun
  | refuse defect => cases h

/-- A run that does not abort stops at its first refusal and nowhere else. -/
theorem Layout.stop_effect (sheet : Sheet) (layout : Layout) (k : Cursor) :
    (∃ a, (layout.effect sheet k).stop = some (.abort a)) ∨
      (layout.effect sheet k).stop = layout.refusal.map fun d => .error (.malformed d) := by
  induction layout generalizing k with
  | nil => exact Or.inr rfl
  | cons c rest ih =>
    rw [Layout.effect, Layout.refusal_cons]
    cases hr : c.refusal with
    | some d =>
      cases c <;> cases hr
      exact Or.inr rfl
    | none =>
      cases hs : (c.effect sheet k).stop with
      | some x =>
        obtain ⟨a, rfl⟩ := Cmd.calm_effect sheet k hr x hs
        rw [Effect.andThen_of_stop hs]
        exact Or.inl ⟨a, hs⟩
      | none =>
        rw [Effect.andThen_of_none hs]
        exact ih _

/-! ## Refusals of trees -/

@[simp] theorem Place.minds_nested (place : Place) : place.nested.minds = place.minds := by
  cases place <;> rfl

private theorem find?_minds_cons (place : Place) {d : Defect}
    (h : d ≠ .returnOutsideProcedure) (ds : List Defect) :
    (d :: ds).find? place.minds = some d := by
  cases place <;> simp [Place.minds, h]

mutual

theorem Expr.refusal_layout (place : Place) (e : Expr) :
    Layout.refusal e.layout = e.defects.find? place.minds := by
  cases e with
  | member operand field =>
    simp [Expr.layout, Expr.defects, Layout.name, Cmd.refusal, refusal_layout place operand]
  | call function arguments =>
    simp only [Expr.layout, Expr.defects]
    split
    · simp [Cmd.refusal, find?_minds_cons]
    · simp [Layout.name, Cmd.refusal, refusal_layouts place arguments]
  | unary op operand =>
    have h := refusal_layout place operand
    simp only [Expr.layout, Expr.defects]
    split <;> simp [Cmd.refusal, h]
  | binary op left right =>
    simp [Expr.layout, Expr.defects, Cmd.refusal, refusal_layout place left,
      refusal_layout place right]
  | _ => simp [Expr.layout, Expr.defects, Layout.name, Cmd.refusal]

theorem Expr.refusal_layouts (place : Place) (es : List Expr) :
    Layout.refusal (Layout.commaSeparated (Expr.layouts es)) =
      (Expr.defectsAll es).find? place.minds := by
  cases es with
  | nil => rfl
  | cons e es =>
    simp [Expr.layouts, Expr.defectsAll, refusal_layout place e, refusal_layouts place es]

end

theorem Signature.refusal_layout (s : Signature) : Layout.refusal s.layout = none := by
  have hparams : ∀ ps : List Param,
      Layout.refusal (Layout.commaSeparated (ps.map Param.layout)) = none := by
    intro ps
    induction ps with
    | nil => rfl
    | cons p ps ih => simp [Param.layout, Layout.name, Cmd.refusal, ih]
  simp [Signature.layout, Layout.name, Cmd.refusal, hparams]

theorem Modifier.refusal_layout (m : Modifier) : Layout.refusal m.layout = none := by
  obtain ⟨storage, slot⟩ := m
  cases slot <;> simp [Modifier.layout, Cmd.refusal]

theorem Variable.refusal_layout (place : Place) (v : Variable) :
    Layout.refusal v.layout = (Expr.defectsOption v.init).find? place.minds := by
  obtain ⟨modifier, type, name, init⟩ := v
  cases modifier <;> cases init <;>
    simp [Variable.layout, Expr.defectsOption, Layout.name, Cmd.refusal, Modifier.refusal_layout,
      Expr.refusal_layout place]

theorem EnumValue.refusal_layout (place : Place) (v : EnumValue) :
    Layout.refusal v.layout = v.value.defects.find? place.minds := by
  simp [EnumValue.layout, Layout.name, Cmd.refusal, Expr.refusal_layout place]

theorem EnumValue.refusal_lines (place : Place) (values : List EnumValue) :
    Layout.refusal (EnumValue.lines values) = (EnumValue.defectsAll values).find? place.minds := by
  induction values with
  | nil => rfl
  | cons v vs ih =>
    have hstart : Layout.refusal [.indent] = none := rfl
    have hend : Layout.refusal [if vs.isEmpty then .newline else .line ","] = none := by
      cases vs <;> rfl
    rw [EnumValue.lines, EnumValue.defectsAll, Layout.refusal_append, Layout.refusal_append,
      Layout.refusal_append, hstart, hend, EnumValue.refusal_layout place, ih, List.find?_append,
      Option.none_or, Option.or_none]

theorem Comment.refusal_layout (c : Comment) : Layout.refusal c.layout = none := by
  unfold Comment.layout Comment.ownLine
  split
  · rfl
  · split
    · rfl
    · split <;> rfl

theorem Decl.refusal_terminator (d : Decl) : Layout.refusal d.terminator = none := by
  unfold Decl.terminator
  split <;> rfl

theorem Stmt.refusal_lead (s : Stmt) : Layout.refusal s.lead = none := by
  unfold Stmt.lead
  split <;> rfl

theorem Stmt.refusal_attached (s : Stmt) (core : Layout) :
    Layout.refusal (s.attached core) = Layout.refusal core := by
  unfold Stmt.attached
  split <;> simp [Cmd.refusal, Stmt.refusal_lead]

mutual

theorem Stmt.refusal_core (elide : Bool) (place : Place) (keepLine : Bool) (s : Stmt) :
    Layout.refusal (s.core elide place keepLine) = s.defects.find? place.minds := by
  cases s with
  | block body =>
    rw [Stmt.core, Stmt.defects, Layout.refusal_braces,
      Stmt.refusal_layouts elide rfl body, Place.minds_nested]
  | branch condition body otherwise =>
    rw [Stmt.core, Stmt.defects]
    split
    · simp [Cmd.refusal, find?_minds_cons]
    · simp [Stmt.branchHead, Cmd.refusal, Expr.refusal_layout place condition,
        Stmt.refusal_consequent elide place.nested otherwise.isSome body,
        Stmt.refusal_alternative elide place.nested otherwise]
  | whileLoop condition body =>
    simp [Stmt.core, Stmt.defects, Cmd.refusal, Stmt.refusal_attached,
      Expr.refusal_layout place condition, Stmt.refusal_core elide place.nested false body]
  | forLoop init condition after body =>
    simp [Stmt.core, Stmt.defects, Cmd.refusal, Stmt.refusal_attached,
      Expr.refusal_layout place init, Expr.refusal_layout place condition,
      Expr.refusal_layout place after, Stmt.refusal_core elide place.nested false body]
  | switch scrutinee arms =>
    rw [Stmt.core, Stmt.defects]
    split
    · simp [Cmd.refusal, find?_minds_cons]
    · simp [Cmd.refusal, Expr.refusal_layout place scrutinee,
        Arm.refusal_layouts elide place.nested arms]
  | ret value =>
    cases value with
    | none =>
      rw [Stmt.core, Stmt.defects]
      cases place with
      | outside => rfl
      | inside procedure => rfl
      | last procedure => cases elide <;> rfl
    | some value =>
      simp [Stmt.core, Stmt.defects, Layout.semicolon, Cmd.refusal,
        Expr.refusal_layout place value]
  | breakLoop => rfl
  | continueLoop => rfl
  | goto label => rfl
  | label name => rfl
  | comment comment =>
    rw [Stmt.core, Comment.refusal_layout]
    rfl
  | expr expr =>
    simp [Stmt.core, Stmt.defects, Layout.semicolon, Cmd.refusal, Expr.refusal_layout place expr]
  | decl decl =>
    simp [Stmt.core, Stmt.defects, Decl.refusal_terminator, Decl.refusal_layout elide place decl]

/-- The last statement of a list may have a place of its own, but not one that minds more. -/
theorem Stmt.refusal_layouts (elide : Bool) {place final : Place}
    (h : final.minds = place.minds) (body : List Stmt) :
    Layout.refusal (Stmt.layouts elide place final body) =
      (Stmt.defectsAll body).find? place.minds := by
  cases body with
  | nil => rfl
  | cons s rest =>
    have hplace : (if rest.isEmpty then final else place).minds = place.minds := by
      split
      · exact h
      · rfl
    rw [Stmt.layouts, Stmt.defectsAll, Layout.refusal_append, Layout.refusal_append,
      Stmt.refusal_lead, Stmt.refusal_core elide _ false s, hplace,
      Stmt.refusal_layouts elide h rest, List.find?_append, Option.none_or]

theorem Stmt.refusal_consequent (elide : Bool) (place : Place) (keepLine : Bool)
    (body : Option Stmt) : Layout.refusal (Stmt.consequent elide place keepLine body) =
      (Stmt.defectsOption body).find? place.minds := by
  cases body with
  | none => simp [Stmt.consequent, Stmt.defectsOption]
  | some body =>
    rw [Stmt.consequent, Stmt.refusal_attached, Stmt.refusal_core elide place keepLine body,
      Stmt.defectsOption]

theorem Stmt.refusal_alternative (elide : Bool) (place : Place) (body : Option (List Stmt)) :
    Layout.refusal (Stmt.alternative elide place body) =
      (Stmt.defectsAllOption body).find? place.minds := by
  cases body with
  | none => rfl
  | some body =>
    rw [Stmt.alternative, Stmt.defectsAllOption]
    split
    · next h => simp [Cmd.refusal, Stmt.refusal_firstCore elide place body h]
    · simp [Cmd.refusal, Stmt.refusal_layouts elide rfl body]

theorem Stmt.refusal_firstCore (elide : Bool) (place : Place) (body : List Stmt)
    (h : Stmt.isChained body = true) :
    Layout.refusal (Stmt.firstCore elide place body) =
      (Stmt.defectsAll body).find? place.minds := by
  match body, h with
  | [s], _ =>
    simp [Stmt.firstCore, Stmt.defectsAll, Stmt.refusal_core elide place false s]

theorem Arm.refusal_layouts (elide : Bool) (place : Place) (arms : List Arm) :
    Layout.refusal (Arm.layouts elide place arms) = (Arm.defectsAll arms).find? place.minds := by
  cases arms with
  | nil => rfl
  | cons arm rest =>
    simp [Arm.layouts, Arm.defectsAll, Arm.refusal_layout elide place arm,
      Arm.refusal_layouts elide place rest]

theorem Arm.refusal_layout (elide : Bool) (place : Place) (arm : Arm) :
    Layout.refusal (arm.layout elide place) = arm.defects.find? place.minds := by
  cases arm with
  | onCase value body =>
    simp [Arm.layout, Arm.defects, Cmd.refusal, Expr.refusal_layout place value,
      Stmt.refusal_layouts elide rfl body]
  | onDefault body =>
    simp [Arm.layout, Arm.defects, Cmd.refusal, Stmt.refusal_layouts elide rfl body]

theorem Decl.refusal_layout (elide : Bool) (place : Place) (d : Decl) :
    Layout.refusal (d.layout elide) = d.defects.find? place.minds := by
  cases d with
  | prototype index signature =>
    rw [Decl.layout, Decl.defects]
    split
    · rw [find?_minds_cons place (by simp)]
      rfl
    · simp [Cmd.refusal, Signature.refusal_layout]
  | var declared => rw [Decl.layout, Decl.defects, Variable.refusal_layout place]
  | procedure signature body =>
    rw [Decl.layout, Decl.defects]
    split
    · simp [Cmd.refusal, find?_minds_cons]
    · have hinside : (Place.inside signature.name).minds = fun d =>
          decide (d ≠ .returnOutsideProcedure) && place.minds d := by
        funext d
        cases place <;> simp [Place.minds]
      simp [Cmd.refusal, Signature.refusal_layout,
        Decl.refusal_bodyLayout elide signature.name body, hinside]
  | enum name values =>
    simp [Decl.layout, Decl.defects, Layout.name, Cmd.refusal, EnumValue.refusal_lines place]
  | enumValue value => rw [Decl.layout, Decl.defects, EnumValue.refusal_layout place]

theorem Decl.refusal_bodyLayout (elide : Bool) (procedure : String) (body : Option (List Stmt)) :
    Layout.refusal (Decl.bodyLayout elide procedure body) =
      (Stmt.defectsAllOption body).find? (Place.inside procedure).minds := by
  cases body with
  | none => rfl
  | some body =>
    have hlast : (Place.last procedure).minds = (Place.inside procedure).minds := rfl
    rw [Decl.bodyLayout, Layout.refusal_braces, Stmt.defectsAllOption,
      Stmt.refusal_layouts elide hlast body]

end

theorem Stmt.refusal_layout (elide : Bool) (place : Place) (s : Stmt) :
    Layout.refusal (s.layout elide place) = s.firstDefect place := by
  rw [Stmt.layout, Layout.refusal_append, Stmt.refusal_lead, Stmt.refusal_core, Option.none_or,
    Stmt.firstDefect]

theorem Layout.refusal_banner (o : Options) (title : String) :
    Layout.refusal (Layout.banner o title) = none := by
  have hline : ∀ content, Layout.refusal (Comment.ownLine content) = none := fun content =>
    Comment.refusal_layout ⟨content, false⟩
  unfold Layout.banner
  split <;> simp [Cmd.refusal, hline]

theorem Script.refusal_importSection (o : Options) (imports : List String) :
    Layout.refusal (Script.importSection o imports) = none := by
  have hlines : ∀ files : List String, Layout.refusal (files.flatMap Layout.importLine) = none := by
    intro files
    induction files with
    | nil => rfl
    | cons f files ih => simp [Layout.importLine, Layout.semicolon, Cmd.refusal, ih]
  unfold Script.importSection
  split
  · rfl
  · rw [Layout.refusal_append, Layout.refusal_banner, hlines, Option.none_or]

theorem Script.refusal_heading (o : Options) (earlier : List Decl) (d : Decl) :
    Layout.refusal (Script.heading o earlier d) = none := by
  unfold Script.heading
  split
  · exact Layout.refusal_banner _ _
  · split
    · exact Layout.refusal_banner _ _
    · rfl

theorem Script.refusal_declarationSections (o : Options) (place : Place) (earlier ds : List Decl) :
    Layout.refusal (Script.declarationSections o earlier ds) =
      (ds.flatMap Decl.defects).find? place.minds := by
  induction ds generalizing earlier with
  | nil => rfl
  | cons d ds ih =>
    rw [Script.declarationSections, Layout.refusal_append, Layout.refusal_append,
      Script.refusal_heading, Decl.terminated, Layout.refusal_append, Decl.refusal_terminator,
      Decl.refusal_layout o.elideTrailingReturn place, ih, List.flatMap_cons, List.find?_append,
      Option.none_or, Option.or_none]

theorem Script.refusal_layout (o : Options) (place : Place) (s : Script) :
    Layout.refusal (s.layout o) = s.defects.find? place.minds := by
  have hnote : Layout.refusal
      [.note (.script s.imports.length s.declarations.length)] = none := rfl
  rw [Script.layout, Layout.refusal_append, Layout.refusal_append, hnote,
    Script.refusal_importSection, Script.refusal_declarationSections o place, Option.none_or,
    Option.none_or, Script.defects]

/-! ## Texts -/

/-- What is said of a node that cannot be written. A prototype has no name to be found by, so its
index is given, in hexadecimal, and a `switch` comes with the number of its `default` labels. -/
inductive Defect.Says : Defect → String → Prop
  | returnOutsideProcedure :
    Says .returnOutsideProcedure "return statement outside of a procedure"
  | unnamedCall : Says .unnamedCall "call without a function name"
  | unnamedPrototype (index : UInt32) : Says (.unnamedPrototype index)
      ("function prototype " ++ Literal.hexadecimal index ++ " has no name")
  | unnamedProcedure : Says .unnamedProcedure "procedure without a name"
  | emptyIf : Says .emptyIf "if statement with neither a body nor an else branch"
  | defaultLabels (count : Nat) : Says (.defaultLabels count)
      ("switch statement has " ++ decimal count ++ " default labels")

inductive Error.Says : Error → String → Prop
  | malformed {defect : Defect} {detail : String} (h : defect.Says detail) :
    Says (.malformed defect) ("malformed syntax tree: " ++ detail)
  | write (cause : WriteError) : Says (.write cause) ("could not write output: " ++ cause.text)
  | notText : Says .notText "rendered output was not valid UTF-8"

theorem Defect.says_iff (defect : Defect) (text : String) :
    defect.Says text ↔ defect.detail = text := by
  constructor
  · intro h
    cases h <;> rfl
  · rintro rfl
    cases defect <;> constructor

theorem Error.says_iff (cause : Error) (text : String) :
    cause.Says text ↔ cause.message = text := by
  constructor
  · intro h
    cases h with
    | malformed h =>
      obtain rfl := (Defect.says_iff _ _).mp h
      rfl
    | write cause => rfl
    | notText => rfl
  · rintro rfl
    cases cause with
    | malformed defect => exact .malformed ((defect.says_iff _).mpr rfl)
    | write cause => exact .write cause
    | notText => exact .notText

/-! ## Verdicts -/

theorem Place.find?_outside (ds : List Defect) : ds.find? Place.outside.minds = ds.head? := by
  cases ds <;> rfl

theorem Script.refusal_eq_firstDefect (o : Options) (s : Script) :
    Layout.refusal (s.layout o) = s.firstDefect := by
  rw [Script.refusal_layout o .outside, Place.find?_outside, Script.firstDefect]

private theorem not_minds_return {place : Place} {ds : List Defect} (h : place ≠ .outside) :
    ds.find? place.minds ≠ some .returnOutsideProcedure := by
  intro hfind
  have hminds := List.find?_some hfind
  cases place with
  | outside => exact h rfl
  | inside procedure => cases hminds
  | last procedure => cases hminds

theorem Script.firstDefect_ne_return (s : Script) :
    s.firstDefect ≠ some .returnOutsideProcedure := by
  have hin := Script.refusal_layout {} (.inside "") s
  rw [← Script.refusal_eq_firstDefect {}, hin]
  exact not_minds_return nofun

theorem Stmt.firstDefect_eq_return_iff (s : Stmt) (place : Place) :
    s.firstDefect place = some .returnOutsideProcedure ↔
      place = .outside ∧ s.defects.head? = some .returnOutsideProcedure := by
  by_cases h : place = .outside
  · subst h
    rw [Stmt.firstDefect, Place.find?_outside]
    simp
  · constructor
    · intro hfind
      exact absurd hfind (not_minds_return h)
    · rintro ⟨rfl, -⟩
      exact absurd rfl h

/-- Unless it aborts, a run ends as its first refusal says. -/
private theorem verdict_of_refusal {sheet : Sheet} {layout : Layout} {k : Cursor}
    {result : Except Stop Unit}
    (hresult : result = match (layout.effect sheet k).stop with
      | none => .ok ()
      | some x => .error x)
    (hcalm : ∀ a, result ≠ .error (.abort a)) : result = Defect.verdict layout.refusal := by
  rcases layout.stop_effect sheet k with ⟨a, ha⟩ | hstop
  · rw [ha] at hresult
    exact absurd hresult (hcalm a)
  · rw [hresult, hstop]
    cases layout.refusal <;> rfl

/-- The first defect of a tree decides how writing it ends, with every destination that takes
everything and under all options that let it end at all. A script never has a `return` outside of a
procedure as its first defect; a statement has one only where it stands outside itself. What is
reported is the text for the kind of node. -/
theorem verdict_eq_firstDefect :
    (∀ (s : Script) (w : Writer) (o : Options), w.room = none → w.flushFails = false →
      (∀ a, (s.outcome w o).result ≠ .error (.abort a)) →
        (s.outcome w o).result = Defect.verdict s.firstDefect) ∧
    (∀ s : Script, s.firstDefect ≠ some .returnOutsideProcedure) ∧
    (∀ (s : Stmt) (place : Place) (p : Printer), p.sink.writer.room = none →
      (∀ a, Printer.verdict (Printer.writeStmt place s) p ≠ .error (.abort a)) →
        Printer.verdict (Printer.writeStmt place s) p = Defect.verdict (s.firstDefect place)) ∧
    (∀ (s : Stmt) (place : Place), s.firstDefect place = some .returnOutsideProcedure ↔
      place = .outside ∧ s.defects.head? = some .returnOutsideProcedure) ∧
    (∀ (d : Defect) (text : String), d.Says text ↔ d.detail = text) ∧
    ∀ (e : Error) (text : String), e.Says text ↔ e.message = text := by
  refine ⟨?_, Script.firstDefect_ne_return, ?_, Stmt.firstDefect_eq_return_iff, Defect.says_iff,
    Error.says_iff⟩
  · intro s w o hroom hflush hcalm
    have h := verdict_of_refusal (Script.result_outcome hroom hflush s o) hcalm
    rw [h, Script.refusal_eq_firstDefect]
  · intro s place p hroom hcalm
    have h := verdict_of_refusal (Printer.verdict_runKeepingDepth hroom
      (s.layout p.options.elideTrailingReturn place)) hcalm
    rw [Stmt.refusal_layout] at h
    exact h

/-- A call without a name stands before two `default` labels in the text, but below the `switch`
that has them; the `return` after them stands in a procedure. A prototype is told by its index. -/
theorem verdict_eq_firstDefect_switch :
    let switch : Stmt := .switch (.call "" []) [.onDefault [], .onDefault [.ret none]]
    let s : Script := ⟨[], [.procedure ⟨"void", "main", []⟩ (some [.ret none, switch])]⟩
    let t : Script := ⟨[], [.prototype 16 ⟨"void", "", []⟩]⟩
    (∀ a, (s.outcome {} {}).result ≠ .error (.abort a)) ∧
      (∀ a, (t.outcome {} {}).result ≠ .error (.abort a)) ∧
      s.defects = [.defaultLabels 2, .unnamedCall] ∧
      (s.outcome {} {}).result = .error (.error (.malformed (.defaultLabels 2))) ∧
      Error.message (.malformed (.defaultLabels 2)) =
        "malformed syntax tree: switch statement has 2 default labels" ∧
      (t.outcome {} {}).result = .error (.error (.malformed (.unnamedPrototype 16))) ∧
      Defect.detail (.unnamedPrototype 16) = "function prototype 0x10 has no name" ∧
      Printer.verdict (Printer.writeStmt .outside (.block [.ret none, switch]))
        (Printer.start {} {}) = .error (.error (.malformed .returnOutsideProcedure)) ∧
      Error.message (.malformed .returnOutsideProcedure) =
        "malformed syntax tree: return statement outside of a procedure" := by
  intro switch s t
  have hs : ∀ a, (s.outcome {} {}).result ≠ .error (.abort a) := ne_abort (by decide +kernel)
  have ht : ∀ a, (t.outcome {} {}).result ≠ .error (.abort a) := ne_abort (by decide +kernel)
  have hp : ∀ a, Printer.verdict (Printer.writeStmt .outside (.block [.ret none, switch]))
      (Printer.start {} {}) ≠ .error (.abort a) := ne_abort (by decide +kernel)
  obtain ⟨hscript, -, hstmt, -, hdetail, hmessage⟩ := verdict_eq_firstDefect
  have hcount : "switch statement has " ++ decimal 2 ++ " default labels" =
      "switch statement has 2 default labels" := by decide +kernel
  have hindex : "function prototype " ++ Literal.hexadecimal 16 ++ " has no name" =
      "function prototype 0x10 has no name" := by decide +kernel
  exact ⟨hs, ht, by decide, hscript s {} {} rfl rfl hs,
    (hmessage _ _).mp (.malformed (hcount ▸ Defect.Says.defaultLabels 2)),
    hscript t {} {} rfl rfl ht, (hdetail _ _).mp (hindex ▸ Defect.Says.unnamedPrototype 16),
    hstmt _ .outside _ rfl hp,
    (hmessage _ _).mp (.malformed .returnOutsideProcedure)⟩

end Scribe
