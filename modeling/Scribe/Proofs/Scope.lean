import Scribe.Proofs.Defects
import Scribe.Proofs.Depth

/-! Scopes of statements. A scope matters to bare returns and to nothing else: inside a procedure,
and not as its last statement, a statement is written in the same way whichever the procedure is.
Outside of all procedures it is written in that way up to its first bare `return`, where the call
ends. So the layout outside has one refusal for each such `return`, and the layout inside has the
text of the `return` in its place. -/

namespace Scribe

/-! ## All refusals of a layout

Everything that a layout refuses, performed or not, is a defect of its tree, and one that matters
where the statement stands. -/

namespace Layout

/-- Everything a layout refuses; only the first of these is ever performed. -/
def refusals (layout : Layout) : List Defect := layout.filterMap Cmd.refusal

@[simp] theorem refusals_nil : refusals [] = [] := rfl

@[simp] theorem refusals_cons (c : Cmd) (layout : Layout) :
    refusals (c :: layout) = c.refusal.toList ++ refusals layout := by
  cases h : c.refusal <;> simp [refusals, h]

@[simp] theorem refusals_append (a b : Layout) : refusals (a ++ b) = refusals a ++ refusals b :=
  List.filterMap_append

@[simp] theorem refusals_commaSeparated_cons (a : Layout) (rest : List Layout) :
    refusals (commaSeparated (a :: rest)) = refusals a ++ refusals (commaSeparated rest) := by
  cases rest <;> simp [Cmd.refusal]

@[simp] theorem refusals_parens (wanted : Bool) (inner : Layout) :
    refusals (parens wanted inner) = refusals inner := by
  cases wanted <;> simp [parens, Cmd.refusal]

@[simp] theorem refusals_braces (keepLine : Bool) (inner : Layout) :
    refusals (braces keepLine inner) = refusals inner := by
  cases keepLine <;> simp [braces, Cmd.refusal]

theorem mem_refusals {d : Defect} {layout : Layout} :
    d ∈ layout.refusals ↔ .refuse d ∈ layout := by
  induction layout with
  | nil => simp
  | cons c rest ih => cases c <;> simp [Cmd.refusal, ih]

theorem head?_refusals (layout : Layout) : layout.refusals.head? = layout.refusal :=
  List.head?_filterMap

theorem refusals_eq_nil {layout : Layout} (h : layout.refusal = none) : layout.refusals = [] :=
  List.head?_eq_none_iff.mp (layout.head?_refusals.trans h)

end Layout

theorem Place.minds_of_ne (place : Place) {d : Defect} (h : d ≠ .returnOutsideProcedure) :
    place.minds d = true := by
  cases place <;> simp [Place.minds, h]

theorem Stmt.refusals_attached (s : Stmt) (core : Layout) :
    Layout.refusals (s.attached core) = Layout.refusals core := by
  unfold Stmt.attached
  split <;> simp [Cmd.refusal, Layout.refusals_eq_nil s.refusal_lead]

mutual

theorem Expr.refusals_layout (place : Place) (e : Expr) :
    List.Sublist (Layout.refusals e.layout) (e.defects.filter place.minds) := by
  cases e with
  | member operand field =>
    simpa [Expr.layout, Expr.defects, Layout.name, Cmd.refusal] using refusals_layout place operand
  | call function arguments =>
    rw [Expr.layout, Expr.defects]
    split
    · simp [Cmd.refusal, Place.minds_of_ne]
    · simpa [Layout.name, Cmd.refusal] using refusals_layouts place arguments
  | unary op operand =>
    have h := refusals_layout place operand
    simp only [Expr.layout, Expr.defects]
    split <;> simpa [Cmd.refusal] using h
  | binary op left right =>
    simpa [Expr.layout, Expr.defects, Cmd.refusal] using
      (refusals_layout place left).append (refusals_layout place right)
  | _ => simp [Expr.layout, Expr.defects, Layout.name, Cmd.refusal]

theorem Expr.refusals_layouts (place : Place) (es : List Expr) :
    List.Sublist (Layout.refusals (Layout.commaSeparated (Expr.layouts es)))
      ((Expr.defectsAll es).filter place.minds) := by
  cases es with
  | nil => simp [Expr.layouts]
  | cons e es =>
    simpa [Expr.layouts, Expr.defectsAll] using
      (refusals_layout place e).append (refusals_layouts place es)

end

theorem Variable.refusals_layout (place : Place) (v : Variable) :
    List.Sublist (Layout.refusals v.layout)
      ((Expr.defectsOption v.init).filter place.minds) := by
  obtain ⟨modifier, type, name, init⟩ := v
  have hmodifier : ∀ m : Modifier, Layout.refusals m.layout = [] := fun m =>
    Layout.refusals_eq_nil m.refusal_layout
  cases modifier <;> cases init <;>
    simp [Variable.layout, Expr.defectsOption, Layout.name, Cmd.refusal, hmodifier,
      Expr.refusals_layout place]

theorem EnumValue.refusals_layout (place : Place) (v : EnumValue) :
    List.Sublist (Layout.refusals v.layout) (v.value.defects.filter place.minds) := by
  simp [EnumValue.layout, Layout.name, Cmd.refusal, Expr.refusals_layout place]

theorem EnumValue.refusals_lines (place : Place) (values : List EnumValue) :
    List.Sublist (Layout.refusals (EnumValue.lines values))
      ((EnumValue.defectsAll values).filter place.minds) := by
  induction values with
  | nil => exact .slnil
  | cons v vs ih =>
    have hend : Layout.refusals [if vs.isEmpty then .newline else .line ","] = [] := by
      cases vs <;> rfl
    rw [EnumValue.lines, EnumValue.defectsAll, Layout.refusals_append, Layout.refusals_append,
      hend, List.append_nil, List.filter_append]
    exact (v.refusals_layout place).append ih

mutual

theorem Stmt.refusals_core (elide : Bool) (place : Place) (keepLine : Bool) (s : Stmt) :
    List.Sublist (Layout.refusals (s.core elide place keepLine))
      (s.defects.filter place.minds) := by
  cases s with
  | block body =>
    rw [Stmt.core, Stmt.defects, Layout.refusals_braces, ← place.minds_nested]
    exact Stmt.refusals_layouts elide rfl body
  | branch condition body otherwise =>
    rw [Stmt.core, Stmt.defects]
    split
    · simp [Cmd.refusal, Place.minds_of_ne]
    · have hbody := Stmt.refusals_consequent elide place.nested otherwise.isSome body
      have hotherwise := Stmt.refusals_alternative elide place.nested otherwise
      rw [Place.minds_nested] at hbody hotherwise
      simpa [Stmt.branchHead, Cmd.refusal] using
        (condition.refusals_layout place).append (hbody.append hotherwise)
  | whileLoop condition body =>
    have hbody := Stmt.refusals_core elide place.nested false body
    rw [Place.minds_nested] at hbody
    simpa [Stmt.core, Stmt.defects, Cmd.refusal, Stmt.refusals_attached] using
      (condition.refusals_layout place).append hbody
  | forLoop init condition after body =>
    have hbody := Stmt.refusals_core elide place.nested false body
    rw [Place.minds_nested] at hbody
    simpa [Stmt.core, Stmt.defects, Cmd.refusal, Stmt.refusals_attached] using
      (init.refusals_layout place).append ((condition.refusals_layout place).append
        ((after.refusals_layout place).append hbody))
  | switch scrutinee arms =>
    rw [Stmt.core, Stmt.defects]
    split
    · simp [Cmd.refusal, Place.minds_of_ne]
    · have harms := Arm.refusals_layouts elide place.nested arms
      rw [Place.minds_nested] at harms
      simpa [Cmd.refusal] using (scrutinee.refusals_layout place).append harms
  | ret value =>
    cases value with
    | none =>
      rw [Stmt.core, Stmt.defects]
      cases place with
      | outside => exact List.Sublist.refl _
      | inside procedure => exact .slnil
      | last procedure => cases elide <;> exact .slnil
    | some value =>
      simpa [Stmt.core, Stmt.defects, Layout.semicolon, Cmd.refusal] using
        value.refusals_layout place
  | comment comment =>
    rw [Stmt.core, Layout.refusals_eq_nil comment.refusal_layout]
    exact .slnil
  | expr expr =>
    simpa [Stmt.core, Stmt.defects, Layout.semicolon, Cmd.refusal] using expr.refusals_layout place
  | decl decl =>
    rw [Stmt.core, Stmt.defects, Layout.refusals_append,
      Layout.refusals_eq_nil decl.refusal_terminator, List.append_nil]
    exact Decl.refusals_layout elide place decl
  | _ => exact .slnil

/-- The last statement of a list may have a place of its own, but not one that minds more. -/
theorem Stmt.refusals_layouts (elide : Bool) {place final : Place}
    (h : final.minds = place.minds) (body : List Stmt) :
    List.Sublist (Layout.refusals (Stmt.layouts elide place final body))
      ((Stmt.defectsAll body).filter place.minds) := by
  cases body with
  | nil => exact .slnil
  | cons s rest =>
    have hplace : (if rest.isEmpty then final else place).minds = place.minds := by
      split
      · exact h
      · rfl
    have hs := Stmt.refusals_core elide (if rest.isEmpty then final else place) false s
    rw [hplace] at hs
    rw [Stmt.layouts, Stmt.defectsAll, Layout.refusals_append, Layout.refusals_append,
      Layout.refusals_eq_nil s.refusal_lead, List.filter_append]
    exact hs.append (Stmt.refusals_layouts elide h rest)

theorem Stmt.refusals_consequent (elide : Bool) (place : Place) (keepLine : Bool)
    (body : Option Stmt) :
    List.Sublist (Layout.refusals (Stmt.consequent elide place keepLine body))
      ((Stmt.defectsOption body).filter place.minds) := by
  cases body with
  | none => simp [Stmt.consequent]
  | some body =>
    rw [Stmt.consequent, Stmt.refusals_attached]
    exact Stmt.refusals_core elide place keepLine body

theorem Stmt.refusals_alternative (elide : Bool) (place : Place) (body : Option (List Stmt)) :
    List.Sublist (Layout.refusals (Stmt.alternative elide place body))
      ((Stmt.defectsAllOption body).filter place.minds) := by
  cases body with
  | none => exact .slnil
  | some body =>
    rw [Stmt.alternative, Stmt.defectsAllOption]
    split
    · simpa [Cmd.refusal] using Stmt.refusals_firstCore elide place body
    · simpa [Cmd.refusal] using Stmt.refusals_layouts elide rfl body

theorem Stmt.refusals_firstCore (elide : Bool) (place : Place) (body : List Stmt) :
    List.Sublist (Layout.refusals (Stmt.firstCore elide place body))
      ((Stmt.defectsAll body).filter place.minds) := by
  cases body with
  | nil => exact .slnil
  | cons s rest =>
    rw [Stmt.firstCore, Stmt.defectsAll, List.filter_append]
    exact (Stmt.refusals_core elide place false s).trans (List.sublist_append_left ..)

theorem Arm.refusals_layouts (elide : Bool) (place : Place) (arms : List Arm) :
    List.Sublist (Layout.refusals (Arm.layouts elide place arms))
      ((Arm.defectsAll arms).filter place.minds) := by
  cases arms with
  | nil => exact .slnil
  | cons arm rest =>
    rw [Arm.layouts, Arm.defectsAll, Layout.refusals_append, List.filter_append]
    exact (Arm.refusals_layout elide place arm).append (Arm.refusals_layouts elide place rest)

theorem Arm.refusals_layout (elide : Bool) (place : Place) (arm : Arm) :
    List.Sublist (Layout.refusals (arm.layout elide place)) (arm.defects.filter place.minds) := by
  cases arm with
  | onCase value body =>
    simpa [Arm.layout, Arm.defects, Cmd.refusal] using
      (value.refusals_layout place).append (Stmt.refusals_layouts elide rfl body)
  | onDefault body =>
    simpa [Arm.layout, Arm.defects, Cmd.refusal] using Stmt.refusals_layouts elide rfl body

theorem Decl.refusals_layout (elide : Bool) (place : Place) (d : Decl) :
    List.Sublist (Layout.refusals (d.layout elide)) (d.defects.filter place.minds) := by
  cases d with
  | prototype index signature =>
    rw [Decl.layout, Decl.defects]
    split
    · simp [Cmd.refusal, Place.minds_of_ne]
    · simp [Cmd.refusal, Layout.refusals_eq_nil signature.refusal_layout]
  | var declared => exact declared.refusals_layout place
  | procedure signature body =>
    rw [Decl.layout, Decl.defects]
    split
    · simp [Cmd.refusal, Place.minds_of_ne]
    · have hinside : (Place.inside signature.name).minds = fun d =>
          place.minds d && decide (d ≠ .returnOutsideProcedure) := by
        funext d
        cases place <;> simp [Place.minds]
      have hbody := Decl.refusals_bodyLayout elide signature.name body
      rw [hinside] at hbody
      simpa [Cmd.refusal, Layout.refusals_eq_nil signature.refusal_layout, List.filter_filter]
        using hbody
  | enum name values =>
    simpa [Decl.layout, Decl.defects, Layout.name, Cmd.refusal] using
      EnumValue.refusals_lines place values
  | enumValue value => exact value.refusals_layout place

theorem Decl.refusals_bodyLayout (elide : Bool) (procedure : String) (body : Option (List Stmt)) :
    List.Sublist (Layout.refusals (Decl.bodyLayout elide procedure body))
      ((Stmt.defectsAllOption body).filter (Place.inside procedure).minds) := by
  cases body with
  | none => exact .slnil
  | some body =>
    have hlast : (Place.last procedure).minds = (Place.inside procedure).minds := rfl
    rw [Decl.bodyLayout, Layout.refusals_braces]
    exact Stmt.refusals_layouts elide hlast body

end

/-! ## Statements that return something else -/

mutual

/-- The statement with its bare returns giving back `value`. Procedures that are declared in it
return what they did before. -/
def Stmt.returning (value : Option Expr) : Stmt → Stmt
  | .block body => .block (Stmt.returningAll value body)
  | .branch condition body otherwise =>
    .branch condition (Stmt.returningOption value body) (Stmt.returningAllOption value otherwise)
  | .whileLoop condition body => .whileLoop condition (body.returning value)
  | .forLoop init condition after body => .forLoop init condition after (body.returning value)
  | .switch scrutinee arms => .switch scrutinee (Arm.returningAll value arms)
  | .ret none => .ret value
  | s => s

def Stmt.returningAll (value : Option Expr) : List Stmt → List Stmt
  | [] => []
  | s :: rest => s.returning value :: Stmt.returningAll value rest

def Stmt.returningOption (value : Option Expr) : Option Stmt → Option Stmt
  | none => none
  | some s => some (s.returning value)

def Stmt.returningAllOption (value : Option Expr) : Option (List Stmt) → Option (List Stmt)
  | none => none
  | some body => some (Stmt.returningAll value body)

def Arm.returning (value : Option Expr) : Arm → Arm
  | .onCase label body => .onCase label (Stmt.returningAll value body)
  | .onDefault body => .onDefault (Stmt.returningAll value body)

def Arm.returningAll (value : Option Expr) : List Arm → List Arm
  | [] => []
  | arm :: rest => arm.returning value :: Arm.returningAll value rest

end

mutual

theorem Stmt.returning_none (s : Stmt) : s.returning none = s := by
  cases s with
  | block body => rw [Stmt.returning, Stmt.returningAll_none body]
  | branch condition body otherwise =>
    rw [Stmt.returning, Stmt.returningOption_none body, Stmt.returningAllOption_none otherwise]
  | whileLoop condition body => rw [Stmt.returning, Stmt.returning_none body]
  | forLoop init condition after body => rw [Stmt.returning, Stmt.returning_none body]
  | switch scrutinee arms => rw [Stmt.returning, Arm.returningAll_none arms]
  | ret value => cases value <;> rfl
  | _ => rfl

theorem Stmt.returningAll_none (body : List Stmt) : Stmt.returningAll none body = body := by
  cases body with
  | nil => rfl
  | cons s rest =>
    rw [Stmt.returningAll, Stmt.returning_none s, Stmt.returningAll_none rest]

theorem Stmt.returningOption_none (body : Option Stmt) :
    Stmt.returningOption none body = body := by
  cases body with
  | none => rfl
  | some s => rw [Stmt.returningOption, Stmt.returning_none s]

theorem Stmt.returningAllOption_none (body : Option (List Stmt)) :
    Stmt.returningAllOption none body = body := by
  cases body with
  | none => rfl
  | some body => rw [Stmt.returningAllOption, Stmt.returningAll_none body]

theorem Arm.returning_none (arm : Arm) : arm.returning none = arm := by
  cases arm with
  | onCase label body => rw [Arm.returning, Stmt.returningAll_none body]
  | onDefault body => rw [Arm.returning, Stmt.returningAll_none body]

theorem Arm.returningAll_none (arms : List Arm) : Arm.returningAll none arms = arms := by
  cases arms with
  | nil => rfl
  | cons arm rest => rw [Arm.returningAll, Arm.returning_none arm, Arm.returningAll_none rest]

end

theorem Arm.returningAll_eq_map (value : Option Expr) (arms : List Arm) :
    returningAll value arms = arms.map (returning value) := by
  induction arms with
  | nil => rfl
  | cons arm rest ih => rw [returningAll, List.map_cons, ih]

namespace Stmt

variable (value : Option Expr)

theorem returningAll_eq_map (body : List Stmt) :
    returningAll value body = body.map (returning value) := by
  induction body with
  | nil => rfl
  | cons s rest ih => rw [returningAll, List.map_cons, ih]

@[simp] theorem isBlock_returning (s : Stmt) : (s.returning value).isBlock = s.isBlock := by
  cases s with
  | ret value => cases value <;> rfl
  | _ => rfl

@[simp] theorem isBranch_returning (s : Stmt) : (s.returning value).isBranch = s.isBranch := by
  cases s with
  | ret value => cases value <;> rfl
  | _ => rfl

@[simp] theorem lead_returning (s : Stmt) : (s.returning value).lead = s.lead := by
  cases s with
  | ret value => cases value <;> rfl
  | _ => rfl

@[simp] theorem attached_returning (s : Stmt) (core : Layout) :
    (s.returning value).attached core = s.attached core := by
  simp [attached]

@[simp] theorem isChained_returningAll (body : List Stmt) :
    isChained (returningAll value body) = isChained body := by
  rw [returningAll_eq_map, isChained_map (isBranch_returning value)]

@[simp] theorem isNone_returningOption (body : Option Stmt) :
    (returningOption value body).isNone = body.isNone := by
  cases body <;> rfl

@[simp] theorem isNone_returningAllOption (body : Option (List Stmt)) :
    (returningAllOption value body).isNone = body.isNone := by
  cases body <;> rfl

@[simp] theorem isSome_returningAllOption (body : Option (List Stmt)) :
    (returningAllOption value body).isSome = body.isSome := by
  cases body <;> rfl

@[simp] theorem defaultCount_returningAll (arms : List Arm) :
    defaultCount (Arm.returningAll value arms) = defaultCount arms := by
  have harm : ∀ arm : Arm, (arm.returning value).isDefault = arm.isDefault := by
    intro arm
    cases arm <;> rfl
  rw [Arm.returningAll_eq_map, defaultCount_map harm]

end Stmt

/-! ## Layouts inside and outside of procedures -/

namespace Layout

/-- The layout with `text` in place of every `return` that it refuses. -/
def filled (text layout : Layout) : Layout :=
  layout.flatMap fun c => if c = .refuse .returnOutsideProcedure then text else [c]

variable (text : Layout)

@[simp] theorem filled_nil : filled text [] = [] := rfl

@[simp] theorem filled_cons (c : Cmd) (layout : Layout) :
    filled text (c :: layout) =
      (if c = .refuse .returnOutsideProcedure then text else [c]) ++ filled text layout :=
  rfl

@[simp] theorem filled_append (a b : Layout) :
    filled text (a ++ b) = filled text a ++ filled text b :=
  List.flatMap_append

@[simp] theorem filled_braces (keepLine : Bool) (inner : Layout) :
    filled text (braces keepLine inner) = braces keepLine (filled text inner) := by
  cases keepLine <;> simp [braces]

/-- A layout that refuses no `return` has nothing to fill in. -/
theorem filled_of_notMem {layout : Layout} (h : .refuse .returnOutsideProcedure ∉ layout) :
    filled text layout = layout := by
  induction layout with
  | nil => rfl
  | cons c rest ih =>
    rw [List.mem_cons, not_or] at h
    rw [filled_cons, if_neg (Ne.symm h.1), ih h.2]
    rfl

theorem filled_of_refusal {layout : Layout} (h : layout.refusal = none) :
    filled text layout = layout := by
  refine filled_of_notMem text fun hmem => ?_
  rw [← mem_refusals, refusals_eq_nil h] at hmem
  cases hmem

end Layout

/-- Inside a procedure no `return` is refused. -/
theorem Layout.filled_of_sublist {layout : Layout} {defects : List Defect} (text : Layout)
    (h : List.Sublist layout.refusals (defects.filter (Place.inside "").minds)) :
    filled text layout = layout := by
  refine filled_of_notMem text fun hmem => ?_
  simpa [Place.minds] using h.subset (mem_refusals.mpr hmem)

@[simp] theorem Expr.filled_layout (text : Layout) (e : Expr) :
    Layout.filled text e.layout = e.layout :=
  Layout.filled_of_sublist text (e.refusals_layout _)

@[simp] theorem Decl.filled_layout (text : Layout) (elide : Bool) (d : Decl) :
    Layout.filled text (d.layout elide) = d.layout elide :=
  Layout.filled_of_sublist text (d.refusals_layout elide _)

namespace Stmt

variable (text : Layout)

@[simp] theorem filled_lead (s : Stmt) : Layout.filled text s.lead = s.lead :=
  Layout.filled_of_refusal text s.refusal_lead

@[simp] theorem filled_attached (s : Stmt) (core : Layout) :
    Layout.filled text (s.attached core) = s.attached (Layout.filled text core) := by
  unfold attached
  split <;> simp

@[simp] theorem filled_branchHead (condition : Expr) :
    Layout.filled text (branchHead condition) = branchHead condition := by
  unfold branchHead Layout.parens
  split <;> simp

end Stmt

/-- What a `return` with this value or without any is written as inside a procedure. -/
def Stmt.returnLayout (elide : Bool) (value : Option Expr) : Layout :=
  (Stmt.ret value).layout elide (.inside "")

section Filling

variable (elide : Bool) (value : Option Expr) (procedure : String)

mutual

/-- Inside a procedure, whichever it is, each `return` stands where it is refused outside. -/
theorem Stmt.core_returning (keepLine : Bool) (s : Stmt) :
    (s.returning value).core elide (.inside procedure) keepLine =
      Layout.filled (Stmt.returnLayout elide value) (s.core elide .outside keepLine) := by
  cases s with
  | block body =>
    simp [Stmt.returning, Stmt.core, Place.nested, Stmt.layouts_returning body]
  | branch condition body otherwise =>
    simp only [Stmt.returning, Stmt.core, Stmt.isNone_returningOption,
      Stmt.isNone_returningAllOption, Stmt.isSome_returningAllOption]
    split
    · simp
    · simp [Place.nested, Stmt.consequent_returning otherwise.isSome body,
        Stmt.alternative_returning otherwise]
  | whileLoop condition body =>
    simp [Stmt.returning, Stmt.core, Place.nested, Stmt.core_returning false body]
  | forLoop init condition after body =>
    simp [Stmt.returning, Stmt.core, Place.nested, Stmt.core_returning false body]
  | switch scrutinee arms =>
    simp only [Stmt.returning, Stmt.core, Stmt.defaultCount_returningAll]
    split
    · simp
    · simp [Place.nested, Arm.layouts_returning arms]
  | ret given =>
    cases given with
    | none =>
      cases value <;>
        simp [Stmt.returning, Stmt.returnLayout, Stmt.layout, Stmt.lead, Stmt.placesItself,
          Stmt.core, Stmt.bareReturn]
    | some given => simp [Stmt.returning, Stmt.core, Layout.semicolon]
  | comment comment =>
    rw [Stmt.core, Layout.filled_of_refusal _ comment.refusal_layout]
    rfl
  | decl decl =>
    simp [Stmt.returning, Stmt.core, Layout.filled_of_refusal _ decl.refusal_terminator]
  | _ => simp [Stmt.returning, Stmt.core, Layout.semicolon, Layout.name]

theorem Stmt.layouts_returning (body : List Stmt) :
    Stmt.layouts elide (.inside procedure) (.inside procedure) (Stmt.returningAll value body) =
      Layout.filled (Stmt.returnLayout elide value)
        (Stmt.layouts elide .outside .outside body) := by
  cases body with
  | nil => rfl
  | cons s rest =>
    simp [Stmt.returningAll, Stmt.layouts, Stmt.core_returning false s,
      Stmt.layouts_returning rest]

theorem Stmt.consequent_returning (keepLine : Bool) (body : Option Stmt) :
    Stmt.consequent elide (.inside procedure) keepLine (Stmt.returningOption value body) =
      Layout.filled (Stmt.returnLayout elide value)
        (Stmt.consequent elide .outside keepLine body) := by
  cases body with
  | none => simp [Stmt.returningOption, Stmt.consequent]
  | some body => simp [Stmt.returningOption, Stmt.consequent, Stmt.core_returning keepLine body]

theorem Stmt.alternative_returning (body : Option (List Stmt)) :
    Stmt.alternative elide (.inside procedure) (Stmt.returningAllOption value body) =
      Layout.filled (Stmt.returnLayout elide value) (Stmt.alternative elide .outside body) := by
  cases body with
  | none => rfl
  | some body =>
    simp only [Stmt.returningAllOption, Stmt.alternative, Stmt.isChained_returningAll]
    split
    · simp [Stmt.firstCore_returning body]
    · simp [Stmt.layouts_returning body]

theorem Stmt.firstCore_returning (body : List Stmt) :
    Stmt.firstCore elide (.inside procedure) (Stmt.returningAll value body) =
      Layout.filled (Stmt.returnLayout elide value) (Stmt.firstCore elide .outside body) := by
  cases body with
  | nil => rfl
  | cons s rest => exact Stmt.core_returning false s

theorem Arm.layouts_returning (arms : List Arm) :
    Arm.layouts elide (.inside procedure) (Arm.returningAll value arms) =
      Layout.filled (Stmt.returnLayout elide value) (Arm.layouts elide .outside arms) := by
  cases arms with
  | nil => rfl
  | cons arm rest =>
    simp [Arm.returningAll, Arm.layouts, Arm.layout_returning arm, Arm.layouts_returning rest]

theorem Arm.layout_returning (arm : Arm) :
    (arm.returning value).layout elide (.inside procedure) =
      Layout.filled (Stmt.returnLayout elide value) (arm.layout elide .outside) := by
  cases arm with
  | onCase label body => simp [Arm.returning, Arm.layout, Stmt.layouts_returning body]
  | onDefault body => simp [Arm.returning, Arm.layout, Stmt.layouts_returning body]

end

theorem Stmt.layout_returning (s : Stmt) :
    (s.returning value).layout elide (.inside procedure) =
      Layout.filled (Stmt.returnLayout elide value) (s.layout elide .outside) := by
  simp [Stmt.layout, Stmt.core_returning]

end Filling

/-! ## Runs up to a return -/

namespace Layout

/-- What comes before the first `return` that is refused. -/
def beforeReturn (layout : Layout) : Layout :=
  layout.takeWhile (· ≠ .refuse .returnOutsideProcedure)

theorem beforeReturn_cons (c : Cmd) (layout : Layout) :
    beforeReturn (c :: layout) =
      if c = .refuse .returnOutsideProcedure then [] else c :: beforeReturn layout := by
  by_cases h : c = .refuse .returnOutsideProcedure <;> simp [beforeReturn, h]

theorem beforeReturn_of_notMem {layout : Layout} (h : .refuse .returnOutsideProcedure ∉ layout) :
    layout.beforeReturn = layout := by
  induction layout with
  | nil => rfl
  | cons c rest ih =>
    rw [List.mem_cons, not_or] at h
    rw [beforeReturn_cons, if_neg (Ne.symm h.1), ih h.2]

theorem exists_eq_beforeReturn_append {layout : Layout}
    (h : .refuse .returnOutsideProcedure ∈ layout) :
    ∃ after, layout = layout.beforeReturn ++ .refuse .returnOutsideProcedure :: after ∧
      ∀ text, filled text layout = layout.beforeReturn ++ (text ++ filled text after) := by
  induction layout with
  | nil => cases h
  | cons c rest ih =>
    by_cases hc : c = .refuse .returnOutsideProcedure
    · subst hc
      exact ⟨rest, rfl, fun text => rfl⟩
    · obtain ⟨after, hlayout, hfilled⟩ := ih ((List.mem_cons.mp h).resolve_left (Ne.symm hc))
      refine ⟨after, ?_, fun text => ?_⟩
      · rw [beforeReturn_cons, if_neg hc, List.cons_append, ← hlayout]
      · rw [beforeReturn_cons, if_neg hc, filled_cons, if_neg hc, hfilled text]
        rfl

theorem beforeReturn_prefix_filled (text layout : Layout) :
    layout.beforeReturn <+: filled text layout := by
  by_cases h : .refuse .returnOutsideProcedure ∈ layout
  · obtain ⟨after, -, hfilled⟩ := exists_eq_beforeReturn_append h
    exact ⟨_, (hfilled text).symm⟩
  · exact ⟨[], by rw [List.append_nil, beforeReturn_of_notMem h, filled_of_notMem text h]⟩

end Layout

namespace Printer

theorem refusal_of_run_ok {layout : Layout} {p q : Printer} (h : run layout p = .ok () q) :
    layout.refusal = none := by
  induction layout generalizing p with
  | nil => rfl
  | cons c rest ih =>
    rw [run] at h
    cases hc : perform c p with
    | error e r => rw [hc] at h; cases h
    | ok u r =>
      rw [hc] at h
      rw [Layout.refusal_cons, ih h, Option.or_none]
      cases c with
      | refuse defect => cases hc
      | _ => rfl

theorem runKeepingDepth_of_prefix_error {a b : Layout} (hstart : a <+: b) {p q : Printer}
    {e : Stop} (h : run a p = .error e q) :
    runKeepingDepth b p = .error e { q with sink := { q.sink with depth := p.sink.depth } } := by
  obtain ⟨rest, rfl⟩ := hstart
  rw [runKeepingDepth, run_append, h]

end Printer

/-- The layout outside of procedures up to the first bare `return`. -/
def Stmt.beforeReturn (elide : Bool) (s : Stmt) : Layout :=
  (s.layout elide .outside).beforeReturn

namespace Stmt

variable {elide : Bool} {s : Stmt}

theorem layout_inside (elide : Bool) (procedure : String) (s : Stmt) :
    s.layout elide (.inside procedure) =
      Layout.filled (returnLayout elide none) (s.layout elide .outside) := by
  rw [← s.layout_returning elide none procedure, s.returning_none]

theorem refusals_layout (elide : Bool) (place : Place) (s : Stmt) :
    List.Sublist (Layout.refusals (s.layout elide place)) (s.defects.filter place.minds) := by
  rw [layout, Layout.refusals_append, Layout.refusals_eq_nil s.refusal_lead, List.nil_append]
  exact s.refusals_core elide place false

/-- Without bare returns it does not matter where the statement stands. -/
theorem layout_outside_of_notMem (h : .returnOutsideProcedure ∉ s.defects) (procedure : String) :
    s.layout elide .outside = s.layout elide (.inside procedure) := by
  have hnone : .refuse .returnOutsideProcedure ∉ s.layout elide .outside := fun hmem =>
    h (List.mem_filter.mp ((s.refusals_layout elide .outside).subset
      (Layout.mem_refusals.mpr hmem))).1
  rw [layout_inside, Layout.filled_of_notMem _ hnone]

theorem beforeReturn_prefix_outside (elide : Bool) (s : Stmt) :
    s.beforeReturn elide <+: s.layout elide .outside :=
  List.takeWhile_prefix _

theorem beforeReturn_prefix_inside (elide : Bool) (procedure : String) (s : Stmt) :
    s.beforeReturn elide <+: s.layout elide (.inside procedure) := by
  rw [layout_inside]
  exact Layout.beforeReturn_prefix_filled _ _

/-- Where the run gets to a `return`, the layout has one to refuse. -/
theorem mem_layout_of_run_ok {p q : Printer} (hmem : .returnOutsideProcedure ∈ s.defects)
    (h : Printer.run (s.beforeReturn elide) p = .ok () q) :
    .refuse .returnOutsideProcedure ∈ s.layout elide .outside := by
  refine Decidable.byContradiction fun hnone => ?_
  rw [beforeReturn, Layout.beforeReturn_of_notMem hnone] at h
  have hrefusal := Printer.refusal_of_run_ok h
  rw [s.refusal_layout, firstDefect, Place.find?_outside, List.head?_eq_none_iff] at hrefusal
  rw [hrefusal] at hmem
  cases hmem

theorem beforeReturn_append_prefix (h : .refuse .returnOutsideProcedure ∈ s.layout elide .outside)
    (value : Option Expr) (procedure : String) :
    s.beforeReturn elide ++ (Stmt.ret value).layout elide (.inside procedure) <+:
      (s.returning value).layout elide (.inside procedure) := by
  obtain ⟨after, -, hfilled⟩ := Layout.exists_eq_beforeReturn_append h
  have hreturn : (Stmt.ret value).layout elide (.inside procedure) = returnLayout elide value := by
    cases value <;> rfl
  rw [layout_returning, hfilled, hreturn, ← List.append_assoc]
  exact List.prefix_append _ _

end Stmt

namespace Printer

variable {s : Stmt} {p q : Printer}

theorem writeStmt_inside (procedure other : String) (s : Stmt) (p : Printer) :
    writeStmt (.inside procedure) s p = writeStmt (.inside other) s p := by
  rw [writeStmt, writeStmt, Stmt.layout_inside, Stmt.layout_inside]

theorem writeStmt_outside_of_notMem (h : .returnOutsideProcedure ∉ s.defects) (procedure : String)
    (p : Printer) : writeStmt .outside s p = writeStmt (.inside procedure) s p := by
  rw [writeStmt, writeStmt, Stmt.layout_outside_of_notMem h procedure]

theorem writeStmt_outside_of_run_ok (hmem : .returnOutsideProcedure ∈ s.defects)
    (h : run (s.beforeReturn p.options.elideTrailingReturn) p = .ok () q) :
    writeStmt .outside s p = .error (.error (.malformed .returnOutsideProcedure))
      { q with
        sink := { q.sink with depth := p.sink.depth }
        log := q.log ++ [.refused .returnOutsideProcedure] } := by
  obtain ⟨after, hlayout, -⟩ :=
    Layout.exists_eq_beforeReturn_append (Stmt.mem_layout_of_run_ok hmem h)
  rw [writeStmt, runKeepingDepth, hlayout, ← Stmt.beforeReturn, run_append, h]
  rfl

end Printer

/-! ## Steps under scopes -/

namespace Session

/-- The statement that a step writes, if it writes one. -/
def Step.statement? (procedures : List Procedure) : Step → Option Stmt
  | .stmt s _ => some s
  | .body procedure index _ => statementAt procedures procedure index
  | _ => none

/-- The same step under another scope. -/
def Step.under (scope : Option Nat) : Step → Step
  | .stmt s _ => .stmt s scope
  | .body procedure index _ => .body procedure index scope
  | step => step

/-- Whether the step writes the last statement of this procedure itself, not of one like it. -/
def Step.closes (procedures : List Procedure) (i : Nat) : Step → Prop
  | .body procedure index _ =>
    i = procedure ∧ ∃ p, procedures[i]? = some p ∧ index + 1 = p.statements.length
  | _ => False

variable {procedures : List Procedure} {step : Step} {s : Stmt}

theorem call_under_none (hs : step.statement? procedures = some s) (p : Printer) :
    call procedures (step.under none) p = Printer.writeStmt .outside s p := by
  cases step with
  | stmt t scope =>
    cases hs
    rfl
  | body procedure index scope =>
    have hs : statementAt procedures procedure index = some s := hs
    simp [Step.under, call, hs, bodyPlace, enclosing]
  | _ => cases hs

theorem call_under_some (hs : step.statement? procedures = some s) {i : Nat} {procedure : Procedure}
    (hi : procedures[i]? = some procedure) (hclosing : ¬ step.closes procedures i) (p : Printer) :
    call procedures (step.under (some i)) p =
      Printer.writeStmt (.inside procedure.name) s p := by
  cases step with
  | stmt t scope =>
    cases hs
    simp [Step.under, call, freshPlace, enclosing, hi]
  | body home index scope =>
    have hs : statementAt procedures home index = some s := hs
    have hplace : ¬ (some i = some home ∧ index + 1 = procedure.statements.length) := by
      rintro ⟨hhome, hlast⟩
      exact hclosing ⟨Option.some.inj hhome, procedure, hi, hlast⟩
    simp only [Step.under, call, hs, bodyPlace, enclosing, Option.bind_some, hi, if_neg hplace]
  | _ => cases hs

/-- A scope matters to bare returns and to nothing else. A statement is written alike under all
procedures that it is not the last statement of, and also under none as long as no bare `return` is
come to. There the call under none ends with an error and leaves the destination as the other calls
had it at that point, which is where a statement that returns some `value` instead gets to that. -/
theorem call_under (procedures : List Procedure) (step : Step) (s : Stmt) (i : Nat) (p : Printer)
    (hs : step.statement? procedures = some s) (hi : i < procedures.length)
    (hclosing : ¬ step.closes procedures i) :
    let elide := p.options.elideTrailingReturn
    let inside := call procedures (step.under (some i)) p
    let outside := call procedures (step.under none) p
    (∀ j < procedures.length, ¬ step.closes procedures j →
      call procedures (step.under (some j)) p = inside) ∧
    (.returnOutsideProcedure ∉ s.defects → outside = inside) ∧
    (.returnOutsideProcedure ∈ s.defects →
      match Printer.run (s.beforeReturn elide) p with
      | .error e q =>
        inside = .error e { q with sink := { q.sink with depth := p.sink.depth } } ∧
          outside = inside
      | .ok () q =>
        outside = .error (.error (.malformed .returnOutsideProcedure))
          { q with
            sink := { q.sink with depth := p.sink.depth }
            log := q.log ++ [.refused .returnOutsideProcedure] } ∧
        (∃ after, inside = Printer.runKeepingDepth
          (s.beforeReturn elide ++ [.indent, .text "return", .line ";"] ++ after) p) ∧
        ∀ (value : Option Expr) (procedure : String),
          s.beforeReturn elide ++ (Stmt.ret value).layout elide (.inside procedure) <+:
            (s.returning value).layout elide (.inside procedure)) := by
  intro elide inside outside
  have hsome : ∀ j < procedures.length, ¬ step.closes procedures j →
      call procedures (step.under (some j)) p = Printer.writeStmt (.inside "") s p := by
    intro j hj hclosing
    rw [call_under_some hs (List.getElem?_eq_getElem hj) hclosing, Printer.writeStmt_inside]
  have hinside : inside = Printer.writeStmt (.inside "") s p := hsome i hi hclosing
  have houtside : outside = Printer.writeStmt .outside s p := call_under_none hs p
  refine ⟨fun j hj hj' => (hsome j hj hj').trans hinside.symm, fun hnone => ?_, fun hmem => ?_⟩
  · rw [houtside, hinside, Printer.writeStmt_outside_of_notMem hnone]
  · cases hrun : Printer.run (s.beforeReturn elide) p with
    | error e q =>
      have hin := Printer.runKeepingDepth_of_prefix_error
        (s.beforeReturn_prefix_inside elide "") hrun
      have hout := Printer.runKeepingDepth_of_prefix_error
        (s.beforeReturn_prefix_outside elide) hrun
      exact ⟨hinside.trans hin, houtside.trans (hout.trans (hinside.trans hin).symm)⟩
    | ok u q =>
      have hlayout := Stmt.beforeReturn_append_prefix (Stmt.mem_layout_of_run_ok hmem hrun)
      obtain ⟨after, hafter⟩ := hlayout none ""
      rw [s.returning_none] at hafter
      refine ⟨houtside.trans (Printer.writeStmt_outside_of_run_ok hmem hrun), ⟨after, ?_⟩, hlayout⟩
      rw [hinside, Printer.writeStmt, ← hafter]
      rfl

/-- The loop is not the last statement of its procedure, so the scopes agree on it. Under none the
line of the condition is written before the `return` is refused. -/
theorem call_under_loop :
    let loop : Stmt := .whileLoop (.name "a") (.ret none)
    let procedures : List Procedure :=
      [⟨⟨"void", "f", []⟩, some [loop, .ret none]⟩, ⟨⟨"int", "g", []⟩, none⟩]
    let step : Step := .body 0 0 none
    let p : Printer := .start {} {}
    step.statement? procedures = some loop ∧ ¬ step.closes procedures 0 ∧
    call procedures (step.under (some 1)) p = call procedures (step.under (some 0)) p ∧
    Printer.written (call procedures (step.under (some 0))) p =
      "while (a)\n  return;\n".toUTF8 ∧
    Printer.written (call procedures (step.under none)) p = "while (a)\n".toUTF8 ∧
    Printer.verdict (call procedures (step.under none)) p =
      .error (.error (.malformed .returnOutsideProcedure)) := by
  intro loop procedures step p
  have hclosing : ∀ i, ¬ step.closes procedures i := by
    rintro i ⟨rfl, procedure, hprocedure, hlast⟩
    cases hprocedure
    cases hlast
  obtain ⟨hscopes, -, hreturn⟩ := call_under procedures step loop 0 p rfl (by decide) (hclosing 0)
  have hreached :
      (Printer.run (loop.beforeReturn p.options.elideTrailingReturn) p matches .ok _ _) = true := by
    decide +kernel
  have hverdict : Printer.verdict (call procedures (step.under none)) p =
      .error (.error (.malformed .returnOutsideProcedure)) := by
    have houtside := hreturn (by decide)
    cases hrun : Printer.run (loop.beforeReturn p.options.elideTrailingReturn) p with
    | error e q =>
      rw [hrun] at hreached
      cases hreached
    | ok u q =>
      simp only [hrun] at houtside
      rw [Printer.verdict, houtside.1]
  exact ⟨rfl, hclosing 0, hscopes 1 (by decide) (hclosing 1), by decide +kernel,
    by decide +kernel, hverdict⟩

end Session

end Scribe
