import Scribe.Proofs.Outcome

/-! Returns that are left out. A script with the option to leave out closing returns is written like
the script that never had them, without the option: `trimmed` takes the bare `return` off the end of
every procedure body, and that is all the option does. Only the log tells the two apart, since it
counts the statements that a body has and mentions each `return` that it has lost. -/

namespace Scribe

/-! ## Scripts without closing returns -/

namespace Stmt

def isBareReturn : Stmt → Bool
  | .ret none => true
  | _ => false

/-- A body without its last statement, if that is a bare `return`. -/
def withoutLastReturn (body : List Stmt) : List Stmt :=
  if body.getLast?.any isBareReturn then body.dropLast else body

theorem eq_ret_of_isBareReturn {s : Stmt} (h : s.isBareReturn = true) : s = .ret none := by
  cases s with
  | ret value =>
    cases value with
    | none => rfl
    | some value => cases h
  | _ => cases h

theorem exists_concat_of_isBareReturn {body : List Stmt}
    (h : body.getLast?.any isBareReturn = true) : ∃ init, body = init ++ [.ret none] := by
  rcases List.eq_nil_or_concat body with rfl | ⟨init, s, rfl⟩
  · cases h
  · have hbare : s.isBareReturn = true := by simpa using h
    exact ⟨init, by rw [eq_ret_of_isBareReturn hbare, List.concat_eq_append]⟩

end Stmt

mutual

def Stmt.trimmed : Stmt → Stmt
  | .block body => .block (Stmt.trimmedAll body)
  | .branch condition body otherwise =>
    .branch condition (Stmt.trimmedOption body) (Stmt.trimmedAllOption otherwise)
  | .whileLoop condition body => .whileLoop condition body.trimmed
  | .forLoop init condition after body => .forLoop init condition after body.trimmed
  | .switch scrutinee arms => .switch scrutinee (Arm.trimmedAll arms)
  | .decl decl => .decl decl.trimmed
  | s => s

def Stmt.trimmedAll : List Stmt → List Stmt
  | [] => []
  | s :: rest => s.trimmed :: Stmt.trimmedAll rest

def Stmt.trimmedOption : Option Stmt → Option Stmt
  | none => none
  | some s => some s.trimmed

def Stmt.trimmedAllOption : Option (List Stmt) → Option (List Stmt)
  | none => none
  | some body => some (Stmt.trimmedAll body)

def Arm.trimmed : Arm → Arm
  | .onCase value body => .onCase value (Stmt.trimmedAll body)
  | .onDefault body => .onDefault (Stmt.trimmedAll body)

def Arm.trimmedAll : List Arm → List Arm
  | [] => []
  | arm :: rest => arm.trimmed :: Arm.trimmedAll rest

/-- The body of a procedure is the only place where a statement goes missing. -/
def Decl.trimmed : Decl → Decl
  | .procedure signature body => .procedure signature (Decl.trimmedBody body)
  | d => d

def Decl.trimmedBody : Option (List Stmt) → Option (List Stmt)
  | none => none
  | some body => some (Stmt.withoutLastReturn (Stmt.trimmedAll body))

end

def Script.trimmed (s : Script) : Script := ⟨s.imports, s.declarations.map Decl.trimmed⟩

/-! ## What trimming leaves alone -/

theorem Arm.trimmedAll_eq_map (arms : List Arm) : trimmedAll arms = arms.map trimmed := by
  induction arms with
  | nil => rfl
  | cons arm rest ih => simp [trimmedAll, ih]

namespace Stmt

@[simp] theorem isBareReturn_trimmed (s : Stmt) : s.trimmed.isBareReturn = s.isBareReturn := by
  cases s <;> rfl

@[simp] theorem isBlock_trimmed (s : Stmt) : s.trimmed.isBlock = s.isBlock := by
  cases s <;> rfl

@[simp] theorem isBranch_trimmed (s : Stmt) : s.trimmed.isBranch = s.isBranch := by
  cases s <;> rfl

@[simp] theorem lead_trimmed (s : Stmt) : s.trimmed.lead = s.lead := by
  cases s <;> rfl

@[simp] theorem attached_trimmed (s : Stmt) (core : Layout) :
    s.trimmed.attached core = s.attached core := by
  simp [attached]

theorem trimmedAll_eq_map (body : List Stmt) : trimmedAll body = body.map trimmed := by
  induction body with
  | nil => rfl
  | cons s rest ih => simp [trimmedAll, ih]

@[simp] theorem isChained_trimmedAll (body : List Stmt) :
    isChained (trimmedAll body) = isChained body := by
  rw [trimmedAll_eq_map, isChained_map isBranch_trimmed]

@[simp] theorem isNone_trimmedOption (body : Option Stmt) :
    (trimmedOption body).isNone = body.isNone := by
  cases body <;> rfl

@[simp] theorem isNone_trimmedAllOption (body : Option (List Stmt)) :
    (trimmedAllOption body).isNone = body.isNone := by
  cases body <;> rfl

@[simp] theorem isSome_trimmedAllOption (body : Option (List Stmt)) :
    (trimmedAllOption body).isSome = body.isSome := by
  cases body <;> rfl

@[simp] theorem defaultCount_trimmedAll (arms : List Arm) :
    defaultCount (Arm.trimmedAll arms) = defaultCount arms := by
  have harm : ∀ arm : Arm, arm.trimmed.isDefault = arm.isDefault := by
    intro arm
    cases arm <;> rfl
  rw [Arm.trimmedAll_eq_map, defaultCount_map harm]

end Stmt

@[simp] theorem Decl.isPrototype_trimmed (d : Decl) : d.trimmed.isPrototype = d.isPrototype := by
  cases d <;> rfl

@[simp] theorem Decl.isVariable_trimmed (d : Decl) : d.trimmed.isVariable = d.isVariable := by
  cases d <;> rfl

@[simp] theorem Decl.terminator_trimmed (d : Decl) : d.trimmed.terminator = d.terminator := by
  cases d <;> rfl

/-! ## Layouts without the log -/

def Cmd.isNote : Cmd → Bool
  | .note _ => true
  | _ => false

namespace Layout

/-- The commands that do more than add to the log. -/
def silent (layout : Layout) : Layout := layout.filter fun c => !c.isNote

@[simp] theorem silent_append (a b : Layout) : silent (a ++ b) = silent a ++ silent b :=
  List.filter_append ..

theorem silent_braces (keepLine : Bool) (inner : Layout) :
    silent (braces keepLine inner) = braces keepLine (silent inner) := by
  cases keepLine <;> simp [braces, silent, Cmd.isNote]

end Layout

/-- The effect on the page alone. -/
def Effect.unlogged (e : Effect) : Effect := { e with events := [] }

theorem Effect.unlogged_andThen {e e' : Effect} {f f' : Cursor → Effect}
    (he : e.unlogged = e'.unlogged) (hf : ∀ k, (f k).unlogged = (f' k).unlogged) :
    (e.andThen f).unlogged = (e'.andThen f').unlogged := by
  obtain ⟨text, events, cursor, stop⟩ := e
  obtain ⟨text', events', cursor', stop'⟩ := e'
  cases he
  cases stop with
  | some x => rfl
  | none =>
    have hf := hf cursor
    simp only [unlogged, Effect.mk.injEq, true_and] at hf
    obtain ⟨htext, hcursor, hstop⟩ := hf
    simp [unlogged, andThen, htext, hcursor, hstop]

theorem Layout.unlogged_effect_silent (sheet : Sheet) (layout : Layout) (k : Cursor) :
    (layout.silent.effect sheet k).unlogged = (layout.effect sheet k).unlogged := by
  induction layout generalizing k with
  | nil => rfl
  | cons c rest ih =>
    cases c with
    | note event =>
      have hrest : (Layout.effect sheet (.note event :: rest) k).unlogged =
          (Layout.effect sheet rest k).unlogged := by
        simp [Layout.effect, Cmd.effect, Effect.andThen, Effect.unlogged]
      exact (ih k).trans hrest.symm
    | _ => exact Effect.unlogged_andThen rfl ih

/-! ## Layouts of trimmed trees -/

namespace Stmt

/-- Being the last statement of a procedure matters to a bare `return` that is to be left out, and
to nothing else. -/
theorem core_nested {elide : Bool} {s : Stmt} (h : (elide && s.isBareReturn) = false)
    (place : Place) (keepLine : Bool) :
    s.core elide place.nested keepLine = s.core elide place keepLine := by
  cases s with
  | ret value =>
    cases value with
    | some value => rfl
    | none =>
      have helide : elide = false := by simpa [isBareReturn] using h
      subst helide
      cases place <;> rfl
  | _ => simp [Stmt.core]

theorem layouts_concat (elide : Bool) (place final : Place) (init : List Stmt) (s : Stmt) :
    layouts elide place final (init ++ [s]) =
      layouts elide place place init ++ (s.lead ++ s.core elide final false) := by
  induction init with
  | nil => simp [layouts]
  | cons t rest ih => simp [layouts, ih]

/-- A body whose last statement is not left out is laid out as if it were no procedure's. -/
theorem layouts_last {elide : Bool} {body : List Stmt}
    (h : (elide && body.getLast?.any isBareReturn) = false) (procedure : String) :
    layouts elide (.inside procedure) (.last procedure) body =
      layouts elide (.inside procedure) (.inside procedure) body := by
  rcases List.eq_nil_or_concat body with rfl | ⟨init, s, rfl⟩
  · rfl
  · rw [List.concat_eq_append] at h ⊢
    have hs : (elide && s.isBareReturn) = false := by simpa using h
    have hcore := core_nested hs (.last procedure) false
    rw [layouts_concat, layouts_concat, ← hcore]
    rfl

/-- Where all but the procedure's own closing `return` is settled, so is that. -/
theorem silent_layouts_last {procedure : String} {body : List Stmt}
    (h : Layout.silent (layouts true (.inside procedure) (.inside procedure) body) =
      Layout.silent (layouts false (.inside procedure) (.inside procedure) (trimmedAll body))) :
    Layout.silent (layouts true (.inside procedure) (.last procedure) body) =
      Layout.silent (layouts false (.inside procedure) (.last procedure)
        (withoutLastReturn (trimmedAll body))) := by
  have hlast : (trimmedAll body).getLast?.any isBareReturn = body.getLast?.any isBareReturn := by
    rw [trimmedAll_eq_map, List.getLast?_map]
    cases body.getLast? <;> simp
  rw [layouts_last (Bool.false_and _), withoutLastReturn, hlast]
  cases hreturn : body.getLast?.any isBareReturn with
  | false =>
    rw [layouts_last (by simp [hreturn]), if_neg Bool.false_ne_true]
    exact h
  | true =>
    obtain ⟨init, rfl⟩ := exists_concat_of_isBareReturn hreturn
    -- the two `return`s at the end of `h` are the same, so what is before them agrees
    have hends : trimmedAll (init ++ [Stmt.ret none]) = trimmedAll init ++ [Stmt.ret none] := by
      simp [trimmedAll_eq_map, trimmed]
    rw [hends, layouts_concat, layouts_concat] at h
    simp only [Layout.silent_append] at h
    have hinit := List.append_cancel_right h
    rw [layouts_concat, Layout.silent_append, hinit, hends, if_pos rfl, List.dropLast_concat]
    exact List.append_nil _

theorem silent_attached {a b : Layout} (h : Layout.silent a = Layout.silent b) (s : Stmt) :
    Layout.silent (s.attached a) = Layout.silent (s.attached b) := by
  unfold attached
  split
  · exact h
  · simp only [Layout.silent_append, h]

end Stmt

mutual

theorem Stmt.silent_core_trimmed {place : Place} (h : place.nested = place) (keepLine : Bool)
    (s : Stmt) : Layout.silent (s.core true place keepLine) =
      Layout.silent (s.trimmed.core false place keepLine) := by
  have hnested := place.nested_nested
  cases s with
  | block body =>
    rw [Stmt.trimmed, Stmt.core, Stmt.core, Layout.silent_braces, Layout.silent_braces,
      Stmt.silent_layouts_trimmed hnested body]
  | branch condition body otherwise =>
    rw [Stmt.trimmed, Stmt.core, Stmt.core, Stmt.isNone_trimmedOption, Stmt.isNone_trimmedAllOption,
      Stmt.isSome_trimmedAllOption]
    split
    · rfl
    · simp only [Layout.silent_append,
        Stmt.silent_consequent_trimmed hnested otherwise.isSome body,
        Stmt.silent_alternative_trimmed hnested otherwise]
  | whileLoop condition body =>
    have hbody := Stmt.silent_core_trimmed hnested false body
    simp only [Stmt.trimmed, Stmt.core, Stmt.attached_trimmed, Layout.silent_append,
      Stmt.silent_attached hbody]
  | forLoop init condition after body =>
    have hbody := Stmt.silent_core_trimmed hnested false body
    simp only [Stmt.trimmed, Stmt.core, Stmt.attached_trimmed, Layout.silent_append,
      Stmt.silent_attached hbody]
  | switch scrutinee arms =>
    rw [Stmt.trimmed, Stmt.core, Stmt.core, Stmt.defaultCount_trimmedAll]
    split
    · rfl
    · simp only [Layout.silent_append, Layout.silent_braces,
        Arm.silent_layouts_trimmed hnested arms]
  | ret value =>
    cases value with
    | some value => rfl
    | none =>
      cases place with
      | outside => rfl
      | inside procedure => rfl
      | last procedure => cases h
  | decl decl =>
    rw [Stmt.trimmed, Stmt.core, Stmt.core, Decl.terminator_trimmed, Layout.silent_append,
      Layout.silent_append, Decl.silent_layout_trimmed decl]
  | _ => rfl

theorem Stmt.silent_layouts_trimmed {place : Place} (h : place.nested = place) (body : List Stmt) :
    Layout.silent (Stmt.layouts true place place body) =
      Layout.silent (Stmt.layouts false place place (Stmt.trimmedAll body)) := by
  cases body with
  | nil => rfl
  | cons s rest =>
    simp only [Stmt.trimmedAll, Stmt.layouts, ite_self, Layout.silent_append, Stmt.lead_trimmed,
      Stmt.silent_core_trimmed h false s, Stmt.silent_layouts_trimmed h rest]

theorem Stmt.silent_consequent_trimmed {place : Place} (h : place.nested = place) (keepLine : Bool)
    (body : Option Stmt) : Layout.silent (Stmt.consequent true place keepLine body) =
      Layout.silent (Stmt.consequent false place keepLine (Stmt.trimmedOption body)) := by
  cases body with
  | none => rfl
  | some body =>
    rw [Stmt.trimmedOption, Stmt.consequent, Stmt.consequent, Stmt.attached_trimmed,
      Stmt.silent_attached (Stmt.silent_core_trimmed h keepLine body)]

theorem Stmt.silent_alternative_trimmed {place : Place} (h : place.nested = place)
    (body : Option (List Stmt)) : Layout.silent (Stmt.alternative true place body) =
      Layout.silent (Stmt.alternative false place (Stmt.trimmedAllOption body)) := by
  cases body with
  | none => rfl
  | some body =>
    rw [Stmt.trimmedAllOption, Stmt.alternative, Stmt.alternative, Stmt.isChained_trimmedAll]
    split
    · simp only [Layout.silent_append, Stmt.silent_firstCore_trimmed h body]
    · simp only [Layout.silent_append, Layout.silent_braces, Stmt.silent_layouts_trimmed h body]

theorem Stmt.silent_firstCore_trimmed {place : Place} (h : place.nested = place)
    (body : List Stmt) : Layout.silent (Stmt.firstCore true place body) =
      Layout.silent (Stmt.firstCore false place (Stmt.trimmedAll body)) := by
  cases body with
  | nil => rfl
  | cons s rest => exact Stmt.silent_core_trimmed h false s

theorem Arm.silent_layouts_trimmed {place : Place} (h : place.nested = place) (arms : List Arm) :
    Layout.silent (Arm.layouts true place arms) =
      Layout.silent (Arm.layouts false place (Arm.trimmedAll arms)) := by
  cases arms with
  | nil => rfl
  | cons arm rest =>
    rw [Arm.trimmedAll, Arm.layouts, Arm.layouts, Layout.silent_append, Layout.silent_append,
      Arm.silent_layout_trimmed h arm, Arm.silent_layouts_trimmed h rest]

theorem Arm.silent_layout_trimmed {place : Place} (h : place.nested = place) (arm : Arm) :
    Layout.silent (arm.layout true place) = Layout.silent (arm.trimmed.layout false place) := by
  cases arm with
  | onCase value body =>
    simp only [Arm.trimmed, Arm.layout, Layout.silent_append, Stmt.silent_layouts_trimmed h body]
  | onDefault body =>
    simp only [Arm.trimmed, Arm.layout, Layout.silent_append, Stmt.silent_layouts_trimmed h body]

theorem Decl.silent_layout_trimmed (d : Decl) :
    Layout.silent (d.layout true) = Layout.silent (d.trimmed.layout false) := by
  cases d with
  | procedure signature body =>
    rw [Decl.trimmed, Decl.layout, Decl.layout]
    split
    · rfl
    · -- the note counts the statements of the body, so only without it are the two the same
      simp only [Layout.silent_append, Decl.silent_bodyLayout_trimmed signature.name body]
      rfl
  | _ => rfl

theorem Decl.silent_bodyLayout_trimmed (procedure : String) (body : Option (List Stmt)) :
    Layout.silent (Decl.bodyLayout true procedure body) =
      Layout.silent (Decl.bodyLayout false procedure (Decl.trimmedBody body)) := by
  cases body with
  | none => rfl
  | some body =>
    have hplace : (Place.inside procedure).nested = .inside procedure := rfl
    have hbody := Stmt.silent_layouts_trimmed hplace body
    rw [Decl.trimmedBody, Decl.bodyLayout, Decl.bodyLayout, Layout.silent_braces,
      Layout.silent_braces, Stmt.silent_layouts_last hbody]

end

namespace Script

theorem heading_trimmed (o : Options) (earlier : List Decl) (d : Decl) :
    heading o (earlier.map Decl.trimmed) d.trimmed = heading o earlier d := by
  simp [heading, List.any_map, Function.comp_def]

theorem silent_declarationSections_trimmed (o : Options) (earlier ds : List Decl) :
    Layout.silent
        (declarationSections { o with elideTrailingReturn := true } earlier ds) =
      Layout.silent (declarationSections { o with elideTrailingReturn := false }
        (earlier.map Decl.trimmed) (ds.map Decl.trimmed)) := by
  induction ds generalizing earlier with
  | nil => rfl
  | cons d ds ih =>
    have hheading : heading { o with elideTrailingReturn := true } earlier d =
        heading { o with elideTrailingReturn := false } earlier d := rfl
    simp only [List.map_cons, declarationSections, Decl.terminated, Layout.silent_append,
      heading_trimmed, Decl.terminator_trimmed, ← Decl.silent_layout_trimmed d, hheading,
      ih (d :: earlier)]

theorem silent_layout_trimmed (o : Options) (s : Script) :
    Layout.silent (s.layout { o with elideTrailingReturn := true }) =
      Layout.silent (s.trimmed.layout { o with elideTrailingReturn := false }) := by
  have hdeclarations := silent_declarationSections_trimmed o [] s.declarations
  simp only [layout, Layout.silent_append, hdeclarations]
  rfl

theorem unlogged_effect_trimmed (o : Options) (s : Script) :
    (s.effect { o with elideTrailingReturn := true }).unlogged =
      (s.trimmed.effect { o with elideTrailingReturn := false }).unlogged := by
  unfold effect
  rw [← Layout.unlogged_effect_silent, silent_layout_trimmed, Layout.unlogged_effect_silent]

/-- Leaving out closing returns gives the text, or the failure, of the script without them. -/
theorem toText_trimmed (s : Script) (o : Options) :
    (s.toText { o with elideTrailingReturn := true }).1 =
      (s.trimmed.toText { o with elideTrailingReturn := false }).1 := by
  have htold : ∀ e : Effect, e.told = e.unlogged.told := fun _ => rfl
  rw [toText_eq, toText_eq, htold, unlogged_effect_trimmed, ← htold]

/-- Two equal returns at the end of each body, of which one stays, and one in a loop. -/
theorem toText_trimmed_nested :
    let inner : Decl := .procedure ⟨"void", "inner", []⟩ (some [.ret none, .ret none])
    let body : List Stmt := [.decl inner, .whileLoop (.name "a") (.ret none), .ret none, .ret none]
    let s : Script := ⟨[], [.procedure ⟨"void", "main", []⟩ (some body)]⟩
    let kept : Options := { sectionBanners := false, elideTrailingReturn := false }
    let elided : Options := { kept with elideTrailingReturn := true }
    let front := "void main()\n\x7b\n  void inner()\n  \x7b\n    return;\n"
    let loop := "  \x7d\n  while (a)\n    return;\n  return;\n"
    (s.toText kept).1 = .ok (front ++ "    return;\n" ++ loop ++ "  return;\n\x7d\n") ∧
      (s.toText elided).1 = .ok (front ++ loop ++ "\x7d\n") ∧
      (s.trimmed.toText kept).1 = .ok (front ++ loop ++ "\x7d\n") := by
  intro inner body s kept elided front loop
  have hkept : (s.toText kept).1 =
      .ok (front ++ "    return;\n" ++ loop ++ "  return;\n\x7d\n") :=
    toText_eq_ok (by decide +kernel) (by decide +kernel)
  have helided : (s.toText elided).1 = .ok (front ++ loop ++ "\x7d\n") :=
    toText_eq_ok (by decide +kernel) (by decide +kernel)
  exact ⟨hkept, helided, (toText_trimmed s kept).symm.trans helided⟩

end Script

end Scribe
