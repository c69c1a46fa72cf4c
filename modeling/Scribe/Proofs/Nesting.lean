import Scribe.Proofs.Effect

/-! Nesting. The layout of every tree is nested: each `deeper` has its `shallower` behind it, and
what stands between the two is nested again. Performed from any depth, a nested layout comes back
to that depth or stops, and it never stops for want of a level to leave. Where the layout is steady,
so that it does not touch the depth at all, the depth stays also when the destination fails. -/

namespace Scribe

/-! ## Nested layouts -/

def Cmd.isSteady : Cmd → Bool
  | .deeper | .shallower => false
  | _ => true

def Cmd.isInline : Cmd → Bool
  | .text _ | .refuse _ => true
  | _ => false

namespace Layout

/-- No command changes the depth. -/
def steady (layout : Layout) : Bool := layout.all Cmd.isSteady

@[simp] theorem steady_nil : steady [] = true := rfl

@[simp] theorem steady_cons (c : Cmd) (layout : Layout) :
    steady (c :: layout) = (c.isSteady && steady layout) := List.all_cons

@[simp] theorem steady_append (a b : Layout) : steady (a ++ b) = (steady a && steady b) :=
  List.all_append

/-- Nothing but text, as far as nothing is refused. -/
def inline (layout : Layout) : Bool := layout.all Cmd.isInline

@[simp] theorem inline_nil : inline [] = true := rfl

@[simp] theorem inline_cons (c : Cmd) (layout : Layout) :
    inline (c :: layout) = (c.isInline && inline layout) := List.all_cons

@[simp] theorem inline_append (a b : Layout) : inline (a ++ b) = (inline a && inline b) :=
  List.all_append

@[simp] theorem inline_parens (wanted : Bool) (inner : Layout) :
    inline (parens wanted inner) = inline inner := by
  cases wanted <;> simp [parens, Cmd.isInline]

@[simp] theorem inline_commaSeparated (items : List Layout) :
    inline (commaSeparated items) = items.all inline := by
  induction items with
  | nil => rfl
  | cons a rest ih => cases rest <;> simp_all [Cmd.isInline]

theorem steady_of_inline {layout : Layout} (h : layout.inline = true) : layout.steady = true := by
  induction layout with
  | nil => rfl
  | cons c rest ih =>
    obtain ⟨hc, hrest⟩ := Bool.and_eq_true_iff.mp h
    cases c with
    | deeper => cases hc
    | shallower => cases hc
    | _ => exact ih hrest

inductive Nested : Layout → Prop
  | nil : Nested []
  | cmd {c : Cmd} {rest : Layout} : c.isSteady = true → Nested rest → Nested (c :: rest)
  | level {inner rest : Layout} : Nested inner → Nested rest →
      Nested (.deeper :: (inner ++ .shallower :: rest))

theorem Nested.append {a b : Layout} (ha : Nested a) (hb : Nested b) : Nested (a ++ b) := by
  induction ha with
  | nil => exact hb
  | cmd hc _ ih => exact .cmd hc ih
  | level hinner _ _ ih =>
    rw [List.cons_append, List.append_assoc]
    exact .level hinner ih

theorem nested_of_steady {layout : Layout} (h : layout.steady = true) : Nested layout := by
  induction layout with
  | nil => exact .nil
  | cons c rest ih =>
    obtain ⟨hc, hrest⟩ := Bool.and_eq_true_iff.mp h
    exact .cmd hc (ih hrest)

theorem Nested.inLevel {inner : Layout} (h : Nested inner) :
    Nested ([Cmd.deeper] ++ inner ++ [Cmd.shallower]) :=
  .level h .nil

theorem Nested.braces {inner : Layout} (h : Nested inner) (keepLine : Bool) :
    Nested (braces keepLine inner) := by
  have hend : Nested ([Cmd.breakLine, .indent, .text "\x7d"] ++
      if keepLine then [] else [Cmd.newline]) := by
    cases keepLine <;> exact nested_of_steady rfl
  unfold Layout.braces
  rw [List.append_assoc, List.append_assoc]
  exact .cmd rfl (.level h hend)

end Layout

/-! ## Layouts of trees -/

mutual

theorem Expr.inline_layout (e : Expr) : Layout.inline e.layout = true := by
  cases e with
  | member operand field => simp [Expr.layout, Layout.name, Cmd.isInline, inline_layout operand]
  | call function arguments =>
    simp only [Expr.layout]
    split
    · rfl
    · simp [Layout.name, Cmd.isInline, inline_layouts arguments]
  | unary op operand =>
    have h := inline_layout operand
    simp only [Expr.layout]
    split <;> simp [Cmd.isInline, h]
  | binary op left right =>
    simp [Expr.layout, Cmd.isInline, inline_layout left, inline_layout right]
  | _ => rfl

theorem Expr.inline_layouts (es : List Expr) : (Expr.layouts es).all Layout.inline = true := by
  cases es with
  | nil => rfl
  | cons e es =>
    rw [Expr.layouts, List.all_cons, inline_layout e, inline_layouts es]
    rfl

end

theorem Signature.inline_layout (s : Signature) : Layout.inline s.layout = true := by
  simp [Signature.layout, Param.layout, Layout.name, Cmd.isInline]

theorem Modifier.inline_layout (m : Modifier) : Layout.inline m.layout = true := by
  obtain ⟨storage, slot⟩ := m
  cases slot <;> rfl

theorem Variable.inline_layout (v : Variable) : Layout.inline v.layout = true := by
  obtain ⟨modifier, type, name, init⟩ := v
  cases modifier <;> cases init <;>
    simp [Variable.layout, Layout.name, Cmd.isInline, Modifier.inline_layout, Expr.inline_layout]

theorem EnumValue.inline_layout (v : EnumValue) : Layout.inline v.layout = true := by
  simp [EnumValue.layout, Layout.name, Cmd.isInline, Expr.inline_layout]

theorem Stmt.inline_branchHead (condition : Expr) :
    Layout.inline (Stmt.branchHead condition) = true := by
  simp [Stmt.branchHead, Cmd.isInline, Expr.inline_layout]

theorem Expr.steady_layout (e : Expr) : Layout.steady e.layout = true :=
  Layout.steady_of_inline e.inline_layout

theorem Signature.steady_layout (s : Signature) : Layout.steady s.layout = true :=
  Layout.steady_of_inline s.inline_layout

theorem Variable.steady_layout (v : Variable) : Layout.steady v.layout = true :=
  Layout.steady_of_inline v.inline_layout

theorem EnumValue.steady_layout (v : EnumValue) : Layout.steady v.layout = true :=
  Layout.steady_of_inline v.inline_layout

theorem EnumValue.steady_lines (values : List EnumValue) :
    Layout.steady (EnumValue.lines values) = true := by
  induction values with
  | nil => rfl
  | cons v vs ih =>
    have hend : Layout.steady [if vs.isEmpty then .newline else .line ","] = true := by
      cases vs <;> rfl
    rw [EnumValue.lines, Layout.steady_append, Layout.steady_append, Layout.steady_append, hend, ih,
      EnumValue.steady_layout]
    rfl

theorem Comment.steady_layout (c : Comment) : Layout.steady c.layout = true := by
  unfold Comment.layout Comment.ownLine
  split
  · rfl
  · split
    · rfl
    · split <;> rfl

theorem Decl.steady_terminator (d : Decl) : Layout.steady d.terminator = true := by
  unfold Decl.terminator
  split <;> rfl

theorem Stmt.steady_lead (s : Stmt) : Layout.steady s.lead = true := by
  unfold Stmt.lead
  split <;> rfl

theorem Stmt.steady_branchHead (condition : Expr) :
    Layout.steady (Stmt.branchHead condition) = true :=
  Layout.steady_of_inline (Stmt.inline_branchHead condition)

theorem Stmt.steady_bareReturn (elide : Bool) (place : Place) :
    Layout.steady (Stmt.bareReturn elide place) = true := by
  cases place <;> cases elide <;> rfl

theorem Stmt.nested_attached (s : Stmt) {core : Layout} (h : Layout.Nested core) :
    Layout.Nested (s.attached core) := by
  unfold Stmt.attached
  split
  · exact h
  · have hlead := Layout.nested_of_steady s.steady_lead
    have hlevel := (hlead.append h).inLevel
    simpa using Layout.Nested.cmd (c := .breakLine) rfl hlevel

mutual

theorem Stmt.nested_core (elide : Bool) (place : Place) (keepLine : Bool) (s : Stmt) :
    Layout.Nested (s.core elide place keepLine) := by
  cases s with
  | block body => exact (Stmt.nested_layouts elide place.nested place.nested body).braces keepLine
  | branch condition body otherwise =>
    rw [Stmt.core]
    split
    · exact Layout.nested_of_steady rfl
    · have hhead := Layout.nested_of_steady (Stmt.steady_branchHead condition)
      have hbody := Stmt.nested_consequent elide place.nested otherwise.isSome body
      exact (hhead.append hbody).append (Stmt.nested_alternative elide place.nested otherwise)
  | whileLoop condition body =>
    have hhead : Layout.steady
        ([Cmd.text "while ("] ++ condition.layout ++ [Cmd.text ")"]) = true := by
      simp [Cmd.isSteady, Expr.steady_layout]
    have hbody := Stmt.nested_core elide place.nested false body
    exact (Layout.nested_of_steady hhead).append (body.nested_attached hbody)
  | forLoop init condition after body =>
    have hhead : Layout.steady ([Cmd.breakLine, .newline, .indent, .text "for ("] ++ init.layout ++
        [Cmd.text "; "] ++ condition.layout ++ [Cmd.text "; "] ++ after.layout ++
        [Cmd.text ")"]) = true := by
      simp [Cmd.isSteady, Expr.steady_layout]
    have hbody := Stmt.nested_core elide place.nested false body
    exact (Layout.nested_of_steady hhead).append (body.nested_attached hbody)
  | switch scrutinee arms =>
    rw [Stmt.core]
    split
    · exact Layout.nested_of_steady rfl
    · have hhead : Layout.steady
          ([Cmd.text "switch ("] ++ scrutinee.layout ++ [Cmd.text ")"]) = true := by
        simp [Cmd.isSteady, Expr.steady_layout]
      have harms := (Arm.nested_layouts elide place.nested arms).braces false
      exact (Layout.nested_of_steady hhead).append harms
  | ret value =>
    apply Layout.nested_of_steady
    cases value with
    | none => exact Stmt.steady_bareReturn elide place
    | some value => simp [Stmt.core, Layout.semicolon, Cmd.isSteady, Expr.steady_layout]
  | comment comment => exact Layout.nested_of_steady comment.steady_layout
  | expr expr =>
    apply Layout.nested_of_steady
    simp [Stmt.core, Layout.semicolon, Cmd.isSteady, Expr.steady_layout]
  | decl decl =>
    have hend := Layout.nested_of_steady decl.steady_terminator
    exact (Decl.nested_layout elide decl).append hend
  | _ => exact Layout.nested_of_steady rfl

theorem Stmt.nested_layouts (elide : Bool) (place final : Place) (body : List Stmt) :
    Layout.Nested (Stmt.layouts elide place final body) := by
  cases body with
  | nil => exact .nil
  | cons s rest =>
    have hlead := Layout.nested_of_steady s.steady_lead
    have hs := Stmt.nested_core elide (if rest.isEmpty then final else place) false s
    exact (hlead.append hs).append (Stmt.nested_layouts elide place final rest)

theorem Stmt.nested_consequent (elide : Bool) (place : Place) (keepLine : Bool)
    (body : Option Stmt) : Layout.Nested (Stmt.consequent elide place keepLine body) := by
  cases body with
  | none => exact Layout.Nested.nil.braces keepLine
  | some body => exact body.nested_attached (Stmt.nested_core elide place keepLine body)

theorem Stmt.nested_alternative (elide : Bool) (place : Place) (body : Option (List Stmt)) :
    Layout.Nested (Stmt.alternative elide place body) := by
  cases body with
  | none => exact .nil
  | some body =>
    refine .cmd rfl ?_
    split
    · exact .cmd rfl (Stmt.nested_firstCore elide place body)
    · exact (Stmt.nested_layouts elide place place body).braces false

theorem Stmt.nested_firstCore (elide : Bool) (place : Place) (body : List Stmt) :
    Layout.Nested (Stmt.firstCore elide place body) := by
  cases body with
  | nil => exact .nil
  | cons s rest => exact Stmt.nested_core elide place false s

theorem Arm.nested_layouts (elide : Bool) (place : Place) (arms : List Arm) :
    Layout.Nested (Arm.layouts elide place arms) := by
  cases arms with
  | nil => exact .nil
  | cons arm rest =>
    exact (Arm.nested_layout elide place arm).append (Arm.nested_layouts elide place rest)

theorem Arm.nested_layout (elide : Bool) (place : Place) (arm : Arm) :
    Layout.Nested (arm.layout elide place) := by
  cases arm with
  | onCase value body =>
    have hhead : Layout.steady
        ([Cmd.indent, .text "case "] ++ value.layout ++ [Cmd.line ":"]) = true := by
      simp [Cmd.isSteady, Expr.steady_layout]
    have hbody := (Stmt.nested_layouts elide place place body).inLevel
    simpa [Arm.layout] using (Layout.nested_of_steady hhead).append hbody
  | onDefault body =>
    have hhead : Layout.steady [.indent, .text "default:", .newline] = true := rfl
    have hbody := (Stmt.nested_layouts elide place place body).inLevel
    simpa [Arm.layout] using (Layout.nested_of_steady hhead).append hbody

theorem Decl.nested_layout (elide : Bool) (d : Decl) : Layout.Nested (d.layout elide) := by
  cases d with
  | prototype index signature =>
    apply Layout.nested_of_steady
    rw [Decl.layout]
    split
    · rfl
    · simp [Cmd.isSteady, Signature.steady_layout]
  | var declared => exact Layout.nested_of_steady declared.steady_layout
  | procedure signature body =>
    rw [Decl.layout]
    split
    · exact Layout.nested_of_steady rfl
    · have hhead := Layout.nested_of_steady signature.steady_layout
      have hbody := Decl.nested_bodyLayout elide signature.name body
      exact .cmd rfl (hhead.append hbody)
  | enum name values =>
    have hvalues := (Layout.nested_of_steady (EnumValue.steady_lines values)).braces true
    exact .cmd rfl (.cmd rfl hvalues)
  | enumValue value => exact Layout.nested_of_steady value.steady_layout

theorem Decl.nested_bodyLayout (elide : Bool) (procedure : String) (body : Option (List Stmt)) :
    Layout.Nested (Decl.bodyLayout elide procedure body) := by
  cases body with
  | none => exact Layout.nested_of_steady rfl
  | some body =>
    exact (Stmt.nested_layouts elide (.inside procedure) (.last procedure) body).braces false

end

theorem Stmt.nested_layout (elide : Bool) (place : Place) (s : Stmt) :
    Layout.Nested (s.layout elide place) :=
  (Layout.nested_of_steady s.steady_lead).append (s.nested_core elide place false)

theorem Layout.steady_banner (o : Options) (title : String) :
    Layout.steady (Layout.banner o title) = true := by
  have hline : ∀ content, Layout.steady (Comment.ownLine content) = true := fun content =>
    Comment.steady_layout ⟨content, false⟩
  unfold Layout.banner
  split <;> simp [Cmd.isSteady, hline]

theorem Script.steady_importSection (o : Options) (imports : List String) :
    Layout.steady (Script.importSection o imports) = true := by
  have hlines : ∀ files : List String,
      Layout.steady (files.flatMap Layout.importLine) = true := by
    intro files
    induction files with
    | nil => rfl
    | cons file files ih => simp [Layout.importLine, Layout.semicolon, Cmd.isSteady, ih]
  unfold Script.importSection
  split
  · rfl
  · rw [Layout.steady_append, Layout.steady_banner, hlines]
    rfl

theorem Script.steady_heading (o : Options) (earlier : List Decl) (d : Decl) :
    Layout.steady (Script.heading o earlier d) = true := by
  unfold Script.heading
  split
  · exact Layout.steady_banner _ _
  · split
    · exact Layout.steady_banner _ _
    · rfl

theorem Script.nested_declarationSections (o : Options) (earlier ds : List Decl) :
    Layout.Nested (Script.declarationSections o earlier ds) := by
  induction ds generalizing earlier with
  | nil => exact .nil
  | cons d ds ih =>
    have hheading := Layout.nested_of_steady (Script.steady_heading o earlier d)
    have hend := Layout.nested_of_steady d.steady_terminator
    have hd := (Decl.nested_layout o.elideTrailingReturn d).append hend
    exact (hheading.append hd).append (ih (d :: earlier))

theorem Script.nested_layout (o : Options) (s : Script) : Layout.Nested (s.layout o) := by
  have himports := Layout.nested_of_steady (Script.steady_importSection o s.imports)
  have hdeclarations := Script.nested_declarationSections o [] s.declarations
  exact .cmd rfl (himports.append hdeclarations)

/-! ## Coming back -/

namespace Effect

/-- Ends at the depth, unless it stops; and it does not stop for want of a level to leave. -/
structure Level (depth : Nat) (e : Effect) : Prop where
  returns : e.stop = none → e.cursor.depth = depth
  balanced : e.stop ≠ some (.abort .unbalancedDepth)

theorem Level.andThen {e : Effect} {f : Cursor → Effect} {depth final : Nat} (he : e.Level depth)
    (hf : ∀ k : Cursor, k.depth = depth → (f k).Level final) : (e.andThen f).Level final := by
  cases hs : e.stop with
  | some x =>
    rw [andThen_of_stop hs]
    refine ⟨fun hnone => ?_, he.balanced⟩
    rw [hs] at hnone
    cases hnone
  | none =>
    have hlevel := hf e.cursor (he.returns hs)
    rw [andThen_of_none hs]
    exact ⟨hlevel.returns, hlevel.balanced⟩

theorem level_put (s : String) (midLine : Bool) (k : Cursor) : (put s midLine k).Level k.depth :=
  ⟨fun _ => rfl, nofun⟩

theorem level_stay (k : Cursor) : (stay k).Level k.depth := ⟨fun _ => rfl, nofun⟩

theorem level_halt {a : Abort} (h : a ≠ .unbalancedDepth) (k : Cursor) (depth : Nat) :
    (halt a k).Level depth := by
  refine ⟨nofun, fun hstop => h ?_⟩
  cases hstop
  rfl

theorem level_breakLine (k : Cursor) : (breakLine k).Level k.depth := by
  unfold breakLine
  split
  · exact level_put _ _ _
  · exact level_stay _

theorem level_indent (width : Nat) (k : Cursor) : (indent width k).Level k.depth := by
  rcases indent_cases width k with ⟨a, hbalanced, ha⟩ | hput
  · rw [ha]
    exact level_halt hbalanced _ _
  · rw [hput]
    exact level_put _ _ _

theorem level_freshLine (width : Nat) (s : String) (midLine : Bool) (k : Cursor) :
    (freshLine width s midLine k).Level k.depth := by
  have hstart : ((breakLine k).andThen (indent width)).Level k.depth :=
    (level_breakLine k).andThen fun j hj => hj ▸ level_indent width j
  exact hstart.andThen fun j hj => hj ▸ level_put s midLine j

theorem level_deeper (k : Cursor) : (deeper k).Level (k.depth + 1) := by
  unfold deeper
  split
  · exact level_halt (by decide) _ _
  · exact level_stay ⟨k.depth + 1, k.midLine⟩

theorem level_shallower {k : Cursor} {depth : Nat} (h : k.depth = depth + 1) :
    (shallower k).Level depth := by
  rw [shallower, if_neg (by omega)]
  exact ⟨fun _ => by simp [stay, h], nofun⟩

end Effect

theorem Cmd.level_effect {c : Cmd} (h : c.isSteady = true) (sheet : Sheet) (k : Cursor) :
    (c.effect sheet k).Level k.depth := by
  cases c with
  | text s => exact Effect.level_put _ _ _
  | line s => exact Effect.level_put _ _ _
  | newline => exact Effect.level_put _ _ _
  | breakLine => exact Effect.level_breakLine k
  | indent => exact Effect.level_indent _ _
  | deeper => cases h
  | shallower => cases h
  | openBrace =>
    simp only [Cmd.effect, Effect.openBrace]
    split
    · exact Effect.level_put _ _ _
    · exact Effect.level_freshLine _ _ _ _
  | elseWord =>
    simp only [Cmd.effect, Effect.elseWord]
    split
    · exact Effect.level_put _ _ _
    · exact Effect.level_freshLine _ _ _ _
  | note event => exact ⟨fun _ => rfl, nofun⟩
  | refuse defect => exact ⟨nofun, nofun⟩

theorem Layout.Nested.level_effect {layout : Layout} (h : Nested layout) (sheet : Sheet)
    (k : Cursor) : (layout.effect sheet k).Level k.depth := by
  induction h generalizing k with
  | nil => exact Effect.level_stay k
  | cmd hc _ ih => exact (Cmd.level_effect hc sheet k).andThen fun j hj => hj ▸ ih j
  | @level inner rest _ _ ihinner ihrest =>
    -- one level down `inner` returns there, so that there is a level to leave
    refine (Effect.level_deeper k).andThen fun j hj => ?_
    rw [effect_append]
    refine (hj ▸ ihinner j).andThen fun i hi => ?_
    exact (Effect.level_shallower hi).andThen fun m hm => hm ▸ ihrest m

end Scribe
