import Scribe.Proofs.Nesting
import Scribe.Proofs.Outcome

/-! A script in parts. Its text is the text of its parts one after another: banners, import lines
and the declarations, each written as if it were all of a script. They do not get in each other's
way, because every part ends its last line and leaves the page at the depth where it found it. -/

namespace Scribe

/-! ## Parts -/

/-- What a banner can stand before. -/
inductive Section where
  | imports
  | prototypes
  | variables
  deriving DecidableEq

namespace Section

def title : Section → String
  | .imports => "Imports"
  | .prototypes => "Function prototypes"
  | .variables => "Script-level variable definitions"

/-- The section that the declaration at position `i` starts: the first prototype and the first
variable start one each. -/
def startingAt (ds : List Decl) (i : Nat) : Option Section :=
  if ds.findIdx? Decl.isPrototype = some i then some .prototypes
  else if ds.findIdx? Decl.isVariable = some i then some .variables
  else none

end Section

inductive Part where
  | banner (opened : Section)
  | importLine (file : String)
  | declaration (d : Decl)

namespace Part

/-- A declaration has the text of a script that holds nothing else. -/
def text (o : Options) : Part → Except Stop String
  | .banner opened => .ok ("\n//\n// " ++ opened.title ++ "\n//\n\n")
  | .importLine file => .ok ("import(" ++ Literal.quoted file ++ ");\n")
  | .declaration d => ((⟨[], [d]⟩ : Script).toText { o with sectionBanners := false }).1

def layout (elide : Bool) : Part → Layout
  | .banner opened => Layout.banner {} opened.title
  | .importLine file => Layout.importLine file
  | .declaration d => d.terminated elide

def heading (banners : Bool) (opened : Option Section) : List Part :=
  if banners then opened.toList.map .banner else []

end Part

/-- With `banners` there is one before the imports, if there are any, and one before each
declaration that starts a section. -/
def Script.parts (banners : Bool) (s : Script) : List Part :=
  Part.heading banners (if s.imports.isEmpty then none else some .imports) ++
    s.imports.map .importLine ++
    s.declarations.zipIdx.flatMap fun ⟨d, i⟩ =>
      Part.heading banners (Section.startingAt s.declarations i) ++ [.declaration d]

/-! ## The layout in parts -/

theorem Section.findIdx?_eq_length_iff (p : Decl → Bool) (before after : List Decl) (d : Decl) :
    (before ++ d :: after).findIdx? p = some before.length ↔
      (p d && !before.any p) = true := by
  rw [List.findIdx?_append]
  cases hfirst : before.findIdx? p with
  | none =>
    have hany : before.any p = false := by
      simpa using List.findIdx?_eq_none_iff.mp hfirst
    cases hd : p d with
    | true => simp [List.findIdx?_cons, hd, hany]
    | false =>
      rw [Option.none_or, List.findIdx?_cons, if_neg (by simp [hd]), Option.map_map,
        Option.map_eq_some_iff]
      constructor
      · rintro ⟨i, -, hi⟩
        simp only [Function.comp_apply] at hi
        omega
      · intro h
        cases h
  | some i =>
    obtain ⟨hlt, hp, -⟩ := List.findIdx?_eq_some_iff_getElem.mp hfirst
    have hany : before.any p = true := List.any_eq_true.mpr ⟨_, List.getElem_mem hlt, hp⟩
    have hne : i ≠ before.length := by omega
    simp [hany, hne]

namespace Part

@[simp] theorem flatMap_heading_none (banners elide : Bool) :
    (heading banners none).flatMap (layout elide) = [] := by
  cases banners <;> rfl

@[simp] theorem flatMap_heading_some (o : Options) (elide : Bool) (opened : Section) :
    (heading o.sectionBanners (some opened)).flatMap (layout elide) =
      Layout.banner o opened.title := by
  unfold heading
  cases hb : o.sectionBanners with
  | true => simp [layout, Layout.banner, hb]
  | false => simp [Layout.banner, hb]

end Part

namespace Script

theorem importSection_eq_parts (o : Options) (elide : Bool) (imports : List String) :
    importSection o imports =
      (Part.heading o.sectionBanners (if imports.isEmpty then none else some .imports) ++
        imports.map Part.importLine).flatMap (Part.layout elide) := by
  rw [List.flatMap_append, List.flatMap_map, importSection]
  split
  · next h => simp [List.isEmpty_iff.mp h]
  · rw [Part.flatMap_heading_some]
    rfl

/-- `earlier` runs backwards, so it stands before the others once it is reversed. -/
theorem heading_eq_parts (o : Options) (elide : Bool) (earlier rest : List Decl) (d : Decl) :
    heading o earlier d = (Part.heading o.sectionBanners
      (Section.startingAt (earlier.reverse ++ d :: rest) earlier.length)).flatMap
        (Part.layout elide) := by
  have hfirst : ∀ p : Decl → Bool,
      (earlier.reverse ++ d :: rest).findIdx? p = some earlier.length ↔
        (p d && !earlier.any p) = true := by
    intro p
    have h := Section.findIdx?_eq_length_iff p earlier.reverse rest d
    rwa [List.length_reverse, List.any_reverse] at h
  simp only [heading, Section.startingAt, hfirst]
  split
  · exact (Part.flatMap_heading_some o elide .prototypes).symm
  · split
    · exact (Part.flatMap_heading_some o elide .variables).symm
    · exact (Part.flatMap_heading_none _ _).symm

theorem declarationSections_eq_parts (o : Options) (earlier ds : List Decl) :
    declarationSections o earlier ds =
      ((ds.zipIdx earlier.length).flatMap fun ⟨d, i⟩ =>
        Part.heading o.sectionBanners (Section.startingAt (earlier.reverse ++ ds) i) ++
          [.declaration d]).flatMap (Part.layout o.elideTrailingReturn) := by
  induction ds generalizing earlier with
  | nil => rfl
  | cons d ds ih =>
    have hrest := ih (d :: earlier)
    rw [List.reverse_cons, List.append_assoc, List.singleton_append, List.length_cons] at hrest
    rw [declarationSections, hrest, List.zipIdx_cons, List.flatMap_cons, List.flatMap_append,
      List.flatMap_append, ← heading_eq_parts]
    simp [Part.layout]

theorem layout_eq_parts (o : Options) (s : Script) :
    s.layout o = .note (.script s.imports.length s.declarations.length) ::
      (s.parts o.sectionBanners).flatMap (Part.layout o.elideTrailingReturn) := by
  rw [layout, importSection_eq_parts o o.elideTrailingReturn,
    declarationSections_eq_parts o [] s.declarations, List.append_assoc, ← List.flatMap_append]
  rfl

end Script

/-! ## Ends of lines -/

theorem Effect.indent_zero (width : Nat) (midLine : Bool) :
    indent width ⟨0, midLine⟩ = put "" true ⟨0, midLine⟩ := by
  simp [indent, Sink.wordLimit, Sink.spaces]

/-- Ends its last line, unless it stops. -/
def Effect.EndsLine (e : Effect) : Prop :=
  e.stop = none → e.cursor.midLine = false ∧ ∃ before, e.text = before ++ "\n"

theorem Effect.EndsLine.after {f : Cursor → Effect} (h : ∀ k, (f k).EndsLine) (e : Effect) :
    (e.andThen f).EndsLine := by
  intro hnone
  have hs := stop_of_andThen hnone
  rw [andThen_of_none hs] at hnone ⊢
  obtain ⟨hline, before, htext⟩ := h e.cursor hnone
  exact ⟨hline, e.text ++ before, by rw [htext, String.append_assoc]⟩

namespace Layout

def EndsLine (sheet : Sheet) (layout : Layout) : Prop := ∀ k, (layout.effect sheet k).EndsLine

variable {sheet : Sheet}

theorem endsLine_newline : EndsLine sheet [.newline] := by
  intro k _
  rw [effect_singleton]
  exact ⟨rfl, "", rfl⟩

theorem endsLine_line (s : String) : EndsLine sheet [.line s] := by
  intro k _
  rw [effect_singleton]
  exact ⟨rfl, s, rfl⟩

theorem EndsLine.prepend {layout : Layout} (h : EndsLine sheet layout) (front : Layout) :
    EndsLine sheet (front ++ layout) := by
  intro k
  rw [effect_append]
  exact Effect.EndsLine.after h _

end Layout

theorem Decl.endsLine_bodyLayout (sheet : Sheet) (elide : Bool) (procedure : String)
    (body : Option (List Stmt)) : Layout.EndsLine sheet (Decl.bodyLayout elide procedure body) := by
  cases body with
  | none => exact Layout.endsLine_line ";"
  | some body => exact Layout.endsLine_newline.prepend _

/-- Without a name nothing is written, so that there is no line to end. -/
theorem Decl.endsLine_terminated (sheet : Sheet) (elide : Bool) (d : Decl) :
    Layout.EndsLine sheet (d.terminated elide) := by
  cases d with
  | procedure signature body =>
    have hterminator : (Decl.procedure signature body).terminator = [] := rfl
    rw [Decl.terminated, hterminator, List.append_nil, Decl.layout]
    split
    · exact fun k hnone => by cases hnone
    · exact (Decl.endsLine_bodyLayout sheet elide signature.name body).prepend _
  | _ => exact (Layout.endsLine_line ";").prepend _

namespace Part

theorem endsLine_layout (sheet : Sheet) (elide : Bool) (part : Part) :
    Layout.EndsLine sheet (part.layout elide) := by
  cases part with
  | banner opened => exact Layout.endsLine_newline.prepend _
  | importLine file => exact (Layout.endsLine_line ";").prepend _
  | declaration d => exact d.endsLine_terminated sheet elide

theorem nested_layout (elide : Bool) (part : Part) : Layout.Nested (part.layout elide) := by
  cases part with
  | banner opened => exact Layout.nested_of_steady (Layout.steady_banner {} opened.title)
  | importLine file => exact Layout.nested_of_steady rfl
  | declaration d =>
    exact (Decl.nested_layout elide d).append (Layout.nested_of_steady d.steady_terminator)

/-- The effect of a part at the start of an empty page. -/
def effect (o : Options) (part : Part) : Effect :=
  (part.layout o.elideTrailingReturn).effect ⟨o.braceStyle, o.indentWidth⟩ ⟨0, false⟩

def effectAll (o : Options) (parts : List Part) : Effect :=
  Layout.effect ⟨o.braceStyle, o.indentWidth⟩ (parts.flatMap (layout o.elideTrailingReturn))
    ⟨0, false⟩

/-- Where one part ends the next can start. -/
theorem cursor_effect {o : Options} {part : Part} (h : (part.effect o).stop = none) :
    (part.effect o).cursor = ⟨0, false⟩ := by
  have hdepth := ((part.nested_layout o.elideTrailingReturn).level_effect _ ⟨0, false⟩).returns h
  obtain ⟨hline, -⟩ := part.endsLine_layout _ _ ⟨0, false⟩ h
  exact Cursor.ext hdepth hline

/-- No part sees what has been written before it. -/
theorem effectAll_cons (o : Options) (part : Part) (parts : List Part) :
    effectAll o (part :: parts) = (part.effect o).andThen fun _ => effectAll o parts := by
  rw [effectAll, List.flatMap_cons, Layout.effect_append]
  change (part.effect o).andThen _ = _
  cases hs : (part.effect o).stop with
  | some x => rw [Effect.andThen_of_stop hs, Effect.andThen_of_stop hs]
  | none =>
    -- the others start where the first did, since it came back there
    rw [Effect.andThen_of_none hs, Effect.andThen_of_none hs, cursor_effect hs]
    rfl

theorem stop_effectAll_of_append {o : Options} {before after : List Part}
    (h : (effectAll o (before ++ after)).stop = none) : (effectAll o before).stop = none := by
  rw [effectAll, List.flatMap_append, Layout.effect_append] at h
  exact Effect.stop_of_andThen h

/-- Parts that are written to their end leave the page to others as they found it. -/
theorem cursor_effectAll {o : Options} {parts : List Part} (h : (effectAll o parts).stop = none) :
    (effectAll o parts).cursor = ⟨0, false⟩ := by
  induction parts with
  | nil => rfl
  | cons part parts ih =>
    rw [effectAll_cons] at h ⊢
    have hs := Effect.stop_of_andThen h
    rw [Effect.andThen_of_none hs] at h ⊢
    exact ih h

end Part

/-! ## Texts -/

/-- A note leaves its trace in the log alone. -/
theorem Layout.effect_note (sheet : Sheet) (event : Event) (layout : Layout) (k : Cursor) :
    effect sheet (.note event :: layout) k =
      { effect sheet layout k with events := event :: (effect sheet layout k).events } := by
  rw [effect, Effect.andThen_of_none rfl]
  simp [Cmd.effect]

theorem Layout.told_effect_note (sheet : Sheet) (event : Event) (layout : Layout) (k : Cursor) :
    (effect sheet (.note event :: layout) k).told = (effect sheet layout k).told := by
  rw [effect_note]
  rfl

namespace Part

theorem told_effect (o : Options) (part : Part) : (part.effect o).told = part.text o := by
  cases part with
  | banner opened =>
    have hlayout : (Part.banner opened).layout o.elideTrailingReturn = [.newline, .indent,
        .text "//", .newline, .indent, .text "// ", .line opened.title, .indent, .text "//",
        .newline, .newline] := by
      cases opened <;> rfl
    rw [effect, hlayout]
    simp only [Layout.effect, Cmd.effect, Effect.newline, Effect.andThen, Effect.put,
      Effect.indent_zero]
    cases opened <;> rfl
  | importLine file =>
    have hend : ")" ++ ";\n" = ");\n" := rfl
    simp [effect, layout, Layout.importLine, Layout.semicolon, Layout.effect, Cmd.effect,
      Effect.andThen, Effect.put, Effect.stay, Effect.told, text, String.append_assoc, hend]
  | declaration d =>
    let lone : Options := { o with sectionBanners := false }
    have hparts : (⟨[], [d]⟩ : Script).parts lone.sectionBanners = [.declaration d] := rfl
    rw [text, Script.toText_eq, Script.effect, Script.layout_eq_parts, Layout.told_effect_note,
      hparts, List.flatMap_singleton]
    rfl

theorem told_effectAll (o : Options) (parts : List Part) :
    (effectAll o parts).told = (parts.mapM (text o)).map String.join := by
  induction parts with
  | nil => rfl
  | cons part parts ih =>
    have hpart := part.told_effect o
    rw [effectAll_cons, List.mapM_cons, ← hpart]
    cases hs : (part.effect o).stop with
    | some x =>
      rw [Effect.andThen_of_stop hs, Effect.told_of_stop hs]
      rfl
    | none =>
      rw [Effect.told_andThen hs, Effect.told_of_none hs, ih]
      cases parts.mapM (text o) with
      | error x => rfl
      | ok texts => exact congrArg Except.ok String.join_cons.symm

theorem getLast?_of_text {o : Options} {part : Part} {t : String} (h : part.text o = .ok t) :
    t.toList.getLast? = some '\n' := by
  rw [← told_effect] at h
  have hnone := Effect.stop_eq_none_of_told h
  obtain ⟨-, before, hbefore⟩ := part.endsLine_layout _ _ ⟨0, false⟩ hnone
  have htext := Effect.text_of_told h
  rw [← htext, effect, hbefore, String.toList_append]
  exact List.getLast?_concat

/-- Parts that can all be written are written one by one. -/
theorem run_flatMap {o : Options} {parts : List Part} (event : Event)
    (h : (effectAll o parts).stop = none) :
    ∃ texts p, parts.mapM (text o) = .ok texts ∧
      Printer.run (.note event :: parts.flatMap (layout o.elideTrailingReturn))
        (Printer.start {} o) = .ok () p ∧
      p.sink.writer.held = (String.join texts).toUTF8 ∧
      p.sink.depth = 0 ∧ p.sink.midLine = false := by
  have htold := told_effectAll o parts
  rw [Effect.told_of_none h] at htold
  cases htexts : parts.mapM (text o) with
  | error x =>
    rw [htexts] at htold
    cases htold
  | ok texts =>
    rw [htexts] at htold
    have htext : (effectAll o parts).text = String.join texts := Except.ok.inj htold
    have hstart : (Printer.start {} o).sink.writer.room = none := rfl
    have hrun := Printer.run_unlimited hstart
      (.note event :: parts.flatMap (layout o.elideTrailingReturn))
    have heffect : Layout.effect (Printer.start {} o).sheet
        (parts.flatMap (layout o.elideTrailingReturn)) (Printer.start {} o).sink.cursor =
          effectAll o parts := rfl
    simp only [Layout.effect_note, heffect, htext, cursor_effectAll h, Effect.result, h] at hrun
    exact ⟨texts, _, rfl, hrun, ByteArray.empty_append, rfl, rfl⟩

end Part

namespace Script

theorem told_effect_eq_parts (o : Options) (s : Script) :
    (s.effect o).told = (Part.effectAll o (s.parts o.sectionBanners)).told := by
  rw [effect, layout_eq_parts, Layout.told_effect_note]
  rfl

/-- The text of a script, or why there is none, comes from its parts, each of which ends a line.
Parts are also what writing goes by: after any number of them just these have been written, and the
page is back at depth zero, at the start of a line. -/
theorem toText_eq_join_parts (s : Script) (o : Options) :
    let upTo (parts : List Part) : Layout :=
      .note (.script s.imports.length s.declarations.length) ::
        parts.flatMap (Part.layout o.elideTrailingReturn)
    (s.toText o).1 = ((s.parts o.sectionBanners).mapM (Part.text o)).map String.join ∧
    (∀ (part : Part) (t : String), part.text o = .ok t →
      t ≠ "" ∧ t.toList.getLast? = some '\n') ∧
    s.layout o = upTo (s.parts o.sectionBanners) ∧
    ∀ before after t, s.parts o.sectionBanners = before ++ after → (s.toText o).1 = .ok t →
      ∃ texts p, before.mapM (Part.text o) = .ok texts ∧
        Printer.run (upTo before) (Printer.start {} o) = .ok () p ∧
        p.sink.writer.held = (String.join texts).toUTF8 ∧
        p.sink.depth = 0 ∧ p.sink.midLine = false := by
  intro upTo
  have htold : (s.toText o).1 = (Part.effectAll o (s.parts o.sectionBanners)).told := by
    rw [toText_eq, told_effect_eq_parts]
  refine ⟨htold.trans (Part.told_effectAll o _), ?_, layout_eq_parts o s, ?_⟩
  · intro part t ht
    have hlast := Part.getLast?_of_text ht
    refine ⟨?_, hlast⟩
    rintro rfl
    cases hlast
  · intro before after t hsplit ht
    rw [htold, hsplit] at ht
    have hnone := Effect.stop_eq_none_of_told ht
    exact Part.run_flatMap _ (Part.stop_effectAll_of_append hnone)

/-- A procedure that loses its closing `return` and ends in a comment on the line is followed by the
banner of the prototypes as if nothing had been before it. -/
theorem toText_eq_join_parts_comment :
    let main : Decl := .procedure ⟨"void", "main", []⟩ (some [.comment ⟨"b", true⟩, .ret none])
    let f : Decl := .prototype 1 ⟨"int", "f", []⟩
    let s : Script := ⟨["a"], [main, f, f]⟩
    let first : List Part := [.banner .imports, .importLine "a", .declaration main]
    let rest : List Part := [.banner .prototypes, .declaration f, .declaration f]
    let text : String := "\n//\n// Imports\n//\n\nimport(\"a\");\n" ++
      "void main()\n\x7b\n/* b */\n\x7d\n" ++ "\n//\n// Function prototypes\n//\n\n" ++
      "function(0x01) int f();\nfunction(0x01) int f();\n"
    s.parts true = first ++ rest ∧ (s.toText {}).1 = .ok text ∧
      (s.toText {}).1 = ((s.parts true).mapM (Part.text {})).map String.join ∧
      (∃ t, (Part.banner .imports).text {} = .ok t ∧ t ≠ "") ∧
      ∃ texts p, first.mapM (Part.text {}) = .ok texts ∧
        Printer.run (.note (.script 1 3) :: first.flatMap (Part.layout true))
          (Printer.start {} {}) = .ok () p ∧
        p.sink.writer.held = (String.join texts).toUTF8 ∧
        p.sink.depth = 0 ∧ p.sink.midLine = false := by
  intro main f s first rest text
  have hsplit : s.parts true = first ++ rest := rfl
  have htext : (s.toText {}).1 = .ok text := toText_eq_ok (by decide +kernel) (by decide +kernel)
  obtain ⟨hjoin, hlines, -, hparts⟩ := toText_eq_join_parts s {}
  have hbanner := (hlines (.banner .imports) _ rfl).1
  exact ⟨hsplit, htext, hjoin, ⟨_, rfl, hbanner⟩, hparts first rest text hsplit htext⟩

end Script

end Scribe
