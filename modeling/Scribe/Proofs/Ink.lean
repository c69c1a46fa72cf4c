import Scribe.Proofs.Defects

/-! Ink: the characters that a layout calls for, whatever the sheet. Line breaks and indentation are
none of it. Where a layout is nothing but text, as that of an expression is, its ink is what is
written; anywhere else it is what is written up to spaces and newlines. -/

namespace Scribe

def Cmd.ink : Cmd → List Char
  | .text s => s.toList
  | .line s => s.toList
  | .openBrace => ['\x7b']
  | .elseWord => ['e', 'l', 's', 'e']
  | _ => []

namespace Layout

def ink (layout : Layout) : List Char := layout.flatMap Cmd.ink

@[simp] theorem ink_nil : ink [] = [] := rfl

@[simp] theorem ink_cons (c : Cmd) (layout : Layout) : ink (c :: layout) = c.ink ++ ink layout :=
  List.flatMap_cons

@[simp] theorem ink_append (a b : Layout) : ink (a ++ b) = ink a ++ ink b :=
  List.flatMap_append

/-- Nothing but text. -/
def IsFlat (layout : Layout) : Prop := ∀ c ∈ layout, ∃ s, c = .text s

theorem isFlat_nil : IsFlat [] := nofun

theorem isFlat_cons (s : String) {layout : Layout} (h : IsFlat layout) :
    IsFlat (.text s :: layout) := by
  intro c hc
  rcases List.mem_cons.mp hc with rfl | hc
  · exact ⟨s, rfl⟩
  · exact h c hc

theorem IsFlat.append {a b : Layout} (ha : IsFlat a) (hb : IsFlat b) : IsFlat (a ++ b) := by
  intro c hc
  rcases List.mem_append.mp hc with hc | hc
  · exact ha c hc
  · exact hb c hc

theorem isFlat_text (s : String) : IsFlat [.text s] := isFlat_cons s isFlat_nil

theorem IsFlat.parens {inner : Layout} (h : IsFlat inner) (wanted : Bool) :
    IsFlat (parens wanted inner) := by
  cases wanted with
  | false => exact h
  | true => exact ((isFlat_text "(").append h).append (isFlat_text ")")

theorem isFlat_commaSeparated {items : List Layout} (h : ∀ item ∈ items, IsFlat item) :
    IsFlat (commaSeparated items) := by
  induction items with
  | nil => exact isFlat_nil
  | cons a rest ih =>
    have ha := h a (List.mem_cons_self ..)
    have hrest := ih fun item hi => h item (List.mem_cons_of_mem _ hi)
    cases rest with
    | nil =>
      rw [commaSeparated_singleton]
      exact ha
    | cons b rest =>
      rw [commaSeparated_cons_cons]
      exact (ha.append (isFlat_text ", ")).append hrest

theorem effect_of_isFlat {layout : Layout} (h : IsFlat layout) (sheet : Sheet) (k : Cursor) :
    (layout.effect sheet k).text = String.ofList layout.ink ∧
      (layout.effect sheet k).stop = none := by
  induction layout generalizing k with
  | nil => exact ⟨rfl, rfl⟩
  | cons c rest ih =>
    obtain ⟨s, rfl⟩ := h c (List.mem_cons_self ..)
    have hrest : IsFlat rest := fun c hc => h c (List.mem_cons_of_mem _ hc)
    rw [Layout.effect, Effect.andThen_of_none rfl]
    obtain ⟨htext, hstop⟩ := ih hrest ⟨k.depth, true⟩
    refine ⟨?_, hstop⟩
    show s ++ (effect sheet rest ⟨k.depth, true⟩).text = _
    rw [htext, ink_cons, String.ofList_append]
    simp [Cmd.ink]

/-- All of it could be written at once. -/
theorem effect_eq_put {layout : Layout} (h : IsFlat layout) (hne : layout ≠ []) (sheet : Sheet)
    (k : Cursor) : layout.effect sheet k = .put (String.ofList layout.ink) true k := by
  induction layout generalizing k with
  | nil => exact absurd rfl hne
  | cons c rest ih =>
    obtain ⟨s, rfl⟩ := h c (List.mem_cons_self ..)
    have hrest : IsFlat rest := fun c hc => h c (List.mem_cons_of_mem _ hc)
    by_cases hend : rest = []
    · subst hend
      rw [effect_singleton]
      simp [Cmd.effect, Cmd.ink]
    · rw [Layout.effect, Effect.andThen_of_none rfl, ih hrest hend]
      simp [Cmd.effect, Effect.put, Cmd.ink, String.ofList_append]

end Layout

/-! ## Deleting blanks -/

/-- What is left without spaces and newlines. -/
def unspaced (cs : List Char) : List Char := cs.filter fun c => c != ' ' && c != '\n'

@[simp] theorem unspaced_nil : unspaced [] = [] := rfl

@[simp] theorem unspaced_append (a b : List Char) : unspaced (a ++ b) = unspaced a ++ unspaced b :=
  List.filter_append ..

theorem unspaced_spaces (n : Nat) : unspaced (Sink.spaces n).toList = [] := by
  rw [Sink.spaces, String.toList_ofList]
  induction n with
  | zero => rfl
  | succ n ih =>
    rw [List.replicate_succ]
    exact ih

private theorem unspaced_newline : unspaced "\n".toList = [] := by decide

private theorem unspaced_breakLine (k : Cursor) :
    unspaced (Effect.breakLine k).text.toList = [] ∧ (Effect.breakLine k).stop = none := by
  unfold Effect.breakLine
  split
  · exact ⟨unspaced_newline, rfl⟩
  · exact ⟨rfl, rfl⟩

private theorem unspaced_indent {width : Nat} {k : Cursor}
    (h : (Effect.indent width k).stop = none) :
    unspaced (Effect.indent width k).text.toList = [] := by
  rw [Effect.indent_of_none h]
  exact unspaced_spaces _

private theorem unspaced_freshLine {width : Nat} {s : String} {midLine : Bool} {k : Cursor}
    (h : (Effect.freshLine width s midLine k).stop = none) :
    unspaced (Effect.freshLine width s midLine k).text.toList = unspaced s.toList := by
  obtain ⟨hbreak, hgoes⟩ := unspaced_breakLine k
  rw [Effect.freshLine, Effect.andThen_assoc, Effect.andThen_of_none hgoes] at h ⊢
  cases hi : (Effect.indent width (Effect.breakLine k).cursor).stop with
  | some x =>
    rw [Effect.andThen_of_stop hi, hi] at h
    cases h
  | none =>
    have hindent := unspaced_indent hi
    rw [Effect.andThen_of_none hi]
    simp [hbreak, hindent, Effect.put]

theorem Cmd.unspaced_effect {sheet : Sheet} {k : Cursor} {c : Cmd}
    (h : (c.effect sheet k).stop = none) :
    unspaced (c.effect sheet k).text.toList = unspaced c.ink := by
  cases c with
  | text s => rfl
  | line s =>
    show unspaced (s ++ "\n").toList = unspaced s.toList
    rw [String.toList_append, unspaced_append, unspaced_newline, List.append_nil]
  | newline => exact unspaced_newline
  | breakLine => exact (unspaced_breakLine k).1
  | indent => exact unspaced_indent h
  | deeper =>
    simp only [Cmd.effect, Effect.deeper]
    split <;> rfl
  | shallower =>
    simp only [Cmd.effect, Effect.shallower]
    split <;> rfl
  | openBrace =>
    simp only [Cmd.effect, Effect.openBrace] at h ⊢
    split at h
    · next hsame =>
      rw [if_pos hsame]
      show unspaced " \x7b\n".toList = ['\x7b']
      decide
    · next hsame =>
      rw [if_neg hsame]
      exact unspaced_freshLine h
  | elseWord =>
    simp only [Cmd.effect, Effect.elseWord] at h ⊢
    split at h
    · next hsame =>
      rw [if_pos hsame]
      show unspaced " else".toList = ['e', 'l', 's', 'e']
      decide
    · next hsame =>
      rw [if_neg hsame]
      exact unspaced_freshLine h
  | note event => rfl
  | refuse defect => cases h

/-- Up to blanks, a layout that is performed to its end writes its ink. -/
theorem Layout.unspaced_effect {sheet : Sheet} {k : Cursor} {layout : Layout}
    (h : (layout.effect sheet k).stop = none) :
    unspaced (layout.effect sheet k).text.toList = unspaced layout.ink := by
  induction layout generalizing k with
  | nil => rfl
  | cons c rest ih =>
    cases hc : (c.effect sheet k).stop with
    | some x =>
      rw [Layout.effect, Effect.andThen_of_stop hc, hc] at h
      cases h
    | none =>
      rw [Layout.effect, Effect.andThen_of_none hc] at h ⊢
      have hrest := ih h
      have hcmd := Cmd.unspaced_effect hc
      rw [String.toList_append, unspaced_append, hcmd, hrest, ink_cons, unspaced_append]

namespace Expr

mutual

theorem isFlat_layout (e : Expr) (h : e.defects = []) : Layout.IsFlat e.layout := by
  cases e with
  | member operand field =>
    exact ((isFlat_layout operand h).append (Layout.isFlat_text ".")).append (Layout.isFlat_text _)
  | call function arguments =>
    obtain ⟨hname, hall⟩ := List.append_eq_nil_iff.mp h
    have hfunction : function ≠ "" := by
      intro hf
      rw [if_pos hf] at hname
      cases hname
    rw [Expr.layout, if_neg hfunction]
    exact (((Layout.isFlat_text _).append (Layout.isFlat_text "(")).append
      (Layout.isFlat_commaSeparated (isFlat_layouts arguments hall))).append
        (Layout.isFlat_text ")")
  | unary op operand =>
    have hinner := (isFlat_layout operand h).parens (operand.groupedUnder op)
    simp only [Expr.layout]
    split
    · exact hinner.append (Layout.isFlat_text _)
    · exact (Layout.isFlat_text _).append hinner
  | binary op left right =>
    obtain ⟨hl, hr⟩ := List.append_eq_nil_iff.mp h
    exact (((isFlat_layout left hl).append (Layout.isFlat_text _)).append
      (isFlat_layout right hr)).parens _
  | _ => exact Layout.isFlat_text _

theorem isFlat_layouts (es : List Expr) (h : Expr.defectsAll es = []) :
    ∀ item ∈ Expr.layouts es, Layout.IsFlat item := by
  cases es with
  | nil => exact nofun
  | cons e es =>
    obtain ⟨he, hes⟩ := List.append_eq_nil_iff.mp h
    intro item hi
    rcases List.mem_cons.mp hi with rfl | hi
    · exact isFlat_layout e he
    · exact isFlat_layouts es hes item hi

end

theorem written_writeExpr {e : Expr} (h : e.defects = []) {p : Printer}
    (hp : p.sink.writer.room = none) :
    Printer.written (Printer.writeExpr e) p = (String.ofList (Layout.ink e.layout)).toUTF8 := by
  rw [Printer.writeExpr, Printer.written_runKeepingDepth hp,
    (Layout.effect_of_isFlat (isFlat_layout e h) _ _).1]

end Expr

end Scribe
