import Scribe.Proofs.Defects
import Scribe.Proofs.Elision
import Scribe.Proofs.Nesting

/-! Lines that stand too deep. The levels at which the lines of a script start are read off its
tree, and so is how deeply it is nested, which can be more, because an empty block starts no line
inside. The main statement says that a script without defects aborts if and only if the indentation
of its deepest line is too wide. Style has no part in that: where it saves the indentation of a
brace or an `else`, another line of the same construct has the same one. -/

namespace Scribe

/-! ## The levels of a tree -/

/-- A block that is the body of a loop or branch stands where that stands, and any other statement
one level deeper. -/
def Stmt.bodyLevel (level : Nat) (s : Stmt) : Nat := if s.isBlock then level else level + 1

mutual

/-- The levels at which the lines of a statement start, when it stands at `level` itself. An inline
comment starts none. Braces and `else` stand where their construct stands and are not listed
again. -/
def Stmt.levels (elide : Bool) (level : Nat) : Stmt → List Nat
  | .block body => level :: Stmt.levelsAll elide false (level + 1) body
  | .branch _ body otherwise =>
    level :: (Stmt.levelsOption elide level body ++ Stmt.levelsElse elide level otherwise)
  | .whileLoop _ body => level :: body.levels elide (body.bodyLevel level)
  | .forLoop _ _ _ body => level :: body.levels elide (body.bodyLevel level)
  | .switch _ arms => level :: Arm.levelsAll elide (level + 1) arms
  | .comment comment => if comment.inline then [] else [level]
  | .decl decl => decl.levels elide level
  | _ => [level]

/-- With `closing` the statements are all of a procedure, so a bare `return` at their end starts no
line if it is left out. -/
def Stmt.levelsAll (elide closing : Bool) (level : Nat) : List Stmt → List Nat
  | [] => []
  | s :: rest =>
    (if elide && closing && rest.isEmpty && s.isBareReturn then [] else s.levels elide level) ++
      Stmt.levelsAll elide closing level rest

def Stmt.levelsOption (elide : Bool) (level : Nat) : Option Stmt → List Nat
  | none => []
  | some body => body.levels elide (body.bodyLevel level)

def Stmt.levelsElse (elide : Bool) (level : Nat) : Option (List Stmt) → List Nat
  | none => []
  | some body =>
    Stmt.levelsAll elide false (if Stmt.isChained body then level else level + 1) body

def Arm.levels (elide : Bool) (level : Nat) : Arm → List Nat
  | .onCase _ body => level :: Stmt.levelsAll elide false (level + 1) body
  | .onDefault body => level :: Stmt.levelsAll elide false (level + 1) body

def Arm.levelsAll (elide : Bool) (level : Nat) : List Arm → List Nat
  | [] => []
  | arm :: rest => arm.levels elide level ++ Arm.levelsAll elide level rest

def Decl.levels (elide : Bool) (level : Nat) : Decl → List Nat
  | .procedure _ body => level :: Decl.levelsBody elide (level + 1) body
  | .enum _ values => level :: values.map fun _ => level + 1
  | _ => [level]

def Decl.levelsBody (elide : Bool) (level : Nat) : Option (List Stmt) → List Nat
  | none => []
  | some body => Stmt.levelsAll elide true level body

end

/-- The deepest level at which a line of the script starts. -/
def Script.deepest (elide : Bool) (s : Script) : Nat :=
  (s.declarations.flatMap (Decl.levels elide 0)).foldr max 0

mutual

/-- How many levels a statement has inside, with or without lines on them. -/
def Stmt.nesting : Stmt → Nat
  | .block body => Stmt.nestingAll body + 1
  | .branch _ body otherwise => max (Stmt.nestingOption body) (Stmt.nestingElse otherwise)
  | .whileLoop _ body => body.nesting + body.bodyLevel 0
  | .forLoop _ _ _ body => body.nesting + body.bodyLevel 0
  | .switch _ arms => Arm.nestingAll arms + 1
  | .decl decl => decl.nesting
  | _ => 0

def Stmt.nestingAll : List Stmt → Nat
  | [] => 0
  | s :: rest => max s.nesting (Stmt.nestingAll rest)

def Stmt.nestingOption : Option Stmt → Nat
  | none => 1
  | some body => body.nesting + body.bodyLevel 0

def Stmt.nestingElse : Option (List Stmt) → Nat
  | none => 0
  | some body => Stmt.nestingAll body + if Stmt.isChained body then 0 else 1

def Arm.nesting : Arm → Nat
  | .onCase _ body => Stmt.nestingAll body + 1
  | .onDefault body => Stmt.nestingAll body + 1

def Arm.nestingAll : List Arm → Nat
  | [] => 0
  | arm :: rest => max arm.nesting (Arm.nestingAll rest)

def Decl.nesting : Decl → Nat
  | .procedure _ body => Decl.nestingBody body
  | .enum _ _ => 1
  | _ => 0

def Decl.nestingBody : Option (List Stmt) → Nat
  | none => 0
  | some body => Stmt.nestingAll body + 1

end

def Script.nesting (s : Script) : Nat := (s.declarations.map Decl.nesting).foldr max 0

/-! ## Indentations that fit -/

namespace Sheet

/-- A line can start at this level. -/
def Fits (sheet : Sheet) (level : Nat) : Prop := level * sheet.width ≤ Sink.widestIndent

def FitsAll (sheet : Sheet) (levels : List Nat) : Prop := ∀ level ∈ levels, sheet.Fits level

instance (sheet : Sheet) (level : Nat) : Decidable (sheet.Fits level) :=
  inferInstanceAs (Decidable (_ ≤ _))

instance (sheet : Sheet) (levels : List Nat) : Decidable (sheet.FitsAll levels) :=
  inferInstanceAs (Decidable (∀ level ∈ levels, sheet.Fits level))

@[simp] theorem fitsAll_nil (sheet : Sheet) : sheet.FitsAll [] ↔ True := by
  simp [FitsAll]

@[simp] theorem fitsAll_cons (sheet : Sheet) (level : Nat) (levels : List Nat) :
    sheet.FitsAll (level :: levels) ↔ sheet.Fits level ∧ sheet.FitsAll levels :=
  List.forall_mem_cons

@[simp] theorem fitsAll_append (sheet : Sheet) (a b : List Nat) :
    sheet.FitsAll (a ++ b) ↔ sheet.FitsAll a ∧ sheet.FitsAll b := List.forall_mem_append

theorem fits_zero (sheet : Sheet) : sheet.Fits 0 := by
  simp [Fits]

theorem fitsAll_iff_foldr_max (sheet : Sheet) (levels : List Nat) :
    sheet.FitsAll levels ↔ sheet.width * levels.foldr max 0 ≤ Sink.widestIndent := by
  induction levels with
  | nil => simp
  | cons level levels ih =>
    rw [fitsAll_cons, ih, Fits, Nat.mul_comm, List.foldr_cons, ← Nat.mul_max_mul_left, Nat.max_le]

end Sheet

/-- Whether the abort is about the width of an indentation. -/
def Abort.isWidth : Abort → Bool
  | .widthOverflow | .widthTooLarge => true
  | _ => false

namespace Effect

/-- Comes back to the depth if `fits`, and otherwise stops at an indentation that is too wide. -/
structure ReturnsIff (fits : Prop) (depth : Nat) (e : Effect) : Prop where
  returns : fits → e.stop = none ∧ e.cursor.depth = depth
  aborts : ¬ fits → ∃ a : Abort, a.isWidth = true ∧ e.stop = some (.abort a)

variable {P Q : Prop} {depth : Nat}

theorem ReturnsIff.congr {e : Effect} (h : e.ReturnsIff P depth) (hiff : P ↔ Q) :
    e.ReturnsIff Q depth :=
  ⟨fun hq => h.returns (hiff.mpr hq), fun hq => h.aborts fun hp => hq (hiff.mp hp)⟩

/-- What comes second is never reached if the first does not fit. -/
theorem ReturnsIff.andThen {e : Effect} {f : Cursor → Effect} {final : Nat}
    (he : e.ReturnsIff P depth)
    (hf : P → ∀ k : Cursor, k.depth = depth → (f k).ReturnsIff Q final) :
    (e.andThen f).ReturnsIff (P ∧ Q) final := by
  by_cases hp : P
  · obtain ⟨hstop, hdepth⟩ := he.returns hp
    have hnext := hf hp e.cursor hdepth
    rw [andThen_of_none hstop]
    exact ⟨fun h => hnext.returns h.2, fun h => hnext.aborts fun hq => h ⟨hp, hq⟩⟩
  · obtain ⟨a, hwidth, hstop⟩ := he.aborts hp
    rw [andThen_of_stop hstop]
    exact ⟨fun h => absurd h.1 hp, fun _ => ⟨a, hwidth, hstop⟩⟩

theorem returnsIff_put (s : String) (midLine : Bool) (k : Cursor) :
    (put s midLine k).ReturnsIff True k.depth :=
  ⟨fun _ => ⟨rfl, rfl⟩, fun h => absurd trivial h⟩

theorem returnsIff_stay (k : Cursor) : (stay k).ReturnsIff True k.depth :=
  ⟨fun _ => ⟨rfl, rfl⟩, fun h => absurd trivial h⟩

theorem returnsIff_breakLine (k : Cursor) : (breakLine k).ReturnsIff True k.depth := by
  unfold breakLine
  split
  · exact returnsIff_put _ _ _
  · exact returnsIff_stay _

theorem returnsIff_indent (sheet : Sheet) (k : Cursor) :
    (indent sheet.width k).ReturnsIff (sheet.Fits k.depth) k.depth := by
  have hlimit : Sink.widestIndent < Sink.wordLimit := by decide
  unfold indent Sheet.Fits
  split
  · next h => exact ⟨fun hf => by omega, fun _ => ⟨_, rfl, rfl⟩⟩
  · split
    · next h => exact ⟨fun hf => by omega, fun _ => ⟨_, rfl, rfl⟩⟩
    · next h => exact ⟨fun _ => ⟨rfl, rfl⟩, fun hf => by omega⟩

theorem returnsIff_freshLine (sheet : Sheet) (s : String) (midLine : Bool) (k : Cursor) :
    (freshLine sheet.width s midLine k).ReturnsIff (sheet.Fits k.depth) k.depth := by
  have hstart : ((breakLine k).andThen (indent sheet.width)).ReturnsIff
      (True ∧ sheet.Fits k.depth) k.depth :=
    (returnsIff_breakLine k).andThen fun _ j hj => hj ▸ returnsIff_indent sheet j
  have hline := hstart.andThen fun _ j hj => hj ▸ returnsIff_put s midLine j
  exact hline.congr (by simp)

/-- Behind other text a brace needs no indentation in one of the styles. -/
theorem returnsIff_openBrace (sheet : Sheet) (k : Cursor) :
    (openBrace sheet k).ReturnsIff
      ((sheet.style = .sameLine && k.midLine) = true ∨ sheet.Fits k.depth) k.depth := by
  unfold openBrace
  split
  · next h => exact (returnsIff_put _ _ _).congr (by simp [h])
  · next h => exact (returnsIff_freshLine sheet _ _ _).congr (by simp [h])

theorem returnsIff_elseWord (sheet : Sheet) (k : Cursor) :
    (elseWord sheet k).ReturnsIff
      ((sheet.style = .sameLine && k.midLine) = true ∨ sheet.Fits k.depth) k.depth := by
  unfold elseWord
  split
  · next h => exact (returnsIff_put _ _ _).congr (by simp [h])
  · next h => exact (returnsIff_freshLine sheet _ _ _).congr (by simp [h])

theorem returnsIff_deeper {k : Cursor} (h : k.depth + 1 < Sink.wordLimit) :
    (deeper k).ReturnsIff True (k.depth + 1) := by
  rw [deeper, if_neg (by omega)]
  exact returnsIff_stay ⟨k.depth + 1, k.midLine⟩

theorem returnsIff_shallower {k : Cursor} {depth : Nat} (h : k.depth = depth + 1) :
    (shallower k).ReturnsIff True depth := by
  rw [shallower, if_neg (by omega)]
  exact ⟨fun _ => ⟨rfl, by simp [stay, h]⟩, fun h => absurd trivial h⟩

end Effect

/-- Stays on the line or breaks it. -/
def Cmd.isOnLine : Cmd → Bool
  | .indent | .deeper | .shallower | .openBrace | .elseWord => false
  | _ => true

namespace Layout

variable {sheet : Sheet} {depth : Nat} {P Q : Prop}

/-- From any cursor at the depth, `layout` comes back there if `fits` and is too wide otherwise. -/
def ReturnsIff (sheet : Sheet) (layout : Layout) (depth : Nat) (fits : Prop) : Prop :=
  ∀ k : Cursor, k.depth = depth → (layout.effect sheet k).ReturnsIff fits depth

theorem ReturnsIff.congr {layout : Layout} (h : ReturnsIff sheet layout depth P) (hiff : P ↔ Q) :
    ReturnsIff sheet layout depth Q :=
  fun k hk => (h k hk).congr hiff

theorem ReturnsIff.append {a b : Layout} (ha : ReturnsIff sheet a depth P)
    (hb : P → ReturnsIff sheet b depth Q) : ReturnsIff sheet (a ++ b) depth (P ∧ Q) := by
  intro k hk
  rw [effect_append]
  exact (ha k hk).andThen hb

theorem refusal_append_eq_none {a b : Layout} :
    refusal (a ++ b) = none ↔ refusal a = none ∧ refusal b = none := by
  rw [refusal_append, Option.or_eq_none_iff]

/-- What neither indents nor changes the depth always comes back. -/
theorem returnsIff_of_isOnLine {layout : Layout} (h : layout.all Cmd.isOnLine = true)
    (hsound : layout.refusal = none) : ReturnsIff sheet layout depth True := by
  induction layout with
  | nil =>
    rintro k rfl
    exact Effect.returnsIff_stay k
  | cons c rest ih =>
    obtain ⟨hc, hrest⟩ := Bool.and_eq_true_iff.mp h
    have hsplit : refusal ([c] ++ rest) = none := hsound
    obtain ⟨hsound, hsoundRest⟩ := refusal_append_eq_none.mp hsplit
    have hcmd : ∀ k : Cursor, (c.effect sheet k).ReturnsIff True k.depth := by
      intro k
      cases c with
      | text s => exact Effect.returnsIff_put _ _ _
      | line s => exact Effect.returnsIff_put _ _ _
      | newline => exact Effect.returnsIff_put _ _ _
      | breakLine => exact Effect.returnsIff_breakLine k
      | note event => exact ⟨fun _ => ⟨rfl, rfl⟩, fun h => absurd trivial h⟩
      | refuse defect => cases hsound
      | _ => cases hc
    rintro k rfl
    exact ((hcmd k).andThen fun _ => ih hrest hsoundRest).congr (by simp)

theorem returnsIff_of_inline {layout : Layout} (h : layout.inline = true)
    (hsound : layout.refusal = none) : ReturnsIff sheet layout depth True := by
  refine returnsIff_of_isOnLine ?_ hsound
  rw [inline, List.all_eq_true] at h
  rw [List.all_eq_true]
  intro c hc
  have hinline := h c hc
  cases c with
  | text s => rfl
  | refuse defect => rfl
  | _ => cases hinline

theorem returnsIff_indent : ReturnsIff sheet [.indent] depth (sheet.Fits depth) := by
  rintro k rfl
  rw [effect_singleton]
  exact Effect.returnsIff_indent sheet k

/-- A line that goes on without further indentation. -/
theorem ReturnsIff.indented {rest : Layout} (h : ReturnsIff sheet rest depth True) :
    ReturnsIff sheet (.indent :: rest) depth (sheet.Fits depth) :=
  (returnsIff_indent.append fun _ => h).congr (by simp)

theorem returnsIff_elseWord (h : sheet.Fits depth) :
    ReturnsIff sheet [.elseWord] depth True := by
  rintro k rfl
  rw [effect_singleton]
  exact (Effect.returnsIff_elseWord sheet k).congr (by simp [h])

theorem ReturnsIff.inLevel {inner : Layout} (h : ReturnsIff sheet inner (depth + 1) P)
    (hdepth : depth + 1 < Sink.wordLimit) :
    ReturnsIff sheet ([Cmd.deeper] ++ inner ++ [Cmd.shallower]) depth P := by
  rintro k rfl
  rw [effect_append, effect_append, effect_singleton]
  have hinner := (Effect.returnsIff_deeper hdepth).andThen fun _ => h
  have hleave : ∀ j : Cursor, j.depth = k.depth + 1 →
      (effect sheet [.shallower] j).ReturnsIff True k.depth := by
    intro j hj
    rw [effect_singleton]
    exact Effect.returnsIff_shallower hj
  exact (hinner.andThen fun _ => hleave).congr (by simp)

/-- Also where the opening brace is saved its indentation, the closing one is not. -/
theorem ReturnsIff.braces {inner : Layout} (h : ReturnsIff sheet inner (depth + 1) P)
    (hdepth : depth + 1 < Sink.wordLimit) (keepLine : Bool) :
    ReturnsIff sheet (braces keepLine inner) depth (sheet.Fits depth ∧ P) := by
  have hbreak : ReturnsIff sheet [.breakLine] depth True := returnsIff_of_isOnLine rfl rfl
  let after : Layout := if keepLine then [] else [.newline]
  have hend : ReturnsIff sheet (Cmd.text "\x7d" :: after) depth True := by
    cases keepLine <;> exact returnsIff_of_isOnLine rfl rfl
  have hclose := (hbreak.append fun _ => returnsIff_indent).append fun _ => hend
  have hrest := (h.inLevel hdepth).append fun _ => hclose
  have hsplit : Layout.braces keepLine inner =
      [Cmd.openBrace] ++ ([Cmd.deeper] ++ inner ++ [Cmd.shallower] ++
        ([Cmd.breakLine] ++ [Cmd.indent] ++ Cmd.text "\x7d" :: after)) := by
    simp [Layout.braces, after]
  rintro k rfl
  rw [hsplit, effect_append, effect_singleton]
  refine ((Effect.returnsIff_openBrace sheet k).andThen fun _ => hrest).congr ?_
  constructor
  · rintro ⟨-, hinner, ⟨-, hfits⟩, -⟩
    exact ⟨hfits, hinner⟩
  · rintro ⟨hfits, hinner⟩
    exact ⟨Or.inr hfits, hinner, ⟨trivial, hfits⟩, trivial⟩

end Layout

/-! ## Layouts of trees -/

theorem EnumValue.returnsIff_lines {sheet : Sheet} {level : Nat} (values : List EnumValue)
    (hsound : Layout.refusal (EnumValue.lines values) = none) :
    Layout.ReturnsIff sheet (EnumValue.lines values) level
      (sheet.FitsAll (values.map fun _ => level)) := by
  induction values with
  | nil => exact (Layout.returnsIff_of_isOnLine rfl rfl).congr (by simp)
  | cons v vs ih =>
    rw [EnumValue.lines] at hsound ⊢
    simp only [Layout.refusal_append_eq_none] at hsound
    obtain ⟨⟨⟨-, hv⟩, hend⟩, hvs⟩ := hsound
    have hvalue : Layout.ReturnsIff sheet v.layout level True :=
      Layout.returnsIff_of_inline v.inline_layout hv
    have hbreak : Layout.ReturnsIff sheet [if vs.isEmpty then .newline else .line ","] level
        True := by
      cases vs <;> exact Layout.returnsIff_of_isOnLine rfl rfl
    have hline := (Layout.returnsIff_indent.append fun _ => hvalue).append fun _ => hbreak
    exact (hline.append fun _ => ih hvs).congr (by simp)

theorem Comment.returnsIff_ownLine {sheet : Sheet} {level : Nat} (content : String) :
    Layout.ReturnsIff sheet (Comment.ownLine content) level (sheet.Fits level) := by
  unfold Comment.ownLine
  split
  · exact (Layout.returnsIff_of_isOnLine rfl rfl).indented
  · split <;> exact (Layout.returnsIff_of_isOnLine rfl rfl).indented

theorem Decl.returnsIff_terminator {sheet : Sheet} {level : Nat} (d : Decl) :
    Layout.ReturnsIff sheet d.terminator level True := by
  unfold Decl.terminator
  split <;> exact Layout.returnsIff_of_isOnLine rfl rfl

namespace Stmt

variable {sheet : Sheet} {level : Nat}

theorem mem_levels {s : Stmt} (h : s.placesItself = false) (elide : Bool) (level : Nat) :
    level ∈ s.levels elide level := by
  cases s with
  | block body => cases h
  | forLoop init condition after body => cases h
  | ret value => cases h
  | comment comment => cases h
  | decl decl => cases decl <;> exact List.mem_cons_self
  | _ => exact List.mem_cons_self

theorem placesItself_of_isBlock {s : Stmt} (h : s.isBlock = true) : s.placesItself = true := by
  cases s with
  | block body => rfl
  | _ => cases h

/-- Under the indentation that it is given, a statement can be sure that lines fit at its level. -/
theorem returnsIff_led {elide : Bool} {s : Stmt} {core : Layout}
    (h : (s.placesItself = false → sheet.Fits level) →
      Layout.ReturnsIff sheet core level (sheet.FitsAll (s.levels elide level))) :
    Layout.ReturnsIff sheet (s.lead ++ core) level (sheet.FitsAll (s.levels elide level)) := by
  unfold lead
  cases hplaces : s.placesItself with
  | true => exact h fun hnot => by rw [hplaces] at hnot; cases hnot
  | false =>
    refine (Layout.returnsIff_indent.append fun hfits => h fun _ => hfits).congr ?_
    exact ⟨fun hall => hall.2, fun hall => ⟨hall level (mem_levels hplaces elide level), hall⟩⟩

theorem returnsIff_attached {elide : Bool} {s : Stmt} {core : Layout}
    (hdeep : level + (s.nesting + s.bodyLevel 0) < Sink.wordLimit)
    (h : ∀ level, level + s.nesting < Sink.wordLimit →
      (s.placesItself = false → sheet.Fits level) →
        Layout.ReturnsIff sheet core level (sheet.FitsAll (s.levels elide level))) :
    Layout.ReturnsIff sheet (s.attached core) level
      (sheet.FitsAll (s.levels elide (s.bodyLevel level))) := by
  unfold attached
  cases hblock : s.isBlock with
  | true =>
    have hbody : ∀ level, s.bodyLevel level = level := fun _ => by simp [bodyLevel, hblock]
    have hplaces := placesItself_of_isBlock hblock
    rw [hbody] at hdeep ⊢
    exact h level hdeep fun hnot => by rw [hplaces] at hnot; cases hnot
  | false =>
    have hbody : ∀ level, s.bodyLevel level = level + 1 := fun _ => by simp [bodyLevel, hblock]
    rw [hbody] at hdeep ⊢
    have hlone := returnsIff_led (h (level + 1) (by omega))
    have hbreak : Layout.ReturnsIff sheet [.breakLine] level True :=
      Layout.returnsIff_of_isOnLine rfl rfl
    have hlevel := hbreak.append fun _ => hlone.inLevel (by omega)
    simpa using hlevel

/-- A statement of a list is laid out as any other, unless it is left out. -/
theorem core_of_not_elided {elide closing : Bool} {s : Stmt} {rest : List Stmt}
    (h : (elide && closing && rest.isEmpty && s.isBareReturn) = false) (procedure : String) :
    s.core elide (if rest.isEmpty then if closing then .last procedure else .inside procedure
      else .inside procedure) false = s.core elide (.inside procedure) false := by
  cases hrest : rest.isEmpty with
  | false => rfl
  | true =>
    cases closing with
    | false => rfl
    | true =>
      have hs : (elide && s.isBareReturn) = false := by simpa [hrest] using h
      exact (core_nested hs (.last procedure) false).symm

end Stmt

mutual

/-- Where a statement is given its indentation, `hfits` says that it was not too wide. -/
theorem Stmt.returnsIff_core (sheet : Sheet) (elide : Bool) (procedure : String)
    (keepLine : Bool) (s : Stmt) (level : Nat) (hdeep : level + s.nesting < Sink.wordLimit)
    (hsound : Layout.refusal (s.core elide (.inside procedure) keepLine) = none)
    (hfits : s.placesItself = false → sheet.Fits level) :
    Layout.ReturnsIff sheet (s.core elide (.inside procedure) keepLine) level
      (sheet.FitsAll (s.levels elide level)) := by
  cases s with
  | block body =>
    rw [Stmt.nesting] at hdeep
    rw [Stmt.core, Layout.refusal_braces] at hsound
    have hbody := Stmt.returnsIff_layouts sheet elide false procedure body (level + 1)
      (by omega) hsound
    exact (hbody.braces (by omega) keepLine).congr (by simp [Stmt.levels])
  | branch condition body otherwise =>
    have hlevel := hfits rfl
    rw [Stmt.nesting] at hdeep
    rw [Stmt.core] at hsound ⊢
    split at hsound
    · cases hsound
    · next hbranch =>
      rw [if_neg hbranch]
      simp only [Layout.refusal_append_eq_none] at hsound
      obtain ⟨⟨hcondition, hbody⟩, helse⟩ := hsound
      have hhead : Layout.ReturnsIff sheet (Stmt.branchHead condition) level True :=
        Layout.returnsIff_of_inline (Stmt.inline_branchHead condition) hcondition
      -- braces and `else` stand at a level that fits, so only what is inside can fail to
      have hthen := Stmt.returnsIff_consequent sheet elide procedure otherwise.isSome body level
        (by omega) hbody hlevel
      have hotherwise := Stmt.returnsIff_alternative sheet elide procedure otherwise level
        (by omega) helse hlevel
      refine ((hhead.append fun _ => hthen).append fun _ => hotherwise).congr ?_
      simp [Stmt.levels, hlevel]
  | whileLoop condition body =>
    have hlevel := hfits rfl
    rw [Stmt.nesting] at hdeep
    rw [Stmt.core] at hsound ⊢
    rw [Layout.refusal_append_eq_none, Stmt.refusal_attached] at hsound
    obtain ⟨hcondition, hbody⟩ := hsound
    have hhead : Layout.ReturnsIff sheet
        ([Cmd.text "while ("] ++ condition.layout ++ [Cmd.text ")"]) level True :=
      Layout.returnsIff_of_inline (by simp [Cmd.isInline, condition.inline_layout]) hcondition
    have hloop := Stmt.returnsIff_attached hdeep fun level hdeep =>
      Stmt.returnsIff_core sheet elide procedure false body level hdeep hbody
    exact (hhead.append fun _ => hloop).congr (by simp [Stmt.levels, hlevel])
  | forLoop init condition after body =>
    rw [Stmt.nesting] at hdeep
    rw [Stmt.core] at hsound ⊢
    rw [Layout.refusal_append_eq_none, Stmt.refusal_attached] at hsound
    obtain ⟨hclauses, hbody⟩ := hsound
    have hblank : Layout.ReturnsIff sheet [.breakLine, .newline] level True :=
      Layout.returnsIff_of_isOnLine rfl rfl
    have hhead : Layout.ReturnsIff sheet ([Cmd.text "for ("] ++ init.layout ++ [Cmd.text "; "] ++
        condition.layout ++ [Cmd.text "; "] ++ after.layout ++ [Cmd.text ")"]) level True :=
      Layout.returnsIff_of_inline
        (by simp [Cmd.isInline, init.inline_layout, condition.inline_layout, after.inline_layout])
        hclauses
    have hloop := Stmt.returnsIff_attached hdeep fun level hdeep =>
      Stmt.returnsIff_core sheet elide procedure false body level hdeep hbody
    have hall := (hblank.append fun _ => hhead.indented).append fun _ => hloop
    exact hall.congr (by simp [Stmt.levels])
  | switch scrutinee arms =>
    have hlevel := hfits rfl
    rw [Stmt.nesting] at hdeep
    rw [Stmt.core] at hsound ⊢
    split at hsound
    · cases hsound
    · next hswitch =>
      rw [if_neg hswitch]
      rw [Layout.refusal_append_eq_none, Layout.refusal_braces] at hsound
      obtain ⟨hscrutinee, harms⟩ := hsound
      have hhead : Layout.ReturnsIff sheet
          ([Cmd.text "switch ("] ++ scrutinee.layout ++ [Cmd.text ")"]) level True :=
        Layout.returnsIff_of_inline (by simp [Cmd.isInline, scrutinee.inline_layout]) hscrutinee
      have hbody := Arm.returnsIff_layouts sheet elide procedure arms (level + 1) (by omega) harms
      have hbraces := hbody.braces (by omega) false
      exact (hhead.append fun _ => hbraces).congr (by simp [Stmt.levels])
  | ret value =>
    cases value with
    | none => exact (Layout.returnsIff_of_isOnLine rfl rfl).indented.congr (by simp [Stmt.levels])
    | some value =>
      rw [Stmt.core] at hsound ⊢
      obtain ⟨hvalue, -⟩ := Layout.refusal_append_eq_none.mp hsound
      have hword : Layout.ReturnsIff sheet ([Cmd.text "return "] ++ value.layout) level True :=
        Layout.returnsIff_of_inline (by simp [Cmd.isInline, value.inline_layout]) hvalue
      have hend : Layout.ReturnsIff sheet Layout.semicolon level True :=
        Layout.returnsIff_of_isOnLine rfl rfl
      exact (hword.indented.append fun _ => hend).congr (by simp [Stmt.levels])
  | comment comment =>
    rw [Stmt.core, Stmt.levels, Comment.layout]
    split
    · exact (Layout.returnsIff_of_isOnLine rfl rfl).congr (by simp)
    · exact (Comment.returnsIff_ownLine comment.content).congr (by simp)
  | expr expr =>
    have hlevel := hfits rfl
    rw [Stmt.core] at hsound ⊢
    obtain ⟨hexpr, -⟩ := Layout.refusal_append_eq_none.mp hsound
    have hvalue : Layout.ReturnsIff sheet expr.layout level True :=
      Layout.returnsIff_of_inline expr.inline_layout hexpr
    have hend : Layout.ReturnsIff sheet Layout.semicolon level True :=
      Layout.returnsIff_of_isOnLine rfl rfl
    exact (hvalue.append fun _ => hend).congr (by simp [Stmt.levels, hlevel])
  | decl decl =>
    rw [Stmt.nesting] at hdeep
    rw [Stmt.core] at hsound ⊢
    obtain ⟨hdecl, -⟩ := Layout.refusal_append_eq_none.mp hsound
    have hlayout := Decl.returnsIff_layout sheet elide decl level hdeep hdecl (hfits rfl)
    exact (hlayout.append fun _ => decl.returnsIff_terminator).congr (by simp [Stmt.levels])
  | _ =>
    have hlevel := hfits rfl
    exact (Layout.returnsIff_of_isOnLine rfl rfl).congr (by simp [Stmt.levels, hlevel])

theorem Stmt.returnsIff_layouts (sheet : Sheet) (elide closing : Bool) (procedure : String)
    (body : List Stmt) (level : Nat) (hdeep : level + Stmt.nestingAll body < Sink.wordLimit)
    (hsound : Layout.refusal (Stmt.layouts elide (.inside procedure)
      (if closing then .last procedure else .inside procedure) body) = none) :
    Layout.ReturnsIff sheet (Stmt.layouts elide (.inside procedure)
      (if closing then .last procedure else .inside procedure) body) level
      (sheet.FitsAll (Stmt.levelsAll elide closing level body)) := by
  cases body with
  | nil => exact (Layout.returnsIff_of_isOnLine rfl rfl).congr (by simp [Stmt.levelsAll])
  | cons s rest =>
    rw [Stmt.nestingAll] at hdeep
    rw [Stmt.layouts] at hsound ⊢
    simp only [Layout.refusal_append_eq_none] at hsound
    obtain ⟨⟨-, hs⟩, hrest⟩ := hsound
    have hlater := Stmt.returnsIff_layouts sheet elide closing procedure rest level
      (by omega) hrest
    rw [Stmt.levelsAll, Sheet.fitsAll_append]
    refine Layout.ReturnsIff.append ?_ fun _ => hlater
    cases helided : elide && closing && rest.isEmpty && s.isBareReturn with
    | true =>
      simp only [Bool.and_eq_true] at helided
      obtain ⟨⟨⟨rfl, rfl⟩, hlast⟩, hbare⟩ := helided
      obtain rfl := Stmt.eq_ret_of_isBareReturn hbare
      -- what is left of the closing `return` is a note
      rw [if_pos hlast]
      exact (Layout.returnsIff_of_isOnLine rfl rfl).congr (by simp)
    | false =>
      rw [Stmt.core_of_not_elided helided] at hs ⊢
      exact Stmt.returnsIff_led
        (Stmt.returnsIff_core sheet elide procedure false s level (by omega) hs)

theorem Stmt.returnsIff_consequent (sheet : Sheet) (elide : Bool) (procedure : String)
    (keepLine : Bool) (body : Option Stmt) (level : Nat)
    (hdeep : level + Stmt.nestingOption body < Sink.wordLimit)
    (hsound : Layout.refusal (Stmt.consequent elide (.inside procedure) keepLine body) = none)
    (hfits : sheet.Fits level) :
    Layout.ReturnsIff sheet (Stmt.consequent elide (.inside procedure) keepLine body) level
      (sheet.FitsAll (Stmt.levelsOption elide level body)) := by
  cases body with
  | none =>
    have hempty : Layout.ReturnsIff sheet [] (level + 1) True :=
      Layout.returnsIff_of_isOnLine rfl rfl
    exact (hempty.braces hdeep keepLine).congr (by simp [Stmt.levelsOption, hfits])
  | some body =>
    rw [Stmt.consequent, Stmt.refusal_attached] at hsound
    exact Stmt.returnsIff_attached hdeep fun level hdeep =>
      Stmt.returnsIff_core sheet elide procedure keepLine body level hdeep hsound

theorem Stmt.returnsIff_alternative (sheet : Sheet) (elide : Bool) (procedure : String)
    (body : Option (List Stmt)) (level : Nat)
    (hdeep : level + Stmt.nestingElse body < Sink.wordLimit)
    (hsound : Layout.refusal (Stmt.alternative elide (.inside procedure) body) = none)
    (hfits : sheet.Fits level) :
    Layout.ReturnsIff sheet (Stmt.alternative elide (.inside procedure) body) level
      (sheet.FitsAll (Stmt.levelsElse elide level body)) := by
  cases body with
  | none => exact (Layout.returnsIff_of_isOnLine rfl rfl).congr (by simp [Stmt.levelsElse])
  | some body =>
    have hword : Layout.ReturnsIff sheet [.elseWord] level True := Layout.returnsIff_elseWord hfits
    rw [Stmt.nestingElse] at hdeep
    rw [Stmt.alternative, Layout.refusal_append_eq_none] at hsound
    rw [Stmt.alternative, Stmt.levelsElse]
    by_cases hchained : Stmt.isChained body = true
    · simp only [if_pos hchained] at hdeep hsound ⊢
      have hblank : Layout.ReturnsIff sheet [.text " "] level True :=
        Layout.returnsIff_of_isOnLine rfl rfl
      have hnext := Stmt.returnsIff_firstCore sheet elide procedure body level hchained hdeep
        (Layout.refusal_append_eq_none.mp hsound.2).2 hfits
      exact (hword.append fun _ => hblank.append fun _ => hnext).congr (by simp)
    · simp only [if_neg hchained, Layout.refusal_braces] at hdeep hsound ⊢
      have hbody := Stmt.returnsIff_layouts sheet elide false procedure body (level + 1)
        (by omega) hsound.2
      have hbraces := hbody.braces (by omega) false
      exact (hword.append fun _ => hbraces).congr (by simp [hfits])

theorem Stmt.returnsIff_firstCore (sheet : Sheet) (elide : Bool) (procedure : String)
    (body : List Stmt) (level : Nat) (hchained : Stmt.isChained body = true)
    (hdeep : level + Stmt.nestingAll body < Sink.wordLimit)
    (hsound : Layout.refusal (Stmt.firstCore elide (.inside procedure) body) = none)
    (hfits : sheet.Fits level) :
    Layout.ReturnsIff sheet (Stmt.firstCore elide (.inside procedure) body) level
      (sheet.FitsAll (Stmt.levelsAll elide false level body)) := by
  match body, hchained with
  | [s], _ =>
    rw [Stmt.nestingAll] at hdeep
    have hcore := Stmt.returnsIff_core sheet elide procedure false s level (by omega) hsound
      fun _ => hfits
    exact hcore.congr (by simp [Stmt.levelsAll])

theorem Arm.returnsIff_layouts (sheet : Sheet) (elide : Bool) (procedure : String)
    (arms : List Arm) (level : Nat) (hdeep : level + Arm.nestingAll arms < Sink.wordLimit)
    (hsound : Layout.refusal (Arm.layouts elide (.inside procedure) arms) = none) :
    Layout.ReturnsIff sheet (Arm.layouts elide (.inside procedure) arms) level
      (sheet.FitsAll (Arm.levelsAll elide level arms)) := by
  cases arms with
  | nil => exact (Layout.returnsIff_of_isOnLine rfl rfl).congr (by simp [Arm.levelsAll])
  | cons arm rest =>
    rw [Arm.nestingAll] at hdeep
    rw [Arm.layouts] at hsound ⊢
    obtain ⟨harm, hrest⟩ := Layout.refusal_append_eq_none.mp hsound
    have hfirst := Arm.returnsIff_layout sheet elide procedure arm level (by omega) harm
    have hlater := Arm.returnsIff_layouts sheet elide procedure rest level (by omega) hrest
    exact (hfirst.append fun _ => hlater).congr (by simp [Arm.levelsAll])

theorem Arm.returnsIff_layout (sheet : Sheet) (elide : Bool) (procedure : String) (arm : Arm)
    (level : Nat) (hdeep : level + arm.nesting < Sink.wordLimit)
    (hsound : Layout.refusal (arm.layout elide (.inside procedure)) = none) :
    Layout.ReturnsIff sheet (arm.layout elide (.inside procedure)) level
      (sheet.FitsAll (arm.levels elide level)) := by
  cases arm with
  | onCase value body =>
    rw [Arm.nesting] at hdeep
    rw [Arm.layout] at hsound
    simp only [Layout.refusal_append_eq_none] at hsound
    obtain ⟨⟨⟨⟨-, hvalue⟩, -⟩, hstmts⟩, -⟩ := hsound
    have hlabel : Layout.ReturnsIff sheet ([Cmd.text "case "] ++ value.layout) level True :=
      Layout.returnsIff_of_inline (by simp [Cmd.isInline, value.inline_layout]) hvalue
    have hend : Layout.ReturnsIff sheet [.line ":"] level True :=
      Layout.returnsIff_of_isOnLine rfl rfl
    have hbody := Stmt.returnsIff_layouts sheet elide false procedure body (level + 1)
      (by omega) hstmts
    have hall := (hlabel.indented.append fun _ => hend).append fun _ => hbody.inLevel (by omega)
    simpa [Arm.layout, Arm.levels] using hall
  | onDefault body =>
    rw [Arm.nesting] at hdeep
    rw [Arm.layout] at hsound
    simp only [Layout.refusal_append_eq_none] at hsound
    have hlabel : Layout.ReturnsIff sheet [.text "default:", .newline] level True :=
      Layout.returnsIff_of_isOnLine rfl rfl
    have hbody := Stmt.returnsIff_layouts sheet elide false procedure body (level + 1)
      (by omega) hsound.1.2
    have hall := hlabel.indented.append fun _ => hbody.inLevel (by omega)
    simpa [Arm.layout, Arm.levels] using hall

theorem Decl.returnsIff_layout (sheet : Sheet) (elide : Bool) (d : Decl) (level : Nat)
    (hdeep : level + d.nesting < Sink.wordLimit)
    (hsound : Layout.refusal (d.layout elide) = none) (hfits : sheet.Fits level) :
    Layout.ReturnsIff sheet (d.layout elide) level (sheet.FitsAll (d.levels elide level)) := by
  cases d with
  | prototype index signature =>
    rw [Decl.layout] at hsound ⊢
    split at hsound
    · cases hsound
    · next hnamed =>
      rw [if_neg hnamed]
      have hline : Layout.ReturnsIff sheet ([Cmd.text "function(",
          Cmd.text (Literal.hexadecimal index), Cmd.text ") "] ++ signature.layout) level True :=
        Layout.returnsIff_of_inline (by simp [Cmd.isInline, signature.inline_layout]) hsound
      exact hline.congr (by simp [Decl.levels, hfits])
  | var declared =>
    have hline : Layout.ReturnsIff sheet declared.layout level True :=
      Layout.returnsIff_of_inline declared.inline_layout hsound
    exact hline.congr (by simp [Decl.levels, hfits])
  | procedure signature body =>
    rw [Decl.nesting] at hdeep
    rw [Decl.layout] at hsound ⊢
    split at hsound
    · cases hsound
    · next hnamed =>
      rw [if_neg hnamed]
      simp only [Layout.refusal_append_eq_none] at hsound
      obtain ⟨⟨-, hsignature⟩, hbody⟩ := hsound
      have hnote : Layout.ReturnsIff sheet
          [.note (.procedure signature.name (body.getD []).length)] level True :=
        Layout.returnsIff_of_isOnLine rfl rfl
      have hhead : Layout.ReturnsIff sheet signature.layout level True :=
        Layout.returnsIff_of_inline signature.inline_layout hsignature
      have hrest := Decl.returnsIff_bodyLayout sheet elide signature.name body level hdeep hbody
        hfits
      refine ((hnote.append fun _ => hhead).append fun _ => hrest).congr ?_
      simp [Decl.levels, hfits]
  | enum name values =>
    rw [Decl.nesting] at hdeep
    rw [Decl.layout] at hsound ⊢
    simp only [Layout.refusal_append_eq_none, Layout.refusal_braces] at hsound
    have hhead : Layout.ReturnsIff sheet ([Cmd.text "enum "] ++ Layout.name name) level True :=
      Layout.returnsIff_of_isOnLine rfl rfl
    have hvalues : Layout.ReturnsIff sheet (EnumValue.lines values) (level + 1)
        (sheet.FitsAll (values.map fun _ => level + 1)) :=
      EnumValue.returnsIff_lines values hsound.2
    have hbraces := hvalues.braces hdeep true
    exact (hhead.append fun _ => hbraces).congr (by simp [Decl.levels])
  | enumValue value =>
    have hline : Layout.ReturnsIff sheet value.layout level True :=
      Layout.returnsIff_of_inline value.inline_layout hsound
    exact hline.congr (by simp [Decl.levels, hfits])

theorem Decl.returnsIff_bodyLayout (sheet : Sheet) (elide : Bool) (procedure : String)
    (body : Option (List Stmt)) (level : Nat)
    (hdeep : level + Decl.nestingBody body < Sink.wordLimit)
    (hsound : Layout.refusal (Decl.bodyLayout elide procedure body) = none)
    (hfits : sheet.Fits level) :
    Layout.ReturnsIff sheet (Decl.bodyLayout elide procedure body) level
      (sheet.FitsAll (Decl.levelsBody elide (level + 1) body)) := by
  cases body with
  | none => exact (Layout.returnsIff_of_isOnLine rfl rfl).congr (by simp [Decl.levelsBody])
  | some body =>
    rw [Decl.nestingBody] at hdeep
    rw [Decl.bodyLayout, Layout.refusal_braces] at hsound
    have hbody := Stmt.returnsIff_layouts sheet elide true procedure body (level + 1)
      (by omega) hsound
    exact (hbody.braces (by omega) false).congr (by simp [Decl.levelsBody, hfits])

end

/-! ## Scripts -/

theorem Layout.returnsIff_banner {sheet : Sheet} (o : Options) (title : String) :
    ReturnsIff sheet (banner o title) 0 True := by
  have hblank : ReturnsIff sheet [.newline] 0 True := returnsIff_of_isOnLine rfl rfl
  have hline : ∀ content, ReturnsIff sheet (Comment.ownLine content) 0 True := fun content =>
    (Comment.returnsIff_ownLine content).congr (by simp [sheet.fits_zero])
  unfold banner
  split
  · exact ((((hblank.append fun _ => hline "").append fun _ => hline title).append fun _ =>
      hline "").append fun _ => hblank).congr (by simp)
  · exact returnsIff_of_isOnLine rfl rfl

namespace Script

variable {sheet : Sheet}

theorem returnsIff_importSection (o : Options) (imports : List String) :
    Layout.ReturnsIff sheet (importSection o imports) 0 True := by
  have hsound := refusal_importSection o imports
  cases imports with
  | nil => exact Layout.returnsIff_of_isOnLine rfl rfl
  | cons file files =>
    have hlines : Layout.ReturnsIff sheet ((file :: files).flatMap Layout.importLine) 0 True := by
      refine Layout.returnsIff_of_isOnLine ?_ (Layout.refusal_append_eq_none.mp hsound).2
      simp [Layout.importLine, Layout.semicolon, Cmd.isOnLine]
    exact ((Layout.returnsIff_banner o "Imports").append fun _ => hlines).congr (by simp)

theorem returnsIff_heading (o : Options) (earlier : List Decl) (d : Decl) :
    Layout.ReturnsIff sheet (heading o earlier d) 0 True := by
  unfold heading
  split
  · exact Layout.returnsIff_banner _ _
  · split
    · exact Layout.returnsIff_banner _ _
    · exact Layout.returnsIff_of_isOnLine rfl rfl

theorem returnsIff_declarationSections (sheet : Sheet) (o : Options) (earlier ds : List Decl)
    (hdeep : (ds.map Decl.nesting).foldr max 0 < Sink.wordLimit)
    (hsound : Layout.refusal (declarationSections o earlier ds) = none) :
    Layout.ReturnsIff sheet (declarationSections o earlier ds) 0
      (sheet.FitsAll (ds.flatMap (Decl.levels o.elideTrailingReturn 0))) := by
  induction ds generalizing earlier with
  | nil => exact (Layout.returnsIff_of_isOnLine rfl rfl).congr (by simp)
  | cons d ds ih =>
    rw [List.map_cons, List.foldr_cons] at hdeep
    simp only [declarationSections, Decl.terminated, Layout.refusal_append_eq_none] at hsound
    obtain ⟨⟨-, hd, -⟩, hds⟩ := hsound
    have hfirst := d.returnsIff_layout sheet o.elideTrailingReturn 0 (by omega) hd sheet.fits_zero
    have hterminated := hfirst.append fun _ => d.returnsIff_terminator
    have hlater := ih (d :: earlier) (by omega) hds
    refine (((returnsIff_heading o earlier d).append fun _ => hterminated).append fun _ =>
      hlater).congr ?_
    simp

theorem returnsIff_layout (sheet : Sheet) (o : Options) {s : Script}
    (hsound : s.firstDefect = none) (hdeep : s.nesting < Sink.wordLimit) :
    Layout.ReturnsIff sheet (s.layout o) 0
      (sheet.width * s.deepest o.elideTrailingReturn ≤ Sink.widestIndent) := by
  rw [← refusal_eq_firstDefect o, layout, Layout.refusal_append_eq_none] at hsound
  have hnote : Layout.ReturnsIff sheet
      [.note (.script s.imports.length s.declarations.length)] 0 True :=
    Layout.returnsIff_of_isOnLine rfl rfl
  have hhead := hnote.append fun _ => returnsIff_importSection o s.imports
  have hdeclarations := returnsIff_declarationSections sheet o [] s.declarations hdeep hsound.2
  refine (hhead.append fun _ => hdeclarations).congr ?_
  rw [Sheet.fitsAll_iff_foldr_max, deepest]
  simp

/-- A script without defects, nested less deeply than can be counted, aborts if and only if the
indentation of its deepest line is wider than can be written. Nothing else makes it abort. -/
theorem aborts_iff_deepest (s : Script) (w : Writer) (o : Options) (hroom : w.room = none)
    (hsound : s.firstDefect = none) (hdeep : s.nesting < Sink.wordLimit) :
    ((∃ a, (s.outcome w o).result = .error (.abort a)) ↔
      Sink.widestIndent < o.indentWidth * s.deepest o.elideTrailingReturn) ∧
    ∀ a, (s.outcome w o).result = .error (.abort a) → a = .widthOverflow ∨ a = .widthTooLarge := by
  have heffect : (s.effect o).ReturnsIff
      (o.indentWidth * s.deepest o.elideTrailingReturn ≤ Sink.widestIndent) 0 :=
    returnsIff_layout ⟨o.braceStyle, o.indentWidth⟩ o hsound hdeep ⟨0, false⟩ rfl
  simp only [result_eq_abort_iff hroom]
  by_cases hfits : o.indentWidth * s.deepest o.elideTrailingReturn ≤ Sink.widestIndent
  · have hstop := (heffect.returns hfits).1
    refine ⟨⟨?_, fun hwide => absurd hfits (by omega)⟩, ?_⟩
    · rintro ⟨a, ha⟩
      rw [hstop] at ha
      cases ha
    · intro a ha
      rw [hstop] at ha
      cases ha
  · obtain ⟨a, hwidth, hstop⟩ := heffect.aborts hfits
    refine ⟨⟨fun _ => by omega, fun _ => ⟨a, hstop⟩⟩, ?_⟩
    intro b hb
    obtain rfl : a = b := by rw [hstop] at hb; simpa using hb
    cases a with
    | widthOverflow => exact Or.inl rfl
    | widthTooLarge => exact Or.inr rfl
    | _ => cases hwidth

/-- A comment that stays on the line and a `return` that is left out are nested twice, but the
deepest line is the closing brace around them, until the `return` is written. -/
theorem aborts_iff_deepest_closing :
    let inner : Decl := .procedure ⟨"void", "inner", []⟩ (some [.comment ⟨"b", true⟩, .ret none])
    let s : Script := ⟨["a"], [.procedure ⟨"void", "main", []⟩ (some [.decl inner])]⟩
    let wide (style : BraceStyle) (elide : Bool) : Options :=
      { indentWidth := 40000, braceStyle := style, elideTrailingReturn := elide }
    s.firstDefect = none ∧ s.nesting = 2 ∧ s.deepest true = 1 ∧ s.deepest false = 2 ∧
      ∀ style : BraceStyle,
        (∀ a, (s.outcome {} (wide style true)).result ≠ .error (.abort a)) ∧
        ∃ a, (s.outcome {} (wide style false)).result = .error (.abort a) := by
  intro inner s wide
  have hsound : s.firstDefect = none := by decide
  have hdeep : s.nesting < Sink.wordLimit := by decide
  have hfits : ¬ Sink.widestIndent < 40000 * s.deepest true := by decide
  have hwide : Sink.widestIndent < 40000 * s.deepest false := by decide
  refine ⟨hsound, by decide, by decide, by decide, fun style => ⟨?_, ?_⟩⟩
  · intro a ha
    exact hfits ((aborts_iff_deepest s {} (wide style true) rfl hsound hdeep).1.mp ⟨a, ha⟩)
  · exact (aborts_iff_deepest s {} (wide style false) rfl hsound hdeep).1.mpr hwide

end Script

end Scribe
