import Scribe.Proofs.Page.Contents

/-! How layouts move from line to line. `Leads` says what a layout makes of the line that it finds:
which commands may follow which, so that no line ends before something is on it, and where the blank
lines are. It is a matter of the commands alone and holds of the layout of every tree. What it means
for the page is shown elsewhere. -/

namespace Scribe

/-! ## States of a line -/

/-- What is known of the line that the cursor stands on. -/
inductive LineState where
  /-- Nothing is on it. -/
  | start
  /-- A statement can come next: nothing is on the line, or something that shares it. -/
  | between
  /-- Indentation or text, perhaps all blank. -/
  | margin
  /-- Text that can be seen. -/
  | inked
  /-- A closing brace and nothing else. -/
  | closed
  deriving DecidableEq

/-- Whether the line can be ended if there is anything on it. -/
def LineState.canEnd : LineState → Bool
  | .margin => false
  | _ => true

/-- The characters of ASCII that can be seen. -/
def isGraphic (c : Char) : Bool := '!' ≤ c && c ≤ '~'

/-- Whether some of the text can be seen. -/
def shows (s : String) : Bool := s.toList.any isGraphic

theorem isGraphic_of_isHead {c : Char} (h : Name.isHead c = true) : isGraphic c = true := by
  unfold Name.isHead Char.isAlpha Char.isUpper Char.isLower at h
  simp only [Bool.or_eq_true, Bool.and_eq_true, decide_eq_true_eq, beq_iff_eq, ge_iff_le,
    UInt32.le_iff_toNat_le, Char.reduceVal, UInt32.reduceToNat] at h
  simp only [isGraphic, Bool.and_eq_true, decide_eq_true_eq, Char.le_def, UInt32.le_iff_toNat_le,
    Char.reduceVal, UInt32.reduceToNat]
  rcases h with (h | h) | rfl
  · omega
  · omega
  · decide

theorem shows_written (name : String) : shows (Name.written name) = true := by
  unfold shows Name.written
  split
  · next h =>
    obtain ⟨c, cs, hcs, hc, -⟩ := Name.exists_cons_of_isPlain h
    rw [hcs, List.any_cons, isGraphic_of_isHead hc]
    rfl
  · rw [Name.toList_delimited]
    rfl

namespace Layout

/-- From a line in the first state, the layout leads to a line in the second and leaves this many
blank lines in between. Behind a refusal anything can be said. -/
inductive Leads (v : Vocabulary) : LineState → Layout → LineState → Nat → Prop
  | nil {a : LineState} : Leads v a [] a 0
  | append {a b c : LineState} {x y : Layout} {m n : Nat} :
      Leads v a x b m → Leads v b y c n → Leads v a (x ++ y) c (m + n)
  | between : Leads v .start [] .between 0
  | shared : v.loose = true → Leads v .inked [] .between 0
  | unindented : v.loose = true → Leads v .between [] .margin 0
  | margin : Leads v .inked [] .margin 0
  | note {a : LineState} (event : Event) : Leads v a [.note event] a 0
  | refuse {a b : LineState} {n : Nat} (defect : Defect) : Leads v a [.refuse defect] b n
  | indent : Leads v .between [.indent] .margin 0
  | text {s : String} : v.spells s = true → Leads v .margin [.text s] .margin 0
  | ink {s : String} : v.spells s = true → shows s = true → Leads v .margin [.text s] .inked 0
  | more {s : String} : v.spells s = true → Leads v .inked [.text s] .inked 0
  | line {s : String} : v.spells s = true → shows s = true → Leads v .margin [.line s] .start 0
  | lastLine {s : String} : v.spells s = true → Leads v .inked [.line s] .start 0
  | terminator : Leads v .closed [.line ";"] .start 0
  | newline {a : LineState} : a = .inked ∨ a = .closed → Leads v a [.newline] .start 0
  | blank : Leads v .start [.newline] .start 1
  | breakLine {a : LineState} : a.canEnd = true → Leads v a [.breakLine] .start 0
  | elseWord {a : LineState} : a.canEnd = true → Leads v a [.elseWord] .inked 0
  | level {a b : LineState} {inner : Layout} {n : Nat} :
      Leads v a inner b n → Leads v a ([.deeper] ++ inner ++ [.shallower]) b n
  | braces {a : LineState} {inner : Layout} {n : Nat} :
      a.canEnd = true → Leads v .start inner .between n →
      Leads v a (Layout.braces true inner) .closed n

namespace Leads

variable {v : Vocabulary} {a b c : LineState} {x y : Layout} {m n : Nat}

theorem of_eq (h : Leads v a x b m) (hmn : m = n) : Leads v a x b n := hmn ▸ h

theorem cons {cmd : Cmd} (hc : Leads v a [cmd] b m) (h : Leads v b x c n) :
    Leads v a (cmd :: x) c (m + n) := hc.append h

/-- Less is known of the line afterwards. -/
theorem weaken (h : Leads v a x b n) (hbc : Leads v b [] c 0) : Leads v a x c n := by
  simpa using h.append hbc

/-- More is known of the line before. -/
theorem strengthen (hab : Leads v a [] b 0) (h : Leads v b x c n) : Leads v a x c n := by
  simpa using (hab.append h).of_eq (Nat.zero_add n)

/-- The blank lines of both, where the first has none. -/
theorem andThen (h : Leads v a x b 0) (h' : Leads v b y c n) : Leads v a (x ++ y) c n :=
  (h.append h').of_eq (Nat.zero_add n)

theorem indented (h : Leads v .margin x b n) : Leads v .between ([.indent] ++ x) b n :=
  indent.andThen h

theorem of_spelled (h : x.spelled v = true) : Leads v .margin x .margin 0 := by
  induction x with
  | nil => exact .nil
  | cons cmd rest ih =>
    obtain ⟨hc, hrest⟩ := Bool.and_eq_true_iff.mp h
    cases cmd with
    | text s => exact cons (.text hc) (ih hrest)
    | refuse defect => exact cons (.refuse defect) (ih hrest)
    | _ => cases hc

theorem of_spelled_inked (h : x.spelled v = true) : Leads v .inked x .inked 0 := by
  induction x with
  | nil => exact .nil
  | cons cmd rest ih =>
    obtain ⟨hc, hrest⟩ := Bool.and_eq_true_iff.mp h
    cases cmd with
    | text s => exact cons (.more hc) (ih hrest)
    | refuse defect => exact cons (.refuse defect) (ih hrest)
    | _ => cases hc

/-- Text that starts with something that can be seen. -/
theorem of_shows {s : String} (hs : s.toList.all isOrdinary = true) (hshows : shows s = true)
    (h : x.spelled v = true) : Leads v .margin (.text s :: x) .inked 0 :=
  cons (.ink (v.spells_of_isOrdinary hs) hshows) (of_spelled_inked h)

theorem name {s : String} (h : v.spells s = true) : Leads v .margin (Layout.name s) .inked 0 :=
  .ink (v.spells_written h) (shows_written s)

theorem semicolon : Leads v .margin Layout.semicolon .start 0 :=
  .line (v.spells_of_isOrdinary (by decide)) (by decide)

/-- A terminator ends any text. -/
theorem terminated (h : Leads v a x .margin n) : Leads v a (x ++ Layout.semicolon) .between n :=
  (h.append semicolon).weaken .between

theorem closes {inner : Layout} (ha : a.canEnd = true) (h : Leads v .start inner .between n)
    (keepLine : Bool) :
    Leads v a (Layout.braces keepLine inner) (if keepLine then .closed else .start) n := by
  cases keepLine with
  | true => exact .braces ha h
  | false =>
    have hsplit : Layout.braces false inner = Layout.braces true inner ++ [.newline] := by
      simp [Layout.braces]
    rw [hsplit]
    exact (Leads.braces ha h).append (.newline (Or.inr rfl))

end Leads

end Layout

/-! ## Pieces that hold no statements -/

open Layout (Leads)

variable {v : Vocabulary}

theorem Signature.leads_layout {s : Signature} (h : s.contents.all v.spells = true) :
    Leads v .margin s.layout .inked 0 := by
  simp only [Signature.contents, List.all_cons, List.all_flatMap, Bool.and_eq_true] at h
  obtain ⟨htype, hname, hparams⟩ := h
  have hitems : ∀ item ∈ s.params.map Param.layout, Layout.spelled v item = true := by
    intro item hi
    obtain ⟨p, hp, rfl⟩ := List.mem_map.mp hi
    exact Param.spelled_layout (List.all_eq_true.mp hparams p hp)
  have hblank : Leads v .margin [.text " "] .margin 0 := .text (v.spells_of_isOrdinary (by decide))
  have hfront : Leads v .margin [.text s.returnType, .text " "] .margin 0 :=
    .cons (.text htype) hblank
  have hopen : Leads v .inked [.text "("] .inked 0 := .more (v.spells_of_isOrdinary (by decide))
  have hclose : Leads v .inked [.text ")"] .inked 0 := .more (v.spells_of_isOrdinary (by decide))
  have hall := Leads.of_spelled_inked (Layout.spelled_commaSeparated v hitems)
  exact (((hfront.append (.name hname)).append hopen).append hall).append hclose

theorem EnumValue.leads_layout {value : EnumValue} (h : value.contents.all v.spells = true) :
    Leads v .margin value.layout .inked 0 := by
  simp only [EnumValue.contents, List.all_cons, Bool.and_eq_true] at h
  have hrest : Layout.spelled v ([.text " = "] ++ value.value.layout) = true := by
    simp (disch := decide) [value.value.spelled_layout h.2, Layout.isSpelled_fixed]
  have hall := (Leads.name h.1).append (Leads.of_spelled_inked hrest)
  rwa [← List.append_assoc] at hall

theorem EnumValue.leads_lines (values : List EnumValue)
    (h : values.all (fun value => value.contents.all v.spells) = true) :
    Leads v .between (EnumValue.lines values) .between 0 := by
  induction values with
  | nil => exact .nil
  | cons value values ih =>
    obtain ⟨hvalue, hvalues⟩ := Bool.and_eq_true_iff.mp h
    have hend : Leads v .inked [if values.isEmpty then .newline else .line ","] .start 0 := by
      cases values with
      | nil => exact .newline (Or.inl rfl)
      | cons => exact .lastLine (v.spells_of_isOrdinary (by decide))
    have hline := (EnumValue.leads_layout hvalue).indented.append hend
    exact (hline.weaken .between).append (ih hvalues)

theorem Comment.leads_ownLine {content : String} (h : v.spells content = true) :
    Leads v .between (Comment.ownLine content) .start 0 := by
  have hone : ¬ content.toList.contains '\n' = true := by
    intro hmem
    have hadmits := List.all_eq_true.mp h '\n' (List.contains_iff_mem.mp hmem)
    rw [v.admits_newline] at hadmits
    cases hadmits
  rw [Comment.ownLine, if_neg hone]
  split
  · have hmark : Leads v .margin [.text "//"] .inked 0 :=
      .ink (v.spells_of_isOrdinary (by decide)) (by decide)
    exact (hmark.append (.newline (Or.inl rfl))).indented
  · have hmark : Leads v .margin [.text "// "] .inked 0 :=
      .ink (v.spells_of_isOrdinary (by decide)) (by decide)
    exact (hmark.append (.lastLine h)).indented

/-- A comment that shares its line needs no indentation and does not end the line. -/
theorem Comment.leads_layout {c : Comment}
    (h : v.spells c.content = true ∧ (v.loose = true ∨ c.inline = false)) :
    Leads v .between c.layout .between 0 := by
  obtain ⟨hcontent, hloose⟩ := h
  unfold Comment.layout
  cases hinline : c.inline with
  | false => exact (Comment.leads_ownLine hcontent).weaken .between
  | true =>
    have hv : v.loose = true := by simpa [hinline] using hloose
    have hend : Leads v .inked [.text " */"] .between 0 :=
      .weaken (.more (v.spells_of_isOrdinary (by decide))) (.shared hv)
    have hopen : Leads v .margin [.text "/* "] .inked 0 :=
      .ink (v.spells_of_isOrdinary (by decide)) (by decide)
    exact .strengthen (.unindented hv) (.cons hopen (.cons (.more hcontent) hend))

/-! ## Statements -/

namespace Stmt

/-- Whether the contents of the statement itself are within the vocabulary, and it keeps to itself
where that is asked for. -/
def isWithin (v : Vocabulary) (s : Stmt) : Bool :=
  s.ownContents.all v.spells && (v.loose || !s.isInlineComment)

theorem all_isWithin_of_loose (h : v.loose = true) (body : List Stmt) :
    body.all (isWithin v) = (body.flatMap ownContents).all v.spells := by
  have hown : isWithin v = fun s => s.ownContents.all v.spells := by
    funext s
    simp [isWithin, h]
  rw [hown, List.all_flatMap]

/-- How many `for` loops are among the statements. -/
def forCount (body : List Stmt) : Nat := body.countP isFor

@[simp] theorem forCount_append (a b : List Stmt) :
    forCount (a ++ b) = forCount a + forCount b := List.countP_append

@[simp] theorem forCount_cons (s : Stmt) (rest : List Stmt) :
    forCount (s :: rest) = forCount rest + if s.isFor then 1 else 0 := List.countP_cons ..

@[simp] theorem forCount_nil : forCount [] = 0 := rfl

/-- Whether the statement, without its leading indentation, can follow a line in this state. -/
def follows (a : LineState) : Stmt → Bool
  | .block _ => a.canEnd
  | .forLoop .. | .ret _ | .comment _ => a = .between
  | _ => a = .margin

/-- The line behind the statement. Only a block can keep its line. -/
def leaves (keepLine : Bool) (s : Stmt) : LineState :=
  if keepLine && s.isBlock then .closed else .between

/-- The same for the body of a branch, where an absent one is an empty block. -/
def leavesOption (keepLine : Bool) : Option Stmt → LineState
  | none => if keepLine then .closed else .between
  | some body => body.leaves keepLine

theorem leaves_of_not_isBlock {s : Stmt} (h : s.isBlock = false) (keepLine : Bool) :
    s.leaves keepLine = .between := by
  simp [leaves, h]

@[simp] theorem leaves_false (s : Stmt) : s.leaves false = .between := rfl

theorem leavesOption_false (body : Option Stmt) : leavesOption false body = .between := by
  cases body <;> rfl

theorem canEnd_leavesOption (keepLine : Bool) (body : Option Stmt) :
    (leavesOption keepLine body).canEnd = true := by
  cases body with
  | none => cases keepLine <;> rfl
  | some body =>
    rw [leavesOption, leaves]
    split <;> rfl

theorem exists_follows_lead (s : Stmt) :
    ∃ a, s.follows a = true ∧ Leads v .between s.lead a 0 := by
  cases s with
  | block body => exact ⟨.between, rfl, .nil⟩
  | forLoop init condition after body => exact ⟨.between, rfl, .nil⟩
  | ret value => exact ⟨.between, rfl, .nil⟩
  | comment comment => exact ⟨.between, rfl, .nil⟩
  | _ => exact ⟨.margin, rfl, .indent⟩

/-- A body under a loop or branch, given what its core does wherever it can stand. -/
theorem leads_attached {s : Stmt} {core : Layout} {keepLine : Bool} {n : Nat}
    (h : ∀ a, s.follows a = true → Leads v a core (s.leaves keepLine) n) :
    Leads v .inked (s.attached core) (s.leaves keepLine) n := by
  unfold attached
  cases hblock : s.isBlock with
  | true =>
    cases s with
    | block body => exact h .inked rfl
    | _ => cases hblock
  | false =>
    obtain ⟨a, hfollows, hlead⟩ := s.exists_follows_lead (v := v)
    have hbreak : Leads v .inked [.breakLine] .start 0 := .breakLine rfl
    have hinner := (hlead.andThen (h a hfollows)).level
    have hall := hbreak.andThen (Leads.between.strengthen hinner)
    simpa using hall

theorem leads_bareReturn (elide : Bool) (place : Place) :
    Leads v .between (bareReturn elide place) .between 0 := by
  have hword : Leads v .margin [.text "return"] .inked 0 :=
    .ink (v.spells_of_isOrdinary (by decide)) (by decide)
  have hwritten : Leads v .between ([.indent, .text "return"] ++ Layout.semicolon) .between 0 :=
    (hword.weaken .margin).indented.terminated
  cases place with
  | outside => exact .refuse _
  | inside procedure => exact hwritten
  | last procedure =>
    cases elide with
    | false => exact hwritten
    | true => exact .note _

theorem leads_branchHead {condition : Expr} (h : condition.contents.all v.spells = true) :
    Leads v .margin (branchHead condition) .inked 0 :=
  .of_shows (by decide) (by decide) (Layout.spelled_parens v (condition.spelled_layout h) _)

end Stmt

open Stmt (forCount)

mutual

theorem Stmt.leads_core (elide : Bool) (place : Place) (keepLine : Bool) (s : Stmt)
    (h : s.statements.all (Stmt.isWithin v) = true) (a : LineState) (ha : s.follows a = true) :
    Leads v a (s.core elide place keepLine) (s.leaves keepLine) (forCount s.statements) := by
  -- A block can come behind a head, a chained `if` behind an `else` and anything at all on a line of
  -- its own; so the line before is left open as far as the kind of statement goes.
  cases s with
  | block body =>
    simp only [Stmt.statements, List.all_cons, Bool.and_eq_true] at h
    have hbody := Stmt.leads_layouts elide place.nested place.nested body h.2
    have hall := Leads.closes ha (Leads.between.strengthen hbody) keepLine
    simp only [Stmt.statements, Stmt.forCount_cons, Stmt.isFor]
    cases keepLine with
    | true => exact hall
    | false => exact hall.weaken .between
  | branch condition body otherwise =>
    obtain rfl : a = .margin := of_decide_eq_true ha
    simp only [Stmt.statements, List.all_cons, List.all_append, Bool.and_eq_true] at h
    obtain ⟨hown, hbody, hotherwise⟩ := h
    rw [Stmt.core, Stmt.leaves_of_not_isBlock rfl]
    split
    · next hempty =>
      obtain ⟨rfl, rfl⟩ : body = none ∧ otherwise = none := by simpa using hempty
      exact .refuse _
    · have hhead := Stmt.leads_branchHead (Bool.and_eq_true_iff.mp hown).1
      have hconsequent := Stmt.leads_consequent elide place.nested otherwise.isSome body hbody
      have halternative := Stmt.leads_alternative elide place.nested otherwise hotherwise
        (Stmt.leavesOption otherwise.isSome body) (Stmt.canEnd_leavesOption _ _) (by
          rintro rfl
          exact Stmt.leavesOption_false body)
      simp only [Stmt.statements, Stmt.forCount_cons, Stmt.forCount_append, Stmt.isFor]
      exact (hhead.andThen hconsequent).append halternative
  | whileLoop condition body =>
    obtain rfl : a = .margin := of_decide_eq_true ha
    simp only [Stmt.statements, List.all_cons, Bool.and_eq_true] at h
    obtain ⟨hown, hinner⟩ := h
    have hcondition := condition.spelled_layout (Bool.and_eq_true_iff.mp hown).1
    have hhead : Leads v .margin
        ([.text "while ("] ++ condition.layout ++ [.text ")"]) .inked 0 := by
      refine .of_shows (by decide) (by decide) ?_
      simp (disch := decide) [hcondition, Layout.isSpelled_fixed]
    have hbody := Stmt.leads_attached (Stmt.leads_core elide place.nested false body hinner)
    rw [Stmt.leaves_of_not_isBlock rfl]
    simp only [Stmt.statements, Stmt.forCount_cons, Stmt.isFor]
    exact hhead.andThen hbody
  | forLoop init condition after body =>
    obtain rfl : a = .between := of_decide_eq_true ha
    simp only [Stmt.statements, List.all_cons, Bool.and_eq_true] at h
    obtain ⟨hown, hinner⟩ := h
    have hcontents := (Bool.and_eq_true_iff.mp hown).1
    simp only [Stmt.ownContents, List.all_append, Bool.and_eq_true] at hcontents
    obtain ⟨⟨hinit, hcondition⟩, hafter⟩ := hcontents
    have hblank : Leads v .between [.breakLine, .newline] .between 1 :=
      .weaken (.cons (.breakLine rfl) .blank) .between
    have hhead : Leads v .between ([.indent] ++ ([.text "for ("] ++ init.layout ++ [.text "; "] ++
        condition.layout ++ [.text "; "] ++ after.layout ++ [.text ")"])) .inked 0 := by
      refine Leads.indented (.of_shows (by decide) (by decide) ?_)
      simp (disch := decide) [init.spelled_layout hinit, condition.spelled_layout hcondition,
        after.spelled_layout hafter, Layout.isSpelled_fixed]
    have hbody := Stmt.leads_attached (Stmt.leads_core elide place.nested false body hinner)
    have hall := (hblank.append (hhead.andThen hbody)).of_eq (Nat.add_comm _ _)
    rw [Stmt.leaves_of_not_isBlock rfl]
    simpa [Stmt.core, Stmt.statements, Stmt.isFor] using hall
  | switch scrutinee arms =>
    obtain rfl : a = .margin := of_decide_eq_true ha
    simp only [Stmt.statements, List.all_cons, Bool.and_eq_true] at h
    obtain ⟨hown, harms⟩ := h
    have hcontents := (Bool.and_eq_true_iff.mp hown).1
    simp only [Stmt.ownContents, List.all_append, Bool.and_eq_true] at hcontents
    have hscrutinee := scrutinee.spelled_layout hcontents.1
    rw [Stmt.core, Stmt.leaves_of_not_isBlock rfl]
    simp only [Stmt.statements, Stmt.forCount_cons, Stmt.isFor]
    split
    · exact .refuse _
    · have hhead : Leads v .margin
          ([.text "switch ("] ++ scrutinee.layout ++ [.text ")"]) .inked 0 := by
        refine .of_shows (by decide) (by decide) ?_
        simp (disch := decide) [hscrutinee, Layout.isSpelled_fixed]
      have hinner := Arm.leads_layouts elide place.nested arms hcontents.2 harms
      have hbraces := Leads.closes (a := .inked) rfl (Leads.between.strengthen hinner) false
      exact hhead.andThen (hbraces.weaken .between)
  | ret value =>
    obtain rfl : a = .between := of_decide_eq_true ha
    rw [Stmt.leaves_of_not_isBlock rfl]
    cases value with
    | none => exact Stmt.leads_bareReturn elide place
    | some value =>
      simp only [Stmt.statements, List.all_cons, List.all_nil, Bool.and_true] at h
      have hvalue := value.spelled_layout (Bool.and_eq_true_iff.mp h).1
      have hline : Leads v .margin ([.text "return "] ++ value.layout) .inked 0 :=
        .of_shows (by decide) (by decide) hvalue
      exact (hline.weaken .margin).indented.terminated
  | breakLoop =>
    obtain rfl : a = .margin := of_decide_eq_true ha
    rw [Stmt.leaves_of_not_isBlock rfl]
    exact Leads.terminated (.text (v.spells_of_isOrdinary (by decide)))
  | continueLoop =>
    obtain rfl : a = .margin := of_decide_eq_true ha
    rw [Stmt.leaves_of_not_isBlock rfl]
    exact Leads.terminated (.text (v.spells_of_isOrdinary (by decide)))
  | goto target =>
    obtain rfl : a = .margin := of_decide_eq_true ha
    rw [Stmt.leaves_of_not_isBlock rfl]
    simp only [Stmt.statements, Stmt.isWithin, Stmt.ownContents, List.all_cons, List.all_nil,
      Bool.and_true, Bool.and_eq_true] at h
    have hword : Leads v .margin [.text "goto "] .margin 0 :=
      .text (v.spells_of_isOrdinary (by decide))
    exact Leads.terminated (hword.append ((Leads.name h.1).weaken .margin))
  | label name =>
    obtain rfl : a = .margin := of_decide_eq_true ha
    rw [Stmt.leaves_of_not_isBlock rfl]
    simp only [Stmt.statements, Stmt.isWithin, Stmt.ownContents, List.all_cons, List.all_nil,
      Bool.and_true, Bool.and_eq_true] at h
    have hcolon : Leads v .inked [.line ":"] .between 0 :=
      .weaken (.lastLine (v.spells_of_isOrdinary (by decide))) .between
    exact (Leads.name h.1).append hcolon
  | comment c =>
    obtain rfl : a = .between := of_decide_eq_true ha
    rw [Stmt.leaves_of_not_isBlock rfl]
    simp only [Stmt.statements, List.all_cons, List.all_nil, Bool.and_true] at h
    exact Comment.leads_layout (by
      simpa [Stmt.isWithin, Stmt.ownContents, Stmt.isInlineComment] using h)
  | expr e =>
    obtain rfl : a = .margin := of_decide_eq_true ha
    rw [Stmt.leaves_of_not_isBlock rfl]
    simp only [Stmt.statements, List.all_cons, List.all_nil, Bool.and_true] at h
    have he := e.spelled_layout (Bool.and_eq_true_iff.mp h).1
    exact (Leads.of_spelled he).terminated
  | decl d =>
    obtain rfl : a = .margin := of_decide_eq_true ha
    rw [Stmt.leaves_of_not_isBlock rfl]
    simp only [Stmt.statements, List.all_cons, Bool.and_eq_true] at h
    exact (Decl.leads_terminated elide d (Bool.and_eq_true_iff.mp h.1).1 h.2).weaken .between

theorem Stmt.leads_layouts (elide : Bool) (place final : Place) (body : List Stmt)
    (h : (Stmt.statementsAll body).all (Stmt.isWithin v) = true) :
    Leads v .between (Stmt.layouts elide place final body) .between
      (forCount (Stmt.statementsAll body)) := by
  cases body with
  | nil => exact .nil
  | cons s rest =>
    simp only [Stmt.statementsAll, List.all_append, Bool.and_eq_true] at h
    obtain ⟨a, hfollows, hlead⟩ := s.exists_follows_lead (v := v)
    have hs := Stmt.leads_core elide (if rest.isEmpty then final else place) false s h.1 a hfollows
    have hrest := Stmt.leads_layouts elide place final rest h.2
    rw [Stmt.statementsAll, Stmt.forCount_append]
    exact (hlead.andThen hs).append hrest

theorem Stmt.leads_consequent (elide : Bool) (place : Place) (keepLine : Bool)
    (body : Option Stmt) (h : (Stmt.statementsOption body).all (Stmt.isWithin v) = true) :
    Leads v .inked (Stmt.consequent elide place keepLine body)
      (Stmt.leavesOption keepLine body) (forCount (Stmt.statementsOption body)) := by
  cases body with
  | none =>
    have hall : Leads v .inked (Layout.braces keepLine []) _ 0 :=
      Leads.closes rfl .between keepLine
    cases keepLine with
    | true => exact hall
    | false => exact hall.weaken .between
  | some body => exact Stmt.leads_attached (Stmt.leads_core elide place keepLine body h)

theorem Stmt.leads_alternative (elide : Bool) (place : Place) (otherwise : Option (List Stmt))
    (h : (Stmt.statementsElse otherwise).all (Stmt.isWithin v) = true) (a : LineState)
    (ha : a.canEnd = true) (hnone : otherwise = none → a = .between) :
    Leads v a (Stmt.alternative elide place otherwise) .between
      (forCount (Stmt.statementsElse otherwise)) := by
  cases otherwise with
  | none =>
    rw [hnone rfl]
    exact .nil
  | some body =>
    have hword : Leads v a [.elseWord] .inked 0 := .elseWord ha
    rw [Stmt.alternative]
    refine hword.andThen ?_
    split
    · next hchained =>
      have hblank : Leads v .inked [.text " "] .margin 0 :=
        .weaken (.more (v.spells_of_isOrdinary (by decide))) .margin
      exact hblank.andThen (Stmt.leads_firstCore elide place body hchained h)
    · have hbody := Stmt.leads_layouts elide place place body h
      exact (Leads.closes rfl (Leads.between.strengthen hbody) false).weaken .between

theorem Stmt.leads_firstCore (elide : Bool) (place : Place) (body : List Stmt)
    (hchained : Stmt.isChained body = true)
    (h : (Stmt.statementsAll body).all (Stmt.isWithin v) = true) :
    Leads v .margin (Stmt.firstCore elide place body) .between
      (forCount (Stmt.statementsAll body)) := by
  match body, hchained with
  | [s], hbranch =>
    simp only [Stmt.statementsAll, List.append_nil] at h ⊢
    cases s with
    | branch condition body otherwise => exact Stmt.leads_core elide place false _ h .margin rfl
    | _ => cases hbranch

theorem Arm.leads_layouts (elide : Bool) (place : Place) (arms : List Arm)
    (hown : (arms.flatMap Arm.ownContents).all v.spells = true)
    (h : (Arm.statementsAll arms).all (Stmt.isWithin v) = true) :
    Leads v .between (Arm.layouts elide place arms) .between
      (forCount (Arm.statementsAll arms)) := by
  cases arms with
  | nil => exact .nil
  | cons arm rest =>
    simp only [List.flatMap_cons, List.all_append, Bool.and_eq_true] at hown
    simp only [Arm.statementsAll, List.all_append, Bool.and_eq_true] at h
    rw [Arm.statementsAll, Stmt.forCount_append]
    exact (Arm.leads_layout elide place arm hown.1 h.1).append
      (Arm.leads_layouts elide place rest hown.2 h.2)

theorem Arm.leads_layout (elide : Bool) (place : Place) (arm : Arm)
    (hown : arm.ownContents.all v.spells = true)
    (h : arm.statements.all (Stmt.isWithin v) = true) :
    Leads v .between (arm.layout elide place) .between (forCount arm.statements) := by
  cases arm with
  | onCase value body =>
    have hvalue := value.spelled_layout hown
    have hlabel : Leads v .margin ([.text "case "] ++ value.layout) .inked 0 :=
      .of_shows (by decide) (by decide) hvalue
    have hcolon : Leads v .inked [.line ":"] .between 0 :=
      .weaken (.lastLine (v.spells_of_isOrdinary (by decide))) .between
    have hbody := Stmt.leads_layouts elide place place body h
    have hall := (hlabel.indented.append hcolon).andThen hbody.level
    simpa [Arm.layout, Arm.statements] using hall
  | onDefault body =>
    have hlabel : Leads v .margin [.text "default:"] .inked 0 :=
      .ink (v.spells_of_isOrdinary (by decide)) (by decide)
    have hend : Leads v .inked [.newline] .between 0 := .weaken (.newline (Or.inl rfl)) .between
    have hbody := Stmt.leads_layouts elide place place body h
    have hall := (hlabel.indented.append hend).andThen hbody.level
    simpa [Arm.layout, Arm.statements] using hall

/-- A declaration ends its last line, so that at the top of a script nothing shares it. -/
theorem Decl.leads_terminated (elide : Bool) (d : Decl)
    (hown : d.ownContents.all v.spells = true)
    (h : d.statements.all (Stmt.isWithin v) = true) :
    Leads v .margin (d.terminated elide) .start (forCount d.statements) := by
  cases d with
  | prototype index signature =>
    refine Leads.append ?_ .semicolon
    rw [Decl.layout]
    split
    · exact .refuse _
    · have hfront : Layout.spelled v [.text "function(", .text (Literal.hexadecimal index),
          .text ") "] = true := by
        have hindex : (Cmd.text (Literal.hexadecimal index)).isSpelled v = true :=
          Literal.spells_hexadecimal v index
        simp (disch := decide) [hindex, Layout.isSpelled_fixed]
      exact ((Leads.of_spelled hfront).append (Signature.leads_layout hown)).weaken .margin
  | var declared => exact (Leads.of_spelled (Variable.spelled_layout hown)).append .semicolon
  | procedure signature body =>
    have hbody := Decl.leads_bodyLayout elide signature.name body h
    have hlayout : (Decl.procedure signature body).terminated elide =
        (Decl.procedure signature body).layout elide := List.append_nil _
    rw [hlayout, Decl.layout]
    split
    · exact .refuse _
    · exact ((Leads.note _).append (Signature.leads_layout hown)).andThen hbody
  | enum name values =>
    simp only [Decl.ownContents, List.all_cons, List.all_flatMap, Bool.and_eq_true] at hown
    have hword : Leads v .margin [.text "enum "] .margin 0 :=
      .text (v.spells_of_isOrdinary (by decide))
    have hhead := hword.append (Leads.name hown.1)
    have hvalues := EnumValue.leads_lines values hown.2
    have hbraces : Leads v .inked (Layout.braces true (EnumValue.lines values)) .closed 0 :=
      .braces rfl (Leads.between.strengthen hvalues)
    exact (hhead.append hbraces).append .terminator
  | enumValue value => exact ((EnumValue.leads_layout hown).weaken .margin).append .semicolon

theorem Decl.leads_bodyLayout (elide : Bool) (procedure : String) (body : Option (List Stmt))
    (h : (Stmt.statementsElse body).all (Stmt.isWithin v) = true) :
    Leads v .inked (Decl.bodyLayout elide procedure body) .start
      (forCount (Stmt.statementsElse body)) := by
  cases body with
  | none => exact .lastLine (v.spells_of_isOrdinary (by decide))
  | some body =>
    have hbody := Stmt.leads_layouts elide (.inside procedure) (.last procedure) body h
    exact Leads.closes rfl (Leads.between.strengthen hbody) false

end

theorem Stmt.leads_layout (elide : Bool) (place : Place) (s : Stmt)
    (h : s.statements.all (Stmt.isWithin v) = true) :
    Leads v .between (s.layout elide place) .between (forCount s.statements) := by
  obtain ⟨a, hfollows, hlead⟩ := s.exists_follows_lead (v := v)
  exact hlead.andThen (s.leads_core elide place false h a hfollows)

/-! ## Scripts -/

theorem Layout.leads_banner (o : Options) {title : String} (h : v.spells title = true) :
    Leads v .start (banner o title) .start (if o.sectionBanners then 2 else 0) := by
  have hempty : Leads v .start (Comment.ownLine "") .start 0 :=
    Leads.between.strengthen (Comment.leads_ownLine rfl)
  have htitle : Leads v .start (Comment.ownLine title) .start 0 :=
    Leads.between.strengthen (Comment.leads_ownLine h)
  unfold banner
  split
  · exact (((Leads.blank.append hempty).append htitle).append hempty).append .blank
  · exact .nil

namespace Script

/-- How many banners are written: one for each section that the script has. -/
def bannerCount (o : Options) (s : Script) : Nat :=
  if o.sectionBanners then
    (!s.imports.isEmpty).toNat + (s.declarations.any Decl.isPrototype).toNat +
      (s.declarations.any Decl.isVariable).toNat
  else 0

/-- Whether the first declaration of a kind is among `ds`, when `earlier` come before them. -/
def startsSection (kind : Decl → Bool) (earlier ds : List Decl) : Bool :=
  ds.any kind && !earlier.any kind

/-- How many banners stand among `ds`. -/
def headingCount (o : Options) (earlier ds : List Decl) : Nat :=
  if o.sectionBanners then
    (startsSection Decl.isPrototype earlier ds).toNat +
      (startsSection Decl.isVariable earlier ds).toNat
  else 0

theorem startsSection_cons (kind : Decl → Bool) (earlier ds : List Decl) (d : Decl) :
    (startsSection kind earlier (d :: ds)).toNat =
      (startsSection kind earlier [d]).toNat + (startsSection kind (d :: earlier) ds).toNat := by
  simp only [startsSection, List.any_cons, List.any_nil]
  cases kind d <;> cases earlier.any kind <;> cases ds.any kind <;> rfl

theorem headingCount_cons (o : Options) (earlier ds : List Decl) (d : Decl) :
    headingCount o earlier (d :: ds) =
      headingCount o earlier [d] + headingCount o (d :: earlier) ds := by
  unfold headingCount
  rw [startsSection_cons _ _ ds, startsSection_cons _ _ ds]
  split <;> omega

theorem leads_heading (o : Options) (earlier : List Decl) (d : Decl) :
    Leads v .start (heading o earlier d) .start (2 * headingCount o earlier [d]) := by
  have hbanner : ∀ title : String, title.toList.all isOrdinary = true →
      Leads v .start (Layout.banner o title) .start (if o.sectionBanners then 2 else 0) :=
    fun title htitle => Layout.leads_banner o (v.spells_of_isOrdinary htitle)
  have hkinds : d.isPrototype = true → d.isVariable = false := by
    cases d <;> simp [Decl.isPrototype, Decl.isVariable]
  have hsingle : ∀ kind : Decl → Bool,
      startsSection kind earlier [d] = (kind d && !earlier.any kind) := by
    intro kind
    rw [startsSection, List.any_cons, List.any_nil, Bool.or_false]
  rw [heading, headingCount, hsingle, hsingle]
  cases hprototype : d.isPrototype && !earlier.any Decl.isPrototype with
  | true =>
    have hvariable := hkinds (Bool.and_eq_true_iff.mp hprototype).1
    refine (hbanner _ (by decide)).of_eq ?_
    rw [hvariable]
    split <;> rfl
  | false =>
    cases d.isVariable && !earlier.any Decl.isVariable with
    | true =>
      refine (hbanner _ (by decide)).of_eq ?_
      split <;> rfl
    | false =>
      refine Leads.nil.of_eq ?_
      split <;> rfl

theorem leads_declarationSections (hloose : v.loose = true) (o : Options) (earlier ds : List Decl)
    (h : (ds.flatMap Decl.contents).all v.spells = true) :
    Leads v .start (declarationSections o earlier ds) .start
      (2 * headingCount o earlier ds + forCount (ds.flatMap Decl.statements)) := by
  induction ds generalizing earlier with
  | nil => exact Leads.nil.of_eq (by simp [headingCount, startsSection])
  | cons d ds ih =>
    simp only [List.flatMap_cons, Decl.contents, List.all_append, Bool.and_eq_true] at h
    obtain ⟨⟨hown, hstatements⟩, hrest⟩ := h
    have hwithin : d.statements.all (Stmt.isWithin v) = true := by
      rw [Stmt.all_isWithin_of_loose hloose]
      exact hstatements
    have hentry : Leads v .start [] .margin 0 := Leads.between.weaken (.unindented hloose)
    have hd := hentry.strengthen (d.leads_terminated o.elideTrailingReturn hown hwithin)
    refine (((leads_heading o earlier d).append hd).append (ih (d :: earlier) hrest)).of_eq ?_
    rw [headingCount_cons o earlier ds d, List.flatMap_cons, Stmt.forCount_append]
    omega

theorem leads_importSection (hloose : v.loose = true) (o : Options) (imports : List String)
    (h : imports.all v.spells = true) :
    Leads v .start (importSection o imports) .start
      (if o.sectionBanners && !imports.isEmpty then 2 else 0) := by
  have hline : ∀ file, v.spells file = true → Leads v .start (Layout.importLine file) .start 0 := by
    intro file hfile
    have hquoted : (Cmd.text (Literal.quoted file)).isSpelled v = true :=
      Literal.spells_quoted v hfile
    have hentry : Leads v .start [] .margin 0 := Leads.between.weaken (.unindented hloose)
    have htext : Layout.spelled v
        [.text "import(", .text (Literal.quoted file), .text ")"] = true := by
      simp (disch := decide) [hquoted, Layout.isSpelled_fixed]
    exact hentry.strengthen ((Leads.of_spelled htext).append .semicolon)
  have hlines : ∀ files : List String, files.all v.spells = true →
      Leads v .start (files.flatMap Layout.importLine) .start 0 := by
    intro files hfiles
    induction files with
    | nil => exact .nil
    | cons file files ih =>
      obtain ⟨hfile, hrest⟩ := Bool.and_eq_true_iff.mp hfiles
      exact (hline file hfile).append (ih hrest)
  unfold importSection
  cases hempty : imports.isEmpty with
  | true => exact Leads.nil.of_eq (by simp)
  | false =>
    have hbanner : Leads v .start (Layout.banner o "Imports") .start
        (if o.sectionBanners then 2 else 0) :=
      Layout.leads_banner o (v.spells_of_isOrdinary (by decide))
    exact (hbanner.append (hlines imports h)).of_eq (by simp)

theorem leads_layout (hloose : v.loose = true) (o : Options) (s : Script)
    (h : s.contents.all v.spells = true) :
    Leads v .start (s.layout o) .start (2 * s.bannerCount o + forCount s.statements) := by
  rw [contents, List.all_append, Bool.and_eq_true] at h
  have himports := leads_importSection hloose o s.imports h.1
  have hdeclarations := leads_declarationSections hloose o [] s.declarations h.2
  refine (((Leads.note _).append himports).append hdeclarations).of_eq ?_
  unfold bannerCount headingCount startsSection statements
  cases o.sectionBanners with
  | false => simp
  | true =>
    cases s.imports.isEmpty with
    | true => simp
    | false =>
      simp
      omega

end Script

end Scribe
