import Scribe.Proofs.Ink
import Scribe.Proofs.Levels
import Scribe.Proofs.Scope
import Scribe.Proofs.Word

/-! Structured statements: blocks, branches, loops and expressions, over calls and names that are
not keywords. Nothing in them is refused, so one is written if and only if its lines fit. Without
its blanks, what it writes does not depend on the options, on where the statement stands or on how
deep; `bare` is that text, as a function of the tree. -/

namespace Scribe

def keywords : List String := ["if", "else", "while", "for"]

/-- A plain name that is not a keyword. -/
def Name.isFree (name : String) : Bool := isPlain name && !keywords.contains name

/-! ## Expressions -/

mutual

/-- Calls and names, all of them free. -/
def Expr.spoken : Expr → Bool
  | .name text => Name.isFree text
  | .call function arguments => Name.isFree function && Expr.spokenAll arguments
  | _ => false

def Expr.spokenAll : List Expr → Bool
  | [] => true
  | e :: es => e.spoken && Expr.spokenAll es

end

mutual

def Expr.bare : Expr → List Char
  | .name text => text.toList
  | .call function arguments => function.toList ++ '(' :: (Expr.bareAll arguments ++ [')'])
  | _ => []

def Expr.bareAll : List Expr → List Char
  | [] => []
  | e :: es => e.bare ++ Expr.bareRest es

/-- The arguments behind the first. -/
def Expr.bareRest : List Expr → List Char
  | [] => []
  | e :: es => ',' :: (e.bare ++ Expr.bareRest es)

end

/-! ## Statements -/

mutual

/-- A branch with neither body nor `else` is refused, so it is no structured statement. -/
def Stmt.structured : Stmt → Bool
  | .block body => Stmt.structuredAll body
  | .branch condition body otherwise =>
    condition.spoken && (body.isSome || otherwise.isSome) && Stmt.structuredBody body &&
      Stmt.structuredElse otherwise
  | .whileLoop condition body => condition.spoken && body.structured
  | .forLoop init condition after body =>
    init.spoken && condition.spoken && after.spoken && body.structured
  | .expr e => e.spoken
  | _ => false

def Stmt.structuredAll : List Stmt → Bool
  | [] => true
  | s :: rest => s.structured && Stmt.structuredAll rest

def Stmt.structuredBody : Option Stmt → Bool
  | none => true
  | some s => s.structured

def Stmt.structuredElse : Option (List Stmt) → Bool
  | none => true
  | some body => Stmt.structuredAll body

end

mutual

def Stmt.bare : Stmt → List Char
  | .block body => '\x7b' :: (Stmt.bareAll body ++ ['\x7d'])
  | .branch condition body otherwise =>
    ['i', 'f', '('] ++ condition.bare ++ [')'] ++ Stmt.bareBody body ++ Stmt.bareElse otherwise
  | .whileLoop condition body =>
    ['w', 'h', 'i', 'l', 'e', '('] ++ condition.bare ++ [')'] ++ body.bare
  | .forLoop init condition after body =>
    ['f', 'o', 'r', '('] ++ init.bare ++ [';'] ++ condition.bare ++ [';'] ++ after.bare ++ [')'] ++
      body.bare
  | .expr e => e.bare ++ [';']
  | _ => []

def Stmt.bareAll : List Stmt → List Char
  | [] => []
  | s :: rest => s.bare ++ Stmt.bareAll rest

def Stmt.bareBody : Option Stmt → List Char
  | none => ['\x7b', '\x7d']
  | some s => s.bare

def Stmt.bareElse : Option (List Stmt) → List Char
  | none => []
  | some body =>
    ['e', 'l', 's', 'e'] ++
      if Stmt.isChained body then Stmt.bareAll body else '\x7b' :: (Stmt.bareAll body ++ ['\x7d'])

end

/-- What has to be shown of structured statements, constructor by constructor, so that all of them
have the property. -/
structure Stmt.Inherited (P : Stmt → Prop) : Prop where
  block : ∀ body, (∀ s ∈ body, s.structured = true ∧ P s) → P (.block body)
  branch : ∀ condition body otherwise, condition.spoken = true →
    (body.isSome || otherwise.isSome) = true → (∀ s ∈ body, s.structured = true ∧ P s) →
    (∀ b ∈ otherwise, ∀ s ∈ b, s.structured = true ∧ P s) → P (.branch condition body otherwise)
  whileLoop : ∀ condition body, condition.spoken = true → body.structured = true → P body →
    P (.whileLoop condition body)
  forLoop : ∀ init condition after body, init.spoken = true → condition.spoken = true →
    after.spoken = true → body.structured = true → P body → P (.forLoop init condition after body)
  expr : ∀ e, e.spoken = true → P (.expr e)

namespace Stmt

mutual

theorem Inherited.all {P : Stmt → Prop} (h : Inherited P) (s : Stmt) (hs : s.structured = true) :
    P s := by
  match s with
  | .block body => exact h.block body (Inherited.allList h body hs)
  | .branch condition body otherwise =>
    simp only [structured, Bool.and_eq_true] at hs
    obtain ⟨⟨⟨hcondition, hsome⟩, hbody⟩, helse⟩ := hs
    exact h.branch condition body otherwise hcondition hsome (Inherited.allBody h body hbody)
      (Inherited.allElse h otherwise helse)
  | .whileLoop condition body =>
    obtain ⟨hcondition, hbody⟩ := Bool.and_eq_true_iff.mp hs
    exact h.whileLoop condition body hcondition hbody (Inherited.all h body hbody)
  | .forLoop init condition after body =>
    simp only [structured, Bool.and_eq_true] at hs
    obtain ⟨⟨⟨hinit, hcondition⟩, hafter⟩, hbody⟩ := hs
    exact h.forLoop init condition after body hinit hcondition hafter hbody
      (Inherited.all h body hbody)
  | .expr e => exact h.expr e hs
  | .switch .. | .ret _ | .breakLoop | .continueLoop | .goto _ | .label _ | .comment _ | .decl _ =>
    cases hs

theorem Inherited.allList {P : Stmt → Prop} (h : Inherited P) (body : List Stmt)
    (hs : structuredAll body = true) : ∀ s ∈ body, s.structured = true ∧ P s := by
  match body with
  | [] => exact nofun
  | s :: rest =>
    obtain ⟨hhead, hrest⟩ := Bool.and_eq_true_iff.mp hs
    have hs := Inherited.all h s hhead
    have hall := Inherited.allList h rest hrest
    exact List.forall_mem_cons.mpr ⟨⟨hhead, hs⟩, hall⟩

theorem Inherited.allBody {P : Stmt → Prop} (h : Inherited P) (body : Option Stmt)
    (hs : structuredBody body = true) : ∀ s ∈ body, s.structured = true ∧ P s := by
  match body with
  | none => exact nofun
  | some s =>
    have hp := Inherited.all h s hs
    intro t ht
    obtain rfl := Option.some.inj ht
    exact ⟨hs, hp⟩

theorem Inherited.allElse {P : Stmt → Prop} (h : Inherited P) (otherwise : Option (List Stmt))
    (hs : structuredElse otherwise = true) :
    ∀ b ∈ otherwise, ∀ s ∈ b, s.structured = true ∧ P s := by
  match otherwise with
  | none => exact nofun
  | some body =>
    have hall := Inherited.allList h body hs
    intro b hb
    obtain rfl := Option.some.inj hb
    exact hall

end

theorem structuredAll_iff (body : List Stmt) :
    structuredAll body = true ↔ ∀ s ∈ body, s.structured = true := by
  induction body with
  | nil => exact ⟨fun _ => nofun, fun _ => rfl⟩
  | cons s rest ih => rw [structuredAll, Bool.and_eq_true, ih, List.forall_mem_cons]

theorem structuredBody_iff (body : Option Stmt) :
    structuredBody body = true ↔ ∀ s ∈ body, s.structured = true := by
  cases body with
  | none => exact ⟨fun _ => nofun, fun _ => rfl⟩
  | some s => simp [structuredBody]

theorem structuredElse_iff (otherwise : Option (List Stmt)) :
    structuredElse otherwise = true ↔ ∀ b ∈ otherwise, structuredAll b = true := by
  cases otherwise with
  | none => exact ⟨fun _ => nofun, fun _ => rfl⟩
  | some body => simp [structuredElse]

end Stmt

/-! ## What is written -/

theorem Name.isPlain_of_isFree {name : String} (h : isFree name = true) : isPlain name = true :=
  (Bool.and_eq_true_iff.mp h).1

theorem Name.not_keyword_of_isFree {name : String} (h : isFree name = true) :
    name ∉ keywords := by
  have hfree := (Bool.and_eq_true_iff.mp h).2
  simpa using hfree

theorem Name.ne_empty_of_isFree {name : String} (h : isFree name = true) : name ≠ "" := by
  rintro rfl
  cases h

theorem unspaced_of_isPlain {name : String} (h : Name.isPlain name = true) :
    unspaced name.toList = name.toList := by
  refine List.filter_eq_self.mpr fun c hc => ?_
  have htail := Name.isTail_of_mem h hc
  have hspace : c ≠ ' ' := by rintro rfl; cases htail
  have hnewline : c ≠ '\n' := by rintro rfl; cases htail
  simp [hspace, hnewline]

theorem unspaced_name {name : String} (h : Name.isFree name = true) :
    unspaced (Layout.ink (Layout.name name)) = name.toList := by
  have hplain := Name.isPlain_of_isFree h
  rw [Layout.name, Name.written, if_pos hplain, Layout.ink_cons, Layout.ink_nil, List.append_nil]
  exact unspaced_of_isPlain hplain

mutual

theorem Expr.unspaced_layout (e : Expr) (h : e.spoken = true) :
    unspaced (Layout.ink e.layout) = e.bare := by
  match e with
  | .name text => exact unspaced_name h
  | .call function arguments =>
    obtain ⟨hfunction, hargs⟩ := Bool.and_eq_true_iff.mp h
    have hne := Name.ne_empty_of_isFree hfunction
    have hname := unspaced_name hfunction
    have hall := Expr.unspaced_layouts arguments hargs
    rw [Expr.layout, if_neg hne]
    simp only [Layout.ink_append, unspaced_append, hname, hall]
    simp [Expr.bare, Cmd.ink, unspaced]
  | .bool _ | .int _ | .uint _ | .float _ | .string _ | .typeName _ | .member .. | .unary ..
  | .binary .. => cases h

theorem Expr.unspaced_layouts (es : List Expr) (h : Expr.spokenAll es = true) :
    unspaced (Layout.ink (Layout.commaSeparated (Expr.layouts es))) = Expr.bareAll es := by
  match es with
  | [] => rfl
  | [e] =>
    have he := Expr.unspaced_layout e (Bool.and_eq_true_iff.mp h).1
    rw [Expr.layouts, Expr.layouts, Layout.commaSeparated_singleton, he]
    simp [Expr.bareAll, Expr.bareRest]
  | e :: f :: es =>
    obtain ⟨hhead, hrest⟩ := Bool.and_eq_true_iff.mp h
    have he := Expr.unspaced_layout e hhead
    have hes := Expr.unspaced_layouts (f :: es) hrest
    rw [Expr.layouts] at hes
    rw [Expr.layouts, Expr.layouts, Layout.commaSeparated_cons_cons]
    simp only [Layout.ink_append, unspaced_append, he, hes]
    simp [Expr.bareAll, Expr.bareRest, Cmd.ink, unspaced]

end

namespace Stmt

theorem unspaced_lead (s : Stmt) : unspaced (Layout.ink s.lead) = [] := by
  unfold lead
  split <;> rfl

theorem unspaced_attached (s : Stmt) (core : Layout) :
    unspaced (Layout.ink (s.attached core)) = unspaced (Layout.ink core) := by
  unfold attached
  split
  · rfl
  · simp [Cmd.ink, unspaced_lead]

theorem unspaced_braces (keepLine : Bool) (inner : Layout) :
    unspaced (Layout.ink (Layout.braces keepLine inner)) =
      '\x7b' :: (unspaced (Layout.ink inner) ++ ['\x7d']) := by
  cases keepLine <;> simp [Layout.braces, Cmd.ink, unspaced]

theorem unspaced_branchHead {condition : Expr} (h : condition.spoken = true) :
    unspaced (Layout.ink (branchHead condition)) = ['i', 'f', '('] ++ condition.bare ++ [')'] := by
  have hgroup : condition.selfGrouped = false := by
    cases condition with
    | binary op left right => cases h
    | _ => rfl
  have hcondition := Expr.unspaced_layout condition h
  rw [branchHead, hgroup, Layout.parens]
  simp [Cmd.ink, ← hcondition, unspaced]

theorem not_both_none {body : Option Stmt} {otherwise : Option (List Stmt)}
    (h : (body.isSome || otherwise.isSome) = true) :
    ¬ (body.isNone && otherwise.isNone) = true := by
  cases body <;> cases otherwise <;> simp at h ⊢

/-- Under all options and wherever it stands, the statement is written as its bare text. -/
def WritesBare (s : Stmt) : Prop :=
  ∀ elide place keepLine, unspaced (Layout.ink (s.core elide place keepLine)) = s.bare

theorem unspaced_layouts {body : List Stmt} (h : ∀ s ∈ body, s.WritesBare)
    (elide : Bool) (place final : Place) :
    unspaced (Layout.ink (layouts elide place final body)) = bareAll body := by
  induction body with
  | nil => rfl
  | cons s rest ih =>
    have hs := h s (List.mem_cons_self ..) elide (if rest.isEmpty then final else place) false
    have hrest := ih fun t ht => h t (List.mem_cons_of_mem _ ht)
    rw [layouts, bareAll]
    simp only [Layout.ink_append, unspaced_append, unspaced_lead, hs, hrest, List.nil_append]

theorem unspaced_consequent {body : Option Stmt} (h : ∀ s ∈ body, s.WritesBare)
    (elide : Bool) (place : Place) (keepLine : Bool) :
    unspaced (Layout.ink (consequent elide place keepLine body)) = bareBody body := by
  cases body with
  | none =>
    rw [consequent, unspaced_braces]
    rfl
  | some s => rw [consequent, unspaced_attached, h s rfl, bareBody]

theorem unspaced_alternative {otherwise : Option (List Stmt)}
    (h : ∀ b ∈ otherwise, ∀ s ∈ b, s.WritesBare) (elide : Bool) (place : Place) :
    unspaced (Layout.ink (alternative elide place otherwise)) = bareElse otherwise := by
  cases otherwise with
  | none => rfl
  | some body =>
    have hbody := h body rfl
    rw [alternative, bareElse, Layout.ink_append, unspaced_append]
    congr 1
    split
    · next hchained =>
      match body with
      | [s] =>
        have hs := hbody s (List.mem_singleton_self s) elide place false
        rw [Layout.ink_append, unspaced_append, firstCore, hs, bareAll, bareAll, List.append_nil]
        rfl
    · rw [unspaced_braces, unspaced_layouts hbody]

theorem writesBare (s : Stmt) (h : s.structured = true) : s.WritesBare := by
  refine Inherited.all (P := WritesBare) ?_ s h
  constructor
  case block =>
    intro body hbody elide place keepLine
    rw [core, unspaced_braces, unspaced_layouts fun s hs => (hbody s hs).2]
    rfl
  case branch =>
    intro condition body otherwise hcondition hsome hbody helse elide place keepLine
    rw [core, if_neg (not_both_none hsome)]
    simp only [Layout.ink_append, unspaced_append, unspaced_branchHead hcondition,
      unspaced_consequent fun s hs => (hbody s hs).2,
      unspaced_alternative fun b hb s hs => (helse b hb s hs).2]
    simp [bare]
  case whileLoop =>
    intro condition body hcondition _ hbody elide place keepLine
    have hc := Expr.unspaced_layout condition hcondition
    have hb := hbody elide place.nested false
    rw [core]
    simp only [Layout.ink_append, unspaced_append, unspaced_attached, hc, hb]
    simp [bare, Cmd.ink, unspaced]
  case forLoop =>
    intro init condition after body hinit hcondition hafter _ hbody elide place keepLine
    have hi := Expr.unspaced_layout init hinit
    have hc := Expr.unspaced_layout condition hcondition
    have ha := Expr.unspaced_layout after hafter
    have hb := hbody elide place.nested false
    rw [core]
    simp only [Layout.ink_append, unspaced_append, unspaced_attached, hi, hc, ha, hb]
    simp [bare, Cmd.ink, unspaced]
  case expr =>
    intro e he elide place keepLine
    rw [core, Layout.ink_append, unspaced_append, Expr.unspaced_layout e he]
    rfl

end Stmt

/-- The action comes to a good end and has written the text. -/
def Printer.Writes (x : PrinterM Unit) (p : Printer) (text : String) : Prop :=
  verdict x p = .ok () ∧ written x p = text.toUTF8

theorem Printer.writes_of_isOk {x : PrinterM Unit} {p : Printer} {text : String}
    (hok : (verdict x p matches .ok ()) = true) (hwritten : written x p = text.toUTF8) :
    Writes x p text := by
  refine ⟨?_, hwritten⟩
  cases h : verdict x p with
  | ok _ => rfl
  | error e =>
    rw [h] at hok
    cases hok

theorem Printer.writes_iff {p : Printer} (hroom : p.sink.writer.room = none) (layout : Layout)
    (text : String) :
    Writes (runKeepingDepth layout) p text ↔
      (layout.effect p.sheet p.sink.cursor).stop = none ∧
        (layout.effect p.sheet p.sink.cursor).text = text := by
  unfold Writes
  rw [verdict_runKeepingDepth hroom, written_runKeepingDepth hroom]
  constructor
  · rintro ⟨hverdict, hwritten⟩
    refine ⟨?_, String.toByteArray_inj.mp hwritten⟩
    cases hstop : (layout.effect p.sheet p.sink.cursor).stop with
    | none => rfl
    | some e =>
      rw [hstop] at hverdict
      cases hverdict
  · rintro ⟨hstop, rfl⟩
    rw [hstop]
    exact ⟨rfl, rfl⟩

theorem Stmt.unspaced_of_writes {s : Stmt} (h : s.structured = true) {p : Printer}
    (hp : p.sink.writer.room = none) {place : Place} {text : String}
    (hwrites : Printer.Writes (Printer.writeStmt place s) p text) :
    unspaced text.toList = s.bare := by
  let layout := s.layout p.options.elideTrailingReturn place
  obtain ⟨hstop, rfl⟩ := (Printer.writes_iff hp layout text).mp hwrites
  have hink : unspaced (Layout.ink layout) = s.bare := by
    rw [show layout = s.lead ++ s.core p.options.elideTrailingReturn place false from rfl,
      Layout.ink_append, unspaced_append, unspaced_lead, s.writesBare h]
    rfl
  rw [Layout.unspaced_effect hstop, hink]

/-! ## Whether it is written -/

mutual

theorem Expr.defects_of_spoken (e : Expr) (h : e.spoken = true) : e.defects = [] := by
  match e with
  | .name _ => rfl
  | .call function arguments =>
    obtain ⟨hfunction, hargs⟩ := Bool.and_eq_true_iff.mp h
    rw [Expr.defects, if_neg (Name.ne_empty_of_isFree hfunction)]
    exact Expr.defectsAll_of_spoken arguments hargs
  | .bool _ | .int _ | .uint _ | .float _ | .string _ | .typeName _ | .member .. | .unary ..
  | .binary .. => cases h

theorem Expr.defectsAll_of_spoken (es : List Expr) (h : Expr.spokenAll es = true) :
    Expr.defectsAll es = [] := by
  match es with
  | [] => rfl
  | e :: es =>
    obtain ⟨he, hes⟩ := Bool.and_eq_true_iff.mp h
    rw [Expr.defectsAll, Expr.defects_of_spoken e he, Expr.defectsAll_of_spoken es hes]
    rfl

end

namespace Stmt

theorem defectsAll_eq_nil {body : List Stmt} (h : ∀ s ∈ body, s.defects = []) :
    defectsAll body = [] := by
  induction body with
  | nil => rfl
  | cons s rest ih =>
    obtain ⟨hs, hrest⟩ := List.forall_mem_cons.mp h
    rw [defectsAll, hs, ih hrest]
    rfl

theorem defects_of_structured (s : Stmt) (h : s.structured = true) : s.defects = [] := by
  refine Inherited.all (P := fun s => s.defects = []) ?_ s h
  constructor
  case block =>
    intro body hbody
    exact defectsAll_eq_nil fun s hs => (hbody s hs).2
  case branch =>
    intro condition body otherwise hcondition hsome hbody helse
    have hbodyD : defectsOption body = [] := by
      cases body with
      | none => rfl
      | some s => exact (hbody s rfl).2
    have helseD : defectsAllOption otherwise = [] := by
      cases otherwise with
      | none => rfl
      | some b => exact defectsAll_eq_nil fun s hs => (helse b rfl s hs).2
    rw [defects, if_neg (not_both_none hsome), condition.defects_of_spoken hcondition, hbodyD, helseD]
    rfl
  case whileLoop =>
    intro condition body hcondition _ ih
    rw [defects, condition.defects_of_spoken hcondition, ih]
    rfl
  case forLoop =>
    intro init condition after body hinit hcondition hafter _ ih
    rw [defects, init.defects_of_spoken hinit, condition.defects_of_spoken hcondition,
      after.defects_of_spoken hafter, ih]
    rfl
  case expr => exact fun e he => e.defects_of_spoken he

/-- There is no `return` to be elided or refused. -/
theorem layout_eq_inside {s : Stmt} (h : s.structured = true) (elide : Bool) (place : Place)
    (procedure : String) : s.layout elide place = s.layout elide (.inside procedure) := by
  have hdefects := s.defects_of_structured h
  have hnone : .returnOutsideProcedure ∉ s.defects := by
    rw [hdefects]
    exact List.not_mem_nil
  have hinside : ∀ other : String, s.layout elide .outside = s.layout elide (.inside other) :=
    layout_outside_of_notMem hnone
  cases place with
  | outside => exact hinside procedure
  | inside other => rw [← hinside other, hinside procedure]
  | last other =>
    have hbare : (elide && s.isBareReturn) = false := by
      cases s with
      | ret value => cases h
      | _ => cases elide <;> rfl
    rw [layout, ← core_nested hbare]
    exact (hinside other).symm.trans (hinside procedure)

theorem returnsIff_layout {s : Stmt} (h : s.structured = true) (sheet : Sheet) (elide : Bool)
    (place : Place) {level : Nat} (hdeep : level + s.nesting < Sink.wordLimit) :
    Layout.ReturnsIff sheet (s.layout elide place) level
      (sheet.FitsAll (s.levels elide level)) := by
  have hsound : Layout.refusal (s.core elide (.inside "") false) = none := by
    rw [refusal_core, s.defects_of_structured h]
    rfl
  rw [layout_eq_inside h elide place ""]
  exact returnsIff_led (returnsIff_core sheet elide "" false s level hdeep hsound)

theorem exists_writes_iff {s : Stmt} (h : s.structured = true) {p : Printer}
    (hroom : p.sink.writer.room = none) (hdeep : p.sink.depth + s.nesting < Sink.wordLimit)
    (place : Place) :
    (∃ text, Printer.Writes (Printer.writeStmt place s) p text) ↔
      p.sheet.FitsAll (s.levels p.options.elideTrailingReturn p.sink.depth) := by
  let layout := s.layout p.options.elideTrailingReturn place
  have heffect := returnsIff_layout h p.sheet p.options.elideTrailingReturn place hdeep
    p.sink.cursor rfl
  constructor
  · rintro ⟨text, hwrites⟩
    obtain ⟨hstop, -⟩ := (Printer.writes_iff hroom layout text).mp hwrites
    refine Decidable.byContradiction fun hwide => ?_
    obtain ⟨a, -, habort⟩ := heffect.aborts hwide
    rw [hstop] at habort
    cases habort
  · intro hfits
    obtain ⟨hstop, -⟩ := heffect.returns hfits
    exact ⟨_, (Printer.writes_iff hroom layout _).mpr ⟨hstop, rfl⟩⟩

end Stmt

end Scribe
