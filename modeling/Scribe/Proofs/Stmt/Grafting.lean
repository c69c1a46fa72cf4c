import Scribe.Proofs.Stmt.Attachment

/-! Where an `else` goes when it is read back. Grafting puts it on the last `if` before it that has
none; doing so from the inside out turns a structured statement into an anchored one with the same
bare text. So a statement that is not anchored shares its text with another, which is written too,
wherever its own lines fit. -/

namespace Scribe.Stmt

mutual

/-- The statement with an `else` on the `if` that it ends in. -/
def graft (alternative : List Stmt) : Stmt → Stmt
  | .branch condition body none =>
    if (bodyOf body).endsOpen then .branch condition (graftBody alternative body) none
    else .branch condition body (some alternative)
  | .branch condition body (some otherwise) =>
    .branch condition body (some (graftFirst alternative otherwise))
  | .whileLoop condition body => .whileLoop condition (graft alternative body)
  | .forLoop init condition after body => .forLoop init condition after (graft alternative body)
  | s => s

def graftBody (alternative : List Stmt) : Option Stmt → Option Stmt
  | none => none
  | some s => some (graft alternative s)

def graftFirst (alternative : List Stmt) : List Stmt → List Stmt
  | [] => []
  | s :: rest => graft alternative s :: rest

end

/-- A branch, with its `else` on the `if` that the body ends in when there is one. -/
def rejoined (condition : Expr) (body : Option Stmt) : Option (List Stmt) → Stmt
  | none => .branch condition body none
  | some alternative => graft alternative (.branch condition body none)

mutual

def reanchored : Stmt → Stmt
  | .block body => .block (reanchoredAll body)
  | .branch condition body otherwise =>
    rejoined condition (reanchoredBody body) (reanchoredElse otherwise)
  | .whileLoop condition body => .whileLoop condition body.reanchored
  | .forLoop init condition after body => .forLoop init condition after body.reanchored
  | s => s

def reanchoredAll : List Stmt → List Stmt
  | [] => []
  | s :: rest => s.reanchored :: reanchoredAll rest

def reanchoredBody : Option Stmt → Option Stmt
  | none => none
  | some s => some s.reanchored

def reanchoredElse : Option (List Stmt) → Option (List Stmt)
  | none => none
  | some body => some (reanchoredAll body)

end

/-! ## Grafting -/

/-- What a change of the statement must respect so that it can be made within others. -/
structure Keeps (s t : Stmt) (tail : List Char) : Prop where
  structured : t.structured = true
  anchored : t.anchored = true
  bare : t.bare = s.bare ++ tail
  isBranch : t.isBranch = s.isBranch

theorem keeps_whileLoop {condition : Expr} {s t : Stmt} {tail : List Char}
    (hcondition : condition.spoken = true) (h : Keeps s t tail) :
    Keeps (.whileLoop condition s) (.whileLoop condition t) tail where
  structured := by
    rw [Stmt.structured, hcondition, h.structured]
    rfl
  anchored := h.anchored
  bare := by simp [Stmt.bare, h.bare]
  isBranch := rfl

theorem keeps_forLoop {init condition after : Expr} {s t : Stmt} {tail : List Char}
    (hinit : init.spoken = true) (hcondition : condition.spoken = true)
    (hafter : after.spoken = true) (h : Keeps s t tail) :
    Keeps (.forLoop init condition after s) (.forLoop init condition after t) tail where
  structured := by
    rw [Stmt.structured, hinit, hcondition, hafter, h.structured]
    rfl
  anchored := h.anchored
  bare := by simp [Stmt.bare, h.bare]
  isBranch := rfl

theorem keeps_graft_branch_some {alternative : List Stmt} {condition : Expr}
    {body : Option Stmt} {otherwise : List Stmt}
    (hcondition : condition.spoken = true) (hbody : structuredBody body = true)
    (hanchored : (Stmt.branch condition body (some otherwise)).anchored = true)
    (hopen : endsOpenElse (some otherwise) = true)
    (ih : ∀ s ∈ otherwise, s.anchored = true → s.endsOpen = true →
      Keeps s (graft alternative s) (bareElse (some alternative))) :
    Keeps (.branch condition body (some otherwise))
      (graft alternative (.branch condition body (some otherwise)))
      (bareElse (some alternative)) := by
  obtain ⟨hchained, hfirst⟩ := Bool.and_eq_true_iff.mp hopen
  obtain ⟨d, inner, last, rfl⟩ := exists_branch_of_isChained hchained
  simp only [anchored, Bool.and_eq_true] at hanchored
  obtain ⟨⟨hbodyA, hinnerA⟩, hfirm⟩ := hanchored
  have hinner := ih _ (List.mem_singleton_self _) (Bool.and_eq_true_iff.mp hinnerA).1 hfirst
  have hstill : isChained [graft alternative (.branch d inner last)] = true := hinner.isBranch
  rw [graft, graftFirst]
  refine ⟨?_, ?_, ?_, rfl⟩
  · rw [structured, hcondition, hbody, structuredElse, structuredAll, hinner.structured,
      Option.isSome_some, Bool.or_true]
    rfl
  · rw [anchored, hbodyA, anchoredElse, anchoredAll, hinner.anchored]
    exact hfirm
  · simp [bare, bareElse, hstill, hchained, bareAll, hinner.bare]

section

variable {alternative : List Stmt} (hs : structuredAll alternative = true)
  (ha : anchoredAll alternative = true)

include hs ha

theorem keeps_graft_branch_none {condition : Expr} {body : Option Stmt}
    (hcondition : condition.spoken = true) (hbody : structuredBody body = true)
    (hanchored : anchoredBody body = true)
    (ih : ∀ s ∈ body, s.endsOpen = true →
      Keeps s (graft alternative s) (bareElse (some alternative))) :
    Keeps (.branch condition body none) (graft alternative (.branch condition body none))
      (bareElse (some alternative)) := by
  rw [graft]
  cases hopen : (bodyOf body).endsOpen with
  | true =>
    cases body with
    | none => cases hopen
    | some s =>
      have hkeeps := ih s rfl hopen
      rw [if_pos rfl, graftBody]
      refine ⟨?_, ?_, ?_, rfl⟩
      · rw [structured, hcondition, structuredBody, hkeeps.structured]
        rfl
      · rw [anchored, anchoredBody, hkeeps.anchored]
        rfl
      · simp [bare, bareBody, hkeeps.bare, bareElse]
  | false =>
    rw [if_neg Bool.false_ne_true]
    refine ⟨?_, ?_, ?_, rfl⟩
    · rw [structured, hcondition, hbody, structuredElse, hs, Option.isSome_some, Bool.or_true]
      rfl
    · rw [anchored, hanchored, anchoredElse, ha, hopen]
      rfl
    · simp [bare, bareElse]

/-- Grafting onto an anchored statement that ends open adds the text of an `else`. -/
theorem keeps_graft (s : Stmt) (h : s.structured = true) :
    s.anchored = true → s.endsOpen = true →
      Keeps s (graft alternative s) (bareElse (some alternative)) := by
  refine Inherited.all (P := fun s => s.anchored = true → s.endsOpen = true →
    Keeps s (graft alternative s) (bareElse (some alternative))) ?_ s h
  constructor
  case block => exact fun _ _ _ hopen => nomatch hopen
  case expr => exact fun _ _ _ hopen => nomatch hopen
  case whileLoop =>
    intro condition body hcondition _ ih hanchored hopen
    exact keeps_whileLoop hcondition (ih hanchored hopen)
  case forLoop =>
    intro init condition after body hinit hcondition hafter _ ih hanchored hopen
    exact keeps_forLoop hinit hcondition hafter (ih hanchored hopen)
  case branch =>
    intro condition body otherwise hcondition _ hbody helse hanchored hopen
    have hbodyS := (structuredBody_iff body).mpr fun s hs => (hbody s hs).1
    cases otherwise with
    | none =>
      simp only [anchored, Bool.and_eq_true] at hanchored
      obtain ⟨⟨hbodyA, -⟩, -⟩ := hanchored
      exact keeps_graft_branch_none hs ha hcondition hbodyS hbodyA fun s hmem hopen =>
        (hbody s hmem).2 (anchored_of_mem hbodyA hmem) hopen
    | some b =>
      exact keeps_graft_branch_some hcondition hbodyS hanchored hopen
        fun s hmem => (helse b rfl s hmem).2

end

/-! ## From the inside out -/

theorem keeps_reanchoredAll {body : List Stmt} (h : ∀ s ∈ body, Keeps s s.reanchored []) :
    structuredAll (reanchoredAll body) = true ∧ anchoredAll (reanchoredAll body) = true ∧
      bareAll (reanchoredAll body) = bareAll body := by
  induction body with
  | nil => exact ⟨rfl, rfl, rfl⟩
  | cons s rest ih =>
    obtain ⟨hs, hrest⟩ := List.forall_mem_cons.mp h
    obtain ⟨hstructured, hanchored, hbare⟩ := ih hrest
    refine ⟨?_, ?_, ?_⟩
    · rw [reanchoredAll, structuredAll, hs.structured, hstructured]
      rfl
    · rw [reanchoredAll, anchoredAll, hs.anchored, hanchored]
      rfl
    · rw [reanchoredAll, bareAll, bareAll, hs.bare, List.append_nil, hbare]

theorem isChained_reanchoredAll {body : List Stmt} (h : ∀ s ∈ body, Keeps s s.reanchored []) :
    isChained (reanchoredAll body) = isChained body := by
  match body with
  | [] => rfl
  | [s] => exact (h s (List.mem_singleton_self s)).isBranch
  | _ :: _ :: _ => rfl

theorem bareElse_reanchoredElse {otherwise : Option (List Stmt)}
    (h : ∀ b ∈ otherwise, ∀ s ∈ b, Keeps s s.reanchored []) :
    bareElse (reanchoredElse otherwise) = bareElse otherwise := by
  cases otherwise with
  | none => rfl
  | some b =>
    have hchained := isChained_reanchoredAll (h b rfl)
    obtain ⟨-, -, hbare⟩ := keeps_reanchoredAll (h b rfl)
    rw [reanchoredElse, bareElse, bareElse, hchained, hbare]

theorem keeps_reanchored_branch {condition : Expr} {body : Option Stmt}
    {otherwise : Option (List Stmt)} (hcondition : condition.spoken = true)
    (hsome : (body.isSome || otherwise.isSome) = true)
    (hbody : ∀ s ∈ body, Keeps s s.reanchored [])
    (helse : ∀ b ∈ otherwise, ∀ s ∈ b, Keeps s s.reanchored []) :
    Keeps (.branch condition body otherwise)
      (reanchored (.branch condition body otherwise)) [] := by
  have hbodyS : structuredBody (reanchoredBody body) = true := by
    cases body with
    | none => rfl
    | some s => exact (hbody s rfl).structured
  have hbodyA : anchoredBody (reanchoredBody body) = true := by
    cases body with
    | none => rfl
    | some s => exact (hbody s rfl).anchored
  have hbare : bareBody (reanchoredBody body) = bareBody body := by
    cases body with
    | none => rfl
    | some s => rw [reanchoredBody, bareBody, bareBody, (hbody s rfl).bare, List.append_nil]
  have hbareElse := bareElse_reanchoredElse helse
  cases otherwise with
  | none =>
    have hkeptSome : (reanchoredBody body).isSome = true := by
      cases body with
      | none => cases hsome
      | some s => rfl
    refine ⟨?_, ?_, ?_, rfl⟩
    · rw [reanchored, reanchoredElse, rejoined, structured, hcondition, hkeptSome, hbodyS]
      rfl
    · rw [reanchored, reanchoredElse, rejoined, anchored, hbodyA]
      rfl
    · rw [reanchored, reanchoredElse, rejoined, bare, bare, hbare, List.append_nil]
  | some b =>
    -- grafting decides whether the `else` stays here or moves into the body
    obtain ⟨hs, ha, -⟩ := keeps_reanchoredAll (helse b rfl)
    have hgraft := keeps_graft_branch_none hs ha hcondition hbodyS hbodyA fun s hmem hopen =>
      keeps_graft hs ha s ((structuredBody_iff _).mp hbodyS s hmem)
        (anchored_of_mem hbodyA hmem) hopen
    refine ⟨hgraft.structured, hgraft.anchored, ?_, hgraft.isBranch⟩
    rw [reanchored, reanchoredElse, rejoined, hgraft.bare, List.append_nil, bare, bare, hbare,
      ← hbareElse, reanchoredElse]
    simp [bareElse]

theorem keeps_reanchored (s : Stmt) (h : s.structured = true) : Keeps s s.reanchored [] := by
  refine Inherited.all (P := fun s => Keeps s s.reanchored []) ?_ s h
  constructor
  case block =>
    intro body hbody
    obtain ⟨hstructured, hanchored, hbare⟩ := keeps_reanchoredAll fun s hs => (hbody s hs).2
    exact ⟨hstructured, hanchored, by rw [reanchored, bare, bare, hbare, List.append_nil], rfl⟩
  case branch =>
    intro condition body otherwise hcondition hsome hbody helse
    exact keeps_reanchored_branch hcondition hsome (fun s hs => (hbody s hs).2)
      fun b hb s hs => (helse b hb s hs).2
  case whileLoop =>
    intro condition body hcondition _ ih
    exact keeps_whileLoop hcondition ih
  case forLoop =>
    intro init condition after body hinit hcondition hafter _ ih
    exact keeps_forLoop hinit hcondition hafter ih
  case expr =>
    intro e he
    exact ⟨he, rfl, (List.append_nil _).symm, rfl⟩

/-! ## Anchoring and filled bodies -/

theorem isChained_filledAll (body : List Stmt) : isChained (filledAll body) = isChained body := by
  match body with
  | [] => rfl
  | [s] => cases s <;> rfl
  | _ :: _ :: _ => rfl

theorem endsOpen_filled (s : Stmt) (h : s.structured = true) : s.filled.endsOpen = s.endsOpen := by
  refine Inherited.all (P := fun s => s.filled.endsOpen = s.endsOpen) ?_ s h
  constructor
  case block => exact fun _ _ => rfl
  case branch =>
    intro condition body otherwise _ _ _ helse
    cases otherwise with
    | none => rfl
    | some b =>
      rw [filled, filledElse, endsOpen, endsOpen, endsOpenElse, endsOpenElse, isChained_filledAll]
      cases b with
      | nil => rfl
      | cons s rest =>
        rw [filledAll, endsOpenFirst, endsOpenFirst, (helse _ rfl s (List.mem_cons_self ..)).2]
  case whileLoop => exact fun _ _ _ _ ih => ih
  case forLoop => exact fun _ _ _ _ _ _ _ _ ih => ih
  case expr => exact fun _ _ => rfl

theorem anchoredAll_filledAll {body : List Stmt}
    (h : ∀ s ∈ body, s.filled.anchored = s.anchored) :
    anchoredAll (filledAll body) = anchoredAll body := by
  induction body with
  | nil => rfl
  | cons s rest ih =>
    obtain ⟨hs, hrest⟩ := List.forall_mem_cons.mp h
    rw [filledAll, anchoredAll, anchoredAll, hs, ih hrest]

theorem anchored_filled (s : Stmt) (h : s.structured = true) : s.filled.anchored = s.anchored := by
  refine Inherited.all (P := fun s => s.filled.anchored = s.anchored) ?_ s h
  constructor
  case block =>
    intro body hbody
    exact anchoredAll_filledAll fun s hs => (hbody s hs).2
  case branch =>
    intro condition body otherwise _ _ hbody helse
    have hbodyA : anchoredBody (filledBody otherwise.isSome body) = anchoredBody body := by
      cases body with
      | none => cases otherwise <;> rfl
      | some s => exact (hbody s rfl).2
    have hopen : (bodyOf (filledBody otherwise.isSome body)).endsOpen = (bodyOf body).endsOpen := by
      cases body with
      | none => cases otherwise <;> rfl
      | some s => exact endsOpen_filled s (hbody s rfl).1
    have helseA : anchoredElse (filledElse otherwise) = anchoredElse otherwise := by
      cases otherwise with
      | none => rfl
      | some b => exact anchoredAll_filledAll fun s hs => (helse b rfl s hs).2
    have hsome : (filledElse otherwise).isSome = otherwise.isSome := by
      cases otherwise <;> rfl
    rw [filled, anchored, anchored, hbodyA, helseA, hsome, hopen]
  case whileLoop => exact fun _ _ _ _ ih => ih
  case forLoop => exact fun _ _ _ _ _ _ _ _ ih => ih
  case expr => exact fun _ _ => rfl

theorem filled_reanchored_ne {s : Stmt} (h : s.structured = true) (hanchored : s.anchored = false) :
    s.reanchored.filled ≠ s.filled := by
  have hkeeps := keeps_reanchored s h
  intro heq
  have hsame : s.reanchored.anchored = s.anchored := by
    rw [← anchored_filled _ hkeeps.structured, heq, anchored_filled s h]
  rw [hkeeps.anchored, hanchored] at hsame
  cases hsame

/-! ## The text of a statement -/

/-- Up to blanks, the text of an anchored statement is that of no other anchored one. One that is
not anchored has the text of the statement with every `else` where it falls, which is another one,
and which is written wherever its lines fit. -/
theorem written_determines_anchored (s : Stmt) (h : s.structured = true) :
    (s.anchored = true →
      ∀ (t : Stmt) (place place' : Place) (p q : Printer) (u v : String),
        p.sink.writer.room = none → q.sink.writer.room = none →
        t.structured = true → t.anchored = true →
        Printer.Writes (Printer.writeStmt place s) p u →
        Printer.Writes (Printer.writeStmt place' t) q v →
        unspaced u.toList = unspaced v.toList → s.filled = t.filled) ∧
    (s.anchored = false →
      s.reanchored.structured = true ∧ s.reanchored.anchored = true ∧
      s.reanchored.filled ≠ s.filled ∧
      ∀ (place place' : Place) (p q : Printer) (u : String),
        p.sink.writer.room = none → q.sink.writer.room = none →
        Printer.Writes (Printer.writeStmt place s) p u →
        (∀ v : String, Printer.Writes (Printer.writeStmt place' s.reanchored) q v →
          unspaced u.toList = unspaced v.toList) ∧
        (q.sink.depth + s.reanchored.nesting < Sink.wordLimit →
          q.sheet.FitsAll (s.reanchored.levels q.options.elideTrailingReturn q.sink.depth) →
          ∃ v : String, Printer.Writes (Printer.writeStmt place' s.reanchored) q v)) := by
  refine ⟨?_, ?_⟩
  · intro hsa t place place' p q u v hp hq ht hta hu hv hsame
    have hbare : s.bare = t.bare := by
      rw [← unspaced_of_writes h hp hu, hsame, unspaced_of_writes ht hq hv]
    exact filled_eq_of_bare_eq h ht hsa hta hbare
  · intro hanchored
    have hkeeps := keeps_reanchored s h
    refine ⟨hkeeps.structured, hkeeps.anchored, filled_reanchored_ne h hanchored, ?_⟩
    intro place place' p q u hp hq hu
    refine ⟨fun v hv => ?_, fun hdeep hfits => ?_⟩
    · rw [unspaced_of_writes h hp hu, unspaced_of_writes hkeeps.structured hq hv, hkeeps.bare,
        List.append_nil]
    · exact (exists_writes_iff hkeeps.structured hq hdeep place').mpr hfits

/-- An `else` of the outer `if` is written where it falls to the inner one, so two statements have
one text up to blanks, in pages of any two widths on which both are written. -/
theorem written_determines_anchored_dangling :
    let x : Stmt := .expr (.name "x")
    let y : Stmt := .expr (.name "y")
    let inner : Stmt := .branch (.name "a") (some (.branch (.name "b") (some x) (some [y]))) none
    let outer : Stmt := .branch (.name "a") (some (.branch (.name "b") (some x) none)) (some [y])
    let innerText : String := "if (a)\n  if (b)\n    x;\n  else\n  \x7b\n    y;\n  \x7d\n"
    let outerText : String := "if (a)\n  if (b)\n    x;\nelse\n\x7b\n  y;\n\x7d\n"
    let p : Printer := Printer.start {} {}
    let q : Printer := Printer.start {} { indentWidth := 30000 }
    inner.structured = true ∧ inner.anchored = true ∧
    outer.structured = true ∧ outer.anchored = false ∧ outer.reanchored = inner ∧
    Printer.Writes (Printer.writeStmt .outside outer) p outerText ∧
    Printer.Writes (Printer.writeStmt .outside inner) p innerText ∧
    unspaced outerText.toList = unspaced innerText.toList ∧ inner.filled ≠ outer.filled ∧
    (∀ (t : Stmt) (v : String), t.structured = true → t.anchored = true →
      Printer.Writes (Printer.writeStmt .outside t) p v →
      unspaced innerText.toList = unspaced v.toList → inner.filled = t.filled) ∧
    q.sheet.FitsAll (inner.levels true 0) ∧
    ∃ v : String, Printer.Writes (Printer.writeStmt .outside inner) q v ∧
      unspaced outerText.toList = unspaced v.toList := by
  intro x y inner outer innerText outerText p q
  have hinnerS : inner.structured = true := by decide +kernel
  have hinnerA : inner.anchored = true := by decide +kernel
  have houterS : outer.structured = true := by decide +kernel
  have houterA : outer.anchored = false := by decide +kernel
  have houter : Printer.Writes (Printer.writeStmt .outside outer) p outerText :=
    Printer.writes_of_isOk (by decide +kernel) (by decide +kernel)
  have hinner : Printer.Writes (Printer.writeStmt .outside inner) p innerText :=
    Printer.writes_of_isOk (by decide +kernel) (by decide +kernel)
  have hfits : q.sheet.FitsAll (inner.levels true 0) := by decide
  obtain ⟨-, -, hne, htwin⟩ := (written_determines_anchored outer houterS).2 houterA
  have hsame := (htwin .outside .outside p p outerText rfl rfl houter).1 innerText hinner
  obtain ⟨hwide, hexists⟩ := htwin .outside .outside p q outerText rfl rfl houter
  obtain ⟨v, hv⟩ := hexists (by decide) hfits
  refine ⟨hinnerS, hinnerA, houterS, houterA, rfl, houter, hinner, hsame, hne, ?_, hfits, v, hv,
    hwide v hv⟩
  intro t v ht hta hv hblanks
  exact (written_determines_anchored inner hinnerS).1 hinnerA t .outside .outside p p innerText v
    rfl rfl ht hta hinner hv hblanks

end Scribe.Stmt
