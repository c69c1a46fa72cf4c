import Scribe.Proofs.Stmt.Bare

/-! How bare texts start and where they end. An expression is read back before anything that ends an
expression, and the word that a statement starts with tells its kind, as free names are not
keywords. What an `else` starts with starts no statement: a call of `elseif` is followed by a
semicolon, and nothing that stands under an `if` starts with one. -/

namespace Scribe

/-- What stands behind an expression. -/
def EndsExpr : List Char → Prop
  | c :: _ => c = ',' ∨ c = ')' ∨ c = ';'
  | [] => False

theorem endsExpr_comma (r : List Char) : EndsExpr (',' :: r) := Or.inl rfl

theorem endsExpr_paren (r : List Char) : EndsExpr (')' :: r) := Or.inr (Or.inl rfl)

theorem endsExpr_semicolon (r : List Char) : EndsExpr (';' :: r) := Or.inr (Or.inr rfl)

theorem EndsExpr.stops {r : List Char} (h : EndsExpr r) : Stops r := by
  match r with
  | c :: r =>
    rcases h with rfl | rfl | rfl
    · exact stops_cons (by decide) (by decide)
    · exact stops_cons (by decide) (by decide)
    · exact stops_cons (by decide) (by decide)

theorem not_endsExpr_paren (r : List Char) : ¬ EndsExpr ('(' :: r) := by
  rintro (h | h | h) <;> cases h

theorem stops_paren (r : List Char) : Stops ('(' :: r) := stops_cons (by decide) (by decide)

namespace Name

theorem isTail_of_isFree {name : String} (h : isFree name = true) :
    ∀ c ∈ name.toList, isTail c = true :=
  fun _ hc => isTail_of_mem (isPlain_of_isFree h) hc

/-- Free names are told apart from other words, whatever follows. -/
theorem eq_of_append_eq {a b : String} (ha : isFree a = true) (hb : isFree b = true)
    {r t : List Char} (hr : Stops r) (ht : Stops t) (h : a.toList ++ r = b.toList ++ t) :
    a = b ∧ r = t := by
  obtain ⟨hword, hrest⟩ := wordRun_unique (isTail_of_isFree ha) (isTail_of_isFree hb) hr ht h
  exact ⟨String.toList_injective hword, hrest⟩

end Name

/-! ## Expressions -/

namespace Expr

theorem exists_cons_bare {e : Expr} (h : e.spoken = true) :
    ∃ c cs, e.bare = c :: cs ∧ Name.isTail c = true := by
  have hname : ∀ {name : String}, Name.isFree name = true →
      ∃ c cs, name.toList = c :: cs ∧ Name.isTail c = true := by
    intro name hfree
    obtain ⟨c, cs, hcs, hc, -⟩ := Name.exists_cons_of_isPlain (Name.isPlain_of_isFree hfree)
    exact ⟨c, cs, hcs, Name.isTail_of_isHead hc⟩
  cases e with
  | name text => exact hname h
  | call function arguments =>
    obtain ⟨c, cs, hcs, hc⟩ := hname (Bool.and_eq_true_iff.mp h).1
    exact ⟨c, _, by rw [bare, hcs]; rfl, hc⟩
  | _ => cases h

private theorem bareAll_append_ne_paren {e : Expr} (h : e.spoken = true) (es : List Expr)
    (t r : List Char) : bareAll (e :: es) ++ t ≠ ')' :: r := by
  obtain ⟨c, cs, hcs, hc⟩ := exists_cons_bare h
  intro heq
  rw [bareAll, hcs] at heq
  obtain rfl : c = ')' := (List.cons.inj heq).1
  cases hc

theorem endsExpr_bareRest (es : List Expr) (r : List Char) :
    EndsExpr (bareRest es ++ ')' :: r) := by
  cases es with
  | nil => exact endsExpr_paren r
  | cons e es => exact endsExpr_comma _

mutual

theorem bare_append_inj (e f : Expr) (he : e.spoken = true) (hf : f.spoken = true)
    {r t : List Char} (hr : EndsExpr r) (ht : EndsExpr t) (h : e.bare ++ r = f.bare ++ t) :
    e = f ∧ r = t := by
  match e, f with
  | .name a, .name b =>
    obtain ⟨rfl, hrest⟩ := Name.eq_of_append_eq he hf hr.stops ht.stops h
    exact ⟨rfl, hrest⟩
  | .name a, .call g bs =>
    rw [bare, bare, List.append_assoc] at h
    have hg := (Bool.and_eq_true_iff.mp hf).1
    obtain ⟨-, rfl⟩ := Name.eq_of_append_eq he hg hr.stops (stops_paren _) h
    exact absurd hr (not_endsExpr_paren _)
  | .call f as, .name b =>
    rw [bare, bare, List.append_assoc] at h
    have hg := (Bool.and_eq_true_iff.mp he).1
    obtain ⟨-, rfl⟩ := Name.eq_of_append_eq hg hf (stops_paren _) ht.stops h
    exact absurd ht (not_endsExpr_paren _)
  | .call f as, .call g bs =>
    obtain ⟨hfn, has⟩ := Bool.and_eq_true_iff.mp he
    obtain ⟨hgn, hbs⟩ := Bool.and_eq_true_iff.mp hf
    rw [bare, bare, List.append_assoc, List.append_assoc] at h
    obtain ⟨rfl, hrest⟩ := Name.eq_of_append_eq hfn hgn (stops_paren _) (stops_paren _) h
    have hargs : bareAll as ++ ')' :: r = bareAll bs ++ ')' :: t := by
      simpa using hrest
    obtain ⟨rfl, rfl⟩ := bareAll_append_inj as bs has hbs hargs
    exact ⟨rfl, rfl⟩

theorem bareAll_append_inj (as bs : List Expr) (has : spokenAll as = true)
    (hbs : spokenAll bs = true) {r t : List Char}
    (h : bareAll as ++ ')' :: r = bareAll bs ++ ')' :: t) : as = bs ∧ r = t := by
  match as, bs with
  | [], [] => exact ⟨rfl, (List.cons.inj h).2⟩
  | [], b :: bs =>
    have hb := (Bool.and_eq_true_iff.mp hbs).1
    exact absurd h.symm (bareAll_append_ne_paren hb bs _ r)
  | a :: as, [] =>
    have ha := (Bool.and_eq_true_iff.mp has).1
    exact absurd h (bareAll_append_ne_paren ha as _ t)
  | a :: as, b :: bs =>
    obtain ⟨ha, hrestA⟩ := Bool.and_eq_true_iff.mp has
    obtain ⟨hb, hrestB⟩ := Bool.and_eq_true_iff.mp hbs
    rw [bareAll, bareAll, List.append_assoc, List.append_assoc] at h
    obtain ⟨rfl, hrest⟩ :=
      bare_append_inj a b ha hb (endsExpr_bareRest as r) (endsExpr_bareRest bs t) h
    obtain ⟨rfl, rfl⟩ := bareRest_append_inj as bs hrestA hrestB hrest
    exact ⟨rfl, rfl⟩

theorem bareRest_append_inj (as bs : List Expr) (has : spokenAll as = true)
    (hbs : spokenAll bs = true) {r t : List Char}
    (h : bareRest as ++ ')' :: r = bareRest bs ++ ')' :: t) : as = bs ∧ r = t := by
  match as, bs with
  | [], [] => exact ⟨rfl, (List.cons.inj h).2⟩
  | [], b :: bs => cases (List.cons.inj h).1
  | a :: as, [] => cases (List.cons.inj h).1
  | a :: as, b :: bs =>
    obtain ⟨ha, hrestA⟩ := Bool.and_eq_true_iff.mp has
    obtain ⟨hb, hrestB⟩ := Bool.and_eq_true_iff.mp hbs
    have hbody : a.bare ++ (bareRest as ++ ')' :: r) = b.bare ++ (bareRest bs ++ ')' :: t) := by
      simpa [bareRest] using h
    obtain ⟨rfl, hrest⟩ :=
      bare_append_inj a b ha hb (endsExpr_bareRest as r) (endsExpr_bareRest bs t) hbody
    obtain ⟨rfl, rfl⟩ := bareRest_append_inj as bs hrestA hrestB hrest
    exact ⟨rfl, rfl⟩

end

theorem bare_cons_inj {e f : Expr} (he : e.spoken = true) (hf : f.spoken = true) {c : Char}
    (hc : ∀ r, EndsExpr (c :: r)) {r u : List Char} (h : e.bare ++ c :: r = f.bare ++ c :: u) :
    e = f ∧ r = u := by
  obtain ⟨hsame, htail⟩ := bare_append_inj e f he hf (hc r) (hc u) h
  exact ⟨hsame, (List.cons.inj htail).2⟩

end Expr

/-! ## Statements -/

namespace Stmt

/-- The word that a statement starts with; a block starts with none. -/
def opening : Stmt → List Char
  | .branch .. => ['i', 'f']
  | .whileLoop .. => ['w', 'h', 'i', 'l', 'e']
  | .forLoop .. => ['f', 'o', 'r']
  | .expr (.name text) => text.toList
  | .expr (.call function _) => function.toList
  | _ => []

theorem isTail_opening {s : Stmt} (h : s.structured = true) :
    ∀ c ∈ s.opening, Name.isTail c = true := by
  cases s with
  | branch _ _ _ => exact List.all_eq_true.mp rfl
  | whileLoop _ _ => exact List.all_eq_true.mp rfl
  | forLoop _ _ _ _ => exact List.all_eq_true.mp rfl
  | expr e =>
    cases e with
    | name text => exact Name.isTail_of_isFree h
    | call function arguments => exact Name.isTail_of_isFree (Bool.and_eq_true_iff.mp h).1
    | _ => exact nofun
  | _ => exact nofun

theorem bare_eq_opening {s : Stmt} (h : s.structured = true) :
    ∃ rest, s.bare = s.opening ++ rest ∧ ∀ r, Stops (rest ++ r) := by
  cases s with
  | block body => exact ⟨_, rfl, fun r => stops_cons (by decide) (by decide)⟩
  | branch condition body otherwise => exact ⟨'(' :: _, rfl, fun r => stops_paren _⟩
  | whileLoop condition body => exact ⟨'(' :: _, rfl, fun r => stops_paren _⟩
  | forLoop init condition after body => exact ⟨'(' :: _, rfl, fun r => stops_paren _⟩
  | expr e =>
    cases e with
    | name text => exact ⟨_, rfl, fun r => stops_cons (by decide) (by decide)⟩
    | call function arguments => exact ⟨_, List.append_assoc .., fun r => stops_paren _⟩
    | _ => cases h
  | _ => cases h

theorem opening_eq_of_append_eq {s : Stmt} (h : s.structured = true) {w r t : List Char}
    (hw : ∀ c ∈ w, Name.isTail c = true) (ht : Stops t) (heq : s.bare ++ r = w ++ t) :
    s.opening = w := by
  obtain ⟨rest, hrest, hstops⟩ := bare_eq_opening h
  rw [hrest, List.append_assoc] at heq
  exact (wordRun_unique (isTail_opening h) hw (hstops r) ht heq).1

/-- A statement starts with a brace or with a character of a word. -/
theorem bare_append_ne_cons {s : Stmt} (h : s.structured = true) {c : Char}
    (hc : Name.isTail c = false) (hbrace : c ≠ '\x7b') (r t : List Char) :
    s.bare ++ r ≠ c :: t := by
  have hword : ∀ {d : Char} {cs : List Char}, s.bare = d :: cs → Name.isTail d = true →
      s.bare ++ r ≠ c :: t := by
    intro d cs hcs hd heq
    rw [hcs] at heq
    obtain rfl : d = c := (List.cons.inj heq).1
    rw [hd] at hc
    cases hc
  cases s with
  | block body =>
    intro heq
    exact hbrace (List.cons.inj heq).1.symm
  | branch _ _ _ => exact hword rfl (by decide)
  | whileLoop _ _ => exact hword rfl (by decide)
  | forLoop _ _ _ _ => exact hword rfl (by decide)
  | expr e =>
    obtain ⟨d, cs, hcs, hd⟩ := Expr.exists_cons_bare h
    have hbare : (Stmt.expr e).bare = d :: (cs ++ [';']) := by rw [bare, hcs]; rfl
    exact hword hbare hd
  | _ => cases h

/-- Both statements are made by the same constructor. -/
inductive SameKind : Stmt → Stmt → Prop
  | block (a b : List Stmt) : SameKind (.block a) (.block b)
  | branch (c d : Expr) (a b : Option Stmt) (o p : Option (List Stmt)) :
    SameKind (.branch c a o) (.branch d b p)
  | whileLoop (c d : Expr) (a b : Stmt) : SameKind (.whileLoop c a) (.whileLoop d b)
  | forLoop (i c e j d f : Expr) (a b : Stmt) : SameKind (.forLoop i c e a) (.forLoop j d f b)
  | expr (e f : Expr) : SameKind (.expr e) (.expr f)

/-- An expression starts with a free name. -/
theorem exists_opening_expr {e : Expr} (h : e.spoken = true) :
    ∃ name, Name.isFree name = true ∧ (Stmt.expr e).opening = name.toList := by
  cases e with
  | name text => exact ⟨text, h, rfl⟩
  | call function arguments => exact ⟨function, (Bool.and_eq_true_iff.mp h).1, rfl⟩
  | _ => cases h

theorem opening_expr_ne {e : Expr} (h : e.spoken = true) (keyword : String)
    (hkeyword : keyword ∈ "" :: keywords) : (Stmt.expr e).opening ≠ keyword.toList := by
  obtain ⟨name, hfree, hname⟩ := exists_opening_expr h
  intro heq
  have hsame : name = keyword := String.toList_injective (hname.symm.trans heq)
  rcases List.mem_cons.mp hkeyword with rfl | hmem
  · rw [hsame] at hfree
    cases hfree
  · exact Name.not_keyword_of_isFree hfree (hsame ▸ hmem)

theorem sameKind_of_opening_eq {s t : Stmt} (hs : s.structured = true) (ht : t.structured = true)
    (h : s.opening = t.opening) : SameKind s t := by
  cases s with
  | block a =>
    cases t with
    | block b => exact .block a b
    | expr e => exact absurd h.symm (opening_expr_ne ht "" (by decide))
    | branch _ _ _ => cases h
    | whileLoop _ _ => cases h
    | forLoop _ _ _ _ => cases h
    | _ => cases ht
  | branch c a o =>
    cases t with
    | branch d b p => exact .branch c d a b o p
    | expr e => exact absurd h.symm (opening_expr_ne ht "if" (by decide))
    | block _ => cases h
    | whileLoop _ _ => cases h
    | forLoop _ _ _ _ => cases h
    | _ => cases ht
  | whileLoop c a =>
    cases t with
    | whileLoop d b => exact .whileLoop c d a b
    | expr e => exact absurd h.symm (opening_expr_ne ht "while" (by decide))
    | block _ => cases h
    | branch _ _ _ => cases h
    | forLoop _ _ _ _ => cases h
    | _ => cases ht
  | forLoop i c e a =>
    cases t with
    | forLoop j d f b => exact .forLoop i c e j d f a b
    | expr e => exact absurd h.symm (opening_expr_ne ht "for" (by decide))
    | block _ => cases h
    | branch _ _ _ => cases h
    | whileLoop _ _ => cases h
    | _ => cases ht
  | expr e =>
    cases t with
    | expr f => exact .expr e f
    | block _ => exact absurd h (opening_expr_ne hs "" (by decide))
    | branch _ _ _ => exact absurd h (opening_expr_ne hs "if" (by decide))
    | whileLoop _ _ => exact absurd h (opening_expr_ne hs "while" (by decide))
    | forLoop _ _ _ _ => exact absurd h (opening_expr_ne hs "for" (by decide))
    | _ => cases ht
  | _ => cases hs

theorem sameKind_of_append_eq {s t : Stmt} (hs : s.structured = true) (ht : t.structured = true)
    {r u : List Char} (h : s.bare ++ r = t.bare ++ u) : SameKind s t := by
  obtain ⟨rest, hrest, hstops⟩ := bare_eq_opening ht
  rw [hrest, List.append_assoc] at h
  exact sameKind_of_opening_eq hs ht
    (opening_eq_of_append_eq hs (isTail_opening ht) (hstops u) h)

/-! ## What an `else` starts with -/

/-- The text goes on with an `else`. -/
def IsElse (r : List Char) : Prop :=
  ∃ body t, structuredAll body = true ∧ r = bareElse (some body) ++ t

theorem exists_branch_of_isChained {body : List Stmt} (h : isChained body = true) :
    ∃ condition inner otherwise, body = [.branch condition inner otherwise] := by
  match body with
  | [.branch condition inner otherwise] => exact ⟨condition, inner, otherwise, rfl⟩
  | [.block _] | [.whileLoop ..] | [.forLoop ..] | [.switch ..] | [.ret _] | [.breakLoop]
  | [.continueLoop] | [.goto _] | [.label _] | [.comment _] | [.expr _] | [.decl _] => cases h
  | [] => cases h
  | _ :: _ :: _ => cases h

theorem opening_ne_else {s : Stmt} (h : s.structured = true) :
    s.opening ≠ ['e', 'l', 's', 'e'] := by
  cases s with
  | expr e => exact opening_expr_ne h "else" (by decide)
  | block _ => exact nofun
  | branch _ _ _ => exact nofun
  | whileLoop _ _ => exact nofun
  | forLoop _ _ _ _ => exact nofun
  | _ => cases h

theorem bareBody_append_ne_semicolon {body : Option Stmt} (h : structuredBody body = true)
    (r t : List Char) : bareBody body ++ r ≠ ';' :: t := by
  cases body with
  | none => exact nofun
  | some s => exact bare_append_ne_cons h (by decide) (by decide) r t

/-- A call of `elseif` ends in a semicolon, where the branch of that text has its body. -/
theorem expr_append_ne_elseIf {e c : Expr} (he : e.spoken = true) (hc : c.spoken = true)
    {body : Option Stmt} (hbody : structuredBody body = true) (r t : List Char) :
    e.bare ++ ';' :: r ≠
      "elseif".toList ++ '(' :: (Expr.bareAll [c] ++ ')' :: (bareBody body ++ t)) := by
  have hfree : Name.isFree "elseif" = true := by decide +kernel
  intro heq
  cases e with
  | name text =>
    have hstop : Stops (';' :: r) := stops_cons (by decide) (by decide)
    cases (Name.eq_of_append_eq he hfree hstop (stops_paren _) heq).2
  | call function arguments =>
    obtain ⟨hfunction, hargs⟩ := Bool.and_eq_true_iff.mp he
    rw [Expr.bare, List.append_assoc] at heq
    have hrest := (Name.eq_of_append_eq hfunction hfree (stops_paren _) (stops_paren _) heq).2
    have hsame : Expr.bareAll arguments ++ ')' :: ';' :: r =
        Expr.bareAll [c] ++ ')' :: (bareBody body ++ t) := by
      simpa using hrest
    have hspoken : Expr.spokenAll [c] = true := by
      rw [Expr.spokenAll, hc]
      rfl
    have hend := (Expr.bareAll_append_inj arguments [c] hargs hspoken hsame).2
    exact bareBody_append_ne_semicolon hbody t r hend.symm
  | _ => cases he

theorem not_isElse_bare {s : Stmt} (h : s.structured = true) (r : List Char) :
    ¬ IsElse (s.bare ++ r) := by
  rintro ⟨body, t, hbody, heq⟩
  rw [bareElse] at heq
  cases hchained : isChained body with
  | false =>
    rw [hchained, List.append_assoc] at heq
    have hword : ∀ c ∈ ['e', 'l', 's', 'e'], Name.isTail c = true :=
      List.all_eq_true.mp (by decide)
    exact opening_ne_else h
      (opening_eq_of_append_eq h hword (stops_cons (by decide) (by decide)) heq)
  | true =>
    -- without the blank, `else if` runs together into one word
    rw [hchained] at heq
    obtain ⟨c, inner, otherwise, rfl⟩ := exists_branch_of_isChained hchained
    simp only [structuredAll, structured, Bool.and_eq_true] at hbody
    obtain ⟨⟨⟨⟨hc, -⟩, hinner⟩, -⟩, -⟩ := hbody
    have htext : s.bare ++ r = "elseif".toList ++ '(' ::
        (Expr.bareAll [c] ++ ')' :: (bareBody inner ++ (bareElse otherwise ++ t))) := by
      rw [heq]
      simp [bareAll, bare, Expr.bareAll, Expr.bareRest]
    have hword : ∀ c ∈ "elseif".toList, Name.isTail c = true :=
      List.all_eq_true.mp (by decide)
    have hopening := opening_eq_of_append_eq h hword (stops_paren _) htext
    cases s with
    | expr e =>
      rw [bare, List.append_assoc] at htext
      exact expr_append_ne_elseIf h hc hinner r _ htext
    | block _ => cases hopening
    | branch _ _ _ => cases hopening
    | whileLoop _ _ => cases hopening
    | forLoop _ _ _ _ => cases hopening
    | _ => cases h

theorem not_isElse_brace (r : List Char) : ¬ IsElse ('\x7d' :: r) := by
  rintro ⟨body, t, -, heq⟩
  cases (List.cons.inj heq).1

theorem not_isElse_nil : ¬ IsElse [] := by
  rintro ⟨body, t, -, heq⟩
  cases heq

theorem not_isElse_bareAll {body : List Stmt} (h : structuredAll body = true) (r : List Char) :
    ¬ IsElse (bareAll body ++ '\x7d' :: r) := by
  cases body with
  | nil => exact not_isElse_brace r
  | cons s rest =>
    rw [bareAll, List.append_assoc]
    exact not_isElse_bare (Bool.and_eq_true_iff.mp h).1 _

end Stmt

end Scribe
