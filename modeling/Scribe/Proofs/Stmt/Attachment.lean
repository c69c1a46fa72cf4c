import Scribe.Proofs.Stmt.Opening

/-! Which `if` an `else` belongs to. A body that is not a block is written without braces, so behind
a body that ends in an `if` of its own an `else` falls to that one. A statement is anchored when no
`else` of it stands there, and then its bare text determines it, up to bodies that are left out
before an `else` and written as empty blocks. -/

namespace Scribe.Stmt

mutual

/-- Whether an `else` written behind the statement would become part of it. -/
def endsOpen : Stmt → Bool
  | .branch _ _ otherwise => endsOpenElse otherwise
  | .whileLoop _ body => body.endsOpen
  | .forLoop _ _ _ body => body.endsOpen
  | _ => false

def endsOpenElse : Option (List Stmt) → Bool
  | none => true
  | some body => isChained body && endsOpenFirst body

def endsOpenFirst : List Stmt → Bool
  | [] => false
  | s :: _ => s.endsOpen

end

/-- An absent body is written as an empty block. -/
def bodyOf (body : Option Stmt) : Stmt := body.getD (.block [])

mutual

def anchored : Stmt → Bool
  | .block body => anchoredAll body
  | .branch _ body otherwise =>
    anchoredBody body && anchoredElse otherwise && !(otherwise.isSome && (bodyOf body).endsOpen)
  | .whileLoop _ body => body.anchored
  | .forLoop _ _ _ body => body.anchored
  | _ => true

def anchoredAll : List Stmt → Bool
  | [] => true
  | s :: rest => s.anchored && anchoredAll rest

def anchoredBody : Option Stmt → Bool
  | none => true
  | some s => s.anchored

def anchoredElse : Option (List Stmt) → Bool
  | none => true
  | some body => anchoredAll body

end

mutual

/-- The statement with an empty block for every body that is left out before an `else`. -/
def filled : Stmt → Stmt
  | .block body => .block (filledAll body)
  | .branch condition body otherwise =>
    .branch condition (filledBody otherwise.isSome body) (filledElse otherwise)
  | .whileLoop condition body => .whileLoop condition body.filled
  | .forLoop init condition after body => .forLoop init condition after body.filled
  | s => s

def filledAll : List Stmt → List Stmt
  | [] => []
  | s :: rest => s.filled :: filledAll rest

def filledBody (hasElse : Bool) : Option Stmt → Option Stmt
  | none => if hasElse then some (.block []) else none
  | some s => some s.filled

def filledElse : Option (List Stmt) → Option (List Stmt)
  | none => none
  | some body => some (filledAll body)

end

/-! ## Reading back -/

/-- Before anything that would not be taken for an `else` of it, the bare text of `s` is that of no
other anchored statement. -/
def Recovered (s : Stmt) : Prop :=
  ∀ (t : Stmt) (r u : List Char), t.structured = true → s.anchored = true → t.anchored = true →
    (s.endsOpen = true → ¬ IsElse r) → (t.endsOpen = true → ¬ IsElse u) →
    s.bare ++ r = t.bare ++ u → s.filled = t.filled ∧ r = u

theorem bareBody_eq (body : Option Stmt) : bareBody body = (bodyOf body).bare := by
  cases body <;> rfl

theorem structured_bodyOf {body : Option Stmt} (h : structuredBody body = true) :
    (bodyOf body).structured = true := by
  cases body with
  | none => rfl
  | some s => exact h

theorem anchored_bodyOf {body : Option Stmt} (h : anchoredBody body = true) :
    (bodyOf body).anchored = true := by
  cases body with
  | none => rfl
  | some s => exact h

theorem anchored_of_mem {body : Option Stmt} (h : anchoredBody body = true) {s : Stmt}
    (hs : s ∈ body) : s.anchored = true := by
  cases body with
  | none => cases hs
  | some t =>
    obtain rfl := Option.some.inj hs
    exact h

theorem filledBody_eq {body : Option Stmt} {otherwise : Option (List Stmt)}
    (h : (body.isSome || otherwise.isSome) = true) :
    filledBody otherwise.isSome body = some (bodyOf body).filled := by
  cases body with
  | none =>
    have hsome : otherwise.isSome = true := h
    rw [filledBody, if_pos hsome]
    rfl
  | some s => rfl

theorem bareAll_append_ne_brace {s : Stmt} (h : s.structured = true) (rest : List Stmt)
    (r t : List Char) : bareAll (s :: rest) ++ r ≠ '\x7d' :: t := by
  rw [bareAll, List.append_assoc]
  exact bare_append_ne_cons h (by decide) (by decide) _ t

theorem recovered_list {a : List Stmt} (ha : ∀ s ∈ a, s.structured = true ∧ s.Recovered)
    {b : List Stmt} (hb : structuredAll b = true) (haa : anchoredAll a = true)
    (hba : anchoredAll b = true) {r u : List Char}
    (h : bareAll a ++ '\x7d' :: r = bareAll b ++ '\x7d' :: u) :
    filledAll a = filledAll b ∧ r = u := by
  induction a generalizing b with
  | nil =>
    cases b with
    | nil => exact ⟨rfl, (List.cons.inj h).2⟩
    | cons t b =>
      exact absurd h.symm (bareAll_append_ne_brace (Bool.and_eq_true_iff.mp hb).1 b _ r)
  | cons s a ih =>
    obtain ⟨⟨hs, hrecovered⟩, hrest⟩ := List.forall_mem_cons.mp ha
    cases b with
    | nil => exact absurd h (bareAll_append_ne_brace hs a _ u)
    | cons t b =>
      obtain ⟨hts, hbs⟩ := Bool.and_eq_true_iff.mp hb
      obtain ⟨hsa, haa⟩ := Bool.and_eq_true_iff.mp haa
      obtain ⟨hta, hba⟩ := Bool.and_eq_true_iff.mp hba
      have hrestS : structuredAll a = true :=
        (structuredAll_iff a).mpr fun x hx => (hrest x hx).1
      rw [bareAll, bareAll, List.append_assoc, List.append_assoc] at h
      obtain ⟨hfilled, htail⟩ := hrecovered t _ _ hts hsa hta
        (fun _ => not_isElse_bareAll hrestS r) (fun _ => not_isElse_bareAll hbs u) h
      obtain ⟨hall, hru⟩ := ih hrest hbs haa hba htail
      exact ⟨by rw [filledAll, filledAll, hfilled, hall], hru⟩

theorem recovered_block {a : List Stmt} (ha : ∀ s ∈ a, s.structured = true ∧ s.Recovered) :
    Recovered (.block a) := by
  intro t r u ht hsa hta _ _ h
  have hs : (Stmt.block a).structured = true :=
    (structuredAll_iff a).mpr fun x hx => (ha x hx).1
  cases sameKind_of_append_eq hs ht h with
  | block _ b =>
    have hlist : bareAll a ++ '\x7d' :: r = bareAll b ++ '\x7d' :: u := by
      simpa [bare] using h
    obtain ⟨hall, hru⟩ := recovered_list ha ht hsa hta hlist
    exact ⟨by rw [filled, filled, hall], hru⟩

theorem recovered_bodyOf {body : Option Stmt}
    (h : ∀ s ∈ body, s.structured = true ∧ s.Recovered) : (bodyOf body).Recovered := by
  cases body with
  | none => exact recovered_block fun _ hs => absurd hs List.not_mem_nil
  | some s => exact (h s rfl).2

theorem recovered_whileLoop {c : Expr} {body : Stmt} (hc : c.spoken = true)
    (hbody : body.structured = true) (ih : body.Recovered) : Recovered (.whileLoop c body) := by
  intro t r u ht hsa hta hr hu h
  have hs : (Stmt.whileLoop c body).structured = true := by
    rw [structured, hc, hbody]
    rfl
  cases sameKind_of_append_eq hs ht h with
  | whileLoop _ d _ other =>
    obtain ⟨hd, hother⟩ := Bool.and_eq_true_iff.mp ht
    have hhead : c.bare ++ ')' :: (body.bare ++ r) = d.bare ++ ')' :: (other.bare ++ u) := by
      simpa [bare] using h
    obtain ⟨rfl, htail⟩ := Expr.bare_cons_inj hc hd endsExpr_paren hhead
    obtain ⟨hfilled, hru⟩ := ih other r u hother hsa hta hr hu htail
    exact ⟨by rw [filled, filled, hfilled], hru⟩

theorem recovered_forLoop {i c a : Expr} {body : Stmt} (hi : i.spoken = true)
    (hc : c.spoken = true) (ha : a.spoken = true) (hbody : body.structured = true)
    (ih : body.Recovered) : Recovered (.forLoop i c a body) := by
  intro t r u ht hsa hta hr hu h
  have hs : (Stmt.forLoop i c a body).structured = true := by
    rw [structured, hi, hc, ha, hbody]
    rfl
  cases sameKind_of_append_eq hs ht h with
  | forLoop _ _ _ j d b _ other =>
    simp only [structured, Bool.and_eq_true] at ht
    obtain ⟨⟨⟨hj, hd⟩, hb⟩, hother⟩ := ht
    have hhead : i.bare ++ ';' :: (c.bare ++ ';' :: (a.bare ++ ')' :: (body.bare ++ r))) =
        j.bare ++ ';' :: (d.bare ++ ';' :: (b.bare ++ ')' :: (other.bare ++ u))) := by
      simpa [bare] using h
    obtain ⟨rfl, hsecond⟩ := Expr.bare_cons_inj hi hj endsExpr_semicolon hhead
    obtain ⟨rfl, hthird⟩ := Expr.bare_cons_inj hc hd endsExpr_semicolon hsecond
    obtain ⟨rfl, htail⟩ := Expr.bare_cons_inj ha hb endsExpr_paren hthird
    obtain ⟨hfilled, hru⟩ := ih other r u hother hsa hta hr hu htail
    exact ⟨by rw [filled, filled, hfilled], hru⟩

theorem recovered_expr {e : Expr} (he : e.spoken = true) : Recovered (.expr e) := by
  intro t r u ht _ _ _ _ h
  have hs : (Stmt.expr e).structured = true := he
  cases sameKind_of_append_eq hs ht h with
  | expr _ f =>
    rw [bare, bare, List.append_assoc, List.append_assoc] at h
    obtain ⟨rfl, hru⟩ := Expr.bare_cons_inj he ht endsExpr_semicolon h
    exact ⟨rfl, hru⟩

theorem isElse_bareElse {body : List Stmt} (h : structuredAll body = true) (r : List Char) :
    IsElse (bareElse (some body) ++ r) :=
  ⟨body, r, h, rfl⟩

theorem chain_append_ne_brace {body : List Stmt} (h : isChained body = true) (r t : List Char) :
    bareAll body ++ r ≠ '\x7b' :: t := by
  obtain ⟨condition, inner, otherwise, rfl⟩ := exists_branch_of_isChained h
  intro heq
  cases (List.cons.inj heq).1

theorem recovered_chain {a b : List Stmt} (ha : ∀ s ∈ a, s.structured = true ∧ s.Recovered)
    (hb : structuredAll b = true) (hca : isChained a = true) (hcb : isChained b = true)
    (haa : anchoredAll a = true) (hba : anchoredAll b = true) {r u : List Char}
    (hr : endsOpenElse (some a) = true → ¬ IsElse r)
    (hu : endsOpenElse (some b) = true → ¬ IsElse u)
    (h : bareAll a ++ r = bareAll b ++ u) : filledAll a = filledAll b ∧ r = u := by
  obtain ⟨c, s, o, rfl⟩ := exists_branch_of_isChained hca
  obtain ⟨d, t, p, rfl⟩ := exists_branch_of_isChained hcb
  have hrecovered := (ha _ (List.mem_singleton_self _)).2
  have htext : (Stmt.branch c s o).bare ++ r = (Stmt.branch d t p).bare ++ u := by
    simpa [bareAll] using h
  obtain ⟨hfilled, hru⟩ := hrecovered _ r u (Bool.and_eq_true_iff.mp hb).1
    (Bool.and_eq_true_iff.mp haa).1 (Bool.and_eq_true_iff.mp hba).1 hr hu htext
  exact ⟨by rw [filledAll, filledAll, hfilled]; rfl, hru⟩

theorem recovered_else {o p : Option (List Stmt)}
    (ho : ∀ b ∈ o, ∀ s ∈ b, s.structured = true ∧ s.Recovered) (hp : structuredElse p = true)
    (hoa : anchoredElse o = true) (hpa : anchoredElse p = true) {r u : List Char}
    (hr : endsOpenElse o = true → ¬ IsElse r) (hu : endsOpenElse p = true → ¬ IsElse u)
    (h : bareElse o ++ r = bareElse p ++ u) : filledElse o = filledElse p ∧ r = u := by
  -- an `else` on one side alone would be text on the other that goes on with an `else`
  match o, p with
  | none, none => exact ⟨rfl, h⟩
  | none, some b =>
    have hr' : r = bareElse (some b) ++ u := h
    exact absurd (hr' ▸ isElse_bareElse hp u) (hr rfl)
  | some a, none =>
    have hs : structuredAll a = true := (structuredAll_iff a).mpr fun s hs => (ho a rfl s hs).1
    have hu' : bareElse (some a) ++ r = u := h
    exact absurd (hu' ▸ isElse_bareElse hs r) (hu rfl)
  | some a, some b =>
    have ha := ho a rfl
    rw [bareElse, bareElse, List.append_assoc, List.append_assoc] at h
    have hrest := List.append_cancel_left h
    cases hca : isChained a with
    | true =>
      cases hcb : isChained b with
      | true =>
        rw [hca, hcb] at hrest
        obtain ⟨hall, hru⟩ := recovered_chain ha hp hca hcb hoa hpa hr hu hrest
        exact ⟨congrArg some hall, hru⟩
      | false =>
        rw [hca, hcb] at hrest
        exact absurd hrest (chain_append_ne_brace hca r _)
    | false =>
      cases hcb : isChained b with
      | true =>
        rw [hca, hcb] at hrest
        exact absurd hrest.symm (chain_append_ne_brace hcb u _)
      | false =>
        rw [hca, hcb] at hrest
        have hlist : bareAll a ++ '\x7d' :: r = bareAll b ++ '\x7d' :: u := by
          simpa using hrest
        obtain ⟨hall, hru⟩ := recovered_list ha hp hoa hpa hlist
        exact ⟨congrArg some hall, hru⟩

theorem not_isElse_behind {body : Option Stmt} {otherwise : Option (List Stmt)} {r : List Char}
    (hfirm : (!(otherwise.isSome && (bodyOf body).endsOpen)) = true)
    (hr : endsOpenElse otherwise = true → ¬ IsElse r) :
    (bodyOf body).endsOpen = true → ¬ IsElse (bareElse otherwise ++ r) := by
  intro hopen
  cases otherwise with
  | none => exact hr rfl
  | some b =>
    rw [hopen] at hfirm
    cases hfirm

/-- Behind a body comes its own `else` or nothing that could be taken for one, so the bodies are
the same, and then the parts behind them are. -/
theorem recovered_branch {c : Expr} {body : Option Stmt} {otherwise : Option (List Stmt)}
    (hc : c.spoken = true) (hsome : (body.isSome || otherwise.isSome) = true)
    (hbody : ∀ s ∈ body, s.structured = true ∧ s.Recovered)
    (helse : ∀ b ∈ otherwise, ∀ s ∈ b, s.structured = true ∧ s.Recovered) :
    Recovered (.branch c body otherwise) := by
  intro t r u ht hsa hta hr hu h
  have hs : (Stmt.branch c body otherwise).structured = true := by
    have hb := (structuredBody_iff body).mpr fun s hs => (hbody s hs).1
    have he := (structuredElse_iff otherwise).mpr fun b hb =>
      (structuredAll_iff b).mpr fun s hs => (helse b hb s hs).1
    rw [structured, hc, hsome, hb, he]
    rfl
  cases sameKind_of_append_eq hs ht h with
  | branch _ d _ other _ p =>
    simp only [structured, Bool.and_eq_true] at ht
    obtain ⟨⟨⟨hd, hsome'⟩, hother⟩, hp⟩ := ht
    simp only [anchored, Bool.and_eq_true] at hsa hta
    obtain ⟨⟨hba, hoa⟩, hfirm⟩ := hsa
    obtain ⟨⟨hba', hpa⟩, hfirm'⟩ := hta
    have hhead : c.bare ++ ')' :: ((bodyOf body).bare ++ (bareElse otherwise ++ r)) =
        d.bare ++ ')' :: ((bodyOf other).bare ++ (bareElse p ++ u)) := by
      rw [← bareBody_eq, ← bareBody_eq]
      simpa [bare] using h
    obtain ⟨rfl, htail⟩ := Expr.bare_cons_inj hc hd endsExpr_paren hhead
    obtain ⟨hfilled, hbehind⟩ := recovered_bodyOf hbody (bodyOf other) _ _
      (structured_bodyOf hother) (anchored_bodyOf hba) (anchored_bodyOf hba')
      (not_isElse_behind hfirm hr) (not_isElse_behind hfirm' hu) htail
    obtain ⟨helse', hru⟩ := recovered_else helse hp hoa hpa hr hu hbehind
    refine ⟨?_, hru⟩
    rw [filled, filled, filledBody_eq hsome, filledBody_eq hsome', hfilled, helse']

theorem recovered (s : Stmt) (h : s.structured = true) : s.Recovered := by
  refine Inherited.all (P := Recovered) ?_ s h
  constructor
  case block => exact fun _ hbody => recovered_block hbody
  case branch => exact fun _ _ _ hc hsome hbody helse => recovered_branch hc hsome hbody helse
  case whileLoop => exact fun _ _ hc hbody ih => recovered_whileLoop hc hbody ih
  case forLoop => exact fun _ _ _ _ hi hc ha hbody ih => recovered_forLoop hi hc ha hbody ih
  case expr => exact fun _ he => recovered_expr he

theorem filled_eq_of_bare_eq {s t : Stmt} (hs : s.structured = true) (ht : t.structured = true)
    (hsa : s.anchored = true) (hta : t.anchored = true) (h : s.bare = t.bare) :
    s.filled = t.filled := by
  have hbare : s.bare ++ [] = t.bare ++ [] := by rw [h]
  exact (recovered s hs t [] [] ht hsa hta (fun _ => not_isElse_nil) (fun _ => not_isElse_nil)
    hbare).1

end Scribe.Stmt
