import Scribe.Proofs.History
import Scribe.Proofs.Page.Shift
import Scribe.Proofs.Stmt.Condition

/-! Chains of `else if`. In the tree each further condition stands inside the `else` of the one
before, ever deeper; on the page all of them stand at one depth. `flat` is that page, written down
condition by condition without looking at the nesting, and the main statement says that a chain of
any length is written as its flat page. -/

namespace Scribe

/-- The indentation of a line. -/
def Sheet.margin (sheet : Sheet) (d : Nat) : List Char := List.replicate (d * sheet.width) ' '

/-- What comes between a line that has begun and the opening brace or the `else` behind it. -/
def Sheet.gap (sheet : Sheet) (d : Nat) : List Char :=
  match sheet.style with
  | .sameLine => [' ']
  | .nextLine => '\n' :: sheet.margin d

/-! ## What is written if nothing stops it -/

/-- From `k`, if nothing stops it, `f` writes `t` and leaves the cursor at `k'`. -/
def Puts (f : Cursor → Effect) (k : Cursor) (t : List Char) (k' : Cursor) : Prop :=
  (f k).stop = none → (f k).text.toList = t ∧ (f k).cursor = k'

namespace Puts

variable {sheet : Sheet} {a b layout : Layout} {f g : Cursor → Effect} {k k₁ k₂ : Cursor}
  {t u : List Char}

theorem andThen (hf : Puts f k t k₁) (hg : Puts g k₁ u k₂) :
    Puts (fun k => (f k).andThen g) k (t ++ u) k₂ := by
  intro hstop
  have hfirst := Effect.stop_of_andThen hstop
  obtain ⟨rfl, rfl⟩ := hf hfirst
  simp only [Effect.andThen_of_none hfirst] at hstop ⊢
  obtain ⟨rfl, rfl⟩ := hg hstop
  exact ⟨String.toList_append, rfl⟩

theorem append (ha : Puts (a.effect sheet) k t k₁) (hb : Puts (b.effect sheet) k₁ u k₂) :
    Puts ((a ++ b).effect sheet) k (t ++ u) k₂ := by
  have hfun : (a ++ b).effect sheet = fun k => (a.effect sheet k).andThen (b.effect sheet) :=
    funext (Layout.effect_append sheet a b)
  rw [hfun]
  exact ha.andThen hb

theorem cmd {c : Cmd} (h : Puts (c.effect sheet ·) k t k₁) :
    Puts (Layout.effect sheet [c]) k t k₁ := by
  have hfun : Layout.effect sheet [c] = fun k => c.effect sheet k :=
    funext (Layout.effect_singleton sheet c)
  rw [hfun]
  exact h

theorem put (s : String) (midLine : Bool) :
    Puts (Effect.put s midLine) k s.toList ⟨k.depth, midLine⟩ := fun _ => ⟨rfl, rfl⟩

theorem breakLine (d : Nat) (midLine : Bool) :
    Puts Effect.breakLine ⟨d, midLine⟩ (if midLine then ['\n'] else []) ⟨d, false⟩ := by
  intro _
  cases midLine with
  | false => exact ⟨rfl, rfl⟩
  | true => exact ⟨by simp [Effect.breakLine, Effect.newline, Effect.put], rfl⟩

theorem indent : Puts (Effect.indent sheet.width) k (sheet.margin k.depth) ⟨k.depth, true⟩ := by
  intro hstop
  rw [Effect.indent_of_none hstop]
  exact ⟨String.toList_ofList, rfl⟩

theorem deeper : Puts Effect.deeper k [] ⟨k.depth + 1, k.midLine⟩ := by
  intro hstop
  rw [Effect.deeper_of_none hstop]
  exact ⟨rfl, rfl⟩

theorem shallower : Puts Effect.shallower k [] ⟨k.depth - 1, k.midLine⟩ := by
  intro hstop
  rw [(Effect.shallower_of_none hstop).2]
  exact ⟨rfl, rfl⟩

/-- Nothing comes behind a refusal. -/
theorem refuse (defect : Defect) (rest : Layout) :
    Puts (Layout.effect sheet (.refuse defect :: rest)) k t k₁ := by
  intro hstop
  rw [Layout.effect, Effect.andThen_of_stop rfl] at hstop
  cases hstop

theorem text (s : String) :
    Puts (Layout.effect sheet [.text s]) k s.toList ⟨k.depth, true⟩ := cmd (put s true)

/-- Text that stays on its line, unless something in it is refused. -/
theorem of_inline (h : layout.inline = true) (hne : layout ≠ []) :
    Puts (layout.effect sheet) k layout.ink ⟨k.depth, true⟩ := by
  induction layout generalizing k with
  | nil => exact absurd rfl hne
  | cons c rest ih =>
    obtain ⟨hc, hrest⟩ := Bool.and_eq_true_iff.mp h
    cases c with
    | text s =>
      by_cases hend : rest = []
      · subst hend
        have hlast : Puts (Layout.effect sheet [.text s]) k _ _ := .text s
        simpa [Cmd.ink] using hlast
      · simpa [Cmd.ink] using (Puts.text s).append (ih hrest hend)
    | refuse defect => exact .refuse defect rest
    | _ => cases hc

/-- Text that follows what is on the line, on the same line or on the next. -/
theorem continued {same fresh : String} {midLine : Bool} (hsame : same.toList = ' ' :: fresh.toList)
    (d : Nat) :
    Puts (fun k => if sheet.style = .sameLine && k.midLine then Effect.put same midLine k
      else Effect.freshLine sheet.width fresh midLine k) ⟨d, true⟩ (sheet.gap d ++ fresh.toList)
      ⟨d, midLine⟩ := by
  unfold Sheet.gap
  cases hstyle : sheet.style with
  | sameLine => exact fun _ => ⟨hsame, rfl⟩
  | nextLine => exact ((breakLine d true).andThen indent).andThen (put fresh midLine)

theorem openBrace (d : Nat) :
    Puts (Layout.effect sheet [.openBrace]) ⟨d, true⟩ (sheet.gap d ++ ['\x7b', '\n']) ⟨d, false⟩ :=
  cmd (continued (by decide) d)

theorem elseWord (d : Nat) :
    Puts (Layout.effect sheet [.elseWord]) ⟨d, true⟩ (sheet.gap d ++ "else".toList) ⟨d, true⟩ :=
  cmd (continued (by decide) d)

/-- An `else` that starts its line, behind a body without braces. -/
theorem elseWord_start (d : Nat) :
    Puts (Layout.effect sheet [.elseWord]) ⟨d, false⟩ (sheet.margin d ++ "else".toList)
      ⟨d, true⟩ := by
  have hfresh : Puts (Effect.freshLine sheet.width "else" true) ⟨d, false⟩ _ _ :=
    ((breakLine d false).andThen indent).andThen (put "else" true)
  have hword : Effect.elseWord sheet ⟨d, false⟩ =
      Effect.freshLine sheet.width "else" true ⟨d, false⟩ := by
    simp [Effect.elseWord]
  apply cmd
  unfold Puts at hfresh ⊢
  rwa [← hword] at hfresh

theorem of_nested (sheet : Sheet) (h : layout.Nested) (k : Cursor) :
    ∃ t midLine, Puts (layout.effect sheet) k t ⟨k.depth, midLine⟩ :=
  ⟨_, (layout.effect sheet k).cursor.midLine, fun hstop =>
    ⟨rfl, Cursor.ext ((h.level_effect sheet k).returns hstop) rfl⟩⟩

end Puts

/-! ## Blocks -/

namespace Layout

/-- The lines of a layout that starts a line at this depth, with the last one ended. -/
def lines (sheet : Sheet) (d : Nat) (inner : Layout) : List Char :=
  (effect sheet (inner ++ [.breakLine]) ⟨d, false⟩).text.toList

/-- A block that follows what is on the line at depth `d`, up to its closing brace. -/
def block (sheet : Sheet) (d : Nat) (inner : Layout) : List Char :=
  sheet.gap d ++ ['\x7b', '\n'] ++ inner.lines sheet (d + 1) ++ sheet.margin d ++ ['\x7d']

end Layout

namespace Puts

variable {sheet : Sheet} {inner : Layout}

/-- Leaving the level before the last line is ended or after it makes no difference. -/
theorem lines (h : inner.Nested) (d : Nat) :
    Puts (Layout.effect sheet (inner ++ [.shallower, .breakLine])) ⟨d + 1, false⟩
      (inner.lines sheet (d + 1)) ⟨d, false⟩ := by
  intro hstop
  have hfirst : (inner.effect sheet ⟨d + 1, false⟩).stop = none := by
    rw [Layout.effect_append] at hstop
    exact Effect.stop_of_andThen hstop
  obtain ⟨t, midLine, hinner⟩ := of_nested sheet h ⟨d + 1, false⟩
  have hended : Puts (Layout.effect sheet [.breakLine]) ⟨d + 1, midLine⟩ _ _ :=
    cmd (breakLine (d + 1) midLine)
  have hleft : Puts (Layout.effect sheet [.shallower]) ⟨d + 1, midLine⟩ _ _ := cmd shallower
  have hthen : Puts (Layout.effect sheet [.breakLine]) ⟨d, midLine⟩ _ _ :=
    cmd (breakLine d midLine)
  have hgoes : (Layout.effect sheet (inner ++ [.breakLine]) ⟨d + 1, false⟩).stop = none := by
    rw [Layout.effect_append, Effect.andThen_of_none hfirst, (hinner hfirst).2,
      Layout.effect_singleton]
    cases midLine <;> rfl
  obtain ⟨htext, hplace⟩ := hinner.append (hleft.append hthen) hstop
  refine ⟨?_, hplace⟩
  rw [Layout.lines, (hinner.append hended hgoes).1]
  exact htext

theorem braces (h : inner.Nested) (d : Nat) :
    Puts (Layout.effect sheet (Layout.braces true inner)) ⟨d, true⟩ (inner.block sheet d)
      ⟨d, true⟩ := by
  have hdeeper : Puts (Layout.effect sheet [.deeper]) ⟨d, false⟩ _ _ := cmd deeper
  have hindent : Puts (Layout.effect sheet [.indent]) ⟨d, false⟩ _ _ := cmd indent
  have hall := (((openBrace d).append hdeeper).append (lines h d)).append
    (hindent.append (text "\x7d"))
  simpa [Layout.braces, Layout.block] using hall

/-- The closing brace ends its line. -/
theorem braces_newline (h : inner.Nested) (d : Nat) :
    Puts (Layout.effect sheet (Layout.braces false inner)) ⟨d, true⟩
      (inner.block sheet d ++ ['\n']) ⟨d, false⟩ := by
  have hnewline : Puts (Layout.effect sheet [.newline]) ⟨d, true⟩ _ _ := cmd (put "\n" false)
  have hclosed : Puts (Layout.effect sheet (Layout.braces true inner)) ⟨d, true⟩ _ _ := braces h d
  simpa [Layout.braces] using hclosed.append hnewline

end Puts

/-! ## Chains -/

/-- A condition and the block behind it, which may be absent. -/
structure Link where
  condition : Expr
  body : Option (List Stmt)

/-- Conditions, each tried when those before it fail, and what is done when all fail. -/
structure Chain where
  first : Link
  rest : List Link
  final : Option (List Stmt)
  /-- An `else` that holds nothing but an `if` would be one link more. -/
  closed : ∀ body, final = some body → Stmt.isChained body = false

namespace Stmt

/-- All links but the first are in the `else` of the one before. -/
def ofLinks (final : Option (List Stmt)) : Link → List Link → Stmt
  | link, [] => .branch link.condition (link.body.map .block) final
  | link, next :: rest =>
    .branch link.condition (link.body.map .block) (some [ofLinks final next rest])

end Stmt

def Chain.tree (c : Chain) : Stmt := .ofLinks c.final c.first c.rest

/-- Where and how the blocks of a chain are written. -/
structure Site where
  sheet : Sheet
  elide : Bool
  place : Place
  depth : Nat

namespace Site

def block (site : Site) (body : List Stmt) : List Char :=
  Layout.block site.sheet site.depth (Stmt.layouts site.elide site.place site.place body)

/-- The header of a link with its block. -/
def link (site : Site) (l : Link) : List Char :=
  "if (".toList ++ l.condition.inside ++ ")".toList ++ site.block (l.body.getD [])

def otherwise (site : Site) : List Char := site.sheet.gap site.depth ++ "else".toList

/-- What comes behind the first link. -/
def tail (site : Site) (rest : List Link) (final : Option (List Stmt)) : List Char :=
  rest.flatMap (fun l => site.otherwise ++ " ".toList ++ site.link l) ++
    final.elim [] (fun body => site.otherwise ++ site.block body) ++ ['\n']

theorem link_some (site : Site) (condition : Expr) (body : List Stmt) :
    site.link ⟨condition, some body⟩ =
      "if (".toList ++ condition.inside ++ ")".toList ++ site.block body := rfl

theorem tail_cons (site : Site) (l : Link) (rest : List Link) (final : Option (List Stmt)) :
    site.tail (l :: rest) final =
      site.otherwise ++ (" ".toList ++ (site.link l ++ site.tail rest final)) := by
  simp only [tail, List.flatMap_cons, List.append_assoc]

end Site

/-- The page of a chain: all links one after the other, and the `else`. -/
def Chain.flat (c : Chain) (site : Site) : List Char :=
  site.sheet.margin site.depth ++ site.link c.first ++ site.tail c.rest c.final

namespace Stmt

theorem consequent_block (elide keepLine : Bool) (place : Place) (body : Option (List Stmt)) :
    consequent elide place.nested keepLine (body.map .block) =
      Layout.braces keepLine (layouts elide place.nested place.nested (body.getD [])) := by
  cases body with
  | none => rfl
  | some body => simp [consequent, attached, isBlock, Stmt.core]

theorem lead_ofLinks (final : Option (List Stmt)) (l : Link) (rest : List Link) :
    (ofLinks final l rest).lead = [.indent] := by
  cases rest <;> rfl

section Core

variable (elide keepLine : Bool) (place : Place) (l : Link)

/-- A link with another one behind it: no `if` behind an `else` goes deeper by itself. -/
theorem core_ofLinks_cons (final : Option (List Stmt)) (next : Link) (rest : List Link) :
    (ofLinks final l (next :: rest)).core elide place keepLine =
      branchHead l.condition ++ consequent elide place.nested true (l.body.map .block) ++
        ([.elseWord] ++ ([.text " "] ++
          (ofLinks final next rest).core elide place.nested false)) := by
  have hchained : isChained [ofLinks final next rest] = true := by cases rest <;> rfl
  simp [ofLinks, Stmt.core, alternative, firstCore, hchained]

/-- The last link with an `else` behind it. -/
theorem core_ofLinks_some {body : List Stmt} (h : isChained body = false) :
    (ofLinks (some body) l []).core elide place keepLine =
      branchHead l.condition ++ consequent elide place.nested true (l.body.map .block) ++
        ([.elseWord] ++ Layout.braces false (layouts elide place.nested place.nested body)) := by
  simp [ofLinks, Stmt.core, alternative, h]

/-- The last link without an `else`. -/
theorem core_ofLinks_none (condition : Expr) (body : List Stmt) :
    (ofLinks none ⟨condition, some body⟩ []).core elide place keepLine =
      branchHead condition ++ Layout.braces false
        (layouts elide place.nested place.nested body) := by
  simp [ofLinks, Stmt.core, alternative, consequent, attached, isBlock]

end Core

theorem puts_branchHead (condition : Expr) (sheet : Sheet) (d : Nat) :
    Puts (Layout.effect sheet (branchHead condition)) ⟨d, true⟩
      ("if (".toList ++ condition.inside ++ ")".toList) ⟨d, true⟩ := by
  rw [← ink_branchHead]
  exact .of_inline (inline_branchHead condition) (by simp [branchHead])

/-- A link with its block, behind which comes an `else`. -/
theorem puts_link (site : Site) (place : Place) (hplace : site.place = place.nested) (l : Link) :
    Puts (Layout.effect site.sheet (branchHead l.condition ++
      consequent site.elide place.nested true (l.body.map .block))) ⟨site.depth, true⟩
      (site.link l) ⟨site.depth, true⟩ := by
  rw [consequent_block, ← hplace]
  exact (puts_branchHead l.condition site.sheet site.depth).append
    (.braces (Stmt.nested_layouts _ _ _ _) site.depth)

theorem puts_otherwise (site : Site) (body : List Stmt) :
    Puts (Layout.effect site.sheet ([.elseWord] ++ Layout.braces false
      (layouts site.elide site.place site.place body))) ⟨site.depth, true⟩
      (site.otherwise ++ site.block body ++ ['\n']) ⟨site.depth, false⟩ := by
  rw [List.append_assoc]
  exact (Puts.elseWord site.depth).append
    (.braces_newline (Stmt.nested_layouts _ _ _ _) site.depth)

/-- All further links come at the depth of the first, though each is one level further down in the
tree. -/
theorem puts_ofLinks (site : Site) {final : Option (List Stmt)}
    (hclosed : ∀ body, final = some body → isChained body = false) (place : Place)
    (hplace : site.place = place.nested) (l : Link) (rest : List Link) :
    Puts (Layout.effect site.sheet ((ofLinks final l rest).core site.elide place false))
      ⟨site.depth, true⟩ (site.link l ++ site.tail rest final) ⟨site.depth, false⟩ := by
  induction rest generalizing l place with
  | nil =>
    cases final with
    | some body =>
      have hother := puts_otherwise site body
      rw [hplace] at hother
      rw [core_ofLinks_some _ _ _ _ (hclosed body rfl)]
      exact (puts_link site place hplace l).append hother
    | none =>
      obtain ⟨condition, body⟩ := l
      cases body with
      -- Neither body nor `else`: the link is refused, and nothing has to be shown.
      | none => exact .refuse .emptyIf []
      | some body =>
        have hhead := puts_branchHead condition site.sheet site.depth
        have hblock : Puts (Layout.effect site.sheet (Layout.braces false
            (layouts site.elide site.place site.place body))) ⟨site.depth, true⟩
            (site.block body ++ ['\n']) ⟨site.depth, false⟩ :=
          .braces_newline (Stmt.nested_layouts _ _ _ _) site.depth
        rw [core_ofLinks_none, ← hplace, Site.link_some, List.append_assoc]
        exact hhead.append hblock
  | cons next rest ih =>
    have hnext := ih place.nested (by rw [hplace, Place.nested_nested]) next
    rw [core_ofLinks_cons, Site.tail_cons]
    exact (puts_link site place hplace l).append ((Puts.elseWord site.depth).append
      ((Puts.text " ").append hnext))

/-- An `else` that is not chained has braces, also behind a body without them. -/
theorem puts_unchained (site : Site) (place : Place) (hplace : site.place = place.nested)
    (condition : Expr) (body : Option Stmt) {otherwise : List Stmt}
    (hother : isChained otherwise = false) (midLine : Bool) :
    ∃ front, Puts (Layout.effect site.sheet
      (Stmt.layout site.elide place (.branch condition body (some otherwise))))
      ⟨site.depth, midLine⟩ (front ++ "else".toList ++ site.block otherwise ++ ['\n'])
      ⟨site.depth, false⟩ := by
  have hnested : Layout.Nested ([.indent] ++ (branchHead condition ++
      consequent site.elide site.place true body)) :=
    .cmd rfl ((Layout.nested_of_steady (steady_branchHead condition)).append
      (nested_consequent _ _ _ _))
  obtain ⟨before, atElse, hbefore⟩ := Puts.of_nested site.sheet hnested
    ⟨site.depth, midLine⟩
  obtain ⟨gap, hword⟩ : ∃ gap, Puts (Layout.effect site.sheet [.elseWord]) ⟨site.depth, atElse⟩
      (gap ++ "else".toList) ⟨site.depth, true⟩ := by
    cases atElse with
    | true => exact ⟨_, .elseWord site.depth⟩
    | false => exact ⟨_, .elseWord_start site.depth⟩
  have hall := hbefore.append (hword.append
    (.braces_newline (Stmt.nested_layouts site.elide site.place site.place otherwise) site.depth))
  refine ⟨before ++ gap, ?_⟩
  simpa [Stmt.layout, Stmt.core, lead, placesItself, alternative, hother, Site.block, ← hplace]
    using hall

end Stmt

theorem Chain.puts_tree (c : Chain) (site : Site) (place : Place)
    (hplace : site.place = place.nested) :
    Puts (Layout.effect site.sheet (c.tree.layout site.elide place)) ⟨site.depth, false⟩
      (c.flat site) ⟨site.depth, false⟩ := by
  have hlead : Puts (Layout.effect site.sheet [.indent]) ⟨site.depth, false⟩ _ _ := .cmd .indent
  have hall := hlead.append (Stmt.puts_ofLinks site c.closed place hplace c.first c.rest)
  rw [Stmt.layout, Chain.tree, Stmt.lead_ofLinks, Chain.flat, List.append_assoc]
  exact hall

namespace Printer

/-- What a call has written that came to its end, on any destination. -/
theorem held_of_puts {layout : Layout} {p q : Printer} {t : List Char} {k : Cursor}
    (hputs : Puts (layout.effect p.sheet) p.sink.cursor t k)
    (hdone : runKeepingDepth layout p = .ok () q) :
    q.sink.writer.held = p.sink.writer.held ++ (String.ofList t).toUTF8 ∧ q.sink.cursor = k := by
  have hrun := run_eq_ok_of_runKeepingDepth hdone
  rcases run_cases layout p with ⟨w, hw, hs, hend⟩ | ⟨w, x, -, -, hend⟩ |
    ⟨f, w, k, events, hend⟩ <;> rw [hrun] at hend
  · obtain ⟨rfl, rfl⟩ := hputs hs
    cases hend
    refine ⟨?_, rfl⟩
    rw [String.ofList_toList]
    exact Writer.held_write hw
  · cases hend
  · cases hend

/-- A chain of any length that is begun at the start of a line is written as its flat page, and
every `else` that holds anything but a single `if` keeps its braces. -/
theorem writeStmt_chain (place : Place) (p q : Printer) :
    let site : Site := ⟨p.sheet, p.options.elideTrailingReturn, place.nested, p.sink.depth⟩
    (∀ c : Chain, p.sink.midLine = false → writeStmt place c.tree p = .ok () q →
      q.sink.writer.held = p.sink.writer.held ++ (String.ofList (c.flat site)).toUTF8 ∧
      q.sink.cursor = ⟨p.sink.depth, false⟩) ∧
    ∀ condition body otherwise, Stmt.isChained otherwise = false →
      writeStmt place (.branch condition body (some otherwise)) p = .ok () q →
      ∃ front, q.sink.writer.held = p.sink.writer.held ++
        (String.ofList (front ++ "else".toList ++ site.block otherwise ++ ['\n'])).toUTF8 := by
  intro site
  constructor
  · intro c hstart hdone
    have hcursor : p.sink.cursor = ⟨site.depth, false⟩ := Cursor.ext rfl hstart
    refine held_of_puts ?_ hdone
    rw [hcursor]
    exact c.puts_tree site place rfl
  · intro condition body otherwise hother hdone
    obtain ⟨front, hputs⟩ := Stmt.puts_unchained site place rfl condition body hother
      p.sink.midLine
    exact ⟨front, (held_of_puts hputs hdone).1⟩

/-- Three links one level deep, of which the second has no body, with an `else` of two statements;
and an empty `else` behind a body without braces. -/
theorem writeStmt_chain_three :
    let c : Chain := ⟨⟨.name "a", some [.breakLoop]⟩, [⟨.name "b", none⟩, ⟨.name "c", some []⟩],
      some [.label "d", .breakLoop], by rintro _ ⟨⟩; rfl⟩
    let s : Stmt := .branch (.name "a") (some .breakLoop) (some [])
    let p : Printer := (Printer.start {} { braceStyle := .sameLine }).lower 1
    p.sink.midLine = false ∧ Stmt.isChained [] = false ∧
      (∃ q, writeStmt .outside c.tree p = .ok () q ∧ q.sink.cursor = ⟨1, false⟩ ∧
        q.sink.writer.held = ("  if (a) \x7b\n    break;\n  \x7d else if (b) \x7b\n" ++
          "  \x7d else if (c) \x7b\n  \x7d else \x7b\n    d:\n    break;\n  \x7d\n").toUTF8) ∧
      ∃ r front, writeStmt .outside s p = .ok () r ∧ r.sink.writer.held = p.sink.writer.held ++
        (String.ofList (front ++ "else".toList ++ " \x7b\n  \x7d".toList ++ ['\n'])).toUTF8 := by
  intro c s p
  have hstop : ((c.tree.layout true .outside).effect p.sheet p.sink.cursor).stop = none := by
    decide +kernel
  have hstop' : ((s.layout true .outside).effect p.sheet p.sink.cursor).stop = none := by
    decide +kernel
  have hdone := runKeepingDepth_of_stop_eq_none (p := p) rfl hstop
  have hdone' := runKeepingDepth_of_stop_eq_none (p := p) rfl hstop'
  obtain ⟨hheld, hcursor⟩ := (writeStmt_chain .outside p _).1 c rfl hdone
  obtain ⟨front, hfront⟩ := (writeStmt_chain .outside p _).2 _ _ [] rfl hdone'
  refine ⟨rfl, rfl, ⟨_, hdone, hcursor, hheld.trans ?_⟩, _, front, hdone', ?_⟩
  · decide +kernel
  · exact hfront

end Printer

end Scribe
