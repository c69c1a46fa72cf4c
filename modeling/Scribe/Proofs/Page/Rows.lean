import Scribe.Proofs.Page.Leads
import Scribe.Proofs.Outcome

/-! The lines of a page. What a layout leads to is written out as rows, each an indentation and the
text behind it, so that the same rows say what the page looks like with everything some levels
deeper. `Leads.lays` reads the rows of a layout off the way in which it leads from line to line. -/

namespace Scribe

/-! ## Lines of a text -/

/-- A newline ends a line. What follows the last newline is a line only if there is anything. -/
def linesOf : List Char → List (List Char)
  | [] => []
  | c :: cs =>
    if c = '\n' then [] :: linesOf cs
    else match linesOf cs with
      | [] => [[c]]
      | line :: rest => (c :: line) :: rest

/-- The text that has these lines, all of them ended. -/
def unlines (lines : List (List Char)) : List Char := lines.flatMap (· ++ ['\n'])

@[simp] theorem unlines_nil : unlines [] = [] := rfl

@[simp] theorem unlines_cons (line : List Char) (lines : List (List Char)) :
    unlines (line :: lines) = line ++ '\n' :: unlines lines := by
  simp [unlines]

@[simp] theorem unlines_append (a b : List (List Char)) :
    unlines (a ++ b) = unlines a ++ unlines b := List.flatMap_append

theorem linesOf_append_newline {line : List Char} (h : '\n' ∉ line) (rest : List Char) :
    linesOf (line ++ '\n' :: rest) = line :: linesOf rest := by
  induction line with
  | nil => rfl
  | cons c line ih =>
    rw [List.mem_cons, not_or] at h
    rw [List.cons_append, linesOf, if_neg (Ne.symm h.1), ih h.2]

theorem linesOf_unlines {lines : List (List Char)} (h : ∀ line ∈ lines, '\n' ∉ line) :
    linesOf (unlines lines) = lines := by
  induction lines with
  | nil => rfl
  | cons line lines ih =>
    have hline := h line (List.mem_cons_self ..)
    have hlines := ih fun l hl => h l (List.mem_cons_of_mem _ hl)
    rw [unlines_cons, linesOf_append_newline hline, hlines]

/-! ## Rows -/

structure Row where
  depth : Nat
  content : List Char

namespace Row

/-- What a row looks like `d` levels deeper. Nothing stands on a line without a row. -/
def line (width d : Nat) : Option Row → List Char
  | none => []
  | some row => List.replicate ((row.depth + d) * width) ' ' ++ row.content

def page (width d : Nat) (rows : List (Option Row)) : List Char :=
  unlines (rows.map (line width d))

/-- Something on the line can be seen. -/
def visible (content : List Char) : Bool := content.any isGraphic

theorem visible_append (a b : List Char) : visible (a ++ b) = (visible a || visible b) :=
  List.any_append

theorem visible_append_right (a : List Char) {b : List Char} (h : visible b = true) :
    visible (a ++ b) = true := by
  rw [visible_append, h, Bool.or_true]

theorem visible_append_left {a : List Char} (h : visible a = true) (b : List Char) :
    visible (a ++ b) = true := by
  rw [visible_append, h, Bool.true_or]

/-- Text within the vocabulary. With braces on the same line it can follow a closing one. -/
def Front (style : BraceStyle) (v : Vocabulary) (content : List Char) : Prop :=
  content.all v.admits = true ∨
    style = .sameLine ∧ ∃ rest : List Char, content = '\x7d' :: rest ∧ rest.all v.admits = true

/-- What stands on a line that is ended. -/
inductive Whole (style : BraceStyle) (v : Vocabulary) : List Char → Prop
  | text {content : List Char} : Front style v content → visible content = true →
      Whole style v content
  | opened {content : List Char} : style = .sameLine → Front style v content →
      Whole style v (content ++ [' ', '\x7b'])
  | opening : Whole style v ['\x7b']
  | closing : Whole style v ['\x7d']
  | terminated : Whole style v ['\x7d', ';']

variable {style : BraceStyle} {v : Vocabulary}

theorem front_nil : Front style v [] := Or.inl rfl

theorem Front.append {content : List Char} (h : Front style v content) {more : List Char}
    (hmore : more.all v.admits = true) : Front style v (content ++ more) := by
  rcases h with h | ⟨hstyle, rest, rfl, hrest⟩
  · exact Or.inl (by rw [List.all_append, h, hmore, Bool.and_self])
  · exact Or.inr ⟨hstyle, rest ++ more, rfl, by rw [List.all_append, hrest, hmore, Bool.and_self]⟩

theorem Front.newline_notMem {content : List Char} (h : Front style v content) :
    '\n' ∉ content := by
  have hword : ∀ {cs : List Char}, cs.all v.admits = true → '\n' ∉ cs := by
    intro cs hcs hmem
    have hadmits := List.all_eq_true.mp hcs '\n' hmem
    rw [v.admits_newline] at hadmits
    cases hadmits
  rcases h with h | ⟨-, rest, rfl, hrest⟩
  · exact hword h
  · have hrest := hword hrest
    simp [hrest]

theorem Whole.visible {content : List Char} (h : Whole style v content) :
    visible content = true := by
  cases h with
  | text _ h => exact h
  | opened _ _ => exact visible_append_right _ (by decide)
  | _ => decide

theorem Whole.newline_notMem {content : List Char} (h : Whole style v content) :
    '\n' ∉ content := by
  cases h with
  | text h _ => exact h.newline_notMem
  | opened _ h =>
    have hfront := h.newline_notMem
    simp [hfront]
  | _ => decide

theorem newline_notMem_line {row : Option Row} (width d : Nat)
    (h : ∀ r, row = some r → Whole style v r.content) : '\n' ∉ line width d row := by
  cases row with
  | none => exact List.not_mem_nil
  | some r =>
    have hcontent := (h r rfl).newline_notMem
    simp [line, hcontent]

@[simp] theorem page_nil (width d : Nat) : page width d [] = [] := rfl

@[simp] theorem page_append (width d : Nat) (a b : List (Option Row)) :
    page width d (a ++ b) = page width d a ++ page width d b := by
  simp [page]

theorem linesOf_page {rows : List (Option Row)} (width d : Nat)
    (h : ∀ r, some r ∈ rows → Whole style v r.content) :
    linesOf (page width d rows) = rows.map (line width d) := by
  refine linesOf_unlines fun l hl => ?_
  obtain ⟨row, hrow, rfl⟩ := List.mem_map.mp hl
  exact newline_notMem_line width d fun r hr => h r (hr ▸ hrow)

theorem exists_isGraphic_line (width d : Nat) {row : Row} (h : Whole style v row.content) :
    ∃ c ∈ line width d (some row), isGraphic c = true := by
  obtain ⟨c, hc, hgraphic⟩ := List.any_eq_true.mp h.visible
  exact ⟨c, List.mem_append_right _ hc, hgraphic⟩

theorem count_nil_lines {rows : List (Option Row)} (width d : Nat)
    (h : ∀ r, some r ∈ rows → Whole style v r.content) :
    (rows.map (line width d)).count [] = rows.countP Option.isNone := by
  rw [List.count_eq_countP, List.countP_map]
  refine List.countP_congr fun row hrow => ?_
  cases row with
  | none => exact Iff.rfl
  | some row =>
    obtain ⟨c, hc, -⟩ := exists_isGraphic_line width d (h row hrow)
    simp [List.ne_nil_of_mem hc]

end Row

/-! ## What an effect writes -/

/-- The same place some levels deeper. -/
def Cursor.lower (k : Cursor) (d : Nat) : Cursor := ⟨k.depth + d, k.midLine⟩

@[simp] theorem Cursor.lower_zero (k : Cursor) : k.lower 0 = k := rfl

/-- From a line, `f` writes these rows and comes to another line. Where text stands without
indentation it stays where it is, so that the rows are those of the depth itself only. -/
structure Writes (sheet : Sheet) (v : Vocabulary) (n : Nat) (f : Cursor → Effect) (k : Cursor)
    (line rest : Option Row) (rows : List (Option Row)) : Prop where
  whole : ∀ row, some row ∈ rows → Row.Whole sheet.style v row.content
  blanks : rows.countP Option.isNone = n
  moves : ∀ d, (v.loose = true → d = 0) → (f (k.lower d)).stop = none →
    (f (k.lower d)).cursor = (f k).cursor.lower d ∧
      Row.line sheet.width d line ++ (f (k.lower d)).text.toList =
        Row.page sheet.width d rows ++ Row.line sheet.width d rest

namespace Writes

variable {sheet : Sheet} {v : Vocabulary} {m n : Nat} {f g : Cursor → Effect} {k : Cursor}
  {line rest last : Option Row} {rows more : List (Option Row)}

theorem andThen (hf : Writes sheet v m f k line rest rows) (hstop : (f k).stop = none)
    (hg : Writes sheet v n g (f k).cursor rest last more) :
    Writes sheet v (m + n) (fun k => (f k).andThen g) k line last (rows ++ more) where
  whole row hrow := (List.mem_append.mp hrow).elim (hf.whole row) (hg.whole row)
  blanks := by rw [List.countP_append, hf.blanks, hg.blanks]
  moves d hd hdeep := by
    have hfirst := Effect.stop_of_andThen hdeep
    obtain ⟨hcursor, htext⟩ := hf.moves d hd hfirst
    rw [Effect.andThen_of_none hfirst, hcursor] at hdeep ⊢
    obtain ⟨hcursor', htext'⟩ := hg.moves d hd hdeep
    rw [Effect.andThen_of_none hstop]
    refine ⟨hcursor', ?_⟩
    rw [String.toList_append, ← List.append_assoc, htext, List.append_assoc, htext',
      Row.page_append, List.append_assoc]

/-- The line goes on. -/
theorem of_put {s : String} {midLine : Bool}
    (h : ∀ d, (v.loose = true → d = 0) →
      Row.line sheet.width d line ++ s.toList = Row.line sheet.width d rest) :
    Writes sheet v 0 (.put s midLine) k line rest [] where
  whole _ := nofun
  blanks := rfl
  moves d hd _ := ⟨rfl, h d hd⟩

/-- The line ends. -/
theorem of_line {s : String} {row : Row} (h : Row.Whole sheet.style v (row.content ++ s.toList)) :
    Writes sheet v 0 (.put (s ++ "\n") false) k (some row) none
      [some ⟨row.depth, row.content ++ s.toList⟩] where
  whole r hr := by
    obtain rfl := Option.some.inj (List.mem_singleton.mp hr)
    exact h
  blanks := rfl
  moves d _ _ := ⟨rfl, by simp [Effect.put, Row.page, Row.line]⟩

end Writes

/-! ## Lines and what is known of them -/

/-- Whatever line with `P` is found, `f` writes lines, of which `n` are blank, and comes to a line
with `Q`. -/
def Lays (sheet : Sheet) (v : Vocabulary) (P : Option Row → Bool → Prop) (n : Nat)
    (f : Cursor → Effect) (Q : Option Row → Bool → Prop) : Prop :=
  ∀ k line, P line k.midLine → (f k).stop = none →
    ∃ rest rows, Writes sheet v n f k line rest rows ∧ Q rest (f k).cursor.midLine

/-- Nothing is on the line. -/
def Row.isStart (line : Option Row) (midLine : Bool) : Prop := line = none ∧ midLine = false

/-- Only indentation is on the line. -/
def Row.isIndented (line : Option Row) (_ : Bool) : Prop := ∃ depth, line = some ⟨depth, []⟩

/-- The line can be ended as it is, if there is anything on it. -/
def Row.isComplete (style : BraceStyle) (v : Vocabulary) (line : Option Row) (midLine : Bool) :
    Prop :=
  isStart line midLine ∨ midLine = true ∧ ∃ row, line = some row ∧ Whole style v row.content

namespace Lays

variable {sheet : Sheet} {v : Vocabulary} {m n : Nat} {f g : Cursor → Effect}
  {P Q R : Option Row → Bool → Prop}

theorem mono (h : Lays sheet v P n f Q) (hQ : ∀ line m, Q line m → R line m) :
    Lays sheet v P n f R := by
  intro k line hline hstop
  obtain ⟨rest, rows, hwrites, hrest⟩ := h k line hline hstop
  exact ⟨rest, rows, hwrites, hQ rest _ hrest⟩

/-- The same line seen as another one. -/
theorem stay (h : ∀ line m, P line m → ∃ rest, Q rest m ∧
    ∀ d, (v.loose = true → d = 0) → Row.line sheet.width d line = Row.line sheet.width d rest) :
    Lays sheet v P 0 Effect.stay Q := by
  intro k line hline _
  obtain ⟨rest, hrest, hsame⟩ := h line _ hline
  refine ⟨rest, [], ⟨fun _ => nofun, rfl, fun d hd _ => ⟨rfl, ?_⟩⟩, hrest⟩
  simp [Effect.stay, hsame d hd]

theorem weaken (h : ∀ line m, P line m → Q line m) : Lays sheet v P 0 Effect.stay Q :=
  stay fun line m hline => ⟨line, h line m hline, fun _ _ => rfl⟩

theorem andThen (hf : Lays sheet v P m f Q) (hg : Lays sheet v Q n g R) :
    Lays sheet v P (m + n) (fun k => (f k).andThen g) R := by
  intro k line hline hstop
  have hfirst := Effect.stop_of_andThen hstop
  obtain ⟨rest, rows, hwrites, hrest⟩ := hf k line hline hfirst
  simp only [Effect.andThen_of_none hfirst] at hstop
  obtain ⟨last, more, hwrites', hlast⟩ := hg _ rest hrest hstop
  refine ⟨last, rows ++ more, hwrites.andThen hfirst hwrites', ?_⟩
  simp only [Effect.andThen_of_none hfirst]
  exact hlast

theorem note (event : Event) : Lays sheet v P 0 (fun k => ⟨"", [event], k, none⟩) P :=
  fun _ line hline _ => ⟨line, [], ⟨fun _ => nofun, rfl, fun _ _ _ => ⟨rfl, by simp⟩⟩, hline⟩

/-- A line break on a line with nothing on it. -/
theorem blank : Lays sheet v Row.isStart 1 Effect.newline Row.isStart := by
  rintro k line ⟨rfl, -⟩ _
  have hrow : ∀ row, some row ∈ [(none : Option Row)] → Row.Whole sheet.style v row.content := by
    simp
  refine ⟨none, [none], ⟨hrow, rfl, fun d _ _ => ⟨rfl, ?_⟩⟩, rfl, rfl⟩
  simp [Effect.newline, Effect.put, Row.line, Row.page]

theorem put {s : String} {midLine : Bool}
    (h : ∀ line m, P line m → ∃ row, line = some row ∧
      Q (some ⟨row.depth, row.content ++ s.toList⟩) midLine) :
    Lays sheet v P 0 (.put s midLine) Q := by
  intro k line hline _
  obtain ⟨row, rfl, hrest⟩ := h line _ hline
  exact ⟨_, [], .of_put fun d _ => by simp [Row.line], hrest⟩

theorem line {s : String}
    (h : ∀ line m, P line m → ∃ row, line = some row ∧
      Row.Whole sheet.style v (row.content ++ s.toList)) (hQ : Q none false) :
    Lays sheet v P 0 (.put (s ++ "\n") false) Q := by
  intro k line hline _
  obtain ⟨row, rfl, hwhole⟩ := h line _ hline
  exact ⟨none, _, .of_line hwhole, hQ⟩

/-- What `f` does depends on the line that it finds in no other way than by the mid-line mark. -/
theorem split (hf : ∀ midLine, ∃ g, Lays sheet v (fun line m => P line m ∧ m = midLine) n g Q ∧
    ∀ k : Cursor, k.midLine = midLine → f k = g k) : Lays sheet v P n f Q := by
  intro k line hline hstop
  obtain ⟨g, hg, heq⟩ := hf k.midLine
  have hbase := heq k rfl
  rw [hbase] at hstop ⊢
  obtain ⟨rest, rows, hwrites, hrest⟩ := hg k line ⟨hline, rfl⟩ hstop
  refine ⟨rest, rows, ⟨hwrites.whole, hwrites.blanks, fun d hd hdeep => ?_⟩, hrest⟩
  rw [heq (k.lower d) rfl] at hdeep ⊢
  rw [hbase]
  exact hwrites.moves d hd hdeep

/-- A new line, if need be. -/
theorem breakLine (hP : ∀ line m, P line m → Row.isComplete sheet.style v line m) :
    Lays sheet v P 0 Effect.breakLine Row.isStart := by
  refine split fun midLine => ?_
  cases midLine with
  | false =>
    refine ⟨Effect.stay, weaken ?_, fun k hk => by rw [Effect.breakLine, hk]; rfl⟩
    rintro line m ⟨hline, rfl⟩
    rcases hP line _ hline with hstart | ⟨hmid, -⟩
    · exact hstart
    · cases hmid
  | true =>
    refine ⟨Effect.put ("" ++ "\n") false, Lays.line ?_ ⟨rfl, rfl⟩,
      fun k hk => by rw [Effect.breakLine, hk]; rfl⟩
    rintro line m ⟨hline, rfl⟩
    rcases hP line _ hline with ⟨-, hmid⟩ | ⟨-, row, rfl, hwhole⟩
    · cases hmid
    · exact ⟨row, rfl, by simpa using hwhole⟩

theorem indent : Lays sheet v Row.isStart 0 (Effect.indent sheet.width) Row.isIndented := by
  rintro k line ⟨rfl, -⟩ hstop
  refine ⟨some ⟨k.depth, []⟩, [], ⟨fun _ => nofun, rfl, fun d _ hdeep => ?_⟩, k.depth, rfl⟩
  rw [Effect.indent_of_none hdeep, Effect.indent_of_none hstop]
  exact ⟨rfl, by simp [Effect.put, Row.line, Row.page, Cursor.lower, Sink.spaces]⟩

/-- Behind other text indentation is only spaces. -/
theorem indent_behind (hloose : v.loose = true)
    (h : ∀ line m, P line m → ∃ row, line = some row ∧
      ∀ n, Q (some ⟨row.depth, row.content ++ List.replicate n ' '⟩) true) :
    Lays sheet v P 0 (Effect.indent sheet.width) Q := by
  intro k line hline hstop
  obtain ⟨row, rfl, hrest⟩ := h line _ hline
  refine ⟨some ⟨row.depth, row.content ++ List.replicate (k.depth * sheet.width) ' '⟩, [],
    ⟨fun _ => nofun, rfl, fun d hd _ => ?_⟩, ?_⟩
  · obtain rfl := hd hloose
    rw [Cursor.lower_zero, Effect.indent_of_none hstop]
    exact ⟨rfl, by simp [Effect.put, Row.line, Sink.spaces]⟩
  · rw [Effect.indent_of_none hstop]
    exact hrest _

/-- A new line with only `s` on it. -/
theorem freshLine (hP : ∀ line m, P line m → Row.isComplete sheet.style v line m) {s : String}
    {midLine : Bool} (hs : Lays sheet v Row.isIndented 0 (Effect.put s midLine) Q) :
    Lays sheet v P 0 (Effect.freshLine sheet.width s midLine) Q :=
  ((breakLine hP).andThen indent).andThen hs

/-- With braces on the same line a line that has begun goes on. -/
theorem continued (hP : ∀ line m, P line m → Row.isComplete sheet.style v line m)
    {same fresh : String} {midLine : Bool}
    (hsame : sheet.style = .sameLine →
      Lays sheet v (fun line m => P line m ∧ m = true) 0 (Effect.put same midLine) Q)
    (hfresh : Lays sheet v Row.isIndented 0 (Effect.put fresh midLine) Q) :
    Lays sheet v P 0 (fun k => if sheet.style = .sameLine && k.midLine then
      Effect.put same midLine k else Effect.freshLine sheet.width fresh midLine k) Q := by
  refine split fun begun => ?_
  cases hgoes : (decide (sheet.style = .sameLine) && begun) with
  | true =>
    obtain ⟨hstyle, rfl⟩ := Bool.and_eq_true_iff.mp hgoes
    exact ⟨_, hsame (of_decide_eq_true hstyle), fun k hk => by rw [hk, hgoes]; rfl⟩
  | false =>
    exact ⟨_, freshLine (fun line m h => hP line m h.1) hfresh, fun k hk => by rw [hk, hgoes]; rfl⟩

theorem deeper : Lays sheet v P 0 Effect.deeper P := by
  intro k line hline hstop
  refine ⟨line, [], ⟨fun _ => nofun, rfl, fun d _ hdeep => ?_⟩, ?_⟩
  · rw [Effect.deeper_of_none hdeep, Effect.deeper_of_none hstop]
    exact ⟨Cursor.ext (Nat.add_right_comm ..) rfl, by simp [Effect.stay]⟩
  · rw [Effect.deeper_of_none hstop]
    exact hline

theorem shallower : Lays sheet v P 0 Effect.shallower P := by
  intro k line hline hstop
  obtain ⟨hdepth, hbase⟩ := Effect.shallower_of_none hstop
  refine ⟨line, [], ⟨fun _ => nofun, rfl, fun d _ hdeep => ?_⟩, ?_⟩
  · rw [(Effect.shallower_of_none hdeep).2, hbase]
    have hlower : k.depth + d - 1 = k.depth - 1 + d := by omega
    exact ⟨Cursor.ext hlower rfl, by simp [Effect.stay]⟩
  · rw [hbase]
    exact hline

/-! Layouts are laid one command after another. -/

theorem append {x y : Layout} (hx : Lays sheet v P m (x.effect sheet) Q)
    (hy : Lays sheet v Q n (y.effect sheet) R) :
    Lays sheet v P (m + n) ((x ++ y).effect sheet) R := by
  have hfun : (x ++ y).effect sheet = fun k => (x.effect sheet k).andThen (y.effect sheet) :=
    funext (Layout.effect_append sheet x y)
  rw [hfun]
  exact hx.andThen hy

theorem cmd {c : Cmd} (h : Lays sheet v P n (c.effect sheet ·) Q) :
    Lays sheet v P n (Layout.effect sheet [c]) Q := by
  have hfun : Layout.effect sheet [c] = fun k => c.effect sheet k :=
    funext (Layout.effect_singleton sheet c)
  rw [hfun]
  exact h

theorem level {inner : Layout} (h : Lays sheet v P n (inner.effect sheet) Q) :
    Lays sheet v P n (Layout.effect sheet ([.deeper] ++ inner ++ [.shallower])) Q := by
  have hall := ((cmd (c := .deeper) deeper).append h).append (cmd (c := .shallower) shallower)
  rwa [Nat.zero_add] at hall

end Lays

/-! ## From one line to another -/

/-- What the states say of a line. -/
def Standing (style : BraceStyle) (v : Vocabulary) : LineState → Option Row → Bool → Prop
  | .start, line, midLine => Row.isStart line midLine
  | .between, line, midLine => Row.isStart line midLine ∨ v.loose = true ∧ midLine = true ∧
      ∃ row, line = some row ∧ Row.Front style v row.content ∧ Row.visible row.content = true
  | .margin, line, _ => ∃ row, line = some row ∧ Row.Front style v row.content
  | .inked, line, midLine => midLine = true ∧
      ∃ row, line = some row ∧ Row.Front style v row.content ∧ Row.visible row.content = true
  | .closed, line, midLine => midLine = true ∧ ∃ row, line = some row ∧ row.content = ['\x7d']

variable {style : BraceStyle} {v : Vocabulary} {a b : LineState} {line : Option Row}
  {midLine : Bool} {n : Nat}

theorem Standing.isComplete (ha : a.canEnd = true) (h : Standing style v a line midLine) :
    Row.isComplete style v line midLine := by
  cases a with
  | start => exact Or.inl h
  | between =>
    rcases h with h | ⟨-, hmid, row, hline, hfront, hvisible⟩
    · exact Or.inl h
    · exact Or.inr ⟨hmid, row, hline, .text hfront hvisible⟩
  | margin => cases ha
  | inked =>
    obtain ⟨hmid, row, hline, hfront, hvisible⟩ := h
    exact Or.inr ⟨hmid, row, hline, .text hfront hvisible⟩
  | closed =>
    obtain ⟨hmid, row, hline, hbrace⟩ := h
    exact Or.inr ⟨hmid, row, hline, hbrace ▸ .closing⟩

theorem Standing.front (hstyle : style = .sameLine) (ha : a.canEnd = true)
    (h : Standing style v a line true) :
    ∃ row, line = some row ∧ Row.Front style v row.content := by
  cases a with
  | start => cases h.2
  | between =>
    rcases h with h | ⟨-, -, row, hline, hfront, -⟩
    · cases h.2
    · exact ⟨row, hline, hfront⟩
  | margin => cases ha
  | inked =>
    obtain ⟨-, row, hline, hfront, -⟩ := h
    exact ⟨row, hline, hfront⟩
  | closed =>
    obtain ⟨-, row, hline, hbrace⟩ := h
    exact ⟨row, hline, Or.inr ⟨hstyle, [], hbrace, rfl⟩⟩

namespace Layout.Leads

variable {sheet : Sheet}

theorem lays_openBrace (ha : a.canEnd = true) :
    Lays sheet v (Standing sheet.style v a) 0 (Effect.openBrace sheet) Row.isStart := by
  refine Lays.continued (fun line m h => h.isComplete ha) (fun hstyle => ?_) ?_
  · refine Lays.line (s := " \x7b") ?_ ⟨rfl, rfl⟩
    rintro line m ⟨h, rfl⟩
    obtain ⟨row, hline, hfront⟩ := h.front hstyle ha
    exact ⟨row, hline, .opened hstyle hfront⟩
  · refine Lays.line (s := "\x7b") ?_ ⟨rfl, rfl⟩
    rintro line m ⟨depth, rfl⟩
    exact ⟨_, rfl, .opening⟩

theorem lays_elseWord (ha : a.canEnd = true) :
    Lays sheet v (Standing sheet.style v a) 0 (Effect.elseWord sheet)
      (Standing sheet.style v .inked) := by
  have hword : " else".toList.all v.admits = true ∧ "else".toList.all v.admits = true :=
    ⟨v.spells_of_isOrdinary (by decide), v.spells_of_isOrdinary (by decide)⟩
  refine Lays.continued (fun line m h => h.isComplete ha) (fun hstyle => ?_) ?_
  · refine Lays.put ?_
    rintro line m ⟨h, rfl⟩
    obtain ⟨row, hline, hfront⟩ := h.front hstyle ha
    exact ⟨row, hline, rfl, _, rfl, hfront.append hword.1,
      Row.visible_append_right _ (by decide)⟩
  · refine Lays.put ?_
    rintro line m ⟨depth, rfl⟩
    exact ⟨_, rfl, rfl, _, rfl, Or.inl hword.2, Row.visible_append_right [] (by decide)⟩

/-- Indentation starts a line, or stands behind what shares the line. -/
theorem lays_indent : Lays sheet v (Standing sheet.style v .between) 0 (Effect.indent sheet.width)
    (Standing sheet.style v .margin) := by
  have hblank : ∀ n, (List.replicate n ' ').all v.admits = true := fun n =>
    List.all_eq_true.mpr fun c hc =>
      List.eq_of_mem_replicate hc ▸ v.admits_ordinary ' ' (by decide)
  have hstarted : Lays sheet v Row.isStart 0 (Effect.indent sheet.width)
      (Standing sheet.style v .margin) :=
    Lays.indent.mono fun line m ⟨depth, hline⟩ => ⟨_, hline, Row.front_nil⟩
  have hshared : v.loose = true → Lays sheet v (Standing sheet.style v .inked) 0
      (Effect.indent sheet.width) (Standing sheet.style v .margin) := by
    refine fun hloose => Lays.indent_behind hloose fun line m h => ?_
    obtain ⟨-, row, hline, hfront, -⟩ := h
    exact ⟨row, hline, fun n => ⟨_, rfl, hfront.append (hblank n)⟩⟩
  intro k line h
  rcases h with hstart | ⟨hloose, hinked⟩
  · exact hstarted k line hstart
  · exact hshared hloose k line hinked

/-- A closing brace on a line of its own. -/
theorem lays_closing (ha : a.canEnd = true) :
    Lays sheet v (Standing sheet.style v a) 0
      (Layout.effect sheet [.breakLine, .indent, .text "\x7d"])
      (Standing sheet.style v .closed) := by
  have hbreak : Lays sheet v (Standing sheet.style v a) 0 (Layout.effect sheet [.breakLine])
      Row.isStart :=
    Lays.cmd (Lays.breakLine fun line m h => h.isComplete ha)
  have hindent : Lays sheet v Row.isStart 0 (Layout.effect sheet [.indent]) Row.isIndented :=
    Lays.cmd Lays.indent
  have hbrace : Lays sheet v Row.isIndented 0 (Layout.effect sheet [.text "\x7d"])
      (Standing sheet.style v .closed) := by
    refine Lays.cmd (c := .text "\x7d") (Lays.put ?_)
    rintro line m ⟨depth, rfl⟩
    exact ⟨_, rfl, rfl, _, rfl, rfl⟩
  exact (hbreak.append hindent).append hbrace

theorem lays_braces (ha : a.canEnd = true) {inner : Layout}
    (h : Lays sheet v Row.isStart n (inner.effect sheet) (Standing sheet.style v .between)) :
    Lays sheet v (Standing sheet.style v a) n ((Layout.braces true inner).effect sheet)
      (Standing sheet.style v .closed) := by
  have hsplit : Layout.braces true inner = [.openBrace] ++ ([.deeper] ++ inner ++ [.shallower]) ++
      [.breakLine, .indent, .text "\x7d"] := by
    simp [Layout.braces]
  have hopen : Lays sheet v (Standing sheet.style v a) 0 (Layout.effect sheet [.openBrace])
      Row.isStart := Lays.cmd (lays_openBrace ha)
  have hclose : Lays sheet v (Standing sheet.style v .between) 0
      (Layout.effect sheet [.breakLine, .indent, .text "\x7d"])
      (Standing sheet.style v .closed) := lays_closing rfl
  have hall := (hopen.append h.level).append hclose
  rw [hsplit]
  rwa [Nat.zero_add, Nat.add_zero] at hall

/-- From a line in one state a layout that leads to another state writes whole lines, of which as
many are blank as it leaves blank, and comes to a line in that state. -/
theorem lays {x : Layout} (h : Leads v a x b n) (sheet : Sheet) :
    Lays sheet v (Standing sheet.style v a) n (x.effect sheet) (Standing sheet.style v b) := by
  -- The states say enough of a line for every command that may follow, so the induction is on the
  -- way in which the layout leads and needs nothing of trees.
  induction h with
  | nil => exact Lays.weaken fun _ _ h => h
  | append _ _ ihx ihy => exact ihx.append ihy
  | between => exact Lays.weaken fun _ _ h => Or.inl h
  | shared hloose => exact Lays.weaken fun _ _ h => Or.inr ⟨hloose, h⟩
  | unindented hloose =>
    refine Lays.stay fun line m h => ?_
    rcases h with ⟨rfl, -⟩ | ⟨-, -, row, rfl, hfront, -⟩
    · refine ⟨some ⟨0, []⟩, ⟨_, rfl, Row.front_nil⟩, fun d hd => ?_⟩
      obtain rfl := hd hloose
      simp [Row.line]
    · exact ⟨_, ⟨row, rfl, hfront⟩, fun _ _ => rfl⟩
  | margin =>
    refine Lays.weaken fun line m h => ?_
    obtain ⟨-, row, hline, hfront, -⟩ := h
    exact ⟨row, hline, hfront⟩
  | note event => exact Lays.cmd (Lays.note event)
  | refuse defect =>
    intro k line _ hstop
    rw [Layout.effect_singleton] at hstop
    cases hstop
  | indent => exact Lays.cmd lays_indent
  | text hs =>
    refine Lays.cmd (Lays.put fun line m h => ?_)
    obtain ⟨row, hline, hfront⟩ := h
    exact ⟨row, hline, _, rfl, hfront.append hs⟩
  | ink hs hshows =>
    refine Lays.cmd (Lays.put fun line m h => ?_)
    obtain ⟨row, hline, hfront⟩ := h
    exact ⟨row, hline, rfl, _, rfl, hfront.append hs, Row.visible_append_right _ hshows⟩
  | more hs =>
    refine Lays.cmd (Lays.put fun line m h => ?_)
    obtain ⟨-, row, hline, hfront, hvisible⟩ := h
    exact ⟨row, hline, rfl, _, rfl, hfront.append hs, Row.visible_append_left hvisible _⟩
  | line hs hshows =>
    refine Lays.cmd (Lays.line (fun line m h => ?_) ⟨rfl, rfl⟩)
    obtain ⟨row, hline, hfront⟩ := h
    exact ⟨row, hline, .text (hfront.append hs) (Row.visible_append_right _ hshows)⟩
  | lastLine hs =>
    refine Lays.cmd (Lays.line (fun line m h => ?_) ⟨rfl, rfl⟩)
    obtain ⟨-, row, hline, hfront, hvisible⟩ := h
    exact ⟨row, hline, .text (hfront.append hs) (Row.visible_append_left hvisible _)⟩
  | terminator =>
    refine Lays.cmd (Lays.line (fun line m h => ?_) ⟨rfl, rfl⟩)
    obtain ⟨-, row, hline, hbrace⟩ := h
    exact ⟨row, hline, hbrace ▸ .terminated⟩
  | newline ha =>
    refine Lays.cmd (Lays.line (s := "") (fun line m h => ?_) ⟨rfl, rfl⟩)
    rcases ha with rfl | rfl
    · obtain ⟨-, row, hline, hfront, hvisible⟩ := h
      exact ⟨row, hline, by simpa using .text hfront hvisible⟩
    · obtain ⟨-, row, hline, hbrace⟩ := h
      exact ⟨row, hline, by simpa [hbrace] using .closing⟩
  | blank => exact Lays.cmd Lays.blank
  | breakLine ha => exact Lays.cmd (Lays.breakLine fun line m h => h.isComplete ha)
  | elseWord ha => exact Lays.cmd (lays_elseWord ha)
  | level _ ih => exact ih.level
  | braces ha _ ih => exact lays_braces ha ih

end Layout.Leads

/-! ## Scripts -/

namespace Script

/-- A script is a page of whole lines. -/
theorem exists_rows (hloose : v.loose = true) {o : Options} {s : Script} {t : String}
    (h : s.contents.all v.spells = true) (ht : (s.toText o).1 = .ok t) :
    ∃ rows : List (Option Row),
      (∀ row, some row ∈ rows → Row.Whole o.braceStyle v row.content) ∧
      rows.countP Option.isNone = 2 * s.bannerCount o + Stmt.forCount s.statements ∧
      t.toList = Row.page o.indentWidth 0 rows := by
  rw [toText_eq] at ht
  have hstop : (s.effect o).stop = none := Effect.stop_eq_none_of_told ht
  obtain rfl := Effect.text_of_told ht
  obtain ⟨rest, rows, hwrites, rfl, -⟩ :=
    (leads_layout hloose o s h).lays ⟨o.braceStyle, o.indentWidth⟩ ⟨0, false⟩ none ⟨rfl, rfl⟩
      hstop
  have htext := (hwrites.moves 0 (fun _ => rfl) hstop).2
  exact ⟨rows, hwrites.whole, hwrites.blanks, htext.trans (List.append_nil _)⟩

/-- Where no name and no other content has a newline in it, no line is all blank without being
empty, and the empty lines are two for each banner and one for each `for`. -/
theorem emptyLines_toText (s : Script) (o : Options) (t : String)
    (h : ∀ content ∈ s.contents, '\n' ∉ content.toList) (ht : (s.toText o).1 = .ok t) :
    (∀ line ∈ linesOf t.toList, line = [] ∨ ∃ c ∈ line, isGraphic c = true) ∧
      (linesOf t.toList).count [] = 2 * s.bannerCount o + s.statements.countP Stmt.isFor := by
  have hspells : s.contents.all (Vocabulary.oneLine true).spells = true :=
    List.all_eq_true.mpr fun content hcontent => Vocabulary.spells_oneLine (h content hcontent)
  obtain ⟨rows, hwhole, hblanks, htext⟩ := exists_rows rfl hspells ht
  rw [htext, Row.linesOf_page _ _ hwhole]
  constructor
  · intro line hline
    obtain ⟨row, hrow, rfl⟩ := List.mem_map.mp hline
    cases row with
    | none => exact Or.inl rfl
    | some row => exact Or.inr (Row.exists_isGraphic_line _ _ (hwhole row hrow))
  · rw [Row.count_nil_lines _ _ hwhole]
    exact hblanks

/-- Two banners, and a `for` behind an inline comment. -/
theorem emptyLines_toText_shared :
    let loop : Stmt := .forLoop (.int 0) (.bool true) (.name "n") .breakLoop
    let s : Script := ⟨["a.ncs"], [.var ⟨none, "int", "n", none⟩,
      .procedure ⟨"void", "f", []⟩ (some [.comment ⟨"go", true⟩, loop, .ret none])]⟩
    let o : Options := { indentWidth := 4 }
    (∀ content ∈ s.contents, '\n' ∉ content.toList) ∧
      (s.toText o).1 = .ok (s.effect o).text ∧ s.bannerCount o = 2 ∧
      (linesOf (s.effect o).text.toList).count [] = 5 := by
  intro loop s o
  have hcontents : ∀ content ∈ s.contents, '\n' ∉ content.toList := by
    have hall : s.contents.all (fun content => !content.toList.contains '\n') = true := by
      decide +kernel
    intro content hcontent hmem
    have hfree := List.all_eq_true.mp hall content hcontent
    rw [List.contains_iff_mem.mpr hmem] at hfree
    cases hfree
  have hwritten : (s.toText o).1 = .ok (s.effect o).text := toText_eq_ok (by decide +kernel) rfl
  obtain ⟨-, hcount⟩ := emptyLines_toText s o _ hcontents hwritten
  have hbanners : s.bannerCount o = 2 := by decide
  exact ⟨hcontents, hwritten, hbanners, by rw [hcount, hbanners]; rfl⟩

end Script

end Scribe
