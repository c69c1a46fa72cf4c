import Scribe.Proofs.Page.Rows
import Scribe.Proofs.Defects

/-! Depth as a shift of the page. The rows of a statement do not depend on how deep it is written,
only their indentation does, so that deeper the same lines stand further to the right. -/

namespace Scribe

/-- The line further to the right, if there is anything on it. -/
def shifted (n : Nat) (line : List Char) : List Char :=
  if line = [] then [] else List.replicate n ' ' ++ line

/-- Nothing is left on the last line. -/
def IsEnded (t : String) : Prop := t = "" ∨ ∃ u, t = u ++ "\n"

theorem isEnded_ofList_unlines (lines : List (List Char)) :
    IsEnded (String.ofList (unlines lines)) := by
  rcases lines.eq_nil_or_concat with rfl | ⟨front, last, rfl⟩
  · exact Or.inl rfl
  · refine Or.inr ⟨String.ofList (unlines front ++ last), ?_⟩
    apply String.toList_injective
    simp

namespace Row

variable {style : BraceStyle} {v : Vocabulary}

theorem line_eq_shifted (width d : Nat) {row : Option Row}
    (h : ∀ r, row = some r → Whole style v r.content) :
    line width d row = shifted (d * width) (line width 0 row) := by
  cases row with
  | none => rfl
  | some row =>
    obtain ⟨c, hc, -⟩ := exists_isGraphic_line width 0 (h row rfl)
    rw [shifted, if_neg (List.ne_nil_of_mem hc), line, line, ← List.append_assoc,
      List.replicate_append_replicate, ← Nat.add_mul]
    congr 3
    omega

/-- Some levels deeper, a page has the same lines further to the right. -/
theorem page_eq_shifted (width d : Nat) {rows : List (Option Row)}
    (h : ∀ r, some r ∈ rows → Whole style v r.content) :
    page width d rows = unlines ((linesOf (page width 0 rows)).map (shifted (d * width))) := by
  rw [linesOf_page _ _ h, List.map_map, page]
  congr 1
  refine List.map_congr_left fun row hrow => ?_
  exact line_eq_shifted width d fun r hr => h r (hr ▸ hrow)

end Row

/-- What begins and ends between statements comes out as whole lines, which deeper stand further to
the right. -/
theorem Layout.Leads.effect_lower {v : Vocabulary} (hstrict : v.loose = false) {x : Layout}
    {n : Nat} (h : Leads v .between x .between n) {sheet : Sheet} {k : Cursor}
    (hk : k.midLine = false) (hstop : (x.effect sheet k).stop = none) (d : Nat)
    (hdeep : (x.effect sheet (k.lower d)).stop = none) :
    let lines := linesOf (x.effect sheet k).text.toList
    (x.effect sheet k).text = String.ofList (unlines lines) ∧
      (x.effect sheet (k.lower d)).text =
        String.ofList (unlines (lines.map (shifted (d * sheet.width)))) ∧
      (x.effect sheet k).cursor.midLine = false ∧
      (x.effect sheet (k.lower d)).cursor.midLine = false := by
  obtain ⟨rest, rows, hwrites, hrest⟩ := h.lays sheet k none (Or.inl ⟨rfl, hk⟩) hstop
  obtain ⟨rfl, hmid⟩ : Row.isStart rest (x.effect sheet k).cursor.midLine := by
    rcases hrest with hrest | ⟨hloose, -⟩
    · exact hrest
    · rw [hstrict] at hloose
      cases hloose
  have hbound : ∀ d, v.loose = true → d = 0 := by simp [hstrict]
  have htext : ∀ d, (x.effect sheet (k.lower d)).stop = none →
      (x.effect sheet (k.lower d)).text.toList = Row.page sheet.width d rows := fun d hd =>
    (hwrites.moves d (hbound d) hd).2.trans (List.append_nil _)
  have hbase := htext 0 hstop
  have hmoved := htext d hdeep
  rw [Cursor.lower_zero] at hbase
  have hcursor := (hwrites.moves d (hbound d) hdeep).1
  refine ⟨?_, ?_, hmid, ?_⟩
  · apply String.toList_injective
    rw [hbase, Row.linesOf_page _ _ hwrites.whole, String.toList_ofList]
    rfl
  · apply String.toList_injective
    rw [hmoved, hbase, Row.page_eq_shifted _ d hwrites.whole, String.toList_ofList]
  · rw [hcursor]
    exact hmid

/-- A layout that goes through in one place goes through in every place, unless it aborts. -/
theorem Layout.stop_effect_eq_none {x : Layout} {sheet : Sheet} {k : Cursor}
    (h : (x.effect sheet k).stop = none) {k' : Cursor}
    (hcalm : ∀ a, (x.effect sheet k').stop ≠ some (.abort a)) :
    (x.effect sheet k').stop = none := by
  have hrefusal : x.refusal = none := by
    rcases x.stop_effect sheet k with ⟨a, ha⟩ | hrefusal
    · rw [ha] at h
      cases h
    · rw [hrefusal] at h
      exact Option.map_eq_none_iff.mp h
  rcases x.stop_effect sheet k' with ⟨a, ha⟩ | hstop
  · exact absurd ha (hcalm a)
  · rw [hstop, hrefusal, Option.map_none]

namespace Printer

/-- The same printer some levels deeper. -/
def lower (p : Printer) (d : Nat) : Printer :=
  { p with sink := { p.sink with depth := p.sink.depth + d } }

@[simp] theorem sheet_lower (p : Printer) (d : Nat) : (p.lower d).sheet = p.sheet := rfl

@[simp] theorem cursor_lower (p : Printer) (d : Nat) :
    (p.lower d).sink.cursor = p.sink.cursor.lower d := rfl

theorem runKeepingDepth_of_stop_eq_none {p : Printer} (hroom : p.sink.writer.room = none)
    {layout : Layout} (h : (layout.effect p.sheet p.sink.cursor).stop = none) :
    let e := layout.effect p.sheet p.sink.cursor
    runKeepingDepth layout p = .ok () (p.moved
      { p.sink.writer with held := p.sink.writer.held ++ e.text.toUTF8 } e.cursor e.events) := by
  simp only [runKeepingDepth, run_unlimited hroom layout, Effect.result, h]

theorem stop_eq_none_of_done {p q : Printer} (hroom : p.sink.writer.room = none) {layout : Layout}
    (h : runKeepingDepth layout p = .ok () q) :
    (layout.effect p.sheet p.sink.cursor).stop = none := by
  have hverdict := verdict_runKeepingDepth hroom layout
  simp only [verdict, h] at hverdict
  cases hs : (layout.effect p.sheet p.sink.cursor).stop with
  | none => rfl
  | some x =>
    rw [hs] at hverdict
    cases hverdict

/-- Deeper, a statement without inline comments that has no newline in its names and other contents
is written with the same lines further to the right, unless that is too deep or too far. -/
theorem writeStmt_lower (place : Place) (s : Stmt) (d : Nat) (p q : Printer)
    (hroom : p.sink.writer.room = none) (hstart : p.sink.midLine = false)
    (hcontents : ∀ content ∈ s.contents, '\n' ∉ content.toList)
    (hcomments : ∀ inner ∈ s.statements, inner.isInlineComment = false)
    (hdone : writeStmt place s p = .ok () q)
    (hcalm : ∀ a, verdict (writeStmt place s) (p.lower d) ≠ .error (.abort a)) :
    ∃ (t u : String) (r : Printer), writeStmt place s (p.lower d) = .ok () r ∧
      q.sink.writer.held = p.sink.writer.held ++ t.toUTF8 ∧
      r.sink.writer.held = p.sink.writer.held ++ u.toUTF8 ∧
      u = String.ofList (unlines ((linesOf t.toList).map (shifted (d * p.sink.width)))) ∧
      IsEnded t ∧ IsEnded u ∧ q.sink.midLine = false ∧ r.sink.midLine = false := by
  have hwithin : s.statements.all (Stmt.isWithin (.oneLine false)) = true := by
    refine List.all_eq_true.mpr fun inner hinner => ?_
    have hown : inner.ownContents.all (Vocabulary.oneLine false).spells = true :=
      List.all_eq_true.mpr fun content hcontent => Vocabulary.spells_oneLine
        (hcontents content (List.mem_flatMap.mpr ⟨inner, hinner, hcontent⟩))
    rw [Stmt.isWithin, hown, hcomments inner hinner]
    rfl
  have hleads := s.leads_layout p.options.elideTrailingReturn place hwithin
  have hstop : ((s.layout p.options.elideTrailingReturn place).effect p.sheet
      p.sink.cursor).stop = none := stop_eq_none_of_done hroom hdone
  have hdeep : ((s.layout p.options.elideTrailingReturn place).effect p.sheet
      (p.sink.cursor.lower d)).stop = none := by
    refine Layout.stop_effect_eq_none hstop fun a ha => hcalm a ?_
    have hverdict := verdict_runKeepingDepth (p := p.lower d) hroom
      (s.layout p.options.elideTrailingReturn place)
    rw [sheet_lower, cursor_lower, ha] at hverdict
    exact hverdict
  obtain ⟨htext, hmoved, hmid, hmid'⟩ := hleads.effect_lower rfl hstart hstop d hdeep
  have hbase := runKeepingDepth_of_stop_eq_none hroom hstop
  have hrun := runKeepingDepth_of_stop_eq_none (p := p.lower d) hroom hdeep
  obtain rfl : _ = q := by
    have hsame := hdone.symm.trans hbase
    cases hsame
    rfl
  refine ⟨_, _, _, hrun, rfl, rfl, hmoved, ?_, ?_, hmid, hmid'⟩
  · rw [htext]
    exact isEnded_ofList_unlines _
  · show IsEnded (Layout.effect p.sheet _ (p.sink.cursor.lower d)).text
    rw [hmoved]
    exact isEnded_ofList_unlines _

/-- A loop two levels deeper, with its blank line. -/
theorem writeStmt_lower_loop :
    let s : Stmt := .forLoop (.int 0) (.bool true) (.name "n") (.block [.breakLoop])
    let p : Printer := .start {} { braceStyle := .sameLine }
    (∀ content ∈ s.contents, '\n' ∉ content.toList) ∧
      (∀ inner ∈ s.statements, inner.isInlineComment = false) ∧
      ∃ q r, writeStmt .outside s p = .ok () q ∧ writeStmt .outside s (p.lower 2) = .ok () r ∧
        q.sink.writer.held = "\nfor (0; true; n) \x7b\n  break;\n\x7d\n".toUTF8 ∧
        r.sink.writer.held = "\n    for (0; true; n) \x7b\n      break;\n    \x7d\n".toUTF8 := by
  intro s p
  have hcontents : ∀ content ∈ s.contents, '\n' ∉ content.toList := by
    rintro content (_ | ⟨_, _ | _⟩)
    decide
  have hcomments : ∀ inner ∈ s.statements, inner.isInlineComment = false := by
    rintro inner (_ | ⟨_, _ | ⟨_, _ | ⟨_, _ | _⟩⟩⟩) <;> rfl
  have hstop : ((s.layout true .outside).effect p.sheet p.sink.cursor).stop = none := by
    decide +kernel
  have hdeep : ((s.layout true .outside).effect p.sheet (p.sink.cursor.lower 2)).stop = none := by
    decide +kernel
  have htext : ((s.layout true .outside).effect p.sheet p.sink.cursor).text =
      "\nfor (0; true; n) \x7b\n  break;\n\x7d\n" := by
    decide +kernel
  have hdone := runKeepingDepth_of_stop_eq_none (p := p) rfl hstop
  have hcalm : ∀ a, verdict (writeStmt .outside s) (p.lower 2) ≠ .error (.abort a) := by
    have hverdict := verdict_runKeepingDepth (p := p.lower 2) rfl (s.layout true .outside)
    rw [sheet_lower, cursor_lower, hdeep] at hverdict
    intro a ha
    cases hverdict.symm.trans ha
  obtain ⟨t, u, r, hr, ht, hu, rfl, -⟩ :=
    writeStmt_lower .outside s 2 p _ rfl rfl hcontents hcomments hdone hcalm
  have hbytes : (ByteArray.empty ++ "\nfor (0; true; n) \x7b\n  break;\n\x7d\n".toUTF8) =
      .empty ++ t.toUTF8 := htext ▸ ht
  obtain rfl : "\nfor (0; true; n) \x7b\n  break;\n\x7d\n" = t := by
    rw [ByteArray.empty_append, ByteArray.empty_append] at hbytes
    exact String.toByteArray_inj.mp hbytes
  refine ⟨hcontents, hcomments, _, r, hdone, hr, ht.trans ByteArray.empty_append, ?_⟩
  rw [hu]
  exact ByteArray.empty_append.trans (by decide +kernel)

end Printer

end Scribe
