import Scribe.Proofs.Page.Rows
import Scribe.Proofs.Ink
import Scribe.Proofs.Paired

/-! Braces on the page. Which braces there are is a matter of ink, so that they balance is shown for
the commands and carried over to the text; where they stand is a matter of rows. -/

namespace Scribe

/-! ## Balance -/

/-- Every beginning has no fewer opening than closing braces, and the whole has as many of both. -/
structure Balanced (cs : List Char) : Prop where
  opened : ∀ front, front <+: cs → front.count '\x7d' ≤ front.count '\x7b'
  closed : cs.count '\x7d' = cs.count '\x7b'

/-- Neither kind of brace is among the characters. -/
def isBraceless (cs : List Char) : Bool := cs.all fun c => c != '\x7b' && c != '\x7d'

theorem notMem_of_isBraceless {cs : List Char} (h : isBraceless cs = true) :
    '\x7b' ∉ cs ∧ '\x7d' ∉ cs := by
  constructor <;>
    · intro hmem
      have hnone := List.all_eq_true.mp h _ hmem
      revert hnone
      decide

theorem balanced_iff_paired {cs : List Char} : Balanced cs ↔ Paired '\x7b' '\x7d' cs :=
  ⟨fun h => ⟨h.opened, h.closed⟩, fun h => ⟨h.opened, h.closed⟩⟩

namespace Balanced

variable {a b : List Char}

theorem of_isBraceless (h : isBraceless a = true) : Balanced a := by
  obtain ⟨hopening, hclosing⟩ := notMem_of_isBraceless h
  exact balanced_iff_paired.mpr (.of_notMem hopening hclosing)

theorem append (ha : Balanced a) (hb : Balanced b) : Balanced (a ++ b) :=
  balanced_iff_paired.mpr ((balanced_iff_paired.mp ha).append (balanced_iff_paired.mp hb))

theorem wrap (h : Balanced a) : Balanced ('\x7b' :: (a ++ ['\x7d'])) :=
  balanced_iff_paired.mpr ((balanced_iff_paired.mp h).wrap (by decide))

theorem unspaced_iff : Balanced (unspaced a) ↔ Balanced a := by
  rw [balanced_iff_paired, balanced_iff_paired]
  exact Paired.filter_iff (by decide) (by decide)

end Balanced

theorem isBraceless_of_admits {cs : List Char}
    (h : cs.all Vocabulary.braceless.admits = true) : isBraceless cs = true := by
  refine List.all_eq_true.mpr fun c hc => ?_
  have hadmits := List.all_eq_true.mp h c hc
  simp only [Vocabulary.braceless, isOrdinary, Bool.and_eq_true] at hadmits
  exact Bool.and_eq_true_iff.mpr ⟨hadmits.1.2, hadmits.2⟩

/-- Braces are called for in pairs only. -/
theorem Layout.Leads.balanced_ink {a b : LineState} {n : Nat} {x : Layout}
    (h : Leads Vocabulary.braceless a x b n) : Balanced x.ink := by
  have htext : ∀ {s : String}, Vocabulary.braceless.spells s = true →
      Balanced (s.toList ++ []) := by
    intro s hs
    rw [List.append_nil]
    exact .of_isBraceless (isBraceless_of_admits hs)
  induction h with
  | append _ _ ihx ihy =>
    rw [ink_append]
    exact ihx.append ihy
  | text hs => exact htext hs
  | ink hs _ => exact htext hs
  | more hs => exact htext hs
  | line hs _ => exact htext hs
  | lastLine hs => exact htext hs
  | level _ ih => simpa [Cmd.ink] using ih
  | braces _ _ ih => simpa [Layout.braces, Cmd.ink] using ih.wrap
  | _ => exact .of_isBraceless rfl

/-! ## Placement -/

/-- A line on which an opening brace is the last character and a closing one the first behind the
indentation, if there are any. -/
structure BracesInPlace (line : List Char) : Prop where
  opening : '\x7b' ∉ line.dropLast
  closing : '\x7d' ∉ (line.dropWhile (· == ' ')).tail

namespace Row

variable {style : BraceStyle} {content : List Char}

/-- Behind the indentation of a line comes its content, unless that starts with more blanks. -/
theorem dropWhile_indented (n : Nat) (content : List Char) :
    (List.replicate n ' ' ++ content).dropWhile (· == ' ') = content.dropWhile (· == ' ') := by
  induction n with
  | zero => rfl
  | succ n ih =>
    rw [List.replicate_succ, List.cons_append, List.dropWhile_cons_of_pos (by decide), ih]

theorem notMem_spaces {c : Char} (hc : c ≠ ' ') (n : Nat) : c ∉ List.replicate n ' ' :=
  fun hmem => hc (List.eq_of_mem_replicate hmem)

theorem notMem_tail_dropWhile {c : Char} {cs : List Char} (h : c ∉ cs) :
    c ∉ (cs.dropWhile (· == ' ')).tail := fun hmem =>
  h ((List.dropWhile_sublist _).subset (List.mem_of_mem_tail hmem))

theorem Front.notMem_opening (h : Front style .braceless content) : '\x7b' ∉ content := by
  rcases h with h | ⟨-, rest, rfl, hrest⟩
  · exact (notMem_of_isBraceless (isBraceless_of_admits h)).1
  · have hnone := (notMem_of_isBraceless (isBraceless_of_admits hrest)).1
    simp [hnone]

/-- What is written behind text has no closing brace in it, so only the text can start with one. -/
theorem Front.notMem_closing (h : Front style .braceless content) (more : List Char)
    (hmore : '\x7d' ∉ more) : '\x7d' ∉ ((content ++ more).dropWhile (· == ' ')).tail := by
  rcases h with h | ⟨-, rest, rfl, hrest⟩
  · have hnone := (notMem_of_isBraceless (isBraceless_of_admits h)).2
    exact notMem_tail_dropWhile (by simp [hnone, hmore])
  · have hnone := (notMem_of_isBraceless (isBraceless_of_admits hrest)).2
    rw [List.cons_append, List.dropWhile_cons_of_neg (by decide), List.tail_cons]
    simp [hnone, hmore]

theorem Whole.bracesInPlace (h : Whole style .braceless content) (n : Nat) :
    BracesInPlace (List.replicate n ' ' ++ content) where
  opening := by
    have hspaces := notMem_spaces (c := '\x7b') (by decide) n
    -- Either there is no opening brace on the line or it is the last character.
    have hnone : '\x7b' ∉ content →
        '\x7b' ∉ (List.replicate n ' ' ++ content).dropLast := fun hcontent hmem =>
      (List.mem_append.mp (List.dropLast_subset _ hmem)).elim hspaces hcontent
    have hlast : ∀ front : List Char, '\x7b' ∉ front →
        '\x7b' ∉ (List.replicate n ' ' ++ (front ++ ['\x7b'])).dropLast := by
      intro front hfront
      rw [← List.append_assoc, List.dropLast_concat, List.mem_append, not_or]
      exact ⟨hspaces, hfront⟩
    cases h with
    | text hfront _ => exact hnone hfront.notMem_opening
    | @opened front _ hfront =>
      have hopening := hlast (front ++ [' ']) (by simp [hfront.notMem_opening])
      simpa using hopening
    | opening => exact hlast [] List.not_mem_nil
    | closing => exact hnone (by decide)
    | terminated => exact hnone (by decide)
  closing := by
    rw [dropWhile_indented]
    cases h with
    | text hfront _ => simpa using hfront.notMem_closing [] List.not_mem_nil
    | opened _ hfront => exact hfront.notMem_closing _ (by decide)
    | opening => decide
    | closing => decide
    | terminated => decide

/-- With each brace on the next line it stands alone, or with the semicolon of an `enum`. -/
theorem Whole.alone (h : Whole .nextLine .braceless content) (n : Nat)
    (hbrace : '\x7b' ∈ List.replicate n ' ' ++ content ∨
      '\x7d' ∈ List.replicate n ' ' ++ content) :
    (List.replicate n ' ' ++ content).dropWhile (· == ' ') ∈
      [['\x7b'], ['\x7d'], ['\x7d', ';']] := by
  rw [dropWhile_indented]
  cases h with
  | text hfront _ =>
    rcases hfront with hfront | ⟨hstyle, -⟩
    · have hnone := notMem_of_isBraceless (isBraceless_of_admits hfront)
      rcases hbrace with hbrace | hbrace
      · exact absurd hbrace (List.not_mem_append (notMem_spaces (by decide) n) hnone.1)
      · exact absurd hbrace (List.not_mem_append (notMem_spaces (by decide) n) hnone.2)
    · cases hstyle
  | opened hstyle _ => cases hstyle
  | opening => decide
  | closing => decide
  | terminated => decide

end Row

namespace Script

variable {o : Options} {s : Script} {t : String}

theorem balanced_toText (h : s.contents.all Vocabulary.braceless.spells = true)
    (ht : (s.toText o).1 = .ok t) : Balanced t.toList := by
  rw [toText_eq] at ht
  have hstop : (s.effect o).stop = none := Effect.stop_eq_none_of_told ht
  obtain rfl := Effect.text_of_told ht
  have hink := (leads_layout rfl o s h).balanced_ink
  rw [← Balanced.unspaced_iff, effect, Layout.unspaced_effect hstop, Balanced.unspaced_iff]
  exact hink

/-- Where no name and no other content has a brace or a newline in it, the braces of the text
balance, each opening one ends its line and each closing one starts it. With braces on the next
line there is nothing else on those lines but the semicolon of an `enum`. -/
theorem braces_toText (s : Script) (o : Options) (t : String)
    (h : ∀ content ∈ s.contents, ∀ c ∈ content.toList, c ≠ '\x7b' ∧ c ≠ '\x7d' ∧ c ≠ '\n')
    (ht : (s.toText o).1 = .ok t) :
    Balanced t.toList ∧ (∀ line ∈ linesOf t.toList, BracesInPlace line) ∧
      (o.braceStyle = .nextLine → ∀ line ∈ linesOf t.toList, '\x7b' ∈ line ∨ '\x7d' ∈ line →
        line.dropWhile (· == ' ') ∈ [['\x7b'], ['\x7d'], ['\x7d', ';']]) := by
  have hspells : s.contents.all Vocabulary.braceless.spells = true := by
    refine List.all_eq_true.mpr fun content hcontent => List.all_eq_true.mpr fun c hc => ?_
    obtain ⟨hopening, hclosing, hnewline⟩ := h content hcontent c hc
    simp [Vocabulary.braceless, isOrdinary, hopening, hclosing, hnewline]
  obtain ⟨rows, hwhole, -, htext⟩ := exists_rows rfl hspells ht
  refine ⟨balanced_toText hspells ht, ?_⟩
  rw [htext, Row.linesOf_page _ _ hwhole]
  constructor
  · intro line hline
    obtain ⟨row, hrow, rfl⟩ := List.mem_map.mp hline
    cases row with
    | none => exact ⟨List.not_mem_nil, List.not_mem_nil⟩
    | some row => exact (hwhole row hrow).bracesInPlace _
  · intro hstyle line hline hbrace
    obtain ⟨row, hrow, rfl⟩ := List.mem_map.mp hline
    cases row with
    | none => exact (hbrace.elim List.not_mem_nil List.not_mem_nil).elim
    | some row => exact (hstyle ▸ hwhole row hrow).alone _ hbrace

/-- An `enum` inside a procedure, and an `if` of which only the `else` is there. -/
theorem braces_toText_elseOnly :
    let e : Decl := .enum "e" [⟨"a", .int 1⟩]
    let s : Script := ⟨[], [.procedure ⟨"void", "f", []⟩
      (some [.decl e, .branch (.bool true) none (some [])])]⟩
    let o : Options := {}
    let t := "void f()\n\x7b\n  enum e\n  \x7b\n    a = 1\n  \x7d;\n" ++
      "  if (true)\n  \x7b\n  \x7d\n  else\n  \x7b\n  \x7d\n\x7d\n"
    (∀ content ∈ s.contents, ∀ c ∈ content.toList, c ≠ '\x7b' ∧ c ≠ '\x7d' ∧ c ≠ '\n') ∧
      (s.toText o).1 = .ok t ∧ Balanced t.toList ∧
      ∀ line ∈ linesOf t.toList, '\x7b' ∈ line ∨ '\x7d' ∈ line →
        line.dropWhile (· == ' ') ∈ [['\x7b'], ['\x7d'], ['\x7d', ';']] := by
  intro e s o t
  have hcontents : ∀ content ∈ s.contents, ∀ c ∈ content.toList,
      c ≠ '\x7b' ∧ c ≠ '\x7d' ∧ c ≠ '\n' := by
    have hall : s.contents.all (fun content => content.toList.all fun c =>
        decide (c ≠ '\x7b' ∧ c ≠ '\x7d' ∧ c ≠ '\n')) = true := by
      decide +kernel
    intro content hcontent c hc
    exact of_decide_eq_true (List.all_eq_true.mp (List.all_eq_true.mp hall content hcontent) c hc)
  have hwritten : (s.toText o).1 = .ok t := toText_eq_ok (by decide +kernel) (by decide +kernel)
  obtain ⟨hbalanced, -, halone⟩ := braces_toText s o t hcontents hwritten
  exact ⟨hcontents, hwritten, hbalanced, halone rfl⟩

end Script

end Scribe
