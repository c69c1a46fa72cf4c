import Scribe.Proofs.Ink

/-! Blanks are all that brace style and indentation width decide. Two runs of one layout on
different sheets go through different states and write different lines, but command by command they
write the same ink, and neither style nor width has a say in where a run stops, as long as no
indentation aborts it. -/

namespace Scribe

/-! ## What is written before a refusal -/

namespace Layout

/-- The commands before the first refusal. -/
def admitted (layout : Layout) : Layout := layout.takeWhile fun c => c.refusal.isNone

/-- The events up to the first refusal, with the refusal. -/
def logged : Layout → List Event
  | [] => []
  | .note event :: rest => event :: logged rest
  | .refuse defect :: _ => [.refused defect]
  | _ :: rest => logged rest

end Layout

private theorem Effect.events_andThen_nil {e : Effect} {f : Cursor → Effect} (he : e.events = [])
    (hf : ∀ k, (f k).events = []) : (e.andThen f).events = [] := by
  cases hs : e.stop with
  | some x => rw [Effect.andThen_of_stop hs, he]
  | none => rw [Effect.andThen_of_none hs, he, hf, List.append_nil]

private theorem Effect.events_breakLine (k : Cursor) : (Effect.breakLine k).events = [] := by
  unfold Effect.breakLine
  split <;> rfl

private theorem Effect.events_indent (width : Nat) (k : Cursor) :
    (Effect.indent width k).events = [] := by
  rcases Effect.indent_cases width k with ⟨a, -, ha⟩ | hput
  · rw [ha]
    rfl
  · rw [hput]
    rfl

private theorem Effect.events_freshLine (width : Nat) (s : String) (midLine : Bool) (k : Cursor) :
    (Effect.freshLine width s midLine k).events = [] :=
  Effect.events_andThen_nil (Effect.events_andThen_nil (Effect.events_breakLine k)
    (Effect.events_indent width)) fun _ => rfl

theorem Cmd.events_effect (sheet : Sheet) (k : Cursor) (c : Cmd) :
    (c.effect sheet k).events = Layout.logged [c] := by
  cases c with
  | breakLine => exact Effect.events_breakLine k
  | indent => exact Effect.events_indent sheet.width k
  | deeper =>
    simp only [Cmd.effect, Effect.deeper]
    split <;> rfl
  | shallower =>
    simp only [Cmd.effect, Effect.shallower]
    split <;> rfl
  | openBrace =>
    simp only [Cmd.effect, Effect.openBrace]
    split
    · rfl
    · exact Effect.events_freshLine _ _ _ _
  | elseWord =>
    simp only [Cmd.effect, Effect.elseWord]
    split
    · rfl
    · exact Effect.events_freshLine _ _ _ _
  | _ => rfl

/-- Unless it aborts, a run writes the ink of what stands before the first refusal, up to blanks,
and logs what stands there. -/
theorem Layout.seen_of_calm {sheet : Sheet} {k : Cursor} {layout : Layout}
    (h : ∀ a, (layout.effect sheet k).stop ≠ some (.abort a)) :
    unspaced (layout.effect sheet k).text.toList = unspaced (ink layout.admitted) ∧
      (layout.effect sheet k).events = layout.logged := by
  induction layout generalizing k with
  | nil => exact ⟨rfl, rfl⟩
  | cons c rest ih =>
    have hevents := Cmd.events_effect sheet k c
    cases hr : c.refusal with
    | some defect =>
      cases c with
      | refuse defect => exact ⟨rfl, rfl⟩
      | _ => cases hr
    | none =>
      cases hs : (c.effect sheet k).stop with
      | some x =>
        -- what is no refusal stops only by an abort
        obtain ⟨a, rfl⟩ := Cmd.calm_effect sheet k hr x hs
        refine absurd ?_ (h a)
        rw [Layout.effect, Effect.andThen_of_stop hs, hs]
      | none =>
        rw [Layout.effect, Effect.andThen_of_none hs] at h ⊢
        obtain ⟨htext, hlogged⟩ := ih h
        have hcmd := Cmd.unspaced_effect hs
        have hadmitted : admitted (c :: rest) = c :: admitted rest := by
          simp [admitted, hr]
        refine ⟨?_, ?_⟩
        · rw [String.toList_append, unspaced_append, hcmd, htext, hadmitted, ink_cons,
            unspaced_append]
        · show (c.effect sheet k).events ++ (effect sheet rest (c.effect sheet k).cursor).events = _
          rw [hevents, hlogged]
          cases c with
          | refuse defect => cases hr
          | _ => rfl

/-! ## Bytes without blanks -/

/-- What is left without the bytes of spaces and newlines. -/
def unspacedBytes (bytes : ByteArray) : List UInt8 :=
  bytes.data.toList.filter fun b => b != 0x20 && b != 0x0A

private theorem isInk_ofNat {n : Nat} (h : n < 256) (hspace : n ≠ 32) (hnewline : n ≠ 10) :
    (UInt8.ofNat n != 0x20 && UInt8.ofNat n != 0x0A) = true := by
  have hn : (UInt8.ofNat n).toNat = n := UInt8.toNat_ofNat_of_lt' h
  have hs : UInt8.ofNat n ≠ 0x20 := fun heq => hspace (hn.symm.trans (congrArg UInt8.toNat heq))
  have hl : UInt8.ofNat n ≠ 0x0A := fun heq => hnewline (hn.symm.trans (congrArg UInt8.toNat heq))
  simp [hs, hl]

/-- The bytes of a character that is no blank are no blanks: a single byte is the character itself,
and several have their high bit set. -/
theorem isInk_of_mem_utf8EncodeChar {c : Char} (hspace : c ≠ ' ') (hnewline : c ≠ '\n')
    {b : UInt8} (h : b ∈ String.utf8EncodeChar c) : (b != 0x20 && b != 0x0A) = true := by
  have hs : c.val.toNat ≠ 32 := fun heq => hspace (Char.toNat_inj.mp heq)
  have hl : c.val.toNat ≠ 10 := fun heq => hnewline (Char.toNat_inj.mp heq)
  simp only [String.utf8EncodeChar] at h
  split at h
  · obtain rfl := List.mem_singleton.mp h
    exact isInk_ofNat (by omega) hs hl
  · split at h
    · simp only [List.mem_cons, List.not_mem_nil, or_false] at h
      rcases h with rfl | rfl <;> exact isInk_ofNat (by omega) (by omega) (by omega)
    · split at h
      · simp only [List.mem_cons, List.not_mem_nil, or_false] at h
        rcases h with rfl | rfl | rfl <;> exact isInk_ofNat (by omega) (by omega) (by omega)
      · simp only [List.mem_cons, List.not_mem_nil, or_false] at h
        rcases h with rfl | rfl | rfl | rfl <;> exact isInk_ofNat (by omega) (by omega) (by omega)

private theorem filter_utf8EncodeChar (c : Char) :
    (String.utf8EncodeChar c).filter (fun b => b != 0x20 && b != 0x0A) =
      (unspaced [c]).flatMap String.utf8EncodeChar := by
  by_cases hspace : c = ' '
  · subst hspace
    decide
  · by_cases hnewline : c = '\n'
    · subst hnewline
      decide
    · have hkeep : unspaced [c] = [c] := by simp [unspaced, hspace, hnewline]
      rw [hkeep, List.flatMap_singleton, List.filter_eq_self]
      exact fun b hb => isInk_of_mem_utf8EncodeChar hspace hnewline hb

/-- The bytes of a text, character by character. -/
theorem toList_data_toUTF8 (s : String) :
    s.toUTF8.data.toList = s.toList.flatMap String.utf8EncodeChar := by
  conv => lhs; rw [← String.ofList_toList (s := s)]
  rw [String.toUTF8_eq_toByteArray, String.toByteArray_ofList]
  exact List.toList_data_toByteArray

/-- Deleting blanks from a text and from its bytes is the same. -/
theorem unspacedBytes_toUTF8 (s : String) :
    unspacedBytes s.toUTF8 = (unspaced s.toList).flatMap String.utf8EncodeChar := by
  rw [unspacedBytes, toList_data_toUTF8]
  induction s.toList with
  | nil => rfl
  | cons c cs ih =>
    have happend : unspaced (c :: cs) = unspaced [c] ++ unspaced cs := unspaced_append [c] cs
    rw [List.flatMap_cons, List.filter_append, filter_utf8EncodeChar, ih, happend,
      List.flatMap_append]

theorem unspacedBytes_append (a b : ByteArray) :
    unspacedBytes (a ++ b) = unspacedBytes a ++ unspacedBytes b := by
  simp [unspacedBytes, ByteArray.data_append]

/-! ## Two sheets -/

namespace Script

/-- Style and width are no part of the commands. -/
theorem layout_congr {o o' : Options} (hbanners : o.sectionBanners = o'.sectionBanners)
    (helide : o.elideTrailingReturn = o'.elideTrailingReturn) (s : Script) :
    s.layout o = s.layout o' := by
  have hbanner : Layout.banner o = Layout.banner o' := by
    funext title
    rw [Layout.banner, Layout.banner, hbanners]
  have hheading : Script.heading o = Script.heading o' := by
    funext earlier d
    rw [Script.heading, Script.heading, hbanner]
  have hsections : ∀ (ds earlier : List Decl),
      Script.declarationSections o earlier ds = Script.declarationSections o' earlier ds := by
    intro ds
    induction ds with
    | nil => exact fun _ => rfl
    | cons d ds ih =>
      intro earlier
      rw [Script.declarationSections, Script.declarationSections, hheading, helide, ih]
  rw [Script.layout, Script.layout, Script.importSection, Script.importSection, hbanner, hsections]

theorem calm_of_outcome {s : Script} {w : Writer} {o : Options} (hroom : w.room = none)
    (h : ∀ a, (s.outcome w o).result ≠ .error (.abort a)) :
    ∀ a, (s.effect o).stop ≠ some (.abort a) :=
  fun a ha => h a ((result_eq_abort_iff hroom s o a).mpr ha)

theorem stop_of_calm {s : Script} {o : Options}
    (h : ∀ a, (s.effect o).stop ≠ some (.abort a)) :
    (s.effect o).stop = (s.layout o).refusal.map fun d => .error (.malformed d) := by
  rcases Layout.stop_effect ⟨o.braceStyle, o.indentWidth⟩ (s.layout o) ⟨0, false⟩ with ⟨a, ha⟩ | hs
  · exact absurd ha (h a)
  · exact hs

theorem seen_of_calm {s : Script} {o : Options} (h : ∀ a, (s.effect o).stop ≠ some (.abort a)) :
    unspaced (s.effect o).text.toList = unspaced (Layout.ink (Layout.admitted (s.layout o))) ∧
      (s.effect o).events = Layout.logged (s.layout o) :=
  Layout.seen_of_calm h

/-- Two options that differ in brace style and indentation width only lead to the same end, with the
same log, and to the same bytes up to blanks. -/
theorem outcome_restyled (s : Script) (o o' : Options) (w : Writer)
    (hbanners : o.sectionBanners = o'.sectionBanners)
    (helide : o.elideTrailingReturn = o'.elideTrailingReturn) (hroom : w.room = none)
    (hcalm : ∀ a, (s.outcome w o).result ≠ .error (.abort a))
    (hcalm' : ∀ a, (s.outcome w o').result ≠ .error (.abort a)) :
    (s.outcome w o).result = (s.outcome w o').result ∧
      unspacedBytes (s.outcome w o).bytes = unspacedBytes (s.outcome w o').bytes ∧
      (s.outcome w o).events = (s.outcome w o').events := by
  have hlayout := layout_congr hbanners helide s
  have he := calm_of_outcome hroom hcalm
  have he' := calm_of_outcome hroom hcalm'
  have hstop : (s.effect o).stop = (s.effect o').stop := by
    rw [stop_of_calm he, stop_of_calm he', hlayout]
  obtain ⟨htext, hevents⟩ := seen_of_calm he
  obtain ⟨htext', hevents'⟩ := seen_of_calm he'
  refine ⟨?_, ?_, ?_⟩
  · rw [outcome_of_taken (Writer.write_unlimited hroom _),
      outcome_of_taken (Writer.write_unlimited hroom _), hstop]
    cases (s.effect o').stop <;> simp only
  · rw [bytes_outcome hroom, bytes_outcome hroom, unspacedBytes_append, unspacedBytes_append,
      unspacedBytes_toUTF8, unspacedBytes_toUTF8, htext, htext', hlayout]
  · rw [events_outcome hroom, events_outcome hroom, hevents, hevents', hlayout]

/-- A procedure that is written up to a call without a name, in both styles. -/
theorem outcome_restyled_refused :
    let branch : Stmt := .branch (.name "a") (some (.block [.breakLoop])) (some [])
    let body : List Stmt := [branch, .expr (.call "" [])]
    let s : Script := ⟨[], [.procedure ⟨"void", "main", []⟩ (some body)]⟩
    let o : Options := { indentWidth := 7, braceStyle := .sameLine }
    (∀ a, (s.outcome {} o).result ≠ .error (.abort a)) ∧
      (∀ a, (s.outcome {} {}).result ≠ .error (.abort a)) ∧
      (s.outcome {} o).bytes.size = 83 ∧ (s.outcome {} {}).bytes.size = 59 ∧
      (s.outcome {} o).result = (s.outcome {} {}).result ∧
      unspacedBytes (s.outcome {} o).bytes = unspacedBytes (s.outcome {} {}).bytes := by
  intro branch body s o
  have hcalm : ∀ a, (s.outcome {} o).result ≠ .error (.abort a) := ne_abort (by decide +kernel)
  have hcalm' : ∀ a, (s.outcome {} {}).result ≠ .error (.abort a) := ne_abort (by decide +kernel)
  obtain ⟨hresult, hbytes, -⟩ :=
    outcome_restyled s o {} {} rfl rfl rfl hcalm hcalm'
  exact ⟨hcalm, hcalm', by decide +kernel, by decide +kernel, hresult, hbytes⟩

end Script

end Scribe
