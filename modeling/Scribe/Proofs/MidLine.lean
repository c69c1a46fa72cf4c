import Scribe.Proofs.Blanks
import Scribe.Sink.Op

/-! The mid-line mark of a sink against the bytes that it has written. A run of operations never
marks the beginning of a line where the bytes stop inside of one. The converse needs that texts and
indentations put something on the line: the mark is set behind them whatever they are. Operations
that abort leave everything as it was, so a run goes on as if they were not there. -/

namespace Scribe

/-! ## Where bytes leave the cursor -/

/-- Whether the cursor stands mid-line behind these bytes, if it did or did not before them. -/
def midLineBehind (bytes : ByteArray) (midLine : Bool) : Bool :=
  bytes.data.toList.getLast?.elim midLine fun b => b != 0x0A

theorem midLineBehind_append (a b : ByteArray) (midLine : Bool) :
    midLineBehind (a ++ b) midLine = midLineBehind b (midLineBehind a midLine) := by
  simp only [midLineBehind, ByteArray.data_append, Array.toList_append, List.getLast?_append]
  cases b.data.toList.getLast? <;> rfl

theorem midLineBehind_mono {bytes : ByteArray} {midLine midLine' : Bool}
    (h : midLine = true → midLine' = true) (hbehind : midLineBehind bytes midLine = true) :
    midLineBehind bytes midLine' = true := by
  unfold midLineBehind at hbehind ⊢
  cases hlast : bytes.data.toList.getLast? with
  | none =>
    rw [hlast] at hbehind
    exact h hbehind
  | some b =>
    rw [hlast] at hbehind
    exact hbehind

theorem midLineBehind_eq_false_iff (bytes : ByteArray) :
    midLineBehind bytes false = false ↔
      bytes = .empty ∨ bytes.data.toList.getLast? = some 0x0A := by
  have hempty : bytes = .empty ↔ bytes.data.toList.getLast? = none := by
    rw [List.getLast?_eq_none_iff, Array.toList_eq_nil_iff, ByteArray.ext_iff]
    rfl
  unfold midLineBehind
  rw [hempty]
  cases bytes.data.toList.getLast? <;> simp

/-- Only a newline ends with the byte of a newline. -/
theorem exists_getLast?_utf8EncodeChar (c : Char) :
    ∃ b, (String.utf8EncodeChar c).getLast? = some b ∧ (b != 0x0A) = (c != '\n') := by
  by_cases hspace : c = ' '
  · subst hspace
    exact ⟨0x20, by decide, by decide⟩
  · by_cases hnewline : c = '\n'
    · subst hnewline
      exact ⟨0x0A, by decide, by decide⟩
    · have hne : String.utf8EncodeChar c ≠ [] := String.utf8EncodeChar_ne_nil
      have hmem := List.getLast_mem hne
      have hink := isInk_of_mem_utf8EncodeChar hspace hnewline hmem
      refine ⟨_, List.getLast?_eq_some_getLast hne, ?_⟩
      rw [(Bool.and_eq_true_iff.mp hink).2]
      exact (bne_iff_ne.mpr hnewline).symm

theorem midLineBehind_text {s : String} {c : Char} (h : s.toList.getLast? = some c)
    (midLine : Bool) : midLineBehind s.toUTF8 midLine = (c != '\n') := by
  obtain ⟨front, hfront⟩ := List.getLast?_eq_some_iff.mp h
  obtain ⟨b, hb, hc⟩ := exists_getLast?_utf8EncodeChar c
  rw [midLineBehind, toList_data_toUTF8, hfront, List.flatMap_append, List.flatMap_singleton,
    List.getLast?_append, hb]
  exact hc

namespace Sink

/-! ## What operations do -/

/-- What an operation does to the page when every byte is taken. -/
def Op.effect (s : Sink) : Op → Effect
  | .text t => .put t true s.cursor
  | .line t => .put (t ++ "\n") false s.cursor
  | .indentedText t => (Effect.indent s.width s.cursor).andThen (.put t true)
  | .indentedLine t =>
    (Effect.indent s.width s.cursor).andThen fun k => (Effect.put t true k).andThen .newline
  | .newline => .newline s.cursor
  | .breakLine => .breakLine s.cursor
  | .indent => .indent s.width s.cursor
  | .flush => .stay s.cursor
  | .deeper => .deeper s.cursor
  | .shallower => .shallower s.cursor
  | .setDepth depth => .stay ⟨depth, s.midLine⟩

/-- A flush changes the writer without offering it any bytes, so it is left out here. -/
theorem Op.perform_obeys {op : Op} (h : op ≠ .flush) (s : Sink) :
    Obeys op.perform s (op.effect s) := by
  cases op with
  | text t => exact text_obeys t s
  | line t => exact line_obeys t s
  | indentedText t =>
    exact obeys_bind (f := Effect.put t true) (indent_obeys s) fun w => text_obeys t (s.moved w _)
  | indentedLine t =>
    refine obeys_bind (f := fun k => (Effect.put t true k).andThen .newline) (indent_obeys s) ?_
    intro w
    exact obeys_bind (f := Effect.newline) (text_obeys t (s.moved w _)) fun v => newline_obeys _
  | newline => exact newline_obeys s
  | breakLine => exact breakLine_obeys s
  | indent => exact indent_obeys s
  | flush => exact absurd rfl h
  | deeper => exact deeper_obeys s
  | shallower => exact shallower_obeys s
  | setDepth depth => exact setDepth_obeys depth s

/-- Where an operation is to leave the cursor mid-line, it puts something there: a text that is not
empty and does not end with a newline, at least one space. -/
def Op.advances (s : Sink) : Op → Bool
  | .text t | .indentedText t => t != "" && t.toList.getLast? != some '\n'
  | .indent => s.depth * s.width != 0
  | _ => true

/-- Every operation advances where the ones before it have left the sink. -/
def advances : List Op → Sink → Bool
  | [], _ => true
  | op :: ops, s => op.advances s && advances ops (s.after op)

private theorem exists_getLast?_of_advances {t : String}
    (h : (t != "" && t.toList.getLast? != some '\n') = true) :
    ∃ c, t.toList.getLast? = some c ∧ c ≠ '\n' := by
  obtain ⟨hne, hlast⟩ := Bool.and_eq_true_iff.mp h
  cases hc : t.toList.getLast? with
  | none =>
    rw [List.getLast?_eq_none_iff, String.toList_eq_nil_iff] at hc
    exact absurd hc (bne_iff_ne.mp hne)
  | some c =>
    refine ⟨c, rfl, ?_⟩
    rintro rfl
    rw [hc] at hlast
    exact absurd rfl (bne_iff_ne.mp hlast)

/-- All that an operation can do: abort, change the depth at most, end a line, write on it. -/
inductive Op.Does (op : Op) (s : Sink) : Effect → Prop
  | abort (a : Abort) : Does op s (.halt a s.cursor)
  | stay (depth : Nat) : Does op s (.stay ⟨depth, s.midLine⟩)
  | endLine (t : String) : Does op s (.put (t ++ "\n") false s.cursor)
  | writeOn (t : String) (h : op.advances s = true → ∃ c, t.toList.getLast? = some c ∧ c ≠ '\n') :
    Does op s (.put t true s.cursor)

/-- Behind an indentation that can be written, the text goes on where its spaces end. -/
private theorem does_indent_andThen {op : Op} {s : Sink} {f : Cursor → Effect}
    (h : op.Does s ((Effect.put (spaces (s.depth * s.width)) true s.cursor).andThen f)) :
    op.Does s ((Effect.indent s.width s.cursor).andThen f) := by
  rcases Effect.indent_cases s.width s.cursor with ⟨a, -, ha⟩ | hput
  · rw [ha]
    exact .abort a
  · rw [hput]
    exact h

theorem Op.does_effect (op : Op) (s : Sink) : op.Does s (op.effect s) := by
  cases op with
  | text t => exact .writeOn t exists_getLast?_of_advances
  | line t => exact .endLine t
  | indentedText t =>
    rw [Op.effect]
    apply does_indent_andThen
    refine .writeOn (spaces (s.depth * s.width) ++ t) fun h => ?_
    obtain ⟨c, hlast, hc⟩ := exists_getLast?_of_advances h
    refine ⟨c, ?_, hc⟩
    rw [String.toList_append, List.getLast?_append, hlast]
    rfl
  | indentedLine t =>
    rw [Op.effect]
    apply does_indent_andThen
    have hline : (Op.indentedLine t).Does s
        (.put (spaces (s.depth * s.width) ++ t ++ "\n") false s.cursor) := .endLine _
    rwa [String.append_assoc] at hline
  | newline => exact .endLine ""
  | breakLine =>
    rw [Op.effect, Effect.breakLine]
    split
    · exact .endLine ""
    · exact .stay s.depth
  | indent =>
    rcases Effect.indent_cases s.width s.cursor with ⟨a, -, ha⟩ | hput
    · rw [Op.effect, ha]
      exact .abort a
    · rw [Op.effect, hput]
      refine .writeOn (spaces (s.depth * s.width)) fun h => ?_
      have hwidth : s.depth * s.width ≠ 0 := bne_iff_ne.mp h
      refine ⟨' ', ?_, by decide⟩
      rw [spaces, String.toList_ofList, List.getLast?_replicate, if_neg hwidth]
  | flush => exact .stay s.depth
  | deeper =>
    rw [Op.effect, Effect.deeper]
    split
    · exact .abort .depthOverflow
    · exact .stay (s.depth + 1)
  | shallower =>
    rw [Op.effect, Effect.shallower]
    split
    · exact .abort .unbalancedDepth
    · exact .stay (s.depth - 1)
  | setDepth depth => exact .stay depth

/-- Also an operation of several steps that aborts has done nothing by then. -/
theorem eq_of_perform_abort {op : Op} {s t : Sink} {a : Abort}
    (h : op.perform s = .error (.abort a) t) : t = s := by
  by_cases hop : op = .flush
  · subst hop
    obtain ⟨writer, width, depth, midLine⟩ := s
    simp only [Op.perform, Sink.flush] at h
    split at h <;> cases h
  · have hobeys := Op.perform_obeys hop s
    have hdoes := op.does_effect s
    generalize op.effect s = e at hobeys hdoes
    cases hw : s.writer.write e.text.toUTF8 with
    | error f w =>
      obtain ⟨k, hk⟩ := hobeys.failed f w hw
      cases hk.symm.trans h
    | ok u w =>
      have hdone := (hobeys.done w hw).symm.trans h
      cases hdoes with
      | abort b =>
        have hempty : s.writer.write "".toUTF8 = .ok () s.writer := s.writer.write_empty
        cases hempty.symm.trans hw
        cases hdone
        rfl
      | stay depth => cases hdone
      | endLine t => cases hdone
      | writeOn t hlast => cases hdone

/-- An operation on a destination that takes everything, whether or not it comes to its end. -/
theorem after_of_room {s : Sink} (h : s.writer.room = none) (op : Op) :
    (s.after op).writer.room = none ∧
      (s.after op).writer.held = s.writer.held ++ (op.effect s).text.toUTF8 ∧
      (s.after op).cursor = (op.effect s).cursor := by
  by_cases hop : op = .flush
  · subst hop
    obtain ⟨writer, width, depth, midLine⟩ := s
    simp only [after, Op.perform, Sink.flush, Writer.flush]
    cases writer.flushFails <;> exact ⟨h, ByteArray.append_empty.symm, rfl⟩
  · have hdone := (Op.perform_obeys hop s).done _ (Writer.write_unlimited h _)
    rw [after, hdone, Effect.result]
    cases (op.effect s).stop <;> exact ⟨h, rfl, rfl⟩

/-! ## The mark through a run -/

/-- On the way from `s` to `t` these bytes are taken. Where they leave the cursor mid-line, `t` is
marked so; the mark is theirs if the operations on the way advance. -/
structure Tracks (advancing : Bool) (s t : Sink) (bytes : ByteArray) : Prop where
  room : t.writer.room = none
  held : t.writer.held = s.writer.held ++ bytes
  noticed : midLineBehind bytes s.midLine = true → t.midLine = true
  settled : advancing = true → t.midLine = midLineBehind bytes s.midLine

theorem Tracks.trans {m n : Bool} {s t u : Sink} {a b : ByteArray} (hst : Tracks m s t a)
    (htu : Tracks n t u b) : Tracks (m && n) s u (a ++ b) := by
  refine ⟨htu.room, ?_, fun h => ?_, fun h => ?_⟩
  · rw [htu.held, hst.held, ByteArray.append_assoc]
  · rw [midLineBehind_append] at h
    exact htu.noticed (midLineBehind_mono hst.noticed h)
  · obtain ⟨hm, hn⟩ := Bool.and_eq_true_iff.mp h
    rw [midLineBehind_append, htu.settled hn, hst.settled hm]

theorem tracks_after {s : Sink} (h : s.writer.room = none) (op : Op) :
    Tracks (op.advances s) s (s.after op) (op.effect s).text.toUTF8 := by
  obtain ⟨hroom, hheld, hcursor⟩ := after_of_room h op
  have hdoes := op.does_effect s
  generalize op.effect s = e at hheld hcursor hdoes
  have hmark : (s.after op).midLine = e.cursor.midLine := congrArg Cursor.midLine hcursor
  -- but for what is written on a line, the mark follows the text in any case
  have of_eq (hmid : e.cursor.midLine = midLineBehind e.text.toUTF8 s.midLine) :
      Tracks (op.advances s) s (s.after op) e.text.toUTF8 :=
    ⟨hroom, hheld, fun hbehind => hmark.trans (hmid.trans hbehind), fun _ => hmark.trans hmid⟩
  cases hdoes with
  | abort a => exact of_eq rfl
  | stay depth => exact of_eq rfl
  | endLine t =>
    have hnewline : (t ++ "\n").toList.getLast? = some '\n' := by
      rw [String.toList_append]
      exact List.getLast?_concat
    exact of_eq (midLineBehind_text hnewline s.midLine).symm
  | writeOn t hlast =>
    refine ⟨hroom, hheld, fun _ => hmark, fun hadvances => ?_⟩
    obtain ⟨c, hc, hne⟩ := hlast hadvances
    have htext : midLineBehind t.toUTF8 s.midLine = true :=
      (midLineBehind_text hc s.midLine).trans (bne_iff_ne.mpr hne)
    exact hmark.trans htext.symm

theorem exists_tracks_run {s : Sink} (h : s.writer.room = none) (ops : List Op) :
    ∃ bytes, Tracks (advances ops s) s (run ops s) bytes := by
  induction ops generalizing s with
  | nil => exact ⟨.empty, h, ByteArray.append_empty.symm, id, fun _ => rfl⟩
  | cons op ops ih =>
    have hop := tracks_after h op
    obtain ⟨bytes, hops⟩ := ih hop.room
    exact ⟨_, hop.trans hops⟩

/-- From the beginning of a page on, a mark is missing only where the output is empty or ends with
a newline; and if all operations advance, it is set just where there is output that ends otherwise.
An operation that aborts changes nothing. -/
theorem midLine_faithful (w : Writer) (hw : w.room = none) (width : Nat) (ops : List Op) :
    let start : Sink := { writer := w, width }
    let s := run ops start
    let output := s.writer.heldFrom w.held.size
    (s.midLine = false → output = .empty ∨ output.data.toList.getLast? = some 0x0A) ∧
    (advances ops start = true →
      (s.midLine = true ↔ output ≠ .empty ∧ output.data.toList.getLast? ≠ some 0x0A)) ∧
    ∀ (op : Op) (a : Abort) (t : Sink), op.perform s = .error (.abort a) t → t = s := by
  intro start s output
  obtain ⟨bytes, htracks⟩ := exists_tracks_run (s := start) hw ops
  have houtput : output = bytes := Writer.heldFrom_of_held htracks.held
  have hbehind := midLineBehind_eq_false_iff bytes
  rw [houtput]
  refine ⟨fun hmid => hbehind.mp ?_, fun hadvances => ?_, fun op a t => eq_of_perform_abort⟩
  · exact Bool.eq_false_iff.mpr fun h => Bool.false_ne_true (hmid.symm.trans (htracks.noticed h))
  · have hmid : s.midLine = midLineBehind bytes false := htracks.settled hadvances
    rw [hmid, ← not_or, ← hbehind, Bool.not_eq_false]

/-- Operations of every kind, with each of the four ways to abort among them. -/
theorem midLine_faithful_aborts :
    let ops : List Op := [.shallower, .indentedText "if (a)", .breakLine, .deeper,
      .indentedLine "b;\n", .setDepth 0xFFFFFFFFFFFFFFFF, .deeper, .indent, .setDepth 40000,
      .indentedText "c", .setDepth 1, .newline, .line "d;", .flush, .indent, .text "é"]
    let output (s : Sink) : ByteArray := s.writer.heldFrom 0
    let front := run (ops.take 14) {}
    let deep := run (ops.take 6) {}
    let s := run ops {}
    (front.midLine = false ∧ (output front = .empty ∨
      (output front).data.toList.getLast? = some 0x0A)) ∧
    (Op.deeper.perform deep = .error (.abort .depthOverflow) (deep.after .deeper) ∧
      deep.after .deeper = deep) ∧
    advances ops {} = true ∧ s.midLine = true ∧
    (output s ≠ .empty ∧ (output s).data.toList.getLast? ≠ some 0x0A) ∧
    output s = "if (a)\n  b;\n\n\nd;\n  é".toUTF8 := by
  intro ops output front deep s
  have hfront : front.midLine = false := by decide +kernel
  have habort : Op.deeper.perform deep = .error (.abort .depthOverflow) (deep.after .deeper) := rfl
  have hadvances : advances ops {} = true := by decide +kernel
  have hs : s.midLine = true := by decide +kernel
  refine ⟨⟨hfront, ?_⟩, ⟨habort, ?_⟩, hadvances, hs, ?_, ?_⟩
  · exact (midLine_faithful {} rfl 2 (ops.take 14)).1 hfront
  · exact (midLine_faithful {} rfl 2 (ops.take 6)).2.2 .deeper .depthOverflow _ habort
  · exact ((midLine_faithful {} rfl 2 ops).2.1 hadvances).mp hs
  · decide +kernel

/-- A text that ends its line by itself is taken for one that does not. -/
example : advances [.text "a;\n"] {} = false ∧ (run [.text "a;\n"] {}).midLine = true := by
  decide +kernel

end Sink

end Scribe
