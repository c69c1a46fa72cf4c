import Scribe.Printer.Render

/-! What commands do to a page, apart from the destination. The effect of a layout is the text it
adds, the events it logs, where it leaves the cursor and why it stops, if it does; it depends on
brace style, indentation width and cursor alone. `run_obeys`: on any destination whatever, running
a layout is offering the text of its effect in one write. When the destination takes all of it, the
run ends as the effect says; when it fails, so does the run, with the same bytes taken. Where the
cursor is left by a failed write is not said here. -/

namespace Scribe

/-! ## One write or several -/

namespace Writer

theorem write_empty (w : Writer) : w.write .empty = .ok () w := by
  obtain ⟨held, room, beyond, failure, flushFails, flushes, ends⟩ := w
  cases room <;> simp [write]

theorem write_unlimited {w : Writer} (h : w.room = none) (bytes : ByteArray) :
    w.write bytes = .ok () { w with held := w.held ++ bytes } := by
  obtain ⟨held, room, beyond, failure, flushFails, flushes, ends⟩ := w
  cases h
  rfl

theorem heldFrom_of_held {v w : Writer} {bytes : ByteArray} (h : w.held = v.held ++ bytes) :
    w.heldFrom v.held.size = bytes := by
  rw [heldFrom, h]
  exact ByteArray.extract_append_eq_right rfl ByteArray.size_append

/-- Offering two pieces one after the other is offering them as one. -/
theorem write_append (a b : ByteArray) (w : Writer) :
    w.write (a ++ b) = match w.write a with
      | .ok () v => v.write b
      | .error e v => .error e v := by
  obtain ⟨held, room, beyond, failure, flushFails, flushes, ends⟩ := w
  cases room with
  | none => simp [write, ByteArray.append_assoc]
  | some room =>
    have hsize : (a ++ b).size = a.size + b.size := ByteArray.size_append
    by_cases ha : a.size ≤ room
    · by_cases hb : b.size ≤ room - a.size
      · have hab : (a ++ b).size ≤ room := by omega
        have hr : room - (a ++ b).size = room - a.size - b.size := by omega
        simp only [write, ha, hb, hab, hr, ↓reduceIte, ByteArray.append_assoc]
      · have hab : ¬ (a ++ b).size ≤ room := by omega
        have hcut : (a ++ b).extract 0 room = a ++ b.extract 0 (room - a.size) := by
          have hall : a.extract 0 (max room a.size) = a := ByteArray.extract_zero_max_size
          rw [Nat.max_eq_left ha] at hall
          rw [ByteArray.extract_append, hall, Nat.zero_sub]
        simp only [write, ha, hb, hab, hcut, ↓reduceIte, ByteArray.append_assoc]
    · have hab : ¬ (a ++ b).size ≤ room := by omega
      have hcut : (a ++ b).extract 0 room = a.extract 0 room := by
        rw [ByteArray.extract_append, Nat.sub_eq_zero_of_le (by omega : room ≤ a.size),
          Nat.zero_sub, ByteArray.extract_same, ByteArray.append_empty]
      simp only [write, ha, hab, hcut, ↓reduceIte]
      cases beyond with
      | fail => rfl
      | takeNone => rfl
      | failOnce =>
        cases failure.isInterruption with
        | false => rfl
        | true => simp only [↓reduceIte, ByteArray.append_assoc]

theorem write_text_append (a b : String) (w : Writer) :
    w.write (a ++ b).toUTF8 = match w.write a.toUTF8 with
      | .ok () v => v.write b.toUTF8
      | .error e v => .error e v := by
  simp only [String.toUTF8_eq_toByteArray, String.toByteArray_append]
  exact write_append _ _ _

end Writer

/-! ## Effects -/

/-- Where a sink stands on the page. -/
@[ext]
structure Cursor where
  depth : Nat
  midLine : Bool
  deriving DecidableEq

/-- What the shape of the text depends on besides the commands. -/
structure Sheet where
  style : BraceStyle
  width : Nat
  deriving DecidableEq

structure Effect where
  text : String
  events : List Event
  cursor : Cursor
  stop : Option Stop
  deriving DecidableEq

namespace Effect

def stay (k : Cursor) : Effect := ⟨"", [], k, none⟩

def put (s : String) (midLine : Bool) (k : Cursor) : Effect := ⟨s, [], ⟨k.depth, midLine⟩, none⟩

def halt (a : Abort) (k : Cursor) : Effect := ⟨"", [], k, some (.abort a)⟩

/-- `f` goes on where `e` left off, unless `e` stopped. -/
def andThen (e : Effect) (f : Cursor → Effect) : Effect :=
  match e.stop with
  | some _ => e
  | none =>
    let g := f e.cursor
    ⟨e.text ++ g.text, e.events ++ g.events, g.cursor, g.stop⟩

theorem andThen_of_stop {e : Effect} {x : Stop} (h : e.stop = some x) (f : Cursor → Effect) :
    e.andThen f = e := by
  simp [andThen, h]

theorem andThen_of_none {e : Effect} (h : e.stop = none) (f : Cursor → Effect) :
    e.andThen f = ⟨e.text ++ (f e.cursor).text, e.events ++ (f e.cursor).events,
      (f e.cursor).cursor, (f e.cursor).stop⟩ := by
  simp [andThen, h]

theorem stop_of_andThen {e : Effect} {f : Cursor → Effect} (h : (e.andThen f).stop = none) :
    e.stop = none := by
  cases hs : e.stop with
  | none => rfl
  | some x =>
    rw [andThen_of_stop hs, hs] at h
    cases h

theorem andThen_assoc (e : Effect) (f g : Cursor → Effect) :
    (e.andThen f).andThen g = e.andThen fun k => (f k).andThen g := by
  cases he : e.stop with
  | some x => rw [andThen_of_stop he, andThen_of_stop he, andThen_of_stop he]
  | none =>
    rw [andThen_of_none he, andThen_of_none he]
    cases hf : (f e.cursor).stop with
    | some x => simp [andThen, hf]
    | none => simp [andThen, hf, String.append_assoc]

def newline (k : Cursor) : Effect := put "\n" false k

def breakLine (k : Cursor) : Effect := if k.midLine then newline k else stay k

def indent (width : Nat) (k : Cursor) : Effect :=
  if Sink.wordLimit ≤ k.depth * width then halt .widthOverflow k
  else if Sink.widestIndent < k.depth * width then halt .widthTooLarge k
  else put (Sink.spaces (k.depth * width)) true k

def deeper (k : Cursor) : Effect :=
  if Sink.wordLimit ≤ k.depth + 1 then halt .depthOverflow k else stay ⟨k.depth + 1, k.midLine⟩

def shallower (k : Cursor) : Effect :=
  if k.depth = 0 then halt .unbalancedDepth k else stay ⟨k.depth - 1, k.midLine⟩

/-- A new line that starts with `s`. -/
def freshLine (width : Nat) (s : String) (midLine : Bool) (k : Cursor) : Effect :=
  ((breakLine k).andThen (indent width)).andThen (put s midLine)

def openBrace (sheet : Sheet) (k : Cursor) : Effect :=
  if sheet.style = .sameLine && k.midLine then put " \x7b\n" false k
  else freshLine sheet.width "\x7b\n" false k

def elseWord (sheet : Sheet) (k : Cursor) : Effect :=
  if sheet.style = .sameLine && k.midLine then put " else" true k
  else freshLine sheet.width "else" true k

/-! What can abort does the one thing if it does not. -/

theorem indent_cases (width : Nat) (k : Cursor) :
    (∃ a, a ≠ .unbalancedDepth ∧ indent width k = halt a k) ∨
      indent width k = put (Sink.spaces (k.depth * width)) true k := by
  unfold indent
  split
  · exact Or.inl ⟨.widthOverflow, by decide, rfl⟩
  · split
    · exact Or.inl ⟨.widthTooLarge, by decide, rfl⟩
    · exact Or.inr rfl

theorem indent_of_none {width : Nat} {k : Cursor} (h : (indent width k).stop = none) :
    indent width k = put (Sink.spaces (k.depth * width)) true k := by
  rcases indent_cases width k with ⟨a, -, ha⟩ | hput
  · rw [ha] at h
    cases h
  · exact hput

theorem deeper_of_none {k : Cursor} (h : (deeper k).stop = none) :
    deeper k = stay ⟨k.depth + 1, k.midLine⟩ := by
  unfold deeper at h ⊢
  split at h
  · cases h
  · next hdepth => rw [if_neg hdepth]

theorem shallower_of_none {k : Cursor} (h : (shallower k).stop = none) :
    k.depth ≠ 0 ∧ shallower k = stay ⟨k.depth - 1, k.midLine⟩ := by
  unfold shallower at h ⊢
  split at h
  · cases h
  · next hdepth => exact ⟨hdepth, by rw [if_neg hdepth]⟩

end Effect

def Cmd.effect (sheet : Sheet) (k : Cursor) : Cmd → Effect
  | .text s => .put s true k
  | .line s => .put (s ++ "\n") false k
  | .newline => .newline k
  | .breakLine => .breakLine k
  | .indent => .indent sheet.width k
  | .deeper => .deeper k
  | .shallower => .shallower k
  | .openBrace => .openBrace sheet k
  | .elseWord => .elseWord sheet k
  | .note event => ⟨"", [event], k, none⟩
  | .refuse defect => ⟨"", [.refused defect], k, some (.error (.malformed defect))⟩

namespace Layout

def effect (sheet : Sheet) : Layout → Cursor → Effect
  | [], k => .stay k
  | c :: rest, k => (c.effect sheet k).andThen (effect sheet rest)

@[simp] theorem effect_nil (sheet : Sheet) (k : Cursor) : effect sheet [] k = .stay k := rfl

theorem effect_singleton (sheet : Sheet) (c : Cmd) (k : Cursor) :
    effect sheet [c] k = c.effect sheet k := by
  rw [effect]
  cases hs : (c.effect sheet k).stop with
  | some x => rw [Effect.andThen_of_stop hs]
  | none =>
    rw [Effect.andThen_of_none hs]
    simp [Effect.stay, ← hs]

theorem effect_append (sheet : Sheet) (a b : Layout) (k : Cursor) :
    effect sheet (a ++ b) k = (effect sheet a k).andThen (effect sheet b) := by
  induction a generalizing k with
  | nil => simp [effect, Effect.andThen, Effect.stay]
  | cons c a ih =>
    have hrest : effect sheet (a ++ b) = fun k => (effect sheet a k).andThen (effect sheet b) :=
      funext ih
    rw [List.cons_append, effect, hrest, effect, Effect.andThen_assoc]

end Layout

/-- How a run with this effect ends when nothing is refused by the destination. -/
def Effect.result {σ : Type} (e : Effect) (t : σ) : EStateM.Result Stop σ Unit :=
  match e.stop with
  | none => .ok () t
  | some x => .error x t

/-! ## Sinks -/

namespace Sink

def cursor (s : Sink) : Cursor := ⟨s.depth, s.midLine⟩

/-- The same sink with another destination and cursor. -/
def moved (s : Sink) (w : Writer) (k : Cursor) : Sink := ⟨w, s.width, k.depth, k.midLine⟩

@[simp] theorem moved_writer (s : Sink) (w : Writer) (k : Cursor) : (s.moved w k).writer = w := rfl

@[simp] theorem moved_width (s : Sink) (w : Writer) (k : Cursor) :
    (s.moved w k).width = s.width := rfl

@[simp] theorem moved_cursor (s : Sink) (w : Writer) (k : Cursor) : (s.moved w k).cursor = k := rfl

@[simp] theorem moved_moved (s : Sink) (v w : Writer) (j k : Cursor) :
    (s.moved v j).moved w k = s.moved w k := rfl

/-- From `s` the action `x` does what `e` says, or fails where the destination fails. -/
structure Obeys (x : SinkM Unit) (s : Sink) (e : Effect) : Prop where
  quiet : e.events = []
  done : ∀ w, s.writer.write e.text.toUTF8 = .ok () w → x s = e.result (s.moved w e.cursor)
  failed : ∀ f w, s.writer.write e.text.toUTF8 = .error f w →
    ∃ k, x s = .error (.error (.write f)) (s.moved w k)

theorem obeys_bind {x y : SinkM Unit} {s : Sink} {e : Effect} {f : Cursor → Effect}
    (hx : Obeys x s e) (hy : ∀ w, Obeys y (s.moved w e.cursor) (f e.cursor)) :
    Obeys (x >>= fun _ => y) s (e.andThen f) := by
  cases he : e.stop with
  | some stop =>
    rw [Effect.andThen_of_stop he]
    refine ⟨hx.quiet, ?_, ?_⟩
    · intro w hw
      simp [bind, EStateM.bind, hx.done w hw, Effect.result, he]
    · intro fail w hw
      obtain ⟨k, hk⟩ := hx.failed fail w hw
      exact ⟨k, by simp [bind, EStateM.bind, hk]⟩
  | none =>
    rw [Effect.andThen_of_none he]
    have hwrite := s.writer.write_text_append e.text (f e.cursor).text
    have hquiet : e.events ++ (f e.cursor).events = [] := by
      rw [hx.quiet, (hy s.writer).quiet, List.append_nil]
    cases hv : s.writer.write e.text.toUTF8 with
    | error fail v =>
      rw [hv] at hwrite
      obtain ⟨k, hk⟩ := hx.failed fail v hv
      refine ⟨hquiet, fun w hw => ?_, fun fail' w hw => ⟨k, ?_⟩⟩
      · rw [hwrite] at hw
        cases hw
      · rw [hwrite] at hw
        cases hw
        simp [bind, EStateM.bind, hk]
    | ok u v =>
      rw [hv] at hwrite
      have hxs : (x >>= fun _ => y) s = y (s.moved v e.cursor) := by
        simp [bind, EStateM.bind, hx.done v hv, Effect.result, he]
      refine ⟨hquiet, fun w hw => ?_, fun fail w hw => ?_⟩
      · rw [hxs]
        exact (hy v).done w (hwrite.symm.trans hw)
      · rw [hxs]
        exact (hy v).failed fail w (hwrite.symm.trans hw)

theorem obeys_of_eq {x y : SinkM Unit} {s : Sink} {e : Effect} (h : x s = y s)
    (hy : Obeys y s e) : Obeys x s e :=
  ⟨hy.quiet, h ▸ hy.done, h ▸ hy.failed⟩

/-- Without text nothing can fail. -/
private theorem obeys_silent {x : SinkM Unit} {s : Sink} {k : Cursor} {stop : Option Stop}
    (h : x s = Effect.result ⟨"", [], k, stop⟩ (s.moved s.writer k)) :
    Obeys x s ⟨"", [], k, stop⟩ := by
  have hw : s.writer.write "".toUTF8 = .ok () s.writer := s.writer.write_empty
  refine ⟨rfl, fun w he => ?_, fun f w he => ?_⟩
  · rw [hw] at he
    cases he
    exact h
  · rw [hw] at he
    cases he

private theorem obeys_stay {x : SinkM Unit} {s : Sink} {k : Cursor}
    (h : x s = .ok () (s.moved s.writer k)) : Obeys x s (.stay k) :=
  obeys_silent h

private theorem obeys_halt {x : SinkM Unit} {s : Sink} {a : Abort}
    (h : x s = .error (.abort a) s) : Obeys x s (.halt a s.cursor) :=
  obeys_silent h

/-- The one place where bytes are written; what it marks comes after. -/
private theorem emit_obeys (t : String) (s : Sink) : Obeys (emit t) s ⟨t, [], s.cursor, none⟩ := by
  obtain ⟨writer, width, depth, midLine⟩ := s
  refine ⟨rfl, fun w h => ?_, fun f w h => ⟨⟨depth, midLine⟩, ?_⟩⟩
  · simp only at h
    simp only [emit, h]
    rfl
  · simp only at h
    simp only [emit, h]
    rfl

private theorem put_obeys (t : String) (midLine : Bool) (s : Sink) :
    Obeys (do emit t; mark midLine) s (.put t midLine s.cursor) := by
  have h := obeys_bind (y := mark midLine) (f := fun k => .stay ⟨k.depth, midLine⟩)
    (emit_obeys t s) (fun w => obeys_stay rfl)
  simpa [Effect.andThen, Effect.stay, Effect.put] using h

theorem text_obeys (t : String) (s : Sink) : Obeys (text t) s (.put t true s.cursor) :=
  put_obeys t true s

theorem newline_obeys (s : Sink) : Obeys newline s (.newline s.cursor) :=
  put_obeys "\n" false s

theorem line_obeys (t : String) (s : Sink) : Obeys (line t) s (.put (t ++ "\n") false s.cursor) :=
  obeys_bind (f := Effect.newline) (emit_obeys t s) fun _ => newline_obeys _

private theorem get_bind {α : Type} (f : Sink → SinkM α) (s : Sink) : (get >>= f) s = f s s := rfl

theorem breakLine_obeys (s : Sink) : Obeys breakLine s (.breakLine s.cursor) := by
  have hb : breakLine s = if s.midLine then newline s else .ok () s := by
    simp only [breakLine, get_bind]
    split <;> rfl
  unfold Effect.breakLine
  cases hm : s.midLine with
  | false =>
    have hk : s.cursor.midLine = false := hm
    rw [hk, if_neg Bool.false_ne_true]
    exact obeys_stay (by rw [hb, hm]; rfl)
  | true =>
    have hk : s.cursor.midLine = true := hm
    have hn : breakLine s = newline s := by rw [hb, hm]; rfl
    rw [hk, if_pos rfl]
    exact obeys_of_eq hn (newline_obeys s)

theorem indent_obeys (s : Sink) : Obeys indent s (.indent s.width s.cursor) := by
  have hi : indent s = if wordLimit ≤ s.depth * s.width then .error (.abort .widthOverflow) s
      else if widestIndent < s.depth * s.width then .error (.abort .widthTooLarge) s
      else text (spaces (s.depth * s.width)) s := by
    simp only [indent, get_bind]
    split
    · rfl
    · split <;> rfl
  have hd : s.cursor.depth = s.depth := rfl
  unfold Effect.indent
  rw [hd]
  split
  next h => exact obeys_halt (by rw [hi, if_pos h])
  next h =>
    split
    next h' => exact obeys_halt (by rw [hi, if_neg h, if_pos h'])
    next h' =>
      rw [if_neg h, if_neg h'] at hi
      exact obeys_of_eq hi (text_obeys _ s)

theorem deeper_obeys (s : Sink) : Obeys deeper s (.deeper s.cursor) := by
  have hd : deeper s = if wordLimit ≤ s.depth + 1 then .error (.abort .depthOverflow) s
      else .ok () { s with depth := s.depth + 1 } := by
    simp only [deeper, get_bind]
    split <;> rfl
  have hk : s.cursor.depth = s.depth := rfl
  unfold Effect.deeper
  rw [hk]
  by_cases h : wordLimit ≤ s.depth + 1
  · rw [if_pos h] at hd ⊢
    exact obeys_halt hd
  · rw [if_neg h] at hd ⊢
    exact obeys_stay hd

theorem shallower_obeys (s : Sink) : Obeys shallower s (.shallower s.cursor) := by
  have hd : shallower s = if s.depth = 0 then .error (.abort .unbalancedDepth) s
      else .ok () { s with depth := s.depth - 1 } := by
    simp only [shallower, get_bind]
    split <;> rfl
  have hk : s.cursor.depth = s.depth := rfl
  unfold Effect.shallower
  rw [hk]
  by_cases h : s.depth = 0
  · rw [if_pos h] at hd ⊢
    exact obeys_halt hd
  · rw [if_neg h] at hd ⊢
    exact obeys_stay hd

theorem setDepth_obeys (depth : Nat) (s : Sink) :
    Obeys (setDepth depth) s (.stay ⟨depth, s.midLine⟩) :=
  obeys_stay rfl

/-- The beginning that opening braces and `else` share when they do not continue a line. -/
private theorem freshLine_obeys {x : SinkM Unit} {t : String} {midLine : Bool} (s : Sink)
    (hx : ∀ s, Obeys x s (.put t midLine s.cursor)) :
    Obeys (do breakLine; indent; x) s (.freshLine s.width t midLine s.cursor) := by
  unfold Effect.freshLine
  rw [Effect.andThen_assoc]
  apply obeys_bind (breakLine_obeys s)
  intro w
  apply obeys_bind (f := Effect.put t midLine) (indent_obeys (s.moved w _))
  intro v
  exact hx _

theorem openBrace_obeys (style : BraceStyle) (s : Sink) :
    Obeys (openBrace style) s (.openBrace ⟨style, s.width⟩ s.cursor) := by
  have ho : openBrace style s = if style = .sameLine && s.midLine then line " \x7b" s
      else (do breakLine; indent; text "\x7b"; newline : SinkM Unit) s := by
    simp only [openBrace, get_bind]
    split <;> rfl
  have hm : s.cursor.midLine = s.midLine := rfl
  unfold Effect.openBrace
  rw [hm]
  split
  next h =>
    rw [if_pos h] at ho
    exact obeys_of_eq ho (line_obeys _ s)
  next h =>
    rw [if_neg h] at ho
    apply obeys_of_eq ho
    apply freshLine_obeys s
    intro s
    exact obeys_bind (f := Effect.newline) (text_obeys "\x7b" s) fun _ => newline_obeys _

theorem elseWord_obeys (style : BraceStyle) (s : Sink) :
    Obeys (elseWord style) s (.elseWord ⟨style, s.width⟩ s.cursor) := by
  have he : elseWord style s = if style = .sameLine && s.midLine then text " else" s
      else (do breakLine; indent; text "else" : SinkM Unit) s := by
    simp only [elseWord, get_bind]
    split <;> rfl
  have hm : s.cursor.midLine = s.midLine := rfl
  unfold Effect.elseWord
  rw [hm]
  split
  next h =>
    rw [if_pos h] at he
    exact obeys_of_eq he (text_obeys _ s)
  next h =>
    rw [if_neg h] at he
    exact obeys_of_eq he (freshLine_obeys s (text_obeys "else"))

end Sink

/-! ## Printers -/

namespace Printer

def sheet (p : Printer) : Sheet := ⟨p.options.braceStyle, p.sink.width⟩

/-- The same printer with another destination and cursor, and with more in its log. -/
def moved (p : Printer) (w : Writer) (k : Cursor) (events : List Event) : Printer :=
  ⟨p.options, p.sink.moved w k, p.log ++ events⟩

/-- From `p` the action `x` does what `e` says, or fails where the destination fails, by which
time it has logged a beginning of what it would log. -/
structure Obeys (x : PrinterM Unit) (p : Printer) (e : Effect) : Prop where
  done : ∀ w, p.sink.writer.write e.text.toUTF8 = .ok () w →
    x p = e.result (p.moved w e.cursor e.events)
  failed : ∀ f w, p.sink.writer.write e.text.toUTF8 = .error f w →
    ∃ k events, events <+: e.events ∧ x p = .error (.error (.write f)) (p.moved w k events)

private theorem onSink_obeys {x : SinkM Unit} {p : Printer} {e : Effect}
    (hx : Sink.Obeys x p.sink e) : Obeys (onSink x) p e := by
  obtain ⟨options, sink, log⟩ := p
  constructor
  · intro w hw
    have h := hx.done w hw
    simp only at h
    simp only [onSink, h, Effect.result, moved, hx.quiet, List.append_nil]
    cases e.stop <;> rfl
  · intro f w hw
    obtain ⟨k, hk⟩ := hx.failed f w hw
    simp only at hk
    exact ⟨k, [], List.nil_prefix, by simp [onSink, hk, moved]⟩

/-- A command that only logs, and perhaps stops. -/
private theorem log_obeys {x : PrinterM Unit} {p : Printer} {events : List Event}
    {stop : Option Stop} (hx : x p = Effect.result ⟨"", events, p.sink.cursor, stop⟩
      (p.moved p.sink.writer p.sink.cursor events)) :
    Obeys x p ⟨"", events, p.sink.cursor, stop⟩ := by
  have hw : p.sink.writer.write "".toUTF8 = .ok () p.sink.writer := p.sink.writer.write_empty
  constructor
  · intro w h
    rw [hw] at h
    cases h
    exact hx
  · intro f w h
    rw [hw] at h
    cases h

theorem perform_obeys (c : Cmd) (p : Printer) :
    Obeys (perform c) p (c.effect p.sheet p.sink.cursor) := by
  cases c with
  | text s => exact onSink_obeys (Sink.text_obeys s p.sink)
  | line s => exact onSink_obeys (Sink.line_obeys s p.sink)
  | newline => exact onSink_obeys (Sink.newline_obeys p.sink)
  | breakLine => exact onSink_obeys (Sink.breakLine_obeys p.sink)
  | indent => exact onSink_obeys (Sink.indent_obeys p.sink)
  | deeper => exact onSink_obeys (Sink.deeper_obeys p.sink)
  | shallower => exact onSink_obeys (Sink.shallower_obeys p.sink)
  | openBrace =>
    have h := onSink_obeys (p := p) (Sink.openBrace_obeys p.options.braceStyle p.sink)
    exact ⟨h.done, h.failed⟩
  | elseWord =>
    have h := onSink_obeys (p := p) (Sink.elseWord_obeys p.options.braceStyle p.sink)
    exact ⟨h.done, h.failed⟩
  | note event => exact log_obeys rfl
  | refuse defect => exact log_obeys rfl

/-- When the second action fails, the first has logged all of its events. -/
theorem obeys_bind {x y : PrinterM Unit} {p : Printer} {e : Effect} {f : Cursor → Effect}
    (hx : Obeys x p e) (hy : ∀ w, Obeys y (p.moved w e.cursor e.events) (f e.cursor)) :
    Obeys (x >>= fun _ => y) p (e.andThen f) := by
  cases he : e.stop with
  | some stop =>
    rw [Effect.andThen_of_stop he]
    constructor
    · intro w hw
      simp [bind, EStateM.bind, hx.done w hw, Effect.result, he]
    · intro fail w hw
      obtain ⟨k, events, hpre, hk⟩ := hx.failed fail w hw
      exact ⟨k, events, hpre, by simp [bind, EStateM.bind, hk]⟩
  | none =>
    rw [Effect.andThen_of_none he]
    have hwrite := p.sink.writer.write_text_append e.text (f e.cursor).text
    cases hv : p.sink.writer.write e.text.toUTF8 with
    | error fail v =>
      rw [hv] at hwrite
      obtain ⟨k, events, hpre, hk⟩ := hx.failed fail v hv
      refine ⟨fun w hw => ?_, fun fail' w hw => ⟨k, events, ?_, ?_⟩⟩
      · rw [hwrite] at hw
        cases hw
      · exact hpre.trans (List.prefix_append _ _)
      · rw [hwrite] at hw
        cases hw
        simp [bind, EStateM.bind, hk]
    | ok u v =>
      rw [hv] at hwrite
      have hxs : (x >>= fun _ => y) p = y (p.moved v e.cursor e.events) := by
        simp [bind, EStateM.bind, hx.done v hv, Effect.result, he]
      have hlog : ∀ w k events, (p.moved v e.cursor e.events).moved w k events =
          p.moved w k (e.events ++ events) := by
        intro w k events
        simp [moved]
      refine ⟨fun w hw => ?_, fun fail w hw => ?_⟩
      · rw [hxs, (hy v).done w (hwrite.symm.trans hw), hlog]
        rfl
      · obtain ⟨k, events, hpre, hk⟩ := (hy v).failed fail w (hwrite.symm.trans hw)
        refine ⟨k, e.events ++ events, (List.prefix_append_right_inj _).mpr hpre, ?_⟩
        rw [hxs, hk, hlog]

private theorem run_cons (c : Cmd) (rest : Layout) :
    run (c :: rest) = (perform c >>= fun _ => run rest) := by
  funext p
  simp only [run, bind, EStateM.bind]
  cases perform c p <;> rfl

theorem run_obeys (layout : Layout) (p : Printer) :
    Obeys (run layout) p (layout.effect p.sheet p.sink.cursor) := by
  induction layout generalizing p with
  | nil =>
    apply log_obeys
    simp [moved, Effect.result]
    rfl
  | cons c rest ih =>
    rw [run_cons]
    apply obeys_bind (perform_obeys c p)
    intro w
    exact ih (p.moved w _ _)

end Printer

end Scribe
