import Scribe.Proofs.Blanks

/-! The two ways to have a script written, as a text or to a destination. Commands offer whole texts
to the destination, never parts of characters, so on one that takes everything the bytes are text at
any time, and the text of a script is what they are text of. A destination with a limit can cut a
character in half; nothing is said of that here. -/

namespace Scribe

namespace Script

/-- Where a script has a text, a destination that takes everything is given just that text, and
where it has none, writing it ends for the same reason, with text written up to there. Unless an
indentation aborts it, the reason is a missing piece, and never the destination or bytes that are no
text. -/
theorem toText_agrees_with_outcome (s : Script) (o : Options) (w : Writer) (hroom : w.room = none)
    (hflush : w.flushFails = false)
    (hcalm : ∀ a, (s.outcome w o).result ≠ .error (.abort a)) :
    (∀ f, (s.toText o).1 ≠ .error (.error (.write f))) ∧
    (s.toText o).1 ≠ .error (.error .notText) ∧
    ((∃ t, (s.toText o).1 = .ok t) ↔ (s.outcome w o).result = .ok ()) ∧
    (∀ t, (s.toText o).1 = .ok t → (s.outcome w o).bytes = w.held ++ t.toUTF8) ∧
    (∀ x, (s.toText o).1 = .error x →
      ∃ d, x = .error (.malformed d) ∧ (s.outcome w o).result = .error x) ∧
    (s.toText o).2 = (s.outcome w o).events ∧
    (w.held = .empty → ∃ t, decodeText (s.outcome w o).bytes = .ok t) := by
  have hstop := stop_of_calm (calm_of_outcome hroom hcalm)
  have hdecoded : w.held = .empty → ∃ t, decodeText (s.outcome w o).bytes = .ok t := by
    intro hheld
    rw [bytes_outcome hroom, hheld, ByteArray.empty_append]
    exact ⟨_, decodeText_toByteArray _⟩
  have hresult := result_outcome hroom hflush s o
  rw [toText_eq, events_outcome hroom, hresult]
  cases hr : (s.layout o).refusal with
  | none =>
    rw [hr] at hstop
    have hbytes := bytes_outcome hroom s o
    rw [Effect.told_of_none hstop, hstop]
    refine ⟨nofun, nofun, ⟨fun _ => rfl, fun _ => ⟨_, rfl⟩⟩, ?_, nofun, rfl, hdecoded⟩
    intro t ht
    rw [hbytes, Except.ok.inj ht]
  | some d =>
    rw [hr] at hstop
    rw [Effect.told_of_stop hstop, hstop]
    refine ⟨nofun, nofun, ⟨nofun, nofun⟩, nofun, ?_, rfl, hdecoded⟩
    intro x hx
    obtain rfl := Except.error.inj hx
    exact ⟨d, rfl, rfl⟩

/-- An import whose name has a character of two bytes, alone and before a prototype without a
name. -/
theorem toText_agrees_with_outcome_unnamed :
    let whole : Script := ⟨["\u00e9"], []⟩
    let broken : Script := ⟨["\u00e9"], [.prototype 1 ⟨"int", "", []⟩]⟩
    let o : Options := { sectionBanners := false }
    let w : Writer := { failure := ⟨"Other", "full"⟩ }
    (∀ a, (whole.outcome w o).result ≠ .error (.abort a)) ∧
      (∀ a, (broken.outcome w o).result ≠ .error (.abort a)) ∧
      (whole.outcome w o).bytes = "import(\"\u00e9\");\n".toUTF8 ∧
      (whole.outcome w o).bytes.size = 14 ∧
      (broken.outcome w o).result = .error (.error (.malformed (.unnamedPrototype 1))) ∧
      ∃ t, decodeText (broken.outcome w o).bytes = .ok t := by
  intro whole broken o w
  have hcalm : ∀ a, (whole.outcome w o).result ≠ .error (.abort a) := ne_abort (by decide +kernel)
  have hcalm' : ∀ a, (broken.outcome w o).result ≠ .error (.abort a) :=
    ne_abort (by decide +kernel)
  have hwhole : (whole.toText o).1 = .ok "import(\"\u00e9\");\n" :=
    toText_eq_ok (by decide +kernel) (by decide +kernel)
  have hbroken : (broken.toText o).1 = .error (.error (.malformed (.unnamedPrototype 1))) := by
    have hstop : (broken.effect o).stop =
        some (.error (.malformed (.unnamedPrototype 1))) := by decide +kernel
    rw [toText_eq, Effect.told_of_stop hstop]
  obtain ⟨-, -, -, hbytes, -⟩ := toText_agrees_with_outcome whole o w rfl rfl hcalm
  obtain ⟨-, -, -, -, hresult, -, htext⟩ := toText_agrees_with_outcome broken o w rfl rfl hcalm'
  obtain ⟨d, -, hd⟩ := hresult _ hbroken
  refine ⟨hcalm, hcalm', hbytes _ hwhole, by decide +kernel, hd, htext rfl⟩

end Script

end Scribe
