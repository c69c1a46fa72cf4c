import Scribe.Proofs.Outcome

/-! Destinations that stop taking bytes. A script written to a destination with a limit is the same
script cut off at the limit: as long as everything fits nothing is different, and otherwise the
bytes taken are the first ones, the log is a beginning of the full log, and the call ends with the
failure of the destination, whatever it would have ended with later. -/

namespace Scribe

/-- The failure that a writer with a lasting limit reports beyond it. -/
def Writer.refusal (w : Writer) : WriteError :=
  match w.beyond with
  | .takeNone => .nothingAccepted
  | _ => w.failure

/-- Writing, whether it fails or not, is no flush. -/
theorem Writer.flushes_write (w : Writer) (bytes : ByteArray) :
    match w.write bytes with
    | .ok () v => v.flushes = w.flushes
    | .error _ v => v.flushes = w.flushes := by
  obtain ⟨held, room, beyond, failure, flushFails, flushes, ends⟩ := w
  cases room with
  | none => rfl
  | some room =>
    by_cases hfits : bytes.size ≤ room
    · simp only [Writer.write, hfits, ↓reduceIte]
    · simp only [Writer.write, hfits, ↓reduceIte]
      cases beyond with
      | fail => rfl
      | takeNone => rfl
      | failOnce => cases failure.isInterruption <;> rfl

namespace Script

/-- A writer is flushed once, at the end of a script that was written to its end. -/
theorem flushes_outcome (s : Script) (w : Writer) (o : Options) :
    (s.outcome w o).flushes = w.flushes + if s.isWritten w o then 1 else 0 := by
  have hflushes := w.flushes_write (s.effect o).text.toUTF8
  cases h : w.write (s.effect o).text.toUTF8 with
  | error f v =>
    rw [h] at hflushes
    obtain ⟨hfalse, events, -, hout⟩ := outcome_of_failed h
    rw [hout, hfalse]
    exact hflushes
  | ok u v =>
    rw [h] at hflushes
    rw [outcome_of_taken h, isWritten_of_taken h]
    cases (s.effect o).stop <;> simp [hflushes]

/-- Up to its limit a writer makes no difference, and beyond it the script is cut off there. -/
theorem outcome_limited (s : Script) (o : Options) (n : Nat) (beyond : Beyond)
    (failure : WriteError) (flushFails : Bool) (hlasting : beyond ≠ .failOnce)
    (hends : beyond.ends failure = true) :
    let free : Writer := { failure, flushFails }
    let tight : Writer := { room := some n, beyond, failure, flushFails, ends := hends }
    ((s.outcome free o).bytes.size ≤ n → s.outcome tight o = s.outcome free o) ∧
    (n < (s.outcome free o).bytes.size →
      (s.outcome tight o).result = .error (.error (.write tight.refusal)) ∧
      (s.outcome tight o).bytes = (s.outcome free o).bytes.extract 0 n ∧
      (s.outcome tight o).events <+: (s.outcome free o).events) ∧
    (s.outcome free o).flushes = (if s.isWritten free o then 1 else 0) ∧
    (s.outcome tight o).flushes = (if s.isWritten tight o then 1 else 0) := by
  intro free tight
  have hfree : free.write (s.effect o).text.toUTF8 =
      .ok () { free with held := .empty ++ (s.effect o).text.toUTF8 } :=
    Writer.write_unlimited rfl _
  have hbytes : (s.outcome free o).bytes = (s.effect o).text.toUTF8 := by
    rw [outcome_of_taken hfree]
    cases (s.effect o).stop <;> simp
  have hevents : (s.outcome free o).events = (s.effect o).events := by
    rw [outcome_of_taken hfree]
    cases (s.effect o).stop <;> rfl
  refine ⟨fun hfits => ?_, fun hover => ?_, ?_, ?_⟩
  · rw [hbytes] at hfits
    have htight : tight.write (s.effect o).text.toUTF8 = .ok () { tight with
        held := .empty ++ (s.effect o).text.toUTF8
        room := some (n - (s.effect o).text.toUTF8.size) } := by
      simp only [tight, Writer.write, hfits, ↓reduceIte]
    rw [outcome_of_taken htight, outcome_of_taken hfree]
  · rw [hbytes] at hover
    have htight : tight.write (s.effect o).text.toUTF8 = .error tight.refusal { tight with
        held := .empty ++ (s.effect o).text.toUTF8.extract 0 n
        room := some 0 } := by
      have hnot : ¬ (s.effect o).text.toUTF8.size ≤ n := by omega
      simp only [tight, Writer.write, hnot, ↓reduceIte, Writer.refusal]
      cases beyond with
      | fail => rfl
      | takeNone => rfl
      | failOnce => exact absurd rfl hlasting
    obtain ⟨-, events, hpre, hout⟩ := outcome_of_failed htight
    rw [hout, hbytes, hevents]
    exact ⟨rfl, by simp, hpre⟩
  · rw [flushes_outcome]
    exact Nat.zero_add _
  · rw [flushes_outcome]
    exact Nat.zero_add _

/-- An import that takes thirteen bytes, on a writer that has room for three. -/
theorem outcome_limited_import :
    let s : Script := ⟨["a"], []⟩
    let o : Options := { sectionBanners := false }
    let tight : Writer := { room := some 3, beyond := .takeNone }
    Beyond.takeNone ≠ .failOnce ∧ Beyond.takeNone.ends ⟨"BrokenPipe", "closed"⟩ = true ∧
      (s.outcome {} o).bytes.size = 13 ∧
      (s.outcome tight o).result = .error (.error (.write .nothingAccepted)) ∧
      (s.outcome tight o).bytes = (s.outcome {} o).bytes.extract 0 3 ∧
      (s.outcome tight o).events <+: (s.outcome {} o).events ∧
      (s.outcome tight o).flushes = 0 := by
  intro s o tight
  have hsize : (s.outcome {} o).bytes.size = 13 := by decide +kernel
  have hnot : s.isWritten tight o = false := by decide +kernel
  obtain ⟨-, hover, -, hflushes⟩ :=
    outcome_limited s o 3 .takeNone ⟨"BrokenPipe", "closed"⟩ false (by decide) rfl
  obtain ⟨hresult, hbytes, hevents⟩ := hover (by rw [hsize]; decide)
  rw [hnot] at hflushes
  exact ⟨by decide, rfl, hsize, hresult, hbytes, hevents, hflushes⟩

end Script

end Scribe
