import Scribe.Stop

/-! The destination of a printer: bytes, with a limit on how many are taken. A write that does not
fit is taken up to the limit and then fails, so what is held is always a beginning of what was
offered. -/

namespace Scribe

/-- What a writer does with bytes beyond its limit. -/
inductive Beyond where
  /-- Fail every time. -/
  | fail
  /-- Fail once and have no limit from then on. -/
  | failOnce
  /-- Take no byte and report no failure, every time. -/
  | takeNone
  deriving DecidableEq

/-- Whether a write that meets the limit ends. One that is interrupted is offered again, so it never
ends if it is interrupted every time. -/
def Beyond.ends (beyond : Beyond) (failure : WriteError) : Bool :=
  beyond != .fail || !failure.isInterruption

structure Writer where
  held : ByteArray := .empty
  /-- How many more bytes are taken, if there is a limit. -/
  room : Option Nat := none
  beyond : Beyond := .fail
  failure : WriteError := ⟨"BrokenPipe", "closed"⟩
  flushFails : Bool := false
  flushes : Nat := 0
  /-- Every write ends: where there is a limit, what happens beyond it does. -/
  ends : (room.isNone || beyond.ends failure) = true := by rfl

namespace Writer

/-- Offers all bytes. An empty offer never fails. An interruption is not a failure: what is left is
offered again, and as every write ends, the limit is gone by then. -/
def write (bytes : ByteArray) : EStateM WriteError Writer Unit
  | ⟨held, none, beyond, failure, flushFails, flushes, ends⟩ =>
    .ok () ⟨held ++ bytes, none, beyond, failure, flushFails, flushes, ends⟩
  | ⟨held, some room, beyond, failure, flushFails, flushes, ends⟩ =>
    if bytes.size ≤ room then
      .ok () ⟨held ++ bytes, some (room - bytes.size), beyond, failure, flushFails, flushes, ends⟩
    else
      let full : Writer :=
        ⟨held ++ bytes.extract 0 room, some 0, beyond, failure, flushFails, flushes, ends⟩
      match full.beyond with
      | .fail => .error failure full
      | .takeNone => .error .nothingAccepted full
      | .failOnce =>
        if failure.isInterruption then
          .ok () { full with held := held ++ bytes, room := none, ends := rfl }
        else .error failure { full with room := none, ends := rfl }

/-- Flushes are counted whether they succeed or not. -/
def flush : EStateM WriteError Writer Unit := fun w =>
  let w := { w with flushes := w.flushes + 1 }
  if w.flushFails then .error w.failure w else .ok () w

/-- The bytes taken after the first `n`. -/
def heldFrom (w : Writer) (n : Nat) : ByteArray := w.held.extract n w.held.size

end Writer

end Scribe
