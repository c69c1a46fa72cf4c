/-! Digits of natural numbers, most significant first: as many as needed in base ten, or a fixed
number of them in a base up to sixteen. -/

namespace Scribe

/-- The character of a digit below sixteen. Letters are upper case. -/
def digitChar (d : Nat) : Char :=
  Char.ofNat (if d < 10 then 48 + d else 55 + d)

/-- Base ten without leading zeros; zero itself has one digit. -/
def decimalDigits (n : Nat) : List Char :=
  if n < 10 then [digitChar n] else decimalDigits (n / 10) ++ [digitChar (n % 10)]
termination_by n

/-- The last `width` digits of `n`, with zeros in front when `n` has fewer. -/
def fixedDigits (base : Nat) : (width n : Nat) → List Char
  | 0, _ => []
  | width + 1, n => fixedDigits base width (n / base) ++ [digitChar (n % base)]

def decimal (n : Nat) : String := String.ofList (decimalDigits n)

@[simp] theorem length_fixedDigits (base width n : Nat) :
    (fixedDigits base width n).length = width := by
  induction width generalizing n with
  | zero => rfl
  | succ width ih => simp [fixedDigits, ih]

theorem decimalDigits_ne_nil (n : Nat) : decimalDigits n ≠ [] := by
  rw [decimalDigits]
  split <;> simp

end Scribe
