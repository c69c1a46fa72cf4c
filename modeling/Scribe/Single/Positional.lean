import Scribe.Digits
import Scribe.Single.Shortest

/-! Positional text of single-precision numbers: never an exponent, never a point without digits
on both sides. -/

namespace Scribe

/-- All digits of a decimal, with a point only where a fraction remains. -/
def Decimal.positional (d : Decimal) : List Char :=
  let digits := decimalDigits d.coefficient
  if 45 ≤ d.grid then
    digits ++ List.replicate (d.grid - 45) '0'
  else
    let places := 45 - d.grid
    let padded := List.replicate (places + 1 - digits.length) '0' ++ digits
    padded.take (padded.length - places) ++ '.' :: padded.drop (padded.length - places)

namespace Single

def magnitudeText (x : Single) : List Char :=
  if x.isInfinite then ['i', 'n', 'f']
  else if x.isZero then ['0']
  else x.shortest.positional

/-- The sign is written for zero and infinity too, but never for not-a-number. -/
def text (x : Single) : List Char :=
  if x.isNaN then ['N', 'a', 'N']
  else if x.negative then '-' :: x.magnitudeText
  else x.magnitudeText

end Single

end Scribe
