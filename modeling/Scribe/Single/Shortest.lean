import Scribe.Single.Basic

/-! The shortest decimal that rounds to a given single-precision number. Decimals lie on grids
`10 ^ (grid - 45)`; grid 0 is finer than the distance between any two singles, and grid 84 is
coarser than all of them. Grids are tried from the coarsest down. On each, only the two neighbours
of the number matter: if any grid point rounds to the number, so does one of these. -/

namespace Scribe

/-- `coefficient * 10 ^ grid`, counted in units of `10 ^ -45`. -/
structure Decimal where
  coefficient : Nat
  grid : Nat
  deriving DecidableEq

/-- What rounds to one number, in units of `2 ^ -151`. The ends belong to it when a tie goes to
the number. -/
structure Interval where
  low : Nat
  high : Nat
  closed : Bool

def Interval.holds (i : Interval) (d : Decimal) : Bool :=
  let x := d.coefficient * Nat.pow 10 d.grid * Nat.pow 2 151
  let low := i.low * Nat.pow 10 45
  let high := i.high * Nat.pow 10 45
  if i.closed then decide (low ≤ x) && decide (x ≤ high)
  else decide (low < x) && decide (x < high)

namespace Single

/-- Half the distance to the neighbour on either side. Below a power of two the neighbours are
twice as close, except at the bottom of the range. -/
def rounding (x : Single) : Interval where
  low := 4 * x.magnitude - (if x.fraction = 0 ∧ 1 < x.exponent then 1 else 2) * x.spacing
  high := 4 * x.magnitude + 2 * x.spacing
  closed := x.significand % 2 == 0

/-- The neighbour of `x` on a grid that rounds to `x`. Of two such neighbours it is the nearer one,
and the upper one when they are equally near. -/
def onGrid (x : Single) (grid : Nat) : Option Decimal :=
  let step := Nat.pow 10 grid * Nat.pow 2 149
  let value := x.magnitude * Nat.pow 10 45
  let below : Decimal := ⟨value / step, grid⟩
  let above : Decimal := ⟨value / step + 1, grid⟩
  match x.rounding.holds below, x.rounding.holds above with
  | true, true => some (if step ≤ 2 * (value % step) then above else below)
  | true, false => some below
  | false, true => some above
  | false, false => none

def shortestFrom (x : Single) : Nat → Decimal
  | 0 => (x.onGrid 0).getD ⟨0, 0⟩
  | grid + 1 => (x.onGrid (grid + 1)).getD (shortestFrom x grid)

/-- The decimal with the fewest digits that rounds to a finite non-zero `x`. -/
def shortest (x : Single) : Decimal := x.shortestFrom 84

end Single

end Scribe
