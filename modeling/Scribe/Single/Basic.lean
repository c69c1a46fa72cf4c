/-! Single-precision numbers, held as their 32-bit pattern: one sign bit, eight exponent bits,
twenty-three fraction bits. A finite number is a whole multiple of `2 ^ -149`; that multiple is its
`magnitude`, so everything about finite numbers is said in natural numbers. -/

namespace Scribe

structure Single where
  bits : UInt32
  deriving DecidableEq

namespace Single

/-- The sign bit, which zeros and not-a-number patterns carry too. -/
def negative (x : Single) : Bool := 0x80000000 ≤ x.bits.toNat

def exponent (x : Single) : Nat := x.bits.toNat / 0x800000 % 0x100

def fraction (x : Single) : Nat := x.bits.toNat % 0x800000

def isNaN (x : Single) : Bool := x.exponent == 255 && x.fraction != 0

def isInfinite (x : Single) : Bool := x.exponent == 255 && x.fraction == 0

def isZero (x : Single) : Bool := x.exponent == 0 && x.fraction == 0

/-- The fraction with the leading bit that all but the smallest exponent imply. -/
def significand (x : Single) : Nat :=
  if x.exponent = 0 then x.fraction else 0x800000 + x.fraction

/-- The distance between neighbours of this size, in units of `2 ^ -149`. The two smallest
exponents share it. -/
def spacing (x : Single) : Nat := Nat.pow 2 (x.exponent - 1)

/-- The absolute value of a finite number, in units of `2 ^ -149`. -/
def magnitude (x : Single) : Nat := x.significand * x.spacing

/-- Numeric equality: the two zeros are equal and not-a-number equals nothing. -/
def same (x y : Single) : Bool :=
  !x.isNaN && !y.isNaN && (x.bits == y.bits || (x.isZero && y.isZero))

end Single

end Scribe
