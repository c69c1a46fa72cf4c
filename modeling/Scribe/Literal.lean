import Scribe.Digits
import Scribe.Single.Positional

/-! Source text of literal values. Numbers that look like bit flags are written in hexadecimal so
that they stay recognisable. -/

namespace Scribe.Literal

def bool (b : Bool) : String := if b then "true" else "false"

/-- A power of two that is a multiple of sixteen. -/
def isFlag (v : UInt32) : Bool := v != 0 && v &&& (v - 1) == 0 && v &&& 0xF == 0

/-- Two digits hold a byte and four a non-negative signed short; all else takes eight. -/
def hexWidth (v : UInt32) : Nat :=
  if v ≤ 0xFF then 2 else if v ≤ 0x7FFF then 4 else 8

def hexadecimal (v : UInt32) : String :=
  "0x" ++ String.ofList (fixedDigits 16 (hexWidth v) v.toNat)

def unsigned (v : UInt32) : String :=
  if isFlag v then hexadecimal v else decimal v.toNat

/-- Negative numbers are always decimal, also the one whose pattern is a flag. -/
def signed (v : Int32) : String :=
  if 0 ≤ v then unsigned v.toUInt32 else "-" ++ decimal v.toInt.natAbs

def single (x : Single) : String := String.ofList (x.text ++ ['f'])

/-- The content is taken as it should stand between the quotes; nothing is escaped. -/
def quoted (content : String) : String := "\"" ++ content ++ "\""

end Scribe.Literal
