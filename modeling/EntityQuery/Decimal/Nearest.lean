-- SUMMARY: The double nearest to a decimal numeral.
import EntityQuery.Decimal.Numeral

/-!
# The nearest double

A numeral is read as the double nearest to the number that it denotes. A
number beyond the largest double gives an infinity, one too small for the
least double gives a zero, and both keep the sign of the numeral.
-/

namespace EntityQuery

/-- The double nearest to `n` times ten to the power `exponent`. Powers that are out of reach of
    the doubles are not computed. -/
def nearestDouble (n : Nat) (exponent : Int) : Float :=
  let magnitude := exponent + (Nat.toDigits 10 n).length
  if n = 0 ∨ magnitude < -330 then 0.0
  else if 310 < magnitude then Float.ofBits 0x7FF0000000000000
  else Float.ofScientific n (exponent < 0) exponent.natAbs

/-- The double nearest to the number that a numeral denotes. -/
def Numeral.nearest (n : Numeral) : Float :=
  let size := nearestDouble (Text.digitsValue (n.whole ++ n.fraction)) (n.exponent - n.fraction.length)
  if n.negative then -size else size

example : (nearestDouble 9007199254740993 0).toBits = 0x4340000000000000 := by decide +kernel

end EntityQuery
