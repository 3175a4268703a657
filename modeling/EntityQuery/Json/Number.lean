-- SUMMARY: The value of a JSON number: a 64-bit whole number, or a double.
import EntityQuery.Json.Basic
import EntityQuery.Decimal.Numeral

/-!
# JSON numbers

A number without fraction and exponent is a whole number if it fits 64 bits,
signed or unsigned; minus zero and all larger numbers are doubles. The value
of a double is computed from a significand of 64 bits: the longest start of
its digits that fits. That is one rounding to a double, and then one
multiplication or division by a power of ten, so the last bit may differ from
the double nearest to the number.
-/

namespace EntityQuery.Json

/-- The longest start of the digits that keeps a significand below `2 ^ 64`, and the digits left. -/
def takeSignificand (significand : Nat) : Text → Nat × Text
  | [] => (significand, [])
  | d :: digits =>
    let longer := 10 * significand + (d.toNat - '0'.toNat)
    if longer < UInt64.size then takeSignificand longer digits else (significand, d :: digits)

/-- The double nearest to a power of ten. -/
def powerOfTen (exponent : Nat) : Float :=
  Float.ofScientific 1 false exponent

/-- A double divided by a power of ten, by at most `1e308` at a time. -/
def dividedBy (x : Float) (exponent : Nat) : Float :=
  if exponent ≤ 308 then x / powerOfTen exponent
  else if x == 0.0 then x
  else dividedBy (x / powerOfTen 308) (exponent - 308)
termination_by exponent

/-- A significand times a power of ten; none if it exceeds the doubles. -/
def scaled? (significand : Nat) (exponent : Int) : Option Float :=
  let x := significand.toUInt64.toFloat
  if exponent < 0 then some (dividedBy x exponent.natAbs)
  else if exponent ≤ 308 then
    let y := x * powerOfTen exponent.natAbs
    if y.isInf then none else some y
  else if x == 0.0 then some x
  else none

/-- A number in its parts: the digits before the point, those after it, and the exponent. A part
    that is not written is absent. -/
structure NumberParts where
  negative : Bool
  whole : Text
  fraction : Option Text
  exponent : Option Int
deriving DecidableEq, Repr

/-- A double with the sign of a number. -/
def NumberParts.signed (n : NumberParts) (x : Float) : Json :=
  float (if n.negative then -x else x)

/-- A number as a double; none if it exceeds the doubles. An exponent beyond 32 bits stands for
    zero or for a number that exceeds them. -/
def NumberParts.double? (n : NumberParts) : Option Json :=
  let (significand, dropped) := takeSignificand 0 n.whole
  let fraction := n.fraction.getD []
  let (significand, unread) := takeSignificand significand fraction
  let exponent := n.exponent.getD 0
  if exponent.natAbs < 0x80000000 then
    let shift : Int := dropped.length - (fraction.length - unread.length : Nat)
    (scaled? significand (shift + exponent)).map n.signed
  else if significand = 0 ∨ exponent < 0 then some (n.signed 0.0)
  else none

/-- The value of a number; none if it exceeds the doubles. -/
def NumberParts.value? (n : NumberParts) : Option Json :=
  match n.fraction, n.exponent, takeSignificand 0 n.whole with
  | none, none, (size, []) =>
    if !n.negative then some (int size)
    else if size = 0 ∨ 0x8000000000000000 < size then some (n.signed size.toUInt64.toFloat)
    else some (int (-size))
  | _, _, _ => n.double?

end EntityQuery.Json
