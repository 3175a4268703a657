-- SUMMARY: The shortest decimal digits that read back as a double.
import EntityQuery.Decimal.Numeral

/-!
# Shortest decimal digits

A positive double stands for an interval of reals: those that round to it. Its
shortest digits are the fewest significant digits of a decimal in the
interval, and of the decimals with so many digits they are the nearest one.
All steps are exact computations with natural numbers.
-/

namespace EntityQuery

/-- A positive decimal: its significant digits, and the power of ten of the first one. -/
structure Digits where
  digits : Text
  exponent : Int
deriving DecidableEq, Repr

/-- The interval of a positive double: a value, with the ends of the interval around it, all in
    units of `1 / unit`. The ends belong to it if `closed`. -/
structure Interval where
  low : Nat
  value : Nat
  high : Nat
  unit : Nat
  closed : Bool
deriving DecidableEq, Repr

/-- The interval of the positive finite double with these bits. Next to a power of two the
    neighbour below is nearer than the one above. -/
def Interval.ofBits (bits : UInt64) : Interval :=
  let field := bits.toNat / 0x10000000000000 % 0x800
  let stored := bits.toNat % 0x10000000000000
  let mantissa := if field = 0 then stored else stored + 0x10000000000000
  let power : Int := (max field 1 : Nat) - 1077
  let below := if stored = 0 ∧ 1 < field then 1 else 2
  let scale := Nat.pow 2 power.toNat
  ⟨(4 * mantissa - below) * scale, 4 * mantissa * scale, (4 * mantissa + 2) * scale,
    Nat.pow 2 (-power).toNat, mantissa % 2 = 0⟩

/-- Whether the real `n / d` lies in the interval. -/
def Interval.covers (i : Interval) (n d : Nat) : Bool :=
  if i.closed then i.low * d ≤ n * i.unit && n * i.unit ≤ i.high * d
  else i.low * d < n * i.unit && n * i.unit < i.high * d

/-- The power of ten of the first significant digit of the value. -/
def Interval.leading (i : Interval) : Int :=
  if i.unit ≤ i.value then (Nat.toDigits 10 (i.value / i.unit)).length - 1
  else -(Nat.toDigits 10 ((i.unit - 1) / i.value)).length

/-- The nearest multiple of ten to the power `grid` that lies in the interval, as a number of such
    steps. Of two that are equally near, the even one. -/
def Interval.onGrid? (i : Interval) (grid : Int) : Option Nat :=
  let up := Nat.pow 10 grid.toNat
  let down := Nat.pow 10 (-grid).toNat
  let steps := i.value * down / (i.unit * up)
  let twice := 2 * i.value * down
  let middle := (2 * steps + 1) * (i.unit * up)
  let nearer := if twice < middle ∨ (twice = middle ∧ steps % 2 = 0) then steps else steps + 1
  let other := if nearer = steps then steps + 1 else steps
  if i.covers (nearer * up) down then some nearer
  else if i.covers (other * up) down then some other
  else none

/-- A decimal from a number of steps on a grid; zeros at its end are no significant digits. -/
def Digits.ofGrid (steps : Nat) (grid : Int) : Digits :=
  let digits := Nat.toDigits 10 steps
  ⟨(digits.reverse.dropWhile (· == '0')).reverse, grid + digits.length - 1⟩

/-- The shortest digits of the positive finite double with these bits. Seventeen digits always
    suffice. -/
def Digits.shortest (bits : UInt64) : Digits :=
  let i := Interval.ofBits bits
  let onCount (count : Nat) : Option Digits :=
    let grid := i.leading - count
    (i.onGrid? grid).map (Digits.ofGrid · grid)
  ((List.range 17).findSome? onCount).getD ⟨['0'], 0⟩

example : Digits.shortest 1 = ⟨['5'], -324⟩ := by decide +kernel

example : Digits.shortest (0.1 + 0.2 : Float).toBits = ⟨"30000000000000004".toList, -1⟩ := by
  decide +kernel

end EntityQuery
