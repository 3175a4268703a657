-- SUMMARY: Decimal numerals: the text of whole numbers, and the grammar of numerals with fraction and exponent.
import EntityQuery.Text.Basic

/-!
# Decimal numerals

Whole numbers are written without leading zeros. Read are plain digits with an
optional sign, within the range of the machine integer asked for, and the full
notation with a fraction and an exponent. Digits are those of ASCII.
-/

namespace EntityQuery

/-! ## Whole numbers -/

/-- The decimal text of a natural number. -/
def Text.ofNat (n : Nat) : Text :=
  Nat.toDigits 10 n

/-- The decimal text of an integer. -/
def Text.ofInt (n : Int) : Text :=
  if n < 0 then '-' :: Text.ofNat n.natAbs else Text.ofNat n.natAbs

/-- A non-empty run of digits. -/
def Text.isDigits (t : Text) : Bool :=
  !t.isEmpty && t.all Char.isDigit

/-- The number that digits denote. -/
def Text.digitsValue (t : Text) : Nat :=
  Nat.ofDigitChars 10 t 0

/-- A sign, if there is one, and what follows it. The flag tells whether it is a minus. -/
def Text.splitSign : Text → Bool × Text
  | '+' :: t => (false, t)
  | '-' :: t => (true, t)
  | t => (false, t)

@[simp] theorem Text.digitsValue_ofNat (n : Nat) : Text.digitsValue (Text.ofNat n) = n := by
  simp [Text.digitsValue, Text.ofNat, Nat.ofDigitChars_ten_toDigits]

theorem Text.isDigits_ofNat (n : Nat) : Text.isDigits (Text.ofNat n) = true := by
  simp only [Text.isDigits, Text.ofNat, Bool.and_eq_true, Bool.not_eq_true', List.isEmpty_eq_false_iff,
    List.all_eq_true]
  exact ⟨Nat.toDigits_ne_nil, fun c hc => Nat.isDigit_of_mem_toDigits (by decide) (by decide) hc⟩

/-- A 64-bit natural number: digits, with a plus sign allowed before them. -/
def Text.toUInt64? (t : Text) : Option UInt64 :=
  let digits := match t with
    | '+' :: rest => rest
    | _ => t
  if Text.isDigits digits ∧ Text.digitsValue digits < UInt64.size then
    some (Text.digitsValue digits).toUInt64
  else none

/-- A 64-bit integer: digits, with a sign allowed before them. -/
def Text.toInt64? (t : Text) : Option Int64 :=
  let (negative, digits) := Text.splitSign t
  let n : Int := if negative then -(Text.digitsValue digits : Int) else Text.digitsValue digits
  if Text.isDigits digits ∧ Int64.minValue.toInt ≤ n ∧ n ≤ Int64.maxValue.toInt then some (Int64.ofInt n)
  else none

/-! ## Numerals with fraction and exponent -/

/-- A number in decimal notation: `whole.fraction` times ten to the power `exponent`. -/
structure Numeral where
  negative : Bool
  whole : Text
  fraction : Text
  exponent : Int
deriving DecidableEq, Repr

/-- The exponent that ends a numeral; zero if the numeral ends before it. -/
def Numeral.readExponent? : Text → Option Int
  | [] => some 0
  | e :: t =>
    let (negative, digits) := Text.splitSign t
    if (e = 'e' ∨ e = 'E') ∧ Text.isDigits digits then
      some (if negative then -(Text.digitsValue digits : Int) else Text.digitsValue digits)
    else none

/-- A sign, digits with a point before, between or after them, and an exponent. Only the digits
    are required. -/
def Numeral.ofText? (t : Text) : Option Numeral := do
  let (negative, t) := Text.splitSign t
  let whole := t.takeWhile Char.isDigit
  let (fraction, tail) := match t.dropWhile Char.isDigit with
    | '.' :: rest => (rest.takeWhile Char.isDigit, rest.dropWhile Char.isDigit)
    | rest => ([], rest)
  if whole.isEmpty && fraction.isEmpty then none
  else do
    let exponent ← Numeral.readExponent? tail
    some ⟨negative, whole, fraction, exponent⟩

example : Numeral.ofText? "-.5e+3".toList = some ⟨true, [], ['5'], 3⟩ := by decide +kernel

example : Numeral.ofText? ".".toList = none ∧ Numeral.ofText? "1e".toList = none := by decide +kernel

end EntityQuery
