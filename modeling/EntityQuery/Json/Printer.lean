-- SUMMARY: The text of JSON values, compact or with one member to a line.
import EntityQuery.Json.Basic
import EntityQuery.Decimal.Shortest

/-!
# JSON text

Strings escape the quotation mark, the backslash and the control characters
below the space, and nothing else. Doubles are written with their shortest
digits and are never mistaken for whole numbers: they have a fraction or an
exponent.
-/

namespace EntityQuery.Json

/-! ## Strings -/

/-- A character inside a JSON string. -/
def charText (c : Char) : Text :=
  if c = '"' then ['\\', '"']
  else if c = '\\' then ['\\', '\\']
  else if c = '\x08' then ['\\', 'b']
  else if c = '\t' then ['\\', 't']
  else if c = '\n' then ['\\', 'n']
  else if c = '\x0c' then ['\\', 'f']
  else if c = '\r' then ['\\', 'r']
  else if c.toNat < 0x20 then
    ['\\', 'u', '0', '0', Nat.digitChar (c.toNat / 16), Nat.digitChar (c.toNat % 16)]
  else [c]

/-- A JSON string with its quotation marks. -/
def stringText (s : Text) : Text :=
  '"' :: s.flatMap charText ++ ['"']

/-! ## Doubles -/

/-- Digits of a positive double. From `1e-5` up to below `1e16` they are written in place, with at
    least one digit after the point; beyond that with an exponent, which shows its sign. -/
def digitsText (d : Digits) : Text :=
  if 0 ≤ d.exponent ∧ d.exponent ≤ 15 then
    let count := d.exponent.toNat + 1
    let whole := d.digits.take count
    let fraction := d.digits.drop count
    whole ++ List.replicate (count - whole.length) '0' ++ '.' ::
      (if fraction.isEmpty then ['0'] else fraction)
  else if -5 ≤ d.exponent ∧ d.exponent < 0 then
    '0' :: '.' :: List.replicate (d.exponent.natAbs - 1) '0' ++ d.digits
  else
    let point := if d.digits.length ≤ 1 then [] else '.' :: d.digits.drop 1
    d.digits.take 1 ++ point ++ 'e' :: (if d.exponent < 0 then '-' else '+') ::
      Text.ofNat d.exponent.natAbs

/-- The text of a double. Doubles that are not finite have no JSON form and are written `null`. -/
def floatText (x : Float) : Text :=
  if x.isFinite then
    let bits := x.toBits
    let magnitude : UInt64 := bits &&& 0x7FFFFFFFFFFFFFFF
    let size := if magnitude = 0 then "0.0".toList else digitsText (Digits.shortest magnitude)
    if bits = magnitude then size else '-' :: size
  else "null".toList

/-! ## Values -/

/-- How values are laid out: all in one line, or one item or member to a line. -/
inductive Layout where
  | compact
  | lines
deriving DecidableEq, Repr

/-- What stands before an item at a depth of nesting: two spaces for every level, on a new line. -/
def Layout.break (layout : Layout) (depth : Nat) : Text :=
  match layout with
  | .compact => []
  | .lines => '\n' :: List.replicate (2 * depth) ' '

/-- What stands between the name and the value of a member. -/
def Layout.colon : Layout → Text
  | .compact => [':']
  | .lines => [':', ' ']

mutual

/-- The text of a value that stands at a depth of nesting. -/
def textAt (layout : Layout) (depth : Nat) : Json → Text
  | null => "null".toList
  | bool true => "true".toList
  | bool false => "false".toList
  | int n => Text.ofInt n
  | float x => floatText x
  | string s => stringText s
  | array [] => ['[', ']']
  | array (v :: items) =>
    '[' :: layout.break (depth + 1) ++ textAt layout (depth + 1) v ++
      moreItems layout (depth + 1) items ++ layout.break depth ++ [']']
  | object [] => ['{', '}']
  | object ((name, v) :: members) =>
    '{' :: layout.break (depth + 1) ++ stringText name ++ layout.colon ++
      textAt layout (depth + 1) v ++ moreMembers layout (depth + 1) members ++
      layout.break depth ++ ['}']

/-- The items after the first one, each after a comma. -/
def moreItems (layout : Layout) (depth : Nat) : List Json → Text
  | [] => []
  | v :: items =>
    ',' :: layout.break depth ++ textAt layout depth v ++ moreItems layout depth items

/-- The members after the first one, each after a comma. -/
def moreMembers (layout : Layout) (depth : Nat) : List (Text × Json) → Text
  | [] => []
  | (name, v) :: members =>
    ',' :: layout.break depth ++ stringText name ++ layout.colon ++ textAt layout depth v ++
      moreMembers layout depth members

end

/-- The text of a value in a layout. -/
def textIn (layout : Layout) (v : Json) : Text :=
  v.textAt layout 0

/-- The text of a value in one line without spaces. -/
def text (v : Json) : Text :=
  v.textIn .compact

example : floatText (Float.ofBits 0x7E37E43C8800759C) = "1e+300".toList := by decide +kernel

example : floatText (-0.0) = "-0.0".toList ∧ floatText 1e15 = "1000000000000000.0".toList ∧
    floatText 1e16 = "1e+16".toList ∧ floatText 1.5e-6 = "1.5e-6".toList := by decide +kernel

end EntityQuery.Json
