-- SUMMARY: Values of columns: their JSON form, and the typing of literals.
import EntityQuery.Json.Printer
import EntityQuery.Decimal.Nearest
import EntityQuery.Text.Blank

/-!
# Values

A column takes a scalar. Whole numbers that fit 64 bits are kept apart from
doubles. A literal is typed by its form alone: quotes make it a string, decimal
notation a number, one of three words a boolean or null, and everything else
is a string as it is written.
-/

namespace EntityQuery

/-- The value of a column. -/
inductive Value where
  | null
  | boolean (b : Bool)
  | integer (n : Int64)
  | float (x : Float)
  | string (s : Text)
deriving DecidableEq

namespace Value

/-- The name of the JSON type of a value. -/
def typeName : Value → Text
  | null => "null".toList
  | boolean _ => "boolean".toList
  | integer _ => "number".toList
  | float _ => "number".toList
  | string _ => "string".toList

/-- The JSON form of a value. A double that is not finite has none and becomes null. -/
def toJson : Value → Json
  | null => .null
  | boolean b => .bool b
  | integer n => .int n.toInt
  | float x => if x.isFinite then .float x else .null
  | string s => .string s

/-! ## Literals -/

/-- The text between the quotes of a literal. There may be quotes in it too. -/
def unquote? : Text → Option Text
  | '\'' :: t => if t.getLast? = some '\'' then some t.dropLast else none
  | _ => none

/-- The number that a literal denotes: an integer if it is one that fits 64 bits, and otherwise a
    double if that is finite. -/
def ofNumeral? (t : Text) : Option Value :=
  match Text.toInt64? t, Numeral.ofText? t with
  | some n, _ => some (integer n)
  | none, some n => if n.nearest.isFinite then some (float n.nearest) else none
  | none, none => none

/-- The value that one of the three words stands for, in any case. -/
def ofWord? (t : Text) : Option Value :=
  if t.sameWord "true".toList then some (boolean true)
  else if t.sameWord "false".toList then some (boolean false)
  else if t.sameWord "null".toList then some null
  else none

/-- The value that a literal denotes. -/
def ofLiteral (t : Text) : Value :=
  let t := t.trim
  match unquote? t with
  | some s => string s
  | none => ((ofNumeral? t) <|> (ofWord? t)).getD (string t)

example : ofLiteral " '42' ".toList = string "42".toList ∧ ofLiteral "'".toList = string ['\''] := by
  decide +kernel

example : ofLiteral "-9223372036854775808".toList = integer (-9223372036854775808) ∧
    ofLiteral "1e3".toList = float 1000.0 ∧ ofLiteral "1e999".toList = string "1e999".toList := by
  decide +kernel

example : ofLiteral "False".toList = boolean false ∧ ofLiteral "NaN".toList = string "NaN".toList := by
  decide +kernel

end Value

end EntityQuery
