-- SUMMARY: Reading JSON text.
import EntityQuery.Json.Number

/-!
# Reading JSON

A JSON text is one value with blanks around it. Blanks are the space, the tab
and the two line ends. Values nest at most 127 deep. Of the members of an
object that have one name, the last counts.
-/

namespace EntityQuery.Json

/-- The blanks of JSON. -/
def isSpace (c : Char) : Bool :=
  c == ' ' || c == '\t' || c == '\n' || c == '\r'

/-- A text without the blanks at its start. -/
def skipSpace (t : Text) : Text :=
  t.dropWhile isSpace

/-! ## Strings -/

/-- The value of a hexadecimal digit. -/
def hexValue? (c : Char) : Option Nat :=
  if c.isDigit then some (c.toNat - '0'.toNat)
  else if 'a' ≤ c ∧ c ≤ 'f' then some (c.toNat - 'a'.toNat + 10)
  else if 'A' ≤ c ∧ c ≤ 'F' then some (c.toNat - 'A'.toNat + 10)
  else none

/-- Four hexadecimal digits and what follows them. -/
def readUnit? : Text → Option (Nat × Text)
  | a :: b :: c :: d :: rest => do
    let a ← hexValue? a
    let b ← hexValue? b
    let c ← hexValue? c
    let d ← hexValue? d
    some (((a * 16 + b) * 16 + c) * 16 + d, rest)
  | _ => none

/-- The character that an escape stands for, after its backslash, and what follows it. A character
    beyond the first plane is a pair of escapes, and half a pair is no character. -/
def readEscape? : Text → Option (Char × Text)
  | '"' :: rest => some ('"', rest)
  | '\\' :: rest => some ('\\', rest)
  | '/' :: rest => some ('/', rest)
  | 'b' :: rest => some ('\x08', rest)
  | 'f' :: rest => some ('\x0c', rest)
  | 'n' :: rest => some ('\n', rest)
  | 'r' :: rest => some ('\r', rest)
  | 't' :: rest => some ('\t', rest)
  | 'u' :: rest => do
    let (first, rest) ← readUnit? rest
    if 0xDC00 ≤ first ∧ first ≤ 0xDFFF then none
    else if 0xD800 ≤ first ∧ first ≤ 0xDBFF then
      match rest with
      | '\\' :: 'u' :: rest => do
        let (second, rest) ← readUnit? rest
        if 0xDC00 ≤ second ∧ second ≤ 0xDFFF then
          some (Char.ofNat (0x10000 + (first - 0xD800) * 0x400 + (second - 0xDC00)), rest)
        else none
      | _ => none
    else some (Char.ofNat first, rest)
  | _ => none

/-- The text of a string after its first quotation mark, and what follows the last one. Every step
    takes a character at least, so the length of the text is enough fuel. -/
def readStringBody? : Nat → Text → Option (Text × Text)
  | 0, _ => none
  | _ + 1, [] => none
  | fuel + 1, c :: rest =>
    if c = '"' then some ([], rest)
    else if c = '\\' then do
      let (c, rest) ← readEscape? rest
      let (s, rest) ← readStringBody? fuel rest
      some (c :: s, rest)
    else if c.toNat < 0x20 then none
    else do
      let (s, rest) ← readStringBody? fuel rest
      some (c :: s, rest)

/-- A string with its quotation marks, and what follows it. -/
def readString? : Text → Option (Text × Text)
  | '"' :: rest => readStringBody? rest.length rest
  | _ => none

/-! ## Numbers -/

/-- The digits at the start of a text, one at least, and what follows them. -/
def readDigits? (t : Text) : Option (Text × Text) :=
  let digits := t.takeWhile Char.isDigit
  if digits.isEmpty then none else some (digits, t.dropWhile Char.isDigit)

/-- The digits before the point: a zero alone, or digits that do not start with one. -/
def readWhole? (t : Text) : Option (Text × Text) := do
  let (digits, rest) ← readDigits? t
  if digits.head? = some '0' ∧ digits ≠ ['0'] then none else some (digits, rest)

/-- The digits after the point, if there is a point. -/
def readFraction? : Text → Option (Option Text × Text)
  | '.' :: rest => (readDigits? rest).map fun (digits, rest) => (some digits, rest)
  | t => some (none, t)

/-- The exponent, if there is one. -/
def readExponent? : Text → Option (Option Int × Text)
  | [] => some (none, [])
  | e :: rest =>
    if e = 'e' ∨ e = 'E' then
      let (negative, rest) := Text.splitSign rest
      (readDigits? rest).map fun (digits, rest) =>
        (some (if negative then -(Text.digitsValue digits : Int) else Text.digitsValue digits), rest)
    else some (none, e :: rest)

/-- A number and what follows it. -/
def readNumber? (t : Text) : Option (Json × Text) := do
  let (negative, t) := match t with
    | '-' :: rest => (true, rest)
    | _ => (false, t)
  let (whole, t) ← readWhole? t
  let (fraction, t) ← readFraction? t
  let (exponent, t) ← readExponent? t
  let value ← NumberParts.value? ⟨negative, whole, fraction, exponent⟩
  some (value, t)

/-! ## Values -/

/-- The value of a word, and what follows the word. -/
def readWord? (word : Text) (value : Json) (t : Text) : Option (Json × Text) :=
  if word.isPrefixOf t then some (value, t.drop word.length) else none

mutual

/-- A value at the start of a text, and what follows it, for values that nest at most as deep as
    the depth says. -/
def readValue? : (fuel depth : Nat) → Text → Option (Json × Text)
  | 0, _, _ => none
  | fuel + 1, depth, t =>
    match skipSpace t with
    | 'n' :: rest => readWord? "ull".toList null rest
    | 't' :: rest => readWord? "rue".toList (bool true) rest
    | 'f' :: rest => readWord? "alse".toList (bool false) rest
    | '"' :: rest => (readString? ('"' :: rest)).map fun (s, rest) => (string s, rest)
    | '[' :: rest =>
      if depth = 0 then none
      else match skipSpace rest with
        | ']' :: rest => some (array [], rest)
        | rest => (readItems? fuel (depth - 1) rest).map fun (items, rest) => (array items, rest)
    | '{' :: rest =>
      if depth = 0 then none
      else match skipSpace rest with
        | '}' :: rest => some (object [], rest)
        | rest => (readMembers? fuel (depth - 1) rest).map fun (members, rest) =>
            (object (Keyed.ofList members), rest)
    | rest => readNumber? rest

/-- The items of an array, and what follows its closing bracket. -/
def readItems? : (fuel depth : Nat) → Text → Option (List Json × Text)
  | 0, _, _ => none
  | fuel + 1, depth, t => do
    let (v, rest) ← readValue? fuel depth t
    match skipSpace rest with
    | ',' :: rest => (readItems? fuel depth rest).map fun (items, rest) => (v :: items, rest)
    | ']' :: rest => some ([v], rest)
    | _ => none

/-- The members of an object, and what follows its closing brace. -/
def readMembers? : (fuel depth : Nat) → Text → Option (List (Text × Json) × Text)
  | 0, _, _ => none
  | fuel + 1, depth, t => do
    let (name, rest) ← readString? (skipSpace t)
    match skipSpace rest with
    | ':' :: rest => do
      let (v, rest) ← readValue? fuel depth rest
      match skipSpace rest with
      | ',' :: rest =>
        (readMembers? fuel depth rest).map fun (members, rest) => ((name, v) :: members, rest)
      | '}' :: rest => some ([(name, v)], rest)
      | _ => none
    | _ => none

end

/-- The value of a JSON text. Every level of nesting and every item takes a character of the text,
    so twice its length is enough fuel. -/
def ofText? (t : Text) : Option Json := do
  let (v, rest) ← readValue? (2 * t.length + 2) 127 t
  if (skipSpace rest).isEmpty then some v else none

end EntityQuery.Json
