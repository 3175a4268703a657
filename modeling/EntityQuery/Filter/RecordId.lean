-- SUMMARY: Filters that name one record by its id.
import EntityQuery.Text.Keyword

/-!
# Record ids

A filter names one record if it is a single comparison of an id field with a
literal: a word that ends in `id` and has more to it than that, `eq`, and the
literal, with blanks between them. The id is the literal without braces,
trimmed, and must not be empty.
-/

namespace EntityQuery.Filter

/-- Whether a word ends in `id`, in any case, after one character at least. -/
def isIdField (word : Text) : Bool :=
  match word.reverse with
  | d :: i :: _ :: _ => foldCase d == 'd' && foldCase i == 'i'
  | _ => false

/-- The content of the literal that a filter compares its id field with, if that is all of the
    filter. -/
def idLiteral? (filter : Text) : Option Text := do
  let t := filter.trimStart
  let field : Text := t.takeWhile isWordChar
  if isIdField field then do
    let t ← Text.afterBlanks? (t.dropWhile isWordChar)
    let t ← Text.afterKeyword? "eq".toList t
    match ← t.afterBlanks? with
    | '\'' :: t =>
      match t.dropWhile (· != '\'') with
      | _ :: rest => if Text.isBlank rest then some (t.takeWhile (· != '\'')) else none
      | [] => none
    | _ => none
  else none

/-- A text without braces. -/
def withoutBraces (t : Text) : Text :=
  t.filter fun c => c != '{' && c != '}'

/-- The id of the record that a filter names. -/
def recordId? (filter : Text) : Option Text := do
  let content ← idLiteral? filter
  let id := (withoutBraces content).trim
  if id.isEmpty then none else some id

example : recordId? " accountid EQ '\x7b12\x7d' ".toList = some "12".toList ∧
    recordId? "id eq '1'".toList = none ∧ recordId? "aid eq '1' or bid eq '2'".toList = none := by
  decide +kernel

end EntityQuery.Filter
