-- SUMMARY: Keywords read at the start of a text, without regard to case.
import EntityQuery.Text.Blank
import EntityQuery.Text.Word

/-!
# Keywords

Keywords are ASCII words, and a statement may write them in any case. Case is
folded as Unicode does it character by character: besides the capital letter,
the long s stands for `s` and the Kelvin sign for `k`.
-/

namespace EntityQuery

/-- The lower-case letter that a character stands for in a keyword. -/
def foldCase (c : Char) : Char :=
  if c = '\u017f' then 's' else if c = '\u212a' then 'k' else c.toLower

/-- What follows a keyword, given in lower case, that starts the text. -/
def Text.afterKeyword? : Text → Text → Option Text
  | [], t => some t
  | k :: keyword, c :: t => if foldCase c = k then Text.afterKeyword? keyword t else none
  | _ :: _, [] => none

/-- What follows keywords with blanks between them. -/
def Text.afterPhrase? : List Text → Text → Option Text
  | [], t => some t
  | [keyword], t => Text.afterKeyword? keyword t
  | keyword :: more, t => do
    let rest ← Text.afterKeyword? keyword t
    let rest ← rest.afterBlanks?
    Text.afterPhrase? more rest

/-- A text whose first character, if there is one, belongs to a word. -/
def Text.startsInWord : Text → Bool
  | [] => false
  | c :: _ => isWordChar c

example : Text.afterKeyword? "like".toList "LI\u212aE 'x'".toList = some " 'x'".toList := by decide

end EntityQuery
