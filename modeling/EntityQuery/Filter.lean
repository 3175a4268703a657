-- SUMMARY: Filters: the operators of a condition, outside of literals, in the words of OData.
import EntityQuery.Token
import EntityQuery.Text.Keyword

/-!
# Filters

The condition of a statement becomes the filter of a request by replacing its
operators one by one; nothing is parsed. A literal and a comma are kept as they
are. In the text between them every operator becomes its OData word with a
space on both sides, and every run of blanks becomes one space.

The words `AND`, `OR`, `LIKE`, `IS NULL` and `IS NOT NULL` count only where a
word starts and ends, in any case. Of the operators that can be read at one
place the longest one is read.
-/

namespace EntityQuery

/-! ## Operators -/

/-- An operator of a condition. -/
inductive Operator where
  | isNotNull
  | isNull
  | and
  | or
  | like
  | notEqual
  | greaterOrEqual
  | lessOrEqual
  | equal
  | greater
  | less
deriving DecidableEq, Repr

namespace Operator

/-- The word that stands for an operator in a filter. -/
def word : Operator → Text
  | isNotNull => "ne null".toList
  | isNull => "eq null".toList
  | and => "and".toList
  | or => "or".toList
  | like => "contains".toList
  | notEqual => "ne".toList
  | greaterOrEqual => "ge".toList
  | lessOrEqual => "le".toList
  | equal => "eq".toList
  | greater => "gt".toList
  | less => "lt".toList

/-- The operators that are written in words, each with its words. -/
def phrases : List (Operator × List Text) := [
  (isNotNull, ["is".toList, "not".toList, "null".toList]),
  (isNull, ["is".toList, "null".toList]),
  (and, ["and".toList]),
  (or, ["or".toList]),
  (like, ["like".toList])]

/-- The operator in words at the start of a text, and what follows it. Its last word must end
    there. -/
def readPhrase? (t : Text) : Option (Operator × Text) :=
  phrases.findSome? fun (op, words) =>
    match Text.afterPhrase? words t with
    | some rest => if rest.startsInWord then none else some (op, rest)
    | none => none

/-- The operator in signs at the start of a text, and what follows it. -/
def readSigns? : Text → Option (Operator × Text)
  | '<' :: '>' :: rest => some (notEqual, rest)
  | '!' :: '=' :: rest => some (notEqual, rest)
  | '>' :: '=' :: rest => some (greaterOrEqual, rest)
  | '<' :: '=' :: rest => some (lessOrEqual, rest)
  | '=' :: rest => some (equal, rest)
  | '>' :: rest => some (greater, rest)
  | '<' :: rest => some (less, rest)
  | _ => none

/-- The operator at the start of a text, and what follows it. In the middle of a word no operator
    in words is read. -/
def read? (inWord : Bool) (t : Text) : Option (Operator × Text) :=
  (if inWord then none else readPhrase? t) <|> readSigns? t

end Operator

/-! ## Filters -/

namespace Filter

/-- A run of text with its operators replaced. Characters that belong to an operator already
    replaced are skipped; the flag tells whether the character before belongs to a word. -/
def replaceFrom (inWord : Bool) (skip : Nat) : Text → Text
  | [] => []
  | c :: t =>
    match skip with
    | n + 1 => replaceFrom (isWordChar c) n t
    | 0 =>
      match Operator.read? inWord (c :: t) with
      | some (op, rest) =>
        ' ' :: op.word ++ ' ' :: replaceFrom (isWordChar c) (t.length - rest.length) t
      | none => c :: replaceFrom (isWordChar c) 0 t

/-- A run of text with its operators replaced and its blanks collapsed. -/
def ofRun (t : Text) : Text :=
  (replaceFrom false 0 t).collapse

/-- A token in a filter: only runs of text change. -/
def ofToken : Token → Text
  | .run t => ofRun t
  | token => token.source

/-- The filter that a condition becomes. With an unterminated literal the condition cannot be cut
    into tokens and is taken as one run of text. -/
def ofCondition (condition : Text) : Text :=
  match tokenize condition with
  | .ok tokens => Text.trim (tokens.flatMap ofToken)
  | .error _ => Text.trim (ofRun condition)

example : ofCondition "age>=18 AND\tname LIKE 'a AND b'".toList =
    "age ge 18 and name contains 'a AND b'".toList := by decide +kernel

example : ofCondition "brand = 1 OR x is  not NULL".toList =
    "brand eq 1 or x ne null".toList := by decide +kernel

end Filter

end EntityQuery
