-- SUMMARY: Why a statement is refused, and the words in which it is said.
import EntityQuery.Query
import EntityQuery.Token

/-!
# Errors in statements

A statement is refused because there is none, because of its operation, because
of a fault in one of its parts, because of an unterminated literal, or because
it lacks a filter that was asked for. Every error but the first carries the
statement as it was read.
-/

namespace EntityQuery

/-- A fault in a part of a statement. -/
inductive Statement.Fault where
  | shape
  | missingEntity
  | emptyField
  | wildcardNotAlone
  | emptyOrderItem
  | longOrderItem (item : Text)
  | badLimit (limit : Text)
  | emptyColumn
  | emptyValue
  | unevenLists (columns values : Nat)
  | noValues
  | noAssignment (item : Text)
  | missingColumn (item : Text)
  | missingValue (column : Text)
  | noAssignments
deriving DecidableEq, Repr

/-- The shape of the statement of an operation, as users are told it. -/
def Operation.usage : Operation → Text
  | .select => "expected SELECT <fields> FROM <entity> [WHERE ..] [ORDER BY ..] [LIMIT n]".toList
  | .insert => "expected INSERT INTO <entity> (<columns>) VALUES (<values>)".toList
  | .update => "expected UPDATE <entity> SET <column> = <value>[, ..] [WHERE ..]".toList
  | .delete => "expected DELETE FROM <entity> [WHERE ..]".toList

/-- What is wrong with the statement of an operation. -/
def Statement.Fault.reason (op : Operation) : Statement.Fault → Text
  | shape => op.usage
  | missingEntity => "missing entity name".toList
  | emptyField => "empty field name in select list".toList
  | wildcardNotAlone => "'*' cannot be combined with other fields".toList
  | emptyOrderItem => "empty ORDER BY item".toList
  | longOrderItem item => "expected <field> [ASC|DESC] in ORDER BY, got ".toList ++ Text.quoted item
  | badLimit limit => "LIMIT must be a non-negative integer, got ".toList ++ Text.quoted limit
  | emptyColumn => "empty column name".toList
  | emptyValue => "empty value in VALUES list".toList
  | unevenLists columns values =>
    Nat.toDigits 10 columns ++ " columns but ".toList ++ Nat.toDigits 10 values ++ " values".toList
  | noValues => "no values to insert".toList
  | noAssignment item => "expected <column> = <value>, got ".toList ++ Text.quoted item
  | missingColumn item => "missing column name in ".toList ++ Text.quoted item
  | missingValue column => "missing value for column ".toList ++ Text.quoted column
  | noAssignments => "no assignments in SET clause".toList

/-- Why a statement is refused. -/
inductive Statement.Error where
  | empty
  | unsupported (keyword statement : Text)
  | invalid (operation : Operation) (statement : Text) (fault : Statement.Fault)
  | missingFilter (operation : Operation) (statement : Text)
  | lexical (statement : Text) (cause : Lexer.Error)
deriving DecidableEq, Repr

namespace Statement.Error

/-- The statement that was refused. -/
def statement? : Statement.Error → Option Text
  | empty => none
  | unsupported _ statement => some statement
  | invalid _ statement _ => some statement
  | missingFilter _ statement => some statement
  | lexical statement _ => some statement

/-- The message of an error. -/
def message : Statement.Error → Text
  | empty => "Empty statement".toList
  | unsupported keyword statement =>
    "Unsupported operation ".toList ++ Text.quoted keyword ++
      " (expected SELECT, INSERT, UPDATE or DELETE): ".toList ++ statement
  | invalid operation statement fault =>
    "Invalid ".toList ++ operation.word ++ " syntax: ".toList ++ fault.reason operation ++
      ": ".toList ++ statement
  | missingFilter operation statement =>
    operation.word ++ " requires a WHERE clause: ".toList ++ statement
  | lexical statement cause =>
    "Lexical error: ".toList ++ cause.message ++ ": ".toList ++ statement

end Statement.Error

end EntityQuery
