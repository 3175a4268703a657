-- SUMMARY: The shapes of the four statements: which clauses stand where.
import EntityQuery.Statement.Clause

/-!
# Shapes of statements

A shape says which keywords, names and bodies a statement consists of. It is
matched against the statement with its literals masked, from the first
character to the semicolon at the end, so nothing inside of a literal is ever
taken for a keyword, a bracket or the end.

    SELECT fields FROM entity [WHERE filter] [ORDER BY order] [LIMIT limit] ;
    INSERT [INTO] entity ( columns ) VALUES ( values ) ;
    UPDATE entity SET assignments [WHERE filter] ;
    DELETE [FROM] entity [WHERE filter] ;
-/

namespace EntityQuery.Statement

/-! ## Keywords -/

/-- A keyword that may be absent, with blanks after it, and then `k`. The keyword is taken for one
    if `k` succeeds after it; otherwise `k` starts where the keyword would. -/
def readNoise {α : Type} (keyword : Text) (k : Text → Option α) (t : Text) : Option α :=
  (do
    let t ← Text.afterKeyword? keyword t
    let t ← t.afterBlanks?
    k t) <|> k t

/-- A keyword with blanks after it. -/
def afterLeading? (keyword : Text) (t : Text) : Option Text := do
  let t ← Text.afterKeyword? keyword t
  t.afterBlanks?

/-! ## SELECT -/

/-- The parts of a SELECT statement. -/
structure SelectShape where
  fields : Extent
  entity : Extent
  filter : Option Extent
  order : Option Extent
  limit : Option Extent
deriving DecidableEq, Repr

/-- The limit, which has no blank in it, and the end. -/
def readLimit (t : Text) : Option Extent := do
  let t ← t.afterBlanks?
  let t ← Text.afterKeyword? "limit".toList t
  let start ← t.afterBlanks?
  let stop ← readLongest (!isBlank ·) (fun t => (readEnd t).map fun _ => t) start
  some ⟨start, stop⟩

/-- The limit if there is one, and the end. -/
def readLimitAndEnd (t : Text) : Option (Option Extent) :=
  (readLimit t).map some <|> (readEnd t).map fun _ => none

/-- What follows the name of the entity in a SELECT statement. -/
def readSelectClauses (t : Text) : Option (Option Extent × Option Extent × Option Extent) :=
  readOptional ["where".toList] (readOptional ["order".toList, "by".toList] readLimitAndEnd) t

/-- What follows the fields in a SELECT statement. -/
def readSource (t : Text) : Option (Extent × Option Extent × Option Extent × Option Extent) := do
  let t ← t.afterBlanks?
  let t ← afterLeading? "from".toList t
  let (entity, t) ← readName t
  let clauses ← readSelectClauses t
  some (entity, clauses)

/-- The parts of a SELECT statement. -/
def SelectShape.ofText? (t : Text) : Option SelectShape := do
  let t ← Text.afterKeyword? "select".toList t
  let (fields, entity, filter, order, limit) ← readBody readSource t
  some ⟨fields, entity, filter, order, limit⟩

/-! ## INSERT -/

/-- The parts of an INSERT statement. -/
structure InsertShape where
  entity : Extent
  columns : Extent
  values : Extent
deriving DecidableEq, Repr

/-- A bracket, after blanks, and what follows it. -/
def afterBracket? (bracket : Char) (t : Text) : Option Text :=
  match t.trimStart with
  | c :: t => if c = bracket then some t else none
  | [] => none

/-- The closing bracket of the values and the end. -/
def readValuesEnd : Text → Option Unit
  | ')' :: t => readEnd t
  | _ => none

/-- The parts of an INSERT statement from the name of the entity on. The columns end at the first
    closing bracket, and the values at the last one. -/
def readInsertion (t : Text) : Option InsertShape := do
  let (entity, t) ← readName t
  let columns ← afterBracket? '(' t
  let columnsEnd := columns.dropWhile (· != ')')
  let t ← afterBracket? ')' columnsEnd
  let t ← Text.afterKeyword? "values".toList t.trimStart
  let values ← afterBracket? '(' t
  let (valuesEnd, ()) ← readUpToLast readValuesEnd values
  some ⟨entity, ⟨columns, columnsEnd⟩, ⟨values, valuesEnd⟩⟩

/-- The parts of an INSERT statement. -/
def InsertShape.ofText? (t : Text) : Option InsertShape := do
  let t ← afterLeading? "insert".toList t
  readNoise "into".toList readInsertion t

/-! ## UPDATE -/

/-- The parts of an UPDATE statement. -/
structure UpdateShape where
  entity : Extent
  assignments : Extent
  filter : Option Extent
deriving DecidableEq, Repr

/-- The filter if there is one, and the end. -/
def readFilterAndEnd (t : Text) : Option (Option Extent) :=
  (readOptional ["where".toList] readEnd t).map fun (filter, ()) => filter

/-- The parts of an UPDATE statement. -/
def UpdateShape.ofText? (t : Text) : Option UpdateShape := do
  let t ← afterLeading? "update".toList t
  let (entity, t) ← readName t
  let (assignments, filter) ← readClause ["set".toList] readFilterAndEnd t
  some ⟨entity, assignments, filter⟩

/-! ## DELETE -/

/-- The parts of a DELETE statement. -/
structure DeleteShape where
  entity : Extent
  filter : Option Extent
deriving DecidableEq, Repr

/-- The parts of a DELETE statement from the name of the entity on. -/
def readDeletion (t : Text) : Option DeleteShape := do
  let (entity, t) ← readName t
  let filter ← readFilterAndEnd t
  some ⟨entity, filter⟩

/-- The parts of a DELETE statement. -/
def DeleteShape.ofText? (t : Text) : Option DeleteShape := do
  let t ← afterLeading? "delete".toList t
  readNoise "from".toList readDeletion t

end EntityQuery.Statement
