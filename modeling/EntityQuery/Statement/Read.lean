-- SUMMARY: Reading a statement: from a text to a query.
import EntityQuery.Statement.Error
import EntityQuery.Statement.Shape
import EntityQuery.Filter

/-!
# Reading statements

A statement is trimmed and ends with a semicolon, which is added if it is
missing. Its first word says which of the four shapes it must have. The shape
is matched against the masked statement; the parts are then read from the
statement itself, at the places where they were found.
-/

namespace EntityQuery.Statement

/-! ## Statements -/

/-- The checks that a caller can ask for on top of the grammar. -/
structure Checks where
  /-- An INSERT statement must have as many values as columns. -/
  evenLists : Bool := false
  /-- UPDATE and DELETE statements must have a filter. -/
  filter : Bool := false
deriving DecidableEq, Repr

/-- Both checks. -/
def Checks.strict : Checks :=
  ⟨true, true⟩

/-- A text as a statement: trimmed, with a semicolon at its end. There is no statement in a blank
    text or a lone semicolon. -/
def ofText? (t : Text) : Option Text :=
  let t := t.trim
  if t = [] ∨ t = [';'] then none
  else if t.getLast? = some ';' then some t
  else some (t ++ [';'])

/-- The letters that a statement starts with. -/
def leadingWord (statement : Text) : Text :=
  statement.takeWhile Char.isAlpha

/-- The part of a statement at the place that was found in the masked statement. -/
def readPart (statement : Text) (e : Extent) : Text :=
  statement.slice (e.span (mask statement))

/-! ## Parts -/

/-- Words that stand in the place of a name only if the name is missing. -/
def reservedWords : List Text :=
  ["FROM".toList, "INTO".toList, "SET".toList, "VALUES".toList, "WHERE".toList]

/-- The name of an entity. -/
def readEntity (e : Extent) : Except Fault Text :=
  if reservedWords.any e.text.sameWord then .error .missingEntity else .ok e.text

/-- The trimmed pieces of a list with commas between them. -/
def trimmedPieces (t : Text) : List Text :=
  (t.pieces ',').map Text.trim

/-- The fields of a selection: names, or the wildcard alone. -/
def readFields (t : Text) : Except Fault (List Text) :=
  let fields := trimmedPieces t
  if fields.any List.isEmpty then .error .emptyField
  else if 1 < fields.length && fields.contains wildcard then .error .wildcardNotAlone
  else .ok fields

/-- A field to order by, with a direction or without one. -/
def readOrderItem (t : Text) : Except Fault OrderBy :=
  match t.words with
  | [field] => .ok ⟨field, .asc⟩
  | [field, direction] => .ok ⟨field, Direction.ofWord direction⟩
  | [] => .error .emptyOrderItem
  | _ => .error (.longOrderItem t.trim)

/-- The fields to order by. -/
def readOrder (t : Text) : Except Fault (List OrderBy) :=
  (t.pieces ',').mapM readOrderItem

/-- The number of records to read at most. -/
def readLimitValue (t : Text) : Except Fault UInt64 :=
  match t.toUInt64? with
  | some n => .ok n
  | none => .error (.badLimit t)

/-- The filter that a condition becomes. A blank one is no filter. -/
def readFilter (t : Text) : Option Text :=
  let filter := Filter.ofCondition t
  if filter.isEmpty then none else some filter

/-- The columns of an insertion. -/
def readColumns (t : Text) : Except Fault (List Text) :=
  let columns := trimmedPieces t
  if columns.any List.isEmpty then .error .emptyColumn else .ok columns

/-- A column and its value. The first equals sign stands between them. -/
def readAssignment (t : Text) : Except Fault (Text × Value) :=
  match t.splitFirst '=' with
  | none => .error (.noAssignment t)
  | some (column, value) =>
    let column := column.trim
    let value := value.trim
    if column.isEmpty then .error (.missingColumn t)
    else if value.isEmpty then .error (.missingValue column)
    else .ok (column, Value.ofLiteral value)

/-! ## Queries -/

/-- A fault of a statement as an error. -/
def atStatement {α : Type} (operation : Operation) (statement : Text) :
    Except Fault α → Except Statement.Error α
  | .ok a => .ok a
  | .error fault => .error (.invalid operation statement fault)

/-- An unterminated literal in a part of a statement as an error. -/
def atLexer {α : Type} (statement : Text) : Except Lexer.Error α → Except Statement.Error α
  | .ok a => .ok a
  | .error cause => .error (.lexical statement cause)

/-- The shape that a statement must have. -/
def requireShape {α : Type} : Option α → Except Fault α
  | some shape => .ok shape
  | none => .error .shape

/-- The query of a SELECT statement. -/
def readSelect (statement : Text) : Except Statement.Error Select :=
  atStatement .select statement do
    let shape ← requireShape (SelectShape.ofText? (mask statement))
    let entity ← readEntity shape.entity
    let fields ← readFields (readPart statement shape.fields)
    let orderBy ← (shape.order.map (readPart statement)).mapM readOrder
    let limit ← (shape.limit.map (readPart statement)).mapM readLimitValue
    .ok ⟨entity, fields, (shape.filter.map (readPart statement)).bind readFilter, orderBy, limit⟩

/-- The query of an INSERT statement. Columns and values are paired by position; columns without a
    value and values without a column are left out. -/
def readInsert (checks : Checks) (statement : Text) : Except Statement.Error Insert := do
  let (entity, columns, valuesText) ← atStatement .insert statement do
    let shape ← requireShape (InsertShape.ofText? (mask statement))
    let entity ← readEntity shape.entity
    let columns ← readColumns (readPart statement shape.columns)
    .ok (entity, columns, readPart statement shape.values)
  let values ← atLexer statement (splitList valuesText)
  atStatement .insert statement do
    if values.any List.isEmpty then .error .emptyValue
    else if checks.evenLists ∧ columns.length ≠ values.length then
      .error (.unevenLists columns.length values.length)
    else
      let assignments := Assignments.ofList (columns.zip (values.map Value.ofLiteral))
      if assignments.isEmpty then .error .noValues else .ok ⟨entity, assignments⟩

/-- The query of an UPDATE statement. -/
def readUpdate (statement : Text) : Except Statement.Error Update := do
  let (entity, assignmentsText, filterText) ← atStatement .update statement do
    let shape ← requireShape (UpdateShape.ofText? (mask statement))
    let entity ← readEntity shape.entity
    .ok (entity, readPart statement shape.assignments, shape.filter.map (readPart statement))
  let items ← atLexer statement (splitList assignmentsText)
  atStatement .update statement do
    let pairs ← items.mapM readAssignment
    let assignments := Assignments.ofList pairs
    if assignments.isEmpty then .error .noAssignments
    else .ok ⟨entity, assignments, filterText.bind readFilter⟩

/-- The query of a DELETE statement. -/
def readDelete (statement : Text) : Except Statement.Error Delete :=
  atStatement .delete statement do
    let shape ← requireShape (DeleteShape.ofText? (mask statement))
    let entity ← readEntity shape.entity
    .ok ⟨entity, (shape.filter.map (readPart statement)).bind readFilter⟩

/-- The query of a statement whose operation is known. -/
def readOperation (checks : Checks) (statement : Text) : Operation → Except Statement.Error Query
  | .select => (readSelect statement).map .select
  | .insert => (readInsert checks statement).map .insert
  | .update => (readUpdate statement).map .update
  | .delete => (readDelete statement).map .delete

end EntityQuery.Statement

namespace EntityQuery

/-! ## Texts -/

/-- Whether a query lacks a filter that changes and deletions can be asked to have. -/
def Query.isUnscoped (q : Query) : Bool :=
  (q.operation == .update || q.operation == .delete) && q.filter.isNone

/-- The query that a text states. -/
def Query.ofText (checks : Statement.Checks) (t : Text) : Except Statement.Error Query :=
  match Statement.ofText? t with
  | none => .error .empty
  | some statement =>
    match Operation.ofWord? (Statement.leadingWord statement) with
    | none => .error (.unsupported (Statement.leadingWord statement) statement)
    | some operation => do
      let q ← Statement.readOperation checks statement operation
      if checks.filter && q.isUnscoped then .error (.missingFilter operation statement) else .ok q

end EntityQuery
