-- SUMMARY: The literals of a statement that are values, and queries with the same structure.
import EntityQuery.Proofs.Keyed
import EntityQuery.Proofs.Skeleton.Difference
import EntityQuery.Proofs.Skeleton.Filter
import EntityQuery.Statement.Read

/-!
# The structure of a statement

A literal is a value in a condition, among the values of an insertion, and
after the first equals sign of an assignment. What such literals contain is up
to whoever fills in the values. The rest of a statement is its structure, and
two queries have the same structure if they differ in nothing but values.
-/

namespace EntityQuery

/-! ## Places -/

namespace Span

/-- Whether a span lies in another one. -/
def isIn (inner outer : Span) : Bool :=
  decide (outer.start ≤ inner.start ∧ inner.stop ≤ outer.stop)

/-- A span counted from some bytes further on. -/
def back (count : Nat) (span : Span) : Span :=
  ⟨span.start - count, span.stop - count⟩

end Span

namespace Statement

/-- Whether the last item of a list has an equals sign in it. -/
def endsAfterEquals (t : Text) : Bool :=
  match splitList t with
  | .ok items => items.getLast?.any fun item => item.contains '='
  | .error _ => false

/-- Whether a literal at a place of a statement is a value. In a text that is no statement every
    literal counts as one. -/
def holdsValue (statement : Text) (place : Span) : Bool :=
  let masked := mask statement
  let isInPart (e : Extent) : Bool := place.isIn (e.span masked)
  match Operation.ofWord? (leadingWord statement) with
  | none => true
  | some .select => (SelectShape.ofText? masked).all fun shape => shape.filter.any isInPart
  | some .insert => (InsertShape.ofText? masked).all fun shape => isInPart shape.values
  | some .update => (UpdateShape.ofText? masked).all fun shape =>
      shape.filter.any isInPart ||
        (isInPart shape.assignments && endsAfterEquals
          (statement.slice ⟨(shape.assignments.span masked).start, place.start⟩))
  | some .delete => (DeleteShape.ofText? masked).all fun shape => shape.filter.any isInPart

/-! ## Parts with values -/

/-- The condition of a statement, as it is written. -/
def condition? (statement : Text) : Option Text :=
  let masked := mask statement
  let part := match Operation.ofWord? (leadingWord statement) with
    | some .select => (SelectShape.ofText? masked).bind (·.filter)
    | some .update => (UpdateShape.ofText? masked).bind (·.filter)
    | some .delete => (DeleteShape.ofText? masked).bind (·.filter)
    | _ => none
  part.map (readPart statement)

/-- A column and what is assigned to it, as it is written. -/
def splitAssignment? (item : Text) : Option (Text × Text) :=
  (item.splitFirst '=').map fun (column, value) => (column.trim, value.trim)

/-- The columns of a statement, each with its value as it is written. -/
def valueItems (statement : Text) : List (Text × Text) :=
  let masked := mask statement
  match Operation.ofWord? (leadingWord statement) with
  | some .insert =>
    match InsertShape.ofText? masked with
    | some shape =>
      (trimmedPieces (readPart statement shape.columns)).zip
        ((splitList (readPart statement shape.values)).toOption.getD [])
    | none => []
  | some .update =>
    match UpdateShape.ofText? masked with
    | some shape =>
      ((splitList (readPart statement shape.assignments)).toOption.getD []).filterMap
        splitAssignment?
    | none => []
  | _ => []

end Statement

namespace Text

/-- Whether a literal at a place of a text is a value in the statement that the text is. -/
def holdsValue (t : Text) (place : Span) : Bool :=
  (Statement.ofText? t).all fun statement =>
    Statement.holdsValue statement (place.back (t.byteSize - t.trimStart.byteSize))

/-- The condition of the statement that a text is. -/
def condition? (t : Text) : Option Text :=
  (Statement.ofText? t).bind Statement.condition?

/-- The columns of the statement that a text is, each with its value as it is written. A column
    that has several values has the last one. -/
def valueItems (t : Text) : Keyed Text :=
  Keyed.ofList ((Statement.ofText? t).elim [] Statement.valueItems)

end Text

/-! ## Queries -/

namespace Query

/-- The fields that a query selects. -/
def fields : Query → List Text
  | select q => q.fields
  | _ => []

/-- The order of the records that a query selects. -/
def orderBy : Query → Option (List OrderBy)
  | select q => q.orderBy
  | _ => none

/-- How many records a query selects at most. -/
def limit : Query → Option UInt64
  | select q => q.limit
  | _ => none

/-- The columns that a query writes, with their values. -/
def values : Query → Keyed Value
  | insert q => q.values.entries
  | update q => q.values.entries
  | _ => []

end Query

/-- Values as they are written in two statements: the same text without a quote, or two texts with
    quotes, which are strings. -/
def SameItem (item₁ item₂ : Text) : Prop :=
  ('\'' ∉ item₁ ∧ item₁ = item₂) ∨
  ('\'' ∈ item₁ ∧ '\'' ∈ item₂ ∧
    (∃ s, Value.ofLiteral item₁ = .string s) ∧ ∃ s, Value.ofLiteral item₂ = .string s)

/-- Filters of two statements: none in both, or two that differ only in the contents of their
    literals, which are the literals of the conditions one by one. -/
def SameFilter (t₁ t₂ : Text) (filter₁ filter₂ : Option Text) : Prop :=
  (filter₁ = none ∧ filter₂ = none) ∨
  ∃ f₁ f₂ condition₁ condition₂,
    filter₁ = some f₁ ∧ filter₂ = some f₂ ∧ Text.SameButLiterals f₁ f₂ ∧
    t₁.condition? = some condition₁ ∧ f₁.literals = condition₁.literals ∧
    t₂.condition? = some condition₂ ∧ f₂.literals = condition₂.literals

/-- The queries of two texts that differ in nothing but values. -/
structure SameStructure (t₁ t₂ : Text) (q₁ q₂ : Query) : Prop where
  operation : q₁.operation = q₂.operation
  entity : q₁.entity = q₂.entity
  fields : q₁.fields = q₂.fields
  orderBy : q₁.orderBy = q₂.orderBy
  limit : q₁.limit = q₂.limit
  columns : q₁.values.map Prod.fst = q₂.values.map Prod.fst
  /-- Every value is the one that its text denotes. -/
  values₁ : q₁.values = t₁.valueItems.map fun (column, item) => (column, Value.ofLiteral item)
  values₂ : q₂.values = t₂.valueItems.map fun (column, item) => (column, Value.ofLiteral item)
  /-- Values without a quote are the same, and values with one are strings in both. -/
  items : List.Forall₂ (Keyed.Related SameItem) t₁.valueItems t₂.valueItems
  filter : SameFilter t₁ t₂ q₁.filter q₂.filter

end EntityQuery
