-- SUMMARY: Queries: the four operations on an entity, their parts, and their JSON form.
import EntityQuery.Value

/-!
# Queries

A query is what a statement says: it reads, creates, changes or deletes records
of an entity. Each operation has the parts that its statement can have, and no
others.
-/

namespace EntityQuery

/-! ## Operations -/

/-- What a query does. -/
inductive Operation where
  | select
  | insert
  | update
  | delete
deriving DecidableEq, Repr

namespace Operation

/-- The keyword of an operation. -/
def word : Operation → Text
  | select => "SELECT".toList
  | insert => "INSERT".toList
  | update => "UPDATE".toList
  | delete => "DELETE".toList

/-- The operation with this keyword, in any case. -/
def ofWord? (t : Text) : Option Operation :=
  [select, insert, update, delete].find? fun op => t.sameWord op.word

end Operation

/-! ## Order -/

/-- The direction in which records are ordered. -/
inductive Direction where
  | asc
  | desc
deriving DecidableEq, Repr

namespace Direction

/-- The keyword of a direction. -/
def word : Direction → Text
  | asc => "ASC".toList
  | desc => "DESC".toList

/-- The word for a direction in a request. -/
def requestWord : Direction → Text
  | asc => "asc".toList
  | desc => "desc".toList

/-- The direction that a word gives: descending only for its own keyword. -/
def ofWord (t : Text) : Direction :=
  if t.sameWord desc.word then desc else asc

end Direction

/-- A field that records are ordered by. -/
structure OrderBy where
  field : Text
  direction : Direction
deriving DecidableEq, Repr

/-- A field and its direction, as a request writes them. -/
def OrderBy.text (o : OrderBy) : Text :=
  o.field ++ ' ' :: o.direction.requestWord

/-! ## Assignments -/

/-- Columns with their new values, in the order of the columns, each column once. -/
structure Assignments where
  entries : Keyed Value
  sorted : entries.Sorted
deriving DecidableEq

namespace Assignments

/-- No columns. -/
def empty : Assignments :=
  ⟨[], List.Pairwise.nil⟩

/-- A column with its value; the value it had before is lost. -/
def insert (column : Text) (value : Value) (a : Assignments) : Assignments :=
  ⟨a.entries.insert column value, Keyed.sorted_insert a.sorted⟩

/-- Assignments made one after the other. -/
def ofList (pairs : List (Text × Value)) : Assignments :=
  pairs.foldl (fun a (column, value) => a.insert column value) empty

/-- Whether there are no columns. -/
def isEmpty (a : Assignments) : Bool :=
  a.entries.isEmpty

/-- The JSON object with a member for every column. -/
def toJson (a : Assignments) : Json :=
  .object (a.entries.map fun (column, value) => (column, value.toJson))

theorem ext_entries {a b : Assignments} (h : a.entries = b.entries) : a = b := by
  cases a; cases b; cases h; rfl

end Assignments

/-! ## Queries -/

/-- Reading records: which fields, of which records, in which order, and how many at most. No
    field at all and the lone wildcard both mean every field. -/
structure Select where
  entity : Text
  fields : List Text
  filter : Option Text
  orderBy : Option (List OrderBy)
  limit : Option UInt64
deriving DecidableEq, Repr

/-- Creating a record. -/
structure Insert where
  entity : Text
  values : Assignments
deriving DecidableEq

/-- Changing the records that a filter selects. -/
structure Update where
  entity : Text
  values : Assignments
  filter : Option Text
deriving DecidableEq

/-- Deleting the records that a filter selects. -/
structure Delete where
  entity : Text
  filter : Option Text
deriving DecidableEq, Repr

/-- A query on the records of an entity. -/
inductive Query where
  | select (q : Select)
  | insert (q : Insert)
  | update (q : Update)
  | delete (q : Delete)
deriving DecidableEq

/-- The wildcard that stands for every field. -/
def wildcard : Text :=
  ['*']

/-- Whether every field is read. -/
def Select.readsAllFields (q : Select) : Bool :=
  q.fields == [] || q.fields == [wildcard]

namespace Query

/-- What a query does. -/
def operation : Query → Operation
  | select _ => .select
  | insert _ => .insert
  | update _ => .update
  | delete _ => .delete

/-- The entity whose records a query is about. -/
def entity : Query → Text
  | select q => q.entity
  | insert q => q.entity
  | update q => q.entity
  | delete q => q.entity

/-- The filter of a query. -/
def filter : Query → Option Text
  | select q => q.filter
  | insert _ => none
  | update q => q.filter
  | delete q => q.filter

/-! ## The JSON form -/

/-- A member that is there only if there is a value for it. -/
def optionalMember (name : Text) (value : Option Json) : List (Text × Json) :=
  value.toList.map fun v => (name, v)

/-- The JSON object of a field that records are ordered by. -/
def orderJson (o : OrderBy) : Json :=
  .object [("field".toList, .string o.field), ("direction".toList, .string o.direction.word)]

/-- The JSON object of a query, its members in the order of the clauses. -/
def toJson (q : Query) : Json :=
  let head := [("operation".toList, .string q.operation.word), ("entity".toList, .string q.entity)]
  let filter := optionalMember "filter".toList (q.filter.map .string)
  .object (head ++ match q with
    | select s =>
      ("fields".toList, .array (s.fields.map .string)) :: filter ++
        optionalMember "order_by".toList (s.orderBy.map fun os => .array (os.map orderJson)) ++
        optionalMember "limit".toList (s.limit.map fun n => .int n.toNat)
    | insert i => [("values".toList, i.values.toJson)]
    | update u => ("values".toList, u.values.toJson) :: filter
    | delete _ => filter)

end Query

end EntityQuery
