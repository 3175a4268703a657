-- SUMMARY: Services: from a query to the request, or to the plan of requests, that carries it out.
import EntityQuery.Query
import EntityQuery.Request.Basic
import EntityQuery.Filter.RecordId

/-!
# Services

A service is the root of a Web API: the collection of an entity is at
`<base>/api/data/v<version>/<entity>` and a record of it at `<collection>(<id>)`.

Reading is a GET with parameters and creating is a POST. Changing and deleting
address one record each. If the filter names the record, one request is enough.
Otherwise the records have to be looked up first; what is then sent for every
record found is laid down in a plan.
-/

namespace EntityQuery

/-! ## Errors -/

/-- Why there is no request for a query. All values have a JSON form, so a body can always be
    written. -/
inductive Request.Error where
  | missingFilter (operation : Operation) (entity : Text)
  | ambiguousTarget (operation : Operation) (entity filter : Text)
  | notAMutation (operation : Operation)
  | invalidBaseUrl (url : Text)
deriving DecidableEq, Repr

/-- The message of an error. -/
def Request.Error.message : Request.Error → Text
  | missingFilter operation entity =>
    operation.word ++ " on '".toList ++ entity ++ "' requires a WHERE clause".toList
  | ambiguousTarget operation entity filter =>
    operation.word ++ " on '".toList ++ entity ++
      "' cannot target a single record from filter '".toList ++ filter ++
      "'; use a <entity>id eq '<id>' filter or resolve the matching records first".toList
  | notAMutation operation => operation.word ++ " is not an UPDATE or DELETE".toList
  | invalidBaseUrl url => "Invalid base URL '".toList ++ url ++ ['\'']

/-! ## Services -/

/-- The root of a Web API. -/
structure Service where
  baseUrl : Text
  version : Text
deriving DecidableEq, Repr

/-- The version of a Web API that is used unless another one is asked for. -/
def defaultVersion : Text :=
  "9.2".toList

/-- A text without the slashes at its end. -/
def withoutSlashes (t : Text) : Text :=
  (t.reverse.dropWhile (· == '/')).reverse

/-- Whether a base URL, trimmed, has no query, no fragment and no blanks. An empty one is accepted:
    then URLs start at the host that they are sent to. -/
def isBaseUrl (t : Text) : Bool :=
  t.all fun c => c != '?' && c != '#' && !isBlank c

namespace Service

/-- The service at a base URL. -/
def ofBaseUrl (baseUrl version : Text) : Except Request.Error Service :=
  if isBaseUrl baseUrl.trim then .ok ⟨withoutSlashes baseUrl.trim, version⟩
  else .error (.invalidBaseUrl baseUrl)

/-- The URL of the collection of an entity. -/
def collectionUrl (s : Service) (entity : Text) : Text :=
  s.baseUrl ++ "/api/data/v".toList ++ s.version ++ '/' :: entity

end Service

/-- The URL of a record in a collection. -/
def recordUrl (collection id : Text) : Text :=
  collection ++ '(' :: id ++ [')']

/-- The body that writes values. -/
def bodyOf (values : Assignments) : Text :=
  values.toJson.text

/-! ## Single requests -/

/-- The parameters that select, filter, order and limit the records that are read. -/
def Select.params (q : Select) : List (Text × Text) :=
  (if q.readsAllFields then [] else [("$select".toList, Text.join [','] q.fields)]) ++
  (q.filter.toList.map fun filter => ("$filter".toList, filter)) ++
  (q.orderBy.toList.map fun order => ("$orderby".toList, Text.join [','] (order.map OrderBy.text))) ++
  (q.limit.toList.map fun limit => ("$top".toList, Text.ofNat limit.toNat))

namespace Service

/-- The request that reads records. -/
def read (s : Service) (q : Select) : Request :=
  Request.make .get (s.collectionUrl q.entity) q.params none

/-- The request that creates a record. -/
def create (s : Service) (q : Insert) : Request :=
  Request.make .post (s.collectionUrl q.entity) [] (some (bodyOf q.values))

end Service

/-! ## Mutations -/

/-- What happens to a record: it gets new values, or it is deleted. -/
inductive Mutation where
  | change (values : Assignments)
  | remove
deriving DecidableEq

namespace Mutation

/-- The operation of a mutation. -/
def operation : Mutation → Operation
  | change _ => .update
  | remove => .delete

/-- The method of the request for a record. -/
def method : Mutation → Method
  | change _ => .patch
  | remove => .delete

/-- The body of the request for a record. -/
def body : Mutation → Option Text
  | change values => some (bodyOf values)
  | remove => none

/-- The request for one record of a collection. -/
def requestFor (m : Mutation) (collection id : Text) : Request :=
  Request.make m.method (recordUrl collection id) [] m.body

end Mutation

/-- The plan of a mutation whose records have to be looked up: the request that finds them, the
    field that has their ids, and what happens to each of them. -/
structure BulkPlan where
  mutation : Mutation
  collection : Text
  keyField : Text
  lookup : Request
deriving DecidableEq

/-- The request for one of the records. -/
def BulkPlan.requestFor (p : BulkPlan) (id : Text) : Request :=
  p.mutation.requestFor p.collection id

/-- How a mutation reaches its records: by one request, or one by one after a lookup. -/
inductive MutationPlan where
  | direct (request : Request)
  | bulk (plan : BulkPlan)
deriving DecidableEq

/-- The field that has the id of a record of an entity. -/
def keyFieldOf (entity : Text) : Text :=
  entity ++ ['i', 'd']

/-- The query that looks up the ids of the records that a filter selects. -/
def lookupQuery (entity filter : Text) : Select :=
  ⟨entity, [keyFieldOf entity], some filter, none, none⟩

namespace Service

/-- The plan of a mutation of the records of an entity that a filter selects. -/
def planFor (s : Service) (mutation : Mutation) (entity filter : Text) : MutationPlan :=
  let collection := s.collectionUrl entity
  match Filter.recordId? filter with
  | some id => .direct (mutation.requestFor collection id)
  | none => .bulk ⟨mutation, collection, keyFieldOf entity, s.read (lookupQuery entity filter)⟩

/-- The plan of a mutation, which must have a filter. -/
def planScoped (s : Service) (mutation : Mutation) (entity : Text) :
    Option Text → Except Request.Error MutationPlan
  | some filter => .ok (s.planFor mutation entity filter)
  | none => .error (.missingFilter mutation.operation entity)

/-- The plan of a query that changes or deletes records. -/
def plan (s : Service) : Query → Except Request.Error MutationPlan
  | .update q => s.planScoped (.change q.values) q.entity q.filter
  | .delete q => s.planScoped .remove q.entity q.filter
  | q => .error (.notAMutation q.operation)

/-- The single request for a query. Changing and deleting have one only if the filter names the
    record. -/
def request (s : Service) : Query → Except Request.Error Request
  | .select q => .ok (s.read q)
  | .insert q => .ok (s.create q)
  | q =>
    match s.plan q with
    | .ok (.direct r) => .ok r
    | .ok (.bulk _) => .error (.ambiguousTarget q.operation q.entity (q.filter.getD []))
    | .error e => .error e

end Service

end EntityQuery
