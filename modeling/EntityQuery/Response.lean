-- SUMMARY: Responses of a service: the records in a body, the link to the next page, and ids.
import EntityQuery.Request.Basic
import EntityQuery.Json.Printer
import EntityQuery.Text.Blank

/-!
# Responses

The body of a response is a collection, with its records under `value`, or it
is a single record. A collection that comes in pages links to the next one. The
id of a record is found in a header after it was created, and under its key
field when it was looked up.
-/

namespace EntityQuery

/-- What a service answers to a request. -/
structure Response where
  status : Nat
  headers : Headers
  body : Text
deriving DecidableEq, Repr

namespace Response

/-- Whether a request was carried out. -/
def isSuccess (r : Response) : Bool :=
  200 ≤ r.status && r.status < 300

/-- The value of a header. -/
def header? (name : Text) (r : Response) : Option Text :=
  Headers.find? name r.headers

/-! ## Bodies -/

/-- The records of a body. -/
def recordsOf (body : Json) : List Json :=
  match body.member? "value".toList with
  | some (.array items) => items
  | _ => if body.isObject then [body] else []

/-- The link from a page of a collection to the next one. -/
def nextLinkOf (body : Json) : Option Text :=
  (body.member? "@odata.nextLink".toList).bind Json.text?

/-! ## Ids -/

/-- The id of a record under its key field: a text that is not empty, or the text of a number. -/
def keyOf (field : Text) (record : Json) : Option Text :=
  match record.member? field with
  | some (.string s) => if s.isEmpty then none else some s
  | some (.int n) => some (Json.int n).text
  | some (.float x) => some (Json.float x).text
  | _ => none

/-- A text without the closing bracket that it ends with. -/
def withoutBracket? (t : Text) : Option Text :=
  if t.getLast? = some ')' then some t.dropLast else none

/-- The id in the URL of a record: what stands between the brackets at its end, without braces and
    quotes. -/
def idOfUrl? (url : Text) : Option Text := do
  let t ← withoutBracket? url.trim
  let inside ← t.afterLast '('
  let id : Text := inside.filter fun c => c != '{' && c != '}' && c != '\''
  if id.isEmpty then none else some id

example : idOfUrl? " /accounts(\x7b1-2\x7d) ".toList = some "1-2".toList ∧
    idOfUrl? "/accounts()".toList = none := by decide +kernel

end Response

end EntityQuery
