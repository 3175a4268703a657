-- SUMMARY: Requests and plans shown as JSON or as HTTP text.
import EntityQuery.Request.Service
import EntityQuery.Json.Reader

/-!
# Showing requests

A request is shown as a JSON object for other tools, or as HTTP/1.1 text. In
the JSON object a body that is JSON is shown as the value that it is. In the
HTTP text an absolute URL is cut into the host, which becomes a header, and the
target.
-/

namespace EntityQuery

namespace Request

/-- The URL of a request, percent-encoded or not. -/
def shownUrl (encoded : Bool) (r : Request) : Text :=
  if encoded then r.encodedUrl else r.url

/-! ## JSON -/

/-- A body as the JSON value that it is, or else as a string. -/
def bodyJson (body : Text) : Json :=
  (Json.ofText? body).getD (.string body)

/-- A request as a JSON object, its members in the order of their names. -/
def toJson (encoded : Bool) (r : Request) : Json :=
  let headers := Keyed.ofList (r.headers.map fun (name, value) => (name, Json.string value))
  .object ((r.body.toList.map fun body => ("body".toList, bodyJson body)) ++
    [("headers".toList, .object headers), ("method".toList, .string r.method.word),
      ("url".toList, .string (r.shownUrl encoded))])

/-! ## HTTP text -/

/-- The host and the target of a URL. A URL without a host is its own target. -/
def splitHost (url : Text) : Option Text × Text :=
  match Text.splitFirstText "://".toList url with
  | none => (none, url)
  | some (_, rest) =>
    let target := rest.dropWhile (· != '/')
    (some (rest.takeWhile (· != '/')), if target.isEmpty then ['/'] else target)

/-- A header on a line of its own. -/
def headerLine (name value : Text) : Text :=
  name ++ ':' :: ' ' :: value ++ ['\n']

/-- A request as HTTP/1.1 text: the request line, the headers, and the body after an empty line. -/
def toHttp (encoded : Bool) (r : Request) : Text :=
  let (host, target) := splitHost (r.shownUrl encoded)
  r.method.word ++ ' ' :: target ++ " HTTP/1.1\n".toList ++
    (match host with
      | some host => headerLine "Host".toList host
      | none => []) ++
    (r.headers.flatMap fun (name, value) => headerLine name value) ++
    (match r.body with
      | some body => '\n' :: body ++ ['\n']
      | none => [])

end Request

/-! ## Plans -/

namespace BulkPlan

/-- What is shown in the place of the id of a record. -/
def idPlaceholder (p : BulkPlan) : Text :=
  '<' :: p.keyField ++ ['>']

/-- The request for a record whose id is not known yet. -/
def template (p : BulkPlan) : Request :=
  p.requestFor p.idPlaceholder

/-- A plan as a JSON object: the lookup, and the request for every record. -/
def toJson (encoded : Bool) (p : BulkPlan) : Json :=
  .object [("keyField".toList, .string p.keyField),
    ("lookup".toList, p.lookup.toJson encoded),
    ("operation".toList, .string p.mutation.operation.word),
    ("perRecord".toList, p.template.toJson false)]

/-- A plan as HTTP text: the lookup, and the request for every record. -/
def toHttp (encoded : Bool) (p : BulkPlan) : Text :=
  p.lookup.toHttp encoded ++ "\n# then, for each ".toList ++ p.keyField ++ " returned:\n".toList ++
    p.template.toHttp false

end BulkPlan

namespace MutationPlan

/-- A plan as a JSON object. -/
def toJson (encoded : Bool) : MutationPlan → Json
  | direct r => r.toJson encoded
  | bulk p => p.toJson encoded

/-- A plan as HTTP text. -/
def toHttp (encoded : Bool) : MutationPlan → Text
  | direct r => r.toHttp encoded
  | bulk p => p.toHttp encoded

end MutationPlan

end EntityQuery
