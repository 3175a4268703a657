-- SUMMARY: Requests to a service: method, URL with parameters, headers and body.
import EntityQuery.Text.Percent

/-!
# Requests

A request has a method, an endpoint with parameters, headers, and a body if it
writes something. Its URL can be shown as it is meant, or with the values of the
parameters percent-encoded as they travel.
-/

namespace EntityQuery

/-- The method of a request. -/
inductive Method where
  | get
  | post
  | patch
  | delete
deriving DecidableEq, Repr

/-- The word of a method. -/
def Method.word : Method → Text
  | .get => "GET".toList
  | .post => "POST".toList
  | .patch => "PATCH".toList
  | .delete => "DELETE".toList

/-- Headers in the order in which they are sent. -/
abbrev Headers := List (Text × Text)

/-- The value of the first header with a name, in any case. -/
def Headers.find? (name : Text) (headers : Headers) : Option Text :=
  (List.find? (fun (n, _) => Text.sameWord n name) headers).map Prod.snd

/-- A request to a service. -/
structure Request where
  method : Method
  endpoint : Text
  params : List (Text × Text)
  headers : Headers
  body : Option Text
deriving DecidableEq, Repr

namespace Request

/-- The headers of every request; one with a body says that it is JSON. -/
def standardHeaders (withBody : Bool) : Headers :=
  [("Accept".toList, "application/json".toList),
    ("OData-MaxVersion".toList, "4.0".toList),
    ("OData-Version".toList, "4.0".toList)] ++
  if withBody then [("Content-Type".toList, "application/json".toList)] else []

/-- A request with the standard headers. -/
def make (method : Method) (endpoint : Text) (params : List (Text × Text)) (body : Option Text) :
    Request :=
  ⟨method, endpoint, params, standardHeaders body.isSome, body⟩

/-- A plain request to read a URL. -/
def get (url : Text) : Request :=
  make .get url [] none

/-- The URL of a request, with the values of the parameters written by `write`. -/
def urlWith (write : Text → Text) (r : Request) : Text :=
  if r.params.isEmpty then r.endpoint
  else
    r.endpoint ++ '?' :: Text.join ['&'] (r.params.map fun (name, value) => name ++ '=' :: write value)

/-- The URL with parameters as they are meant. -/
def url (r : Request) : Text :=
  r.urlWith id

/-- The URL with the values of the parameters percent-encoded. -/
def encodedUrl (r : Request) : Text :=
  r.urlWith Text.percentEncode

/-- The value of a header. -/
def header? (name : Text) (r : Request) : Option Text :=
  Headers.find? name r.headers

@[simp] theorem url_get (url : Text) : (get url).url = url := rfl

@[simp] theorem encodedUrl_get (url : Text) : (get url).encodedUrl = url := rfl

end Request

end EntityQuery
