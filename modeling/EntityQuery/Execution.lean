-- SUMMARY: Carrying out queries: the requests sent, in order, given what a service answers to them.
import EntityQuery.Request.Service
import EntityQuery.Response
import EntityQuery.Json.Reader

/-!
# Execution

What happens between the library and a service is a list of requests and a list
of answers, one for each request. Execution is a function of the answers: it
gives the requests that were sent, the answers that were not needed, and what
came of it. Once no answers are left, requests fail.

Reading follows the links from page to page until one was already followed. A
mutation of records that have to be looked up sends nothing but the lookup
until the ids of all of them are known. Then it goes from record to record and
stops at the first failure; what was changed before stays changed.
-/

namespace EntityQuery

/-! ## Answers and errors -/

/-- What comes back for a request: a response, or a message that there is none. -/
abbrev Answer := Except Text Response

/-- Why a query could not be carried out. -/
inductive Execution.Error where
  | request (cause : Request.Error)
  | transport (method : Method) (url message : Text)
  | status (method : Method) (url : Text) (code : Nat) (body : Text)
  | invalidResponse (url : Text)
  | missingKey (field : Text)
  | partialFailure (operation : Operation) (applied total : Nat) (id : Text) (cause : Execution.Error)
deriving DecidableEq, Repr

/-- The message of an error. What the JSON reader says about a body that is no JSON text, which stands
    after the URL and a colon in the message of `invalidResponse`, is left out. -/
def Execution.Error.message : Execution.Error → Text
  | request cause => cause.message
  | transport method url message =>
    "Transport error on ".toList ++ method.word ++ ' ' :: url ++ ": ".toList ++ message
  | status method url code body =>
    method.word ++ ' ' :: url ++ " failed with status ".toList ++ Nat.toDigits 10 code ++
      ": ".toList ++ body
  | invalidResponse url => "Invalid JSON response from ".toList ++ url
  | missingKey field => "Lookup returned a record without the '".toList ++ field ++ "' key".toList
  | partialFailure operation applied total id cause =>
    operation.word ++ " failed on record ".toList ++ id ++ " after ".toList ++
      Nat.toDigits 10 applied ++ " of ".toList ++ Nat.toDigits 10 total ++
      " records were changed (earlier changes are not rolled back): ".toList ++ cause.message

/-- An exchange with a service: the requests sent, the answers left over, and the result. -/
structure Exchange (α : Type) where
  sent : List Request
  unread : List Answer
  result : Except Execution.Error α

/-- An exchange in which nothing is sent. -/
def Exchange.silent {α : Type} (result : Except Execution.Error α) (answers : List Answer) :
    Exchange α :=
  ⟨[], answers, result⟩

/-- An exchange with another view of its result. -/
def Exchange.map {α β : Type} (f : α → β) (e : Exchange α) : Exchange β :=
  ⟨e.sent, e.unread, e.result.map f⟩

/-- An exchange that goes on with another one, unless it failed. -/
def Exchange.andThen {α β : Type} (e : Exchange α) (next : α → List Answer → Exchange β) :
    Exchange β :=
  match e.result with
  | .error cause => ⟨e.sent, e.unread, .error cause⟩
  | .ok a =>
    let more := next a e.unread
    ⟨e.sent ++ more.sent, more.unread, more.result⟩

/-! ## One request -/

/-- The message of a request for which no answer is left. -/
def Execution.noAnswer : Text :=
  "no response queued".toList

/-- What comes of a request, given the answer to it. -/
def Execution.outcomeOf (r : Request) : Option Answer → Except Execution.Error Response
  | none => .error (.transport r.method r.url noAnswer)
  | some (.error message) => .error (.transport r.method r.url message)
  | some (.ok response) =>
    if response.isSuccess then .ok response
    else .error (.status r.method r.url response.status response.body)

/-- Sends one request. -/
def Execution.send (r : Request) (answers : List Answer) : Exchange Response :=
  ⟨[r], answers.tail, outcomeOf r answers.head?⟩

/-! ## Reading -/

/-- The body of a page. -/
def Execution.pageOf (r : Request) (answer : Option Answer) : Except Execution.Error Json := do
  let response ← outcomeOf r answer
  match Json.ofText? response.body with
  | some body => .ok body
  | none => .error (.invalidResponse r.encodedUrl)

/-- The link to a page that was not read yet. -/
def Execution.newLinkOf (visited : List Text) (body : Json) : Option Text :=
  (Response.nextLinkOf body).filter (!visited.contains ·)

/-- Reads a page and all pages after it. The pages in `visited` are not read again. -/
def Execution.readPages (visited : List Text) (page : Request) : List Answer → Exchange (List Json)
  | [] => ⟨[page], [], (pageOf page none).map Response.recordsOf⟩
  | answer :: answers =>
    match pageOf page (some answer) with
    | .error cause => ⟨[page], answers, .error cause⟩
    | .ok body =>
      let visited := page.encodedUrl :: visited
      match newLinkOf visited body with
      | none => ⟨[page], answers, .ok (Response.recordsOf body)⟩
      | some link =>
        let more := readPages visited (Request.get link) answers
        ⟨page :: more.sent, more.unread, more.result.map (Response.recordsOf body ++ ·)⟩

/-- Reads a collection, all pages of it. -/
def Execution.readAll (r : Request) (answers : List Answer) : Exchange (List Json) :=
  readPages [] r answers

/-! ## Mutations -/

/-- The ids of records that were looked up. Every record must have one. -/
def Execution.keysOf (field : Text) (records : List Json) : Except Execution.Error (List Text) :=
  records.mapM fun record =>
    match Response.keyOf field record with
    | some key => .ok key
    | none => .error (.missingKey field)

/-- Sends the request of a plan for one record after the other, of which `applied` are done.
    Gives the number of records changed. -/
def Execution.applyEach (p : BulkPlan) (total applied : Nat) :
    List Text → List Answer → Exchange Nat
  | [], answers => .silent (.ok applied) answers
  | id :: ids, answers =>
    let r := p.requestFor id
    match outcomeOf r answers.head? with
    | .error cause =>
      ⟨[r], answers.tail,
        .error (.partialFailure p.mutation.operation applied total id cause)⟩
    | .ok _ =>
      let more := applyEach p total (applied + 1) ids answers.tail
      ⟨r :: more.sent, more.unread, more.result⟩

/-- Carries out a plan of a mutation with a lookup. Gives the number of records changed. -/
def BulkPlan.apply (p : BulkPlan) (answers : List Answer) : Exchange Nat :=
  (Execution.readAll p.lookup answers).andThen fun records answers =>
    match Execution.keysOf p.keyField records with
    | .error cause => .silent (.error cause) answers
    | .ok ids => Execution.applyEach p ids.length 0 ids answers

/-- Carries out a mutation. Gives the number of records changed. -/
def MutationPlan.apply : MutationPlan → List Answer → Exchange Nat
  | .direct r, answers => (Execution.send r answers).map fun _ => 1
  | .bulk p, answers => p.apply answers

/-! ## Queries -/

/-- What a query came to. -/
inductive Outcome where
  | records (records : List Json)
  | created (id : Option Text)
  | affected (count : Nat)

/-- The id of a record that was created. -/
def Execution.createdId (r : Response) : Option Text :=
  (r.header? "OData-EntityId".toList).bind Response.idOfUrl?

/-- Carries out a query. -/
def Service.run (s : Service) (q : Query) (answers : List Answer) : Exchange Outcome :=
  match q with
  | .select q => (Execution.readAll (s.read q) answers).map .records
  | .insert q => (Execution.send (s.create q) answers).map fun response => .created (Execution.createdId response)
  | q =>
    match s.plan q with
    | .ok plan => (plan.apply answers).map .affected
    | .error cause => .silent (.error (.request cause)) answers

end EntityQuery
