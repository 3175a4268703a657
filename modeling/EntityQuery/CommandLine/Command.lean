-- SUMMARY: The commands of the program: showing queries, showing requests, and the manual.
import EntityQuery.Statement.Read
import EntityQuery.Request.Display
import EntityQuery.Manual

/-!
# Commands

There are four commands. Two take a statement: one shows the query that it
states, the other the request or the plan of requests for it. The other two
show the manual.
-/

namespace EntityQuery.CommandLine

/-! ## Errors -/

/-- Why a command fails. A query and a request always have a JSON text, and the input is a text that was
    read already, so no error stands for a failure of either. -/
inductive Error where
  | statement (cause : Statement.Error)
  | request (cause : Request.Error)
  | noStatement
  | unknownTopic (name : Text)
deriving DecidableEq, Repr

/-- The message of an error. -/
def Error.message : Error → Text
  | statement cause => "Parse error: ".toList ++ cause.message
  | request cause => "Request error: ".toList ++ cause.message
  | noStatement => "No query provided. Pass it as an argument or pipe it to stdin.".toList
  | unknownTopic name =>
    "Unknown category: ".toList ++ Text.quoted name ++
      "\nRun 'sqlo docs' to see available categories.".toList

/-! ## Showing a query -/

/-- The query of a statement. -/
def queryOf (checks : Statement.Checks) (statement : Text) : Except Error Query :=
  (Query.ofText checks statement).mapError .statement

/-- The JSON text of the query that a statement states, its members in the order of their names. -/
def showQuery (layout : Json.Layout) (checks : Statement.Checks) (statement : Text) :
    Except Error Text := do
  let q ← queryOf checks statement
  .ok (q.toJson.sorted.textIn layout)

/-! ## Showing a request -/

/-- How requests are shown. -/
inductive RequestFormat where
  | json (layout : Json.Layout)
  | http
deriving DecidableEq, Repr

/-- The service that requests are for, and how they are shown. -/
structure RequestOptions where
  baseUrl : Text
  version : Text
  format : RequestFormat
  encoded : Bool
  checks : Statement.Checks
deriving DecidableEq, Repr

/-- The plan of any query: reading and creating take a single request. -/
def planAny (s : Service) : Query → Except Request.Error MutationPlan
  | .select q => .ok (.direct (s.read q))
  | .insert q => .ok (.direct (s.create q))
  | q => s.plan q

/-- A plan in a format. -/
def showPlan (format : RequestFormat) (encoded : Bool) (p : MutationPlan) : Text :=
  match format with
  | .json layout => (p.toJson encoded).textIn layout
  | .http => p.toHttp encoded

/-- The text of the requests for a statement. -/
def showRequest (options : RequestOptions) (statement : Text) : Except Error Text := do
  let q ← queryOf options.checks statement
  let service ← (Service.ofBaseUrl options.baseUrl options.version).mapError .request
  let plan ← (planAny service q).mapError .request
  .ok (showPlan options.format options.encoded plan)

/-! ## The manual -/

/-- The page of the manual on a topic, by one of its names. -/
def showPage (name : Text) : Except Error Text :=
  match Topic.ofName? name with
  | some topic => .ok topic.page
  | none => .error (.unknownTopic name)

/-! ## Commands -/

/-- A command. Without a statement of its own it takes the one on standard input. -/
inductive Command where
  | query (statement : Option Text) (layout : Json.Layout) (checks : Statement.Checks)
  | request (statement : Option Text) (options : RequestOptions)
  | overview
  | page (name : Text)
deriving DecidableEq, Repr

namespace Command

/-- Whether a command reads standard input. -/
def needsInput : Command → Bool
  | query none _ _ => true
  | request none _ => true
  | _ => false

/-- The statement of a command: its own, or the input unless that is blank. -/
def statementOr (input : Text) : Option Text → Except Error Text
  | some statement => .ok statement
  | none => if input.isBlank then .error .noStatement else .ok input

/-- What a command shows, given the text on standard input. -/
def run (input : Text) : Command → Except Error Text
  | query statement layout checks => do
    let statement ← statementOr input statement
    showQuery layout checks statement
  | request statement options => do
    let statement ← statementOr input statement
    showRequest options statement
  | overview => .ok Manual.overview
  | page name => showPage name

end Command

end EntityQuery.CommandLine
