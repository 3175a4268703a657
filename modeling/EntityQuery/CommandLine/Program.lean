-- SUMMARY: The program as a function: arguments, environment and input to output and exit code.
import EntityQuery.CommandLine.Arguments
import EntityQuery.CommandLine.Command

/-!
# The program

The first word of the command line that is no option names the command. The
base URL and the version of a service can also come from the environment; an
option goes before it. A command line that is not valid ends with code 2, an
error with its message and code 1.

The input is a text that ends, never a terminal. No logs are written, and there
is no help text; about a command line that is not valid one line is written,
whatever is wrong with it.
-/

namespace EntityQuery.CommandLine

/-- The variables that the program is run with. -/
abbrev Environment := List (Text × Text)

/-- The variable that gives the base URL. -/
def baseUrlVariable : Text :=
  "SQLO_BASE_URL".toList

/-- The variable that gives the version of the Web API. -/
def versionVariable : Text :=
  "SQLO_API_VERSION".toList

/-! ## Options -/

/-- The option that every command takes. What it says matters to logs only. -/
def logLevelSpec : OptionSpec :=
  ⟨"log-level".toList, none, true⟩

/-- The options of the command that shows a query. -/
def querySpecs : List OptionSpec := [
  logLevelSpec,
  ⟨"pretty".toList, some 'p', false⟩,
  ⟨"strict".toList, none, false⟩]

/-- The options of the command that shows a request. -/
def requestSpecs : List OptionSpec := querySpecs ++ [
  ⟨"base-url".toList, some 'b', true⟩,
  ⟨"api-version".toList, none, true⟩,
  ⟨"format".toList, some 'f', true⟩,
  ⟨"encoded".toList, none, false⟩]

/-- The layout that the arguments ask for. -/
def layoutOf (arguments : List Argument) : Json.Layout :=
  if hasFlag "pretty".toList arguments then .lines else .compact

/-- The checks that the arguments ask for. -/
def checksOf (arguments : List Argument) : Statement.Checks :=
  if hasFlag "strict".toList arguments then .strict else {}

/-- The format with a name. -/
def formatOf? (layout : Json.Layout) (name : Text) : Option RequestFormat :=
  if name = "json".toList then some (.json layout)
  else if name = "http".toList then some .http
  else none

/-- The value of an option, or else that of a variable. -/
def settingOf? (name setting : Text) (environment : Environment) (arguments : List Argument) :
    Option Text :=
  optionValue? name arguments <|> environment.lookup setting

/-! ## Commands -/

/-- The command that shows a query. -/
def queryCommand? (words : List Text) : Option Command := do
  let arguments ← argumentsOf? querySpecs 1 words
  some (.query (firstPositional? arguments) (layoutOf arguments) (checksOf arguments))

/-- The command that shows a request. -/
def requestCommand? (environment : Environment) (words : List Text) : Option Command := do
  let arguments ← argumentsOf? requestSpecs 1 words
  let format ← formatOf? (layoutOf arguments)
    ((optionValue? "format".toList arguments).getD "json".toList)
  let baseUrl := settingOf? "base-url".toList baseUrlVariable environment arguments
  let version := settingOf? "api-version".toList versionVariable environment arguments
  some (.request (firstPositional? arguments)
    ⟨baseUrl.getD [], version.getD defaultVersion, format, hasFlag "encoded".toList arguments,
      checksOf arguments⟩)

/-- The command that shows the overview of the manual. -/
def overviewCommand? (words : List Text) : Option Command := do
  let _ ← argumentsOf? [logLevelSpec] 0 words
  some .overview

/-- The command that shows a page of the manual. -/
def pageCommand? (words : List Text) : Option Command := do
  let arguments ← argumentsOf? [logLevelSpec] 1 words
  let name ← firstPositional? arguments
  some (.page name)

/-- The command with a name. -/
def commandOf? (environment : Environment) (name : Text) (words : List Text) : Option Command :=
  if name = "parse".toList then queryCommand? words
  else if name = "request".toList then requestCommand? environment words
  else if name = "docs".toList then overviewCommand? words
  else if name = "doc".toList then pageCommand? words
  else none

/-- What the program is asked for. -/
inductive Invocation where
  | version
  | command (c : Command)
deriving DecidableEq, Repr

/-- A command line up to the name of the command, and what it asks for. The version is shown as
    soon as it is asked for, whatever follows. The flag tells whether the option of every command
    was given already. -/
def readInvocation (environment : Environment) (given : Bool) : List Text → Option Invocation
  | [] => none
  | word :: words =>
    if word = "--version".toList ∨ "-V".toList.isPrefixOf word then some .version
    else if isPlainArgument word then (commandOf? environment word words).map .command
    else if given then none
    else
      match word with
      | '-' :: '-' :: t =>
        match readNamed [logLevelSpec] t with
        | some (_, none) => readInvocation environment true words
        | some (_, some _) =>
          match words with
          | value :: words =>
            if isPlainArgument value then readInvocation environment true words else none
          | [] => none
        | none => none
      | _ => none

/-! ## Running -/

/-- What a run of the program writes, and its exit code. -/
structure Report where
  code : Nat
  output : Text
  errors : Text
deriving DecidableEq, Repr

/-- A text that ends with a line end. -/
def withLineEnd (t : Text) : Text :=
  if t.getLast? = some '\n' then t else t ++ ['\n']

/-- The name and version of the program. -/
def versionLine : Text :=
  "sqlo 0.1.0\n".toList

/-- What is written about a command line that is not valid. -/
def usageLine : Text :=
  "usage: sqlo [--log-level LEVEL] parse|request|docs|doc ...\n".toList

/-- The report of what was asked for. -/
def Invocation.report (input : Text) : Invocation → Report
  | version => ⟨0, versionLine, []⟩
  | command c =>
    match c.run input with
    | .ok shown => ⟨0, withLineEnd shown, []⟩
    | .error e => ⟨1, [], e.message ++ ['\n']⟩

/-- Whether what was asked for depends on standard input. -/
def Invocation.needsInput : Invocation → Bool
  | version => false
  | command c => c.needsInput

/-- The report of a run, given the input if it is needed. -/
def reportOf (invocation : Option Invocation) (input : Text) : Report :=
  match invocation with
  | some invocation => invocation.report input
  | none => ⟨2, [], usageLine⟩

/-- A run of the program. -/
def runProgram (environment : Environment) (words : List Text) (input : Text) : Report :=
  reportOf (readInvocation environment false words) input

end EntityQuery.CommandLine
