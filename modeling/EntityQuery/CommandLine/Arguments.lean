-- SUMMARY: The grammar of command line arguments: flags, options with values, and positional arguments.
import EntityQuery.Text.Basic

/-!
# Arguments

An option is written `--name value`, `--name=value`, `-n value`, `-nvalue` or
`-n=value`, and flags of one letter can be joined. A value that is an argument
of its own does not start with a hyphen, the lone hyphen excepted. After `--`
every argument is positional. An option that is not known, given twice or
without its value makes the whole command line invalid.
-/

namespace EntityQuery.CommandLine

/-- A flag or an option of a command: its name, its letter, and whether it takes a value. -/
structure OptionSpec where
  name : Text
  letter : Option Char
  takesValue : Bool
deriving DecidableEq, Repr

/-- An argument that was read. -/
inductive Argument where
  | flag (name : Text)
  | option (name value : Text)
  | positional (value : Text)
deriving DecidableEq, Repr

namespace Argument

/-- The name of a flag or an option. -/
def name? : Argument → Option Text
  | flag name => some name
  | option name _ => some name
  | positional _ => none

/-- The value of an option with a name. -/
def valueOf? (name : Text) : Argument → Option Text
  | option n value => if n = name then some value else none
  | _ => none

/-- The value of a positional argument. -/
def positional? : Argument → Option Text
  | positional value => some value
  | _ => none

end Argument

/-- An argument that is neither an option nor the mark that ends options. -/
def isPlainArgument : Text → Bool
  | '-' :: rest => rest.isEmpty
  | _ => true

/-- The arguments in one word of options, and the name of an option at its end whose value is the
    next word. -/
abbrev OptionWord := List Argument × Option Text

/-- Options written as letters after a hyphen. What follows the letter of an option is its
    value. -/
def readLetters (specs : List OptionSpec) : Text → Option OptionWord
  | [] => some ([], none)
  | c :: rest =>
    match specs.find? (·.letter == some c) with
    | none => none
    | some spec =>
      if spec.takesValue then
        match rest with
        | [] => some ([], some spec.name)
        | '=' :: value => some ([.option spec.name value], none)
        | value => some ([.option spec.name value], none)
      else
        (readLetters specs rest).map fun (arguments, open?) => (.flag spec.name :: arguments, open?)

/-- An option written with its name after two hyphens. -/
def readNamed (specs : List OptionSpec) (t : Text) : Option OptionWord :=
  let (name, value) := match t.splitFirst '=' with
    | some (name, value) => (name, some value)
    | none => (t, none)
  match specs.find? (·.name == name), value with
  | none, _ => none
  | some spec, none =>
    if spec.takesValue then some ([], some spec.name) else some ([.flag spec.name], none)
  | some spec, some value => if spec.takesValue then some ([.option spec.name value], none) else none

/-- The arguments of a command line, for a command with these options. -/
def readArguments (specs : List OptionSpec) : List Text → Option (List Argument)
  | [] => some []
  | word :: words =>
    match word with
    | ['-', '-'] => some (words.map .positional)
    | _ =>
      if isPlainArgument word then (readArguments specs words).map (.positional word :: ·)
      else
        let read := match word with
          | '-' :: '-' :: t => readNamed specs t
          | _ => readLetters specs (word.drop 1)
        match read with
        | none => none
        | some (arguments, none) => (readArguments specs words).map (arguments ++ ·)
        | some (arguments, some name) =>
          match words with
          | [] => none
          | value :: words =>
            if isPlainArgument value then
              (readArguments specs words).map fun more => arguments ++ .option name value :: more
            else none

/-- Whether no option is given twice and there are at most so many positional arguments. -/
def areConsistent (positionals : Nat) (arguments : List Argument) : Bool :=
  decide (arguments.filterMap Argument.name?).Nodup &&
    (arguments.filterMap Argument.positional?).length ≤ positionals

/-- The arguments of a command line that are consistent. -/
def argumentsOf? (specs : List OptionSpec) (positionals : Nat) (words : List Text) :
    Option (List Argument) :=
  (readArguments specs words).filter (areConsistent positionals)

/-- Whether a flag was given. -/
def hasFlag (name : Text) (arguments : List Argument) : Bool :=
  arguments.contains (.flag name)

/-- The value that an option was given. -/
def optionValue? (name : Text) (arguments : List Argument) : Option Text :=
  arguments.findSome? (Argument.valueOf? name)

/-- The first positional argument. -/
def firstPositional? (arguments : List Argument) : Option Text :=
  arguments.findSome? Argument.positional?

end EntityQuery.CommandLine
