-- SUMMARY: The command line program.
import EntityQuery.CommandLine.Program

/-!
# The command line program

Reads the environment, and standard input where a command needs it, and writes
the report of the run.
-/

open EntityQuery EntityQuery.CommandLine

/-- The variables of the environment that the program looks at. -/
def readEnvironment : IO Environment := do
  let mut environment : Environment := []
  for name in [baseUrlVariable, versionVariable] do
    if let some value ← IO.getEnv (String.ofList name) then
      environment := environment ++ [(name, value.toList)]
  return environment

/-- Runs the program. -/
def main (arguments : List String) : IO UInt32 := do
  let environment ← readEnvironment
  let invocation := readInvocation environment false (arguments.map String.toList)
  let needsInput := (invocation.map Invocation.needsInput).getD false
  let input ← if needsInput then (← IO.getStdin).readToEnd else pure ""
  let report := reportOf invocation input.toList
  IO.print (String.ofList report.output)
  IO.eprint (String.ofList report.errors)
  return report.code.toUInt32
