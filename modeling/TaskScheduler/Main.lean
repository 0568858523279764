import TaskScheduler.CommandLine.Run

/-!
# The program

One command of the command line, run on a store inside the process.
-/

namespace TaskScheduler.CommandLine

/-- The variables that the program looks at. -/
def variableNames : List String :=
  ["TASKFLOW_REDIS_URL", "TASKFLOW_KEY_PREFIX", "TASKFLOW_RESULT_TTL_SECS", "TASKFLOW_WAIT_BUFFER",
    "TASKFLOW_POLL_INTERVAL_MS", "TASKFLOW_DRAIN_POLL_MS", "TASKFLOW_DRAIN_LOG_SECS",
    "TASKFLOW_DEFAULT_PRIORITY"]

/-- The variables of the process. -/
def processEnvironment : IO Environment := do
  let pairs ← variableNames.filterMapM fun name => do
    return (← IO.getEnv name).map fun value => (name, Bytes.ofString value)
  return FiniteMap.ofList pairs

/-- What is printed about a command line that was refused. -/
def UsageError.text : UsageError → String
  | .displayHelp => "usage: worker | push | cancel ID | result ID"
  | .displayVersion => "0.1.0"
  | .helpForNothing => "usage: worker | push | cancel ID | result ID"
  | .missingSubcommand => "a command is missing"
  | .invalidSubcommand => "unknown command"
  | .unknownArgument => "unknown argument"
  | .missingRequiredArgument => "an argument is missing"
  | .invalidValue => "an option has no value"
  | .valueValidation => "a value cannot be read"
  | .argumentConflict => "an option is repeated"
  | .tooManyValues => "a flag has a value"
  | .invalidUtf8 => "a value is not valid UTF-8"

/-- Whether an address is one of the store inside the process. -/
def isOwnAddress (url : String) : Bool := "redis://".toList.isPrefixOf url.toList

end TaskScheduler.CommandLine

open TaskScheduler CommandLine

/-- Run one command and print what it prints. -/
def main (args : List String) : IO UInt32 := do
  let env ← processEnvironment
  match Invocation.parse env args with
  | .error e =>
    IO.eprintln e.text
    return UInt32.ofNat e.exitCode
  | .ok i =>
    let (answer, _) := i.run ⟨env, isOwnAddress, .epoch⟩ .empty
    match answer with
    | .ok lines =>
      lines.forM IO.println
      return 0
    | .error e =>
      IO.eprintln ("Error: " ++ e.message)
      return 1
