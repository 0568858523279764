import TaskScheduler.CommandLine.Options
import TaskScheduler.Config.Environment

/-!
# Invocations

What the program is asked to do: one of four commands with its options.  Where the options do not
say it, the address of the store and the prefix of its keys come from the environment.
-/

namespace TaskScheduler.CommandLine

/-- What the program is asked to do. -/
inductive Command where
  /-- Run the queued tasks. -/
  | worker (waitBuffer : Option UInt64) (printMetrics : Bool)
  /-- Queue a task. -/
  | push (taskType data : String) (timeoutMs : UInt64) (priority : Int64)
  /-- Take a task off the queue. -/
  | cancel (id : String)
  /-- Show the record of a task. -/
  | result (id : String)
  deriving DecidableEq, Repr

/-- A command with the options that all commands share. -/
structure Invocation where
  /-- The command. -/
  command : Command
  /-- How much is logged. -/
  logLevel : String
  /-- Where the store is. -/
  redisUrl : Option String
  /-- What every key begins with. -/
  keyPrefix : Option String
  deriving DecidableEq, Repr

/-! ### What may be given -/

/-- The type of the tasks that every worker runs. -/
def echoType : String := "echo"

/-- How much is logged where nothing else is said. -/
def defaultLogLevel : String := "info"

/-- The options that may stand before and after a subcommand. -/
def globalOptions : List OptionSpec :=
  [⟨"log-level", some 'l', .value .text false⟩, ⟨"help", some 'h', .help⟩]

/-- What may stand before the subcommand. -/
def topLevel : Level where
  options := globalOptions ++ [⟨"version", some 'V', .version⟩]
  operands := []
  subcommands := ["worker", "push", "cancel", "result", "help"]

/-- The options of every subcommand. -/
def commonOptions : List OptionSpec :=
  globalOptions ++
    [⟨"redis-url", none, .value .text false⟩, ⟨"key-prefix", none, .value .text false⟩]

/-- What may stand after a subcommand. -/
def levelOf : String → Level
  | "worker" =>
    ⟨commonOptions ++
      [⟨"wait-buffer", none, .value .word false⟩, ⟨"print-metrics", none, .flag⟩], [], []⟩
  | "push" =>
    ⟨commonOptions ++
      [⟨"type", some 't', .value .text false⟩, ⟨"data", some 'd', .value .text false⟩,
        ⟨"timeout-ms", none, .value .word false⟩,
        ⟨"priority", some 'p', .value .integer true⟩], [], []⟩
  | _ => ⟨commonOptions, ["id"], []⟩

/-! ### Reading -/

/-- Take a variable for an option that was not given. -/
def fromVariable (env : Environment) (name key : String) (r : Reading) :
    Except UsageError Reading :=
  if r.found.contains name then .ok r
  else
    match env.get? key with
    | none => .ok r
    | some bytes =>
      match Bytes.toString? bytes with
      | some s => .ok { r with found := r.found.insert name s }
      | none => .error .invalidUtf8

/-- The values of the options and operands after a subcommand. -/
def readSubcommand (env : Environment) (name : String) (args : List String) :
    Except UsageError (FiniteMap String String) := do
  let level := levelOf name
  let (r, _) ← readLevel level { operands := level.operands } args
  let r ← r.settle
  let r ← fromVariable env "redis-url" "TASKFLOW_REDIS_URL" r
  let r ← fromVariable env "key-prefix" "TASKFLOW_KEY_PREFIX" r
  if r.operands.isEmpty then return r.found else throw UsageError.missingRequiredArgument

/-- The command with the given values. -/
def commandOf (name : String) (found : FiniteMap String String) : Command :=
  match name with
  | "worker" =>
    .worker ((found.get? "wait-buffer").bind wordLiteral?) (found.contains "print-metrics")
  | "push" =>
    .push (found.getD "type" echoType) (found.getD "data" "null")
      (((found.get? "timeout-ms").bind wordLiteral?).getD 0)
      (((found.get? "priority").bind intLiteral?).getD 0)
  | "cancel" => .cancel (found.getD "id" "")
  | _ => .result (found.getD "id" "")

/-- What asking for help about a command comes to. -/
def helpFor : List String → UsageError
  | [] => .displayHelp
  | [name] => if topLevel.subcommands.contains name then .displayHelp else .invalidSubcommand
  | _ => .invalidSubcommand

/-- What the arguments of a program ask for. -/
def Invocation.parse (env : Environment) (args : List String) : Except UsageError Invocation := do
  let (r, rest) ← readLevel topLevel { operands := [] } args
  match rest with
  | some ("help", names) => throw (helpFor names)
  | some (name, args) =>
    let found ← readSubcommand env name args
    let r ← r.settle
    let logLevel := ((found.get? "log-level").or (r.found.get? "log-level")).getD defaultLogLevel
    return ⟨commandOf name found, logLevel, found.get? "redis-url", found.get? "key-prefix"⟩
  | none =>
    let r ← r.settle
    throw (if r.found.isEmpty then .helpForNothing else .missingSubcommand)

end TaskScheduler.CommandLine
