import TaskScheduler.Data.FiniteMap
import TaskScheduler.Number.Literal
import TaskScheduler.Text.Bytes

/-!
# Settings from the environment

Settings are read from environment variables.  A variable whose value is not valid UTF-8 counts as
unset; a number that cannot be read is an error that names the variable.
-/

namespace TaskScheduler

/-- Why settings were refused. -/
inductive ConfigError where
  /-- A variable has a value that cannot be read. -/
  | invalidValue (key reason : String)
  /-- The settings do not fit together. -/
  | validationFailed (reason : String)
  deriving DecidableEq, Repr

/-- The text of an error. -/
def ConfigError.message : ConfigError → String
  | .invalidValue key reason => "Invalid value for " ++ key ++ ": " ++ reason
  | .validationFailed reason => "Configuration validation failed: " ++ reason

/-- The variables of a process. -/
abbrev Environment := FiniteMap String Bytes

namespace Environment

/-- The text of a variable, if it is set to one. -/
def text? (env : Environment) (name : String) : Option String :=
  (env.get? name).bind Bytes.toString?

/-- A variable read as a number, or nothing when it is unset. -/
def number? {α : Type} (read : String → Option α) (env : Environment) (name : String) :
    Except ConfigError (Option α) :=
  match env.text? name with
  | none => .ok none
  | some s =>
    match read s with
    | some n => .ok (some n)
    | none => .error (.invalidValue name ("could not parse '" ++ s ++ "'"))

end Environment

end TaskScheduler
