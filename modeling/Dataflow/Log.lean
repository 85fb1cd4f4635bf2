import Dataflow.Text.Inspect

/-!
# Logging

Levels of importance, their names, and a logger that prints what is at least as important as its level.
-/

namespace Dataflow

/-- How important a line is, least first. -/
inductive LogLevel where
  | trace
  | debug
  | info
  | warn
  | error
  deriving DecidableEq, Repr

namespace LogLevel

instance : Inhabited LogLevel := ⟨.info⟩

/-- Every level, least first. -/
def all : List LogLevel := [.trace, .debug, .info, .warn, .error]

/-- The level's name. -/
def text : LogLevel → String
  | .trace => "trace"
  | .debug => "debug"
  | .info => "info"
  | .warn => "warn"
  | .error => "error"

/-- The name as it stands in log lines. -/
def mark : LogLevel → String
  | .trace => "TRACE"
  | .debug => "DEBUG"
  | .info => "INFO"
  | .warn => "WARN"
  | .error => "ERROR"

/-- The level as inspection shows it. -/
def inspect : LogLevel → String
  | .trace => "Trace"
  | .debug => "Debug"
  | .info => "Info"
  | .warn => "Warn"
  | .error => "Error"

/-- How important the level is. -/
def rank : LogLevel → Nat
  | .trace => 0
  | .debug => 1
  | .info => 2
  | .warn => 3
  | .error => 4

/-- The names that a level is read from, in lower case. -/
def names : List (String × LogLevel) :=
  [("trace", .trace), ("debug", .debug), ("info", .info), ("warn", .warn), ("warning", .warn),
    ("error", .error)]

/-- The level with that name. The case of the letters a to z does not matter. -/
def ofText? (s : String) : Option LogLevel :=
  names.lookup (String.ofList (s.toList.map Char.toLower))

/-- What is said about a name that no level has. -/
def unknownMessage (s : String) : String := "Unknown log level: " ++ s

/-- A level is read back from its name. -/
theorem ofText?_text (l : LogLevel) : ofText? l.text = some l := by
  cases l <;> rfl

end LogLevel

/-- Prints lines once it has a level; the first level that it gets is the one that counts. -/
structure Logger where
  level : Option LogLevel := none

namespace Logger

/-- Set the level, if there is none yet. -/
def init (l : Logger) (level : LogLevel := .info) : Logger := ⟨some (l.level.getD level)⟩

/-- Lines of that importance are printed. -/
def prints (l : Logger) (level : LogLevel) : Bool :=
  match l.level with
  | none => false
  | some least => least.rank ≤ level.rank

/-- The printed line for a message of a thread: the level fills five columns from the right. -/
def line (level : LogLevel) (thread message : String) : String :=
  String.ofList (List.replicate (5 - level.mark.length) ' ') ++ level.mark ++ " " ++ thread ++ " " ++
    message

/-- What is printed for messages of one thread. -/
def log (l : Logger) (thread : String) (messages : List (LogLevel × String)) : List String :=
  (messages.filter fun m => l.prints m.1).map fun m => line m.1 thread m.2

end Logger
end Dataflow
