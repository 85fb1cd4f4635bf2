import Dataflow.Number.Numeral
import Dataflow.Settings
import Dataflow.Text.Blank

/-!
# Overrides

Variables of the environment that replace single settings. They are applied in a fixed order; the first
one with a value that it must not have ends that, and what was applied before it stays.
-/

namespace Dataflow

/-- A variable that replaces a setting. -/
inductive Override where
  | workers
  | queueCapacity
  | faultPolicy
  | logLevel
  deriving DecidableEq, Repr

namespace Override

-- powers are those of the core, whatever else is in scope
attribute [local instance (high)] instPowNat

/-- The variable's name. -/
def name : Override → String
  | .workers => "IVARPOOL_WORKERS"
  | .queueCapacity => "IVARPOOL_QUEUE_CAPACITY"
  | .faultPolicy => "IVARPOOL_FAULT_POLICY"
  | .logLevel => "IVARPOOL_LOG"

/-- The variables in the order in which they are applied. -/
def all : List Override := [.workers, .queueCapacity, .faultPolicy, .logLevel]

/-- Sizes are below this bound. -/
def sizeBound : Nat := 2 ^ (64 : Nat)

/-- The size that a text denotes; white space around it does not matter. -/
def size? (value : String) : Option Nat := Numeral.nat? sizeBound (Text.trim value.toList)

/-- The policy that a text names. -/
def policy? : String → Option FaultPolicy
  | "abort_task" | "task" => some .abortTask
  | "abort_process" | "process" => some .abortProcess
  | _ => none

/-- The settings with one of them replaced, if the value is one that the variable may have. -/
def replace? (o : Override) (value : String) (s : Settings) : Option Settings :=
  match o with
  | .workers => (size? value).map fun n => { s with pool := { s.pool with numWorkers := n } }
  | .queueCapacity => (size? value).map fun n => { s with pool := { s.pool with maxQueueSize := n } }
  | .faultPolicy =>
    (policy? value).map fun policy => { s with pool := { s.pool with faultPolicy := policy } }
  | .logLevel => (LogLevel.ofText? value).map fun level => { s with logLevel := level }

end Override

namespace Settings

/-- Apply the overrides of a list in turn: the settings afterwards, and the error at the first variable
with a bad value. -/
def applyOverrides (lookup : String → Option String) :
    List Override → Settings → Settings × Except SettingsError Unit
  | [], s => (s, .ok ())
  | o :: rest, s =>
    match lookup o.name with
    | none => applyOverrides lookup rest s
    | some value =>
      match o.replace? value s with
      | none => (s, .error (.invalidVariable o.name value))
      | some s => applyOverrides lookup rest s

/-- Apply every override. -/
def override (s : Settings) (lookup : String → Option String) : Settings × Except SettingsError Unit :=
  applyOverrides lookup Override.all s

end Settings
end Dataflow
