import Dataflow.Settings
import Dataflow.Toml.Document

/-!
# Settings as documents

Settings are a document with the tables `pool` and `log`. What is missing in it has its default, and
what it holds besides is ignored.
-/

namespace Dataflow

open Toml (Value)

namespace Settings

-- powers are those of the core, whatever else is in scope
attribute [local instance (high)] instPowNat

/-- The fields of a record, by name or by number. -/
abbrev Fields := String → Nat → Option Value

/-- The fields of a value that describes a record: those of a table by their names, those of an array by
their numbers. A moment has none. -/
def fields? : Value → Option Fields
  | .table _ members => some fun name _ => members.lookup name
  | .array items => some fun _ i => items[i]?
  | .rows tables => some fun _ i => tables[i]?.map (.table .header)
  | .moment => some fun _ _ => none
  | _ => none

/-- What is read off a field, or its default. -/
def orDefault {α : Type} (default : α) (read : Value → Option α) : Option Value → Option α
  | none => some default
  | some v => read v

/-- A number that is not negative. -/
def count? : Value → Option Nat
  | .integer i => if 0 ≤ i then some i.toNat else none
  | _ => none

/-- A truth value. -/
def truth? : Value → Option Bool
  | .truth b => some b
  | _ => none

/-- A text. -/
def text? : Value → Option String
  | .text s => some s
  | _ => none

/-- The value holds nothing. -/
def isHollow : Value → Bool
  | .array [] | .table _ [] | .rows [] => true
  | _ => false

/-- One of several choices: its name, or a table with the name as its only key and nothing in it. -/
def choice? {α : Type} (names : List (String × α)) : Value → Option α
  | .text s => names.lookup s
  | .table _ [(name, v)] => if isHollow v then names.lookup name else none
  | _ => none

/-- The policies by their names. -/
def policies : List (String × FaultPolicy) := [FaultPolicy.abortTask, .abortProcess].map fun p => (p.text, p)

/-- The levels by their names. -/
def levels : List (String × LogLevel) := LogLevel.all.map fun l => (l.text, l)

/-- Read the set-up of a pool. -/
def pool? (v : Value) : Option PoolConfig := do
  let d : PoolConfig := {}
  let get ← fields? v
  return {
    numWorkers := ← orDefault d.numWorkers count? (get "num_workers" 0)
    maxQueueSize := ← orDefault d.maxQueueSize count? (get "max_queue_size" 1)
    stealBatch := ← orDefault d.stealBatch count? (get "steal_batch" 2)
    useWorkStealing := ← orDefault d.useWorkStealing truth? (get "use_work_stealing" 3)
    idleTimeoutMs := ← orDefault d.idleTimeoutMs count? (get "idle_timeout_ms" 4)
    stackSize := ← orDefault d.stackSize count? (get "stack_size" 5)
    threadNamePrefix := ← orDefault d.threadNamePrefix text? (get "thread_name_prefix" 6)
    faultPolicy := ← orDefault d.faultPolicy (choice? policies) (get "fault_policy" 7) }

/-- Read what is logged. -/
def logLevel? (v : Value) : Option LogLevel := do
  orDefault .info (choice? levels) ((← fields? v) "level" 0)

/-- Read settings. -/
def ofMembers? (members : Toml.Members) : Option Settings := do
  return {
    pool := ← orDefault {} pool? (members.lookup "pool")
    logLevel := ← orDefault .info logLevel? (members.lookup "log") }

/-- The settings that a text describes. -/
def ofText? (text : String) : Option Settings := do ofMembers? (← Toml.ofText? text)

/-- Numbers in a document are below this bound. -/
def numberBound : Nat := 2 ^ (63 : Nat)

/-- The numbers in the set-up of a pool, with their names. -/
def numbers (c : PoolConfig) : List Nat :=
  [c.numWorkers, c.maxQueueSize, c.stealBatch, c.idleTimeoutMs, c.stackSize]

/-- A line that gives a key its value. -/
def line (name value : String) : String := name ++ " = " ++ value ++ "\n"

/-- The document that describes the settings, if no number is too large and the text can be quoted. -/
def toText (s : Settings) : Except SettingsError String :=
  let p := s.pool
  if (numbers p).any (numberBound ≤ ·) then .error .unwritable
  else if !Toml.isQuotable p.threadNamePrefix then .error .uncounted
  else
    .ok (String.join ["[pool]\n", line "num_workers" (toString p.numWorkers),
      line "max_queue_size" (toString p.maxQueueSize), line "steal_batch" (toString p.stealBatch),
      line "use_work_stealing" (toString p.useWorkStealing),
      line "idle_timeout_ms" (toString p.idleTimeoutMs), line "stack_size" (toString p.stackSize),
      line "thread_name_prefix" (Toml.quote p.threadNamePrefix),
      line "fault_policy" (Toml.quote p.faultPolicy.text), "\n", "[log]\n",
      line "level" (Toml.quote s.logLevel.text)])

end Settings
end Dataflow
