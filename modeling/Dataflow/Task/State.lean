import Dataflow.Text.Inspect

/-!
# Task states

A task is queued, being polled, parked, polled and woken meanwhile, or finished. The state is kept in
one byte, which several threads load, compare and exchange.
-/

namespace Dataflow

/-- Tasks of a pool are numbered in the order they were accepted. -/
abbrev TaskId := Nat

/-- The name of a task that was given none. -/
def TaskId.text (id : TaskId) : String := Text.inspectCall "Task" (toString id)

/-- The number as inspection shows it. -/
def TaskId.inspect (id : TaskId) : String := Text.inspectCall "TaskId" (toString id)

/-- Hands out task numbers, from zero. -/
structure TaskIds where
  next : TaskId := 0

/-- The next number. -/
def TaskIds.take (ids : TaskIds) : TaskId × TaskIds := (ids.next, ⟨ids.next + 1⟩)

/-- The next `count` numbers. -/
def TaskIds.takeMany (ids : TaskIds) : Nat → List TaskId
  | 0 => []
  | count + 1 =>
    let (id, ids) := ids.take
    id :: ids.takeMany count

/-- Where a task stands. -/
inductive TaskState where
  /-- In a ready queue. -/
  | queued
  /-- Being polled by a worker. -/
  | running
  /-- Parked; in no queue. -/
  | suspended
  /-- Being polled, and woken since the poll began. -/
  | notified
  /-- The body returned. -/
  | completed
  /-- The body ended with an error or a panic, or was released unfinished. -/
  | failed
  deriving DecidableEq, Repr

namespace TaskState

/-- All states, in the order of their codes. -/
def all : List TaskState := [.queued, .running, .suspended, .notified, .completed, .failed]

/-- The byte that stands for the state. -/
def code : TaskState → Nat
  | .queued => 0
  | .running => 1
  | .suspended => 2
  | .notified => 3
  | .completed => 4
  | .failed => 5

/-- The state that a byte stands for; queued for bytes that stand for none. -/
def ofCode (code : Nat) : TaskState := all[code]?.getD .queued

/-- The task will never run again. -/
def isTerminal : TaskState → Bool
  | .completed | .failed => true
  | _ => false

/-- What a wake call that sees this state tries to change it to; `none` if it has nothing to do. -/
def wakeTarget? : TaskState → Option TaskState
  | .suspended => some .queued
  | .running => some .notified
  | _ => none

/-- The state as inspection shows it. -/
def inspect : TaskState → String
  | .queued => "Queued"
  | .running => "Running"
  | .suspended => "Suspended"
  | .notified => "Notified"
  | .completed => "Completed"
  | .failed => "Failed"

/-- Compare and exchange: the new state, or the refusal with the state that was seen. -/
def exchange (state expected desired : TaskState) : Except TaskState TaskState :=
  if state = expected then .ok desired else .error state

end TaskState
end Dataflow
