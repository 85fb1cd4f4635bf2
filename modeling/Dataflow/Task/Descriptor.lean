import Dataflow.Task.State

/-!
# A task and its owner

The descriptor of one task, whose owner takes it back when it is woken out of its parking place. Once
the owner is gone, waking still changes the state but leads nowhere.
-/

namespace Dataflow

/-- A task as those who wake it see it. -/
structure TaskDescriptor where
  id : TaskId
  name : String
  state : TaskState := .queued
  /-- The owner is still there. -/
  owned : Bool := true
  /-- The tasks handed back to the owner so far. -/
  rescheduled : List TaskId := []
  deriving DecidableEq, Repr

namespace TaskDescriptor

/-- The task will never run again. -/
def isFinished (t : TaskDescriptor) : Bool := t.state.isTerminal

/-- Move from one state to another, if the task is in the first; otherwise the state that was seen. -/
def transition (t : TaskDescriptor) (expected desired : TaskState) :
    Except TaskState Unit × TaskDescriptor :=
  match t.state.exchange expected desired with
  | .ok state => (.ok (), { t with state })
  | .error seen => (.error seen, t)

/-- Wake the task. Out of its parking place it goes back to its owner. -/
def wake (t : TaskDescriptor) : TaskDescriptor :=
  match t.state.wakeTarget? with
  | none => t
  | some state =>
    { t with
      state
      rescheduled :=
        if state = .queued ∧ t.owned then t.rescheduled ++ [t.id] else t.rescheduled }

/-- The task as inspection shows it. -/
def inspect (t : TaskDescriptor) : String :=
  Text.inspectRecord "Task"
    [("id", t.id.inspect), ("name", Text.inspectString t.name), ("state", t.state.inspect)]

end TaskDescriptor
end Dataflow
