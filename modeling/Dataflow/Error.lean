import Dataflow.Tag
import Dataflow.Text.Inspect

/-!
# Runtime errors

Everything that cells, pools and the unpacking of arguments can refuse, with the message, the
inspection text and the two classes of errors: broken contracts, which no retry mends, and refusals
that a later try may not meet.
-/

namespace Dataflow

/-- A refusal by a cell, a pool or the unpacking of arguments. -/
inductive RuntimeError where
  | doubleWrite
  | useAfterDestroy
  /-- So many readers still wait on the cell. -/
  | destroyWithWaiters (waiters : Nat)
  /-- The bound on unclaimed tasks is reached. -/
  | spawnBackpressure (capacity : Nat)
  | typeMismatch (index : Nat) (expected found : Tag)
  | arityMismatch (expected found : Nat)
  | poolShutDown
  | noCurrentPool
  | taskPanicked (text : String)
  | invalidConfig (text : String)
  deriving DecidableEq, Repr

namespace RuntimeError

/-- The message. -/
def message : RuntimeError → String
  | .doubleWrite => "Cell written twice"
  | .useAfterDestroy => "Cell used after destroy"
  | .destroyWithWaiters waiters => "Cell destroyed with " ++ toString waiters ++ " pending waiter(s)"
  | .spawnBackpressure capacity =>
    "Spawn rejected: ready queue at capacity (" ++ toString capacity ++ ")"
  | .typeMismatch index expected found =>
    "Argument " ++ toString index ++ ": expected " ++ expected.text ++ ", found " ++ found.text
  | .arityMismatch expected found =>
    "Arity mismatch: entry takes " ++ toString expected ++ " argument(s), " ++ toString found ++
      " packed"
  | .poolShutDown => "Task pool has shut down"
  | .noCurrentPool => "No task pool is running on this thread"
  | .taskPanicked text => "Task panicked: " ++ text
  | .invalidConfig text => "Invalid pool configuration: " ++ text

/-- The name of the kind of error. -/
def kind : RuntimeError → String
  | .doubleWrite => "DoubleWrite"
  | .useAfterDestroy => "UseAfterDestroy"
  | .destroyWithWaiters _ => "DestroyWithWaiters"
  | .spawnBackpressure _ => "SpawnBackpressure"
  | .typeMismatch .. => "TypeMismatch"
  | .arityMismatch .. => "ArityMismatch"
  | .poolShutDown => "PoolShutDown"
  | .noCurrentPool => "NoCurrentPool"
  | .taskPanicked _ => "TaskPanicked"
  | .invalidConfig _ => "InvalidConfig"

/-- The error as inspection shows it: the kind with what else is known. -/
def inspect (e : RuntimeError) : String :=
  match e with
  | .destroyWithWaiters waiters => Text.inspectRecord e.kind [("waiters", toString waiters)]
  | .spawnBackpressure capacity => Text.inspectRecord e.kind [("capacity", toString capacity)]
  | .typeMismatch index expected found =>
    Text.inspectRecord e.kind
      [("index", toString index), ("expected", expected.inspect), ("found", found.inspect)]
  | .arityMismatch expected found =>
    Text.inspectRecord e.kind [("expected", toString expected), ("found", toString found)]
  | .taskPanicked text | .invalidConfig text => Text.inspectCall e.kind (Text.inspectString text)
  | .doubleWrite | .useAfterDestroy | .poolShutDown | .noCurrentPool => e.kind

/-- A cell or typing contract was broken; retrying never helps. -/
def isContractViolation : RuntimeError → Bool
  | .doubleWrite | .useAfterDestroy | .destroyWithWaiters _ => true
  | .typeMismatch .. | .arityMismatch .. => true
  | _ => false

/-- The same call may succeed later. -/
def isRecoverable : RuntimeError → Bool
  | .spawnBackpressure _ => true
  | _ => false

end RuntimeError

/-- The inspection text of a result. -/
def inspectResult {α : Type} (render : α → String) : Except RuntimeError α → String
  | .ok a => Text.inspectCall "Ok" (render a)
  | .error e => Text.inspectCall "Err" e.inspect

end Dataflow
