import Dataflow.Cell
import Dataflow.Task.State

/-!
# Bodies

What a task does, as a tree of instructions on cells and pools. Each instruction names what it touches
and goes on with what it got back. `V` is the type of payloads, `J` that of the jobs that a body may
spawn. A body that waits is again a body: its first instruction remembers under which keys it is
registered.
-/

namespace Dataflow

/-- Pools are numbered in the order they were started. -/
abbrev PoolId := Nat

/-- Says its label when the body that made it ends, however that comes about, and may then fill a cell. -/
structure Guard (V : Type) where
  label : String
  fill : Option (CellId × V) := none

/-- How a body ends. -/
inductive Outcome where
  | returned (result : Except RuntimeError Unit)
  /-- With the message, if the panic carries a text. -/
  | panicked (message : Option String)

/-- What running code tells the outside. -/
inductive Note (V : Type) where
  /-- A line of text. -/
  | line (text : String)
  | spawned (result : Except RuntimeError TaskId)
  | read (result : Except RuntimeError (Option V))
  | flag (b : Bool)
  /-- Code that belongs to no task is pending. -/
  | paused
  /-- Code that belongs to no task has ended. -/
  | ended (outcome : Outcome)

/-- One of the reads that an instruction waits for. -/
inductive Wait (V : Type) where
  /-- Not answered, with the key of its registration, if there is one. -/
  | open (cell : CellId) (key : Option Nat)
  | answered (answer : Except RuntimeError V)

/-- The registration of a read. -/
def Wait.held {V : Type} : Wait V → List (CellId × Nat)
  | .open c (some key) => [(c, key)]
  | _ => []

/-- What a read is after a poll that left it registered under `key`. -/
def Wait.ofPoll {V : Type} (c : CellId) (key : Option Nat) : Poll (Except RuntimeError V) → Wait V
  | .pending => .open c key
  | .ready answer => .answered answer

/-- A body, or what is left of one. -/
inductive Body (V J : Type) where
  | done (result : Except RuntimeError Unit)
  | panic (message : Option String)
  /-- Wait until the cell is full. -/
  | get (cell : CellId) (key : Option Nat) (next : Except RuntimeError V → Body V J)
  /-- Wait until both reads are answered; `second`: it is the second one's turn to be polled. -/
  | join (a b : Wait V) (second : Bool) (next : Except RuntimeError V → Except RuntimeError V → Body V J)
  /-- Wait until one of two reads is answered and withdraw the other. -/
  | select (a b : CellId × Option Nat) (second : Bool) (next : Except RuntimeError V → Body V J)
  /-- Wake oneself so many times and pause once. -/
  | yield (times : Nat) (next : Body V J)
  /-- Hand out one's waker and pause once. -/
  | stash (next : Body V J)
  | put (cell : CellId) (value : V) (next : Except RuntimeError Unit → Body V J)
  | destroy (cell : CellId) (next : Except RuntimeError Unit → Body V J)
  | tryGet (cell : CellId) (next : Except RuntimeError (Option V) → Body V J)
  /-- The cell's state, and how many wait on it. -/
  | look (cell : CellId) (next : CellState → Nat → Body V J)
  /-- Block the thread until the cell is full. -/
  | getBlocking (cell : CellId) (next : Except RuntimeError V → Body V J)
  /-- Block the thread until the cell is full or the time is over. -/
  | getTimeout (cell : CellId) (next : Except RuntimeError (Option V) → Body V J)
  | newCell (next : CellId → Body V J)
  | note (note : Note V) (next : Body V J)
  | guard (guard : Guard V) (next : Body V J)
  /-- Spawn a job, on the pool of the running thread if none is named. -/
  | spawn (pool : Option PoolId) (job : J) (next : Except RuntimeError TaskId → Body V J)
  /-- Spawn a job, and whenever the pool is full wait until it is idle and try again. -/
  | submit (pool : PoolId) (job : J) (next : Except RuntimeError TaskId → Body V J)
  /-- Whether the thread belongs to a running pool. -/
  | current (next : Bool → Body V J)
  /-- Wake the waker handed out as number `index`. -/
  | wakeStashed (index : Nat) (next : Body V J)
  /-- Block the thread until nothing is queued or running on the pool. -/
  | waitIdle (pool : PoolId) (next : Body V J)
  | shutdown (pool : PoolId) (next : Body V J)

namespace Body

variable {V J : Type}

/-- Say a line of text. -/
def say (text : String) (next : Body V J) : Body V J := .note (.line text) next

/-- Go on with the value of a successful answer; an error ends the body. -/
def orFail {α : Type} (next : α → Body V J) : Except RuntimeError α → Body V J
  | .ok a => next a
  | .error e => .done (.error e)

/-- The registrations that a waiting body holds. -/
def held : Body V J → List (CellId × Nat)
  | .get c (some key) _ => [(c, key)]
  | .join a b _ _ => a.held ++ b.held
  | .select (a, ka) (b, kb) _ _ => (Wait.open a ka : Wait V).held ++ (Wait.open b kb : Wait V).held
  | _ => []

end Body
end Dataflow
