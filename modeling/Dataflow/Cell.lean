import Dataflow.Error

/-!
# Single-assignment cells

A cell is written at most once and read any number of times. Its state and one function for each
critical section on it: `put`, `destroy`, the looks of the three kinds of reader (a look that never
waits, a future that registers a waker, a thread that blocks), and the withdrawal of a registration.

A registration outlives the put and is removed when its future completes or is dropped, so that a
reader that was woken but has not run yet still counts as a waiter.
-/

namespace Dataflow

/-- Cells are numbered in the order they were made. -/
abbrev CellId := Nat

/-- What a cell holds. -/
inductive Payload (V : Type) where
  | empty
  | full (value : V)
  | destroyed
  deriving DecidableEq, Repr

/-- The observable state of a cell. -/
inductive CellState where
  | empty
  | full
  | destroyed
  deriving DecidableEq, Repr

/-- The state as inspection shows it. -/
def CellState.inspect : CellState → String
  | .empty => "Empty"
  | .full => "Full"
  | .destroyed => "Destroyed"

/-- The answer to one poll of a future. -/
inductive Poll (α : Type) where
  | pending
  | ready (answer : α)
  deriving DecidableEq, Repr

/-- A cell with payload `V`, read by futures with wakers `W`. -/
structure Cell (V W : Type) where
  payload : Payload V := .empty
  /-- Registered futures by key, in the order they registered. -/
  wakers : List (Nat × W) := []
  /-- The key of the next registration. -/
  nextKey : Nat := 0
  /-- Threads blocked on the cell. -/
  blocked : Nat := 0
  deriving DecidableEq, Repr

/-- What a blocking reader meets when it looks. -/
inductive Arrival (V W : Type) where
  | returned (answer : Except RuntimeError V)
  | waiting (cell : Cell V W)

namespace Cell

variable {V W : Type}

/-- The observable state. -/
def state (c : Cell V W) : CellState :=
  match c.payload with
  | .empty => .empty
  | .full _ => .full
  | .destroyed => .destroyed

/-- Futures and threads that wait on the cell. -/
def waiters (c : Cell V W) : Nat := c.wakers.length + c.blocked

/-- The registered wakers, in the order they registered. -/
def registered (c : Cell V W) : List W := c.wakers.map (·.2)

/-- Commit a value. The caller then wakes everyone who was registered. -/
def put (c : Cell V W) (value : V) : Except RuntimeError (Cell V W) :=
  match c.payload with
  | .empty => .ok { c with payload := .full value }
  | .full _ | .destroyed => .error .doubleWrite

/-- Release the cell; refused while anyone waits on it. -/
def destroy (c : Cell V W) : Except RuntimeError (Cell V W) :=
  match c.payload with
  | .destroyed => .error .useAfterDestroy
  | .empty | .full _ =>
    if c.waiters > 0 then .error (.destroyWithWaiters c.waiters)
    else .ok { c with payload := .destroyed }

/-- A look that does not wait. -/
def tryGet (c : Cell V W) : Except RuntimeError (Option V) :=
  match c.payload with
  | .full value => .ok (some value)
  | .empty => .ok none
  | .destroyed => .error .useAfterDestroy

/-- Remove the registration with that key. -/
def withdraw (c : Cell V W) : Option Nat → Cell V W
  | some key => { c with wakers := c.wakers.filter (·.1 != key) }
  | none => c

/-- Set the waker of a registered key, keeping its place. -/
def setWaker (wakers : List (Nat × W)) (key : Nat) (waker : W) : List (Nat × W) :=
  wakers.map fun entry => if entry.1 = key then (key, waker) else entry

/-- Register under a fresh key, or replace the waker under the key there is. A key that is not in the
list enters it again. -/
def register (c : Cell V W) (waker : W) : Option Nat → Cell V W × Nat
  | none => ({ c with wakers := c.wakers ++ [(c.nextKey, waker)], nextKey := c.nextKey + 1 }, c.nextKey)
  | some key =>
    if c.wakers.any (·.1 == key) then ({ c with wakers := setWaker c.wakers key waker }, key)
    else ({ c with wakers := c.wakers ++ [(key, waker)] }, key)

/-- Poll a future with registration `key`: the answer, and the cell and the registration afterwards. -/
def poll (c : Cell V W) (key : Option Nat) (waker : W) :
    Poll (Except RuntimeError V) × Cell V W × Option Nat :=
  match c.payload with
  | .full value => (.ready (.ok value), c.withdraw key, none)
  | .destroyed => (.ready (.error .useAfterDestroy), c.withdraw key, none)
  | .empty =>
    let (c', key') := c.register waker key
    (.pending, c', some key')

/-- A thread comes for the value: it returns with it, or counts as blocked. -/
def arrive (c : Cell V W) : Arrival V W :=
  match c.payload with
  | .full value => .returned (.ok value)
  | .destroyed => .returned (.error .useAfterDestroy)
  | .empty => .waiting { c with blocked := c.blocked + 1 }

/-- A blocked thread looks again, for the last time if its time is over. `none`: it stays blocked. -/
def recheck (c : Cell V W) (timeOver : Bool) :
    Option (Except RuntimeError (Option V)) × Cell V W :=
  match c.payload with
  | .full value => (some (.ok (some value)), { c with blocked := c.blocked - 1 })
  | .destroyed => (some (.error .useAfterDestroy), { c with blocked := c.blocked - 1 })
  | .empty =>
    if timeOver then (some (.ok none), { c with blocked := c.blocked - 1 }) else (none, c)

/-- The cell as inspection shows it. -/
def inspect (c : Cell V W) : String :=
  Text.inspectRecord "IVar" [("state", c.state.inspect), ("waiters", toString c.waiters)]

end Cell
end Dataflow
