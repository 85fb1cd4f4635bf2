import Dataflow.Cell

/-!
# A cell and its readers

A room is a cell together with the futures that read it, the threads that wait for it, and the signal
that a put sends to the threads after it has left its critical section. `Room.step` takes one critical
section or one signal at a time, so a run is any interleaving of a writer, pollers and blocked threads.
-/

namespace Dataflow

/-- A future that reads a cell: registered under a key, or not; or dropped. -/
inductive CellFuture where
  | live (key : Option Nat)
  | dropped
  deriving DecidableEq, Repr

/-- A thread that reads a cell, with or without a limit on its time. -/
inductive Reader (V : Type) where
  | waiting (timed : Bool)
  | returned (timed : Bool) (answer : Except RuntimeError (Option V))

/-- A cell and everyone who reads it. -/
structure Room (V W : Type) where
  cell : Cell V W := {}
  /-- Futures, by number. -/
  futures : List CellFuture := []
  /-- Threads, by number. -/
  readers : List (Reader V) := []
  /-- A put has committed while threads were blocked, and has not signalled yet. -/
  signalDue : Bool := false
  /-- Threads that wait may look again. -/
  signalled : Bool := false

namespace Room

variable {V W : Type}

/-- One indivisible step of someone in the room. -/
inductive Action (V W : Type) where
  | put (value : V)
  | signal
  | destroy
  | tryGet
  | state
  | waiters
  /-- Make a future. -/
  | get
  | poll (future : Nat) (waker : W)
  | drop (future : Nat)
  /-- A thread comes to read. -/
  | arrive (timed : Bool)
  /-- A blocked thread goes on, because it was signalled or because its time is over. -/
  | resume (reader : Nat) (timeOver : Bool)

/-- The answer to a step. -/
inductive Answer (V W : Type) where
  /-- The result of a put, and whom it wakes. -/
  | written (result : Except RuntimeError Unit) (woken : List W)
  | done (result : Except RuntimeError Unit)
  | read (result : Except RuntimeError (Option V))
  | state (state : CellState)
  | count (n : Nat)
  | polled (answer : Poll (Except RuntimeError V))
  /-- The thread has to wait, or waits on. -/
  | blocked (reader : Nat)
  /-- The thread has its answer. -/
  | returned (reader : Nat) (timed : Bool) (answer : Except RuntimeError (Option V))
  /-- Whether the future was still there. -/
  | dropped (present : Bool)
  /-- There was nothing to do, or no one to do it. -/
  | nothing

/-- Commit a value: everyone registered is to be woken, and threads that wait will be signalled. -/
def put (r : Room V W) (value : V) : Room V W × Answer V W :=
  match r.cell.put value with
  | .error e => (r, .written (.error e) [])
  | .ok cell =>
    ({ r with cell, signalDue := decide (r.cell.blocked > 0) }, .written (.ok ()) r.cell.registered)

/-- Poll a future; a dropped one answers nothing. -/
def poll (r : Room V W) (future : Nat) (waker : W) : Room V W × Answer V W :=
  match r.futures[future]? with
  | some (.live key) =>
    let (answer, cell, key) := r.cell.poll key waker
    ({ r with cell, futures := r.futures.set future (.live key) }, .polled answer)
  | _ => (r, .nothing)

/-- Drop a future, with its registration. -/
def drop (r : Room V W) (future : Nat) : Room V W × Answer V W :=
  match r.futures[future]? with
  | some (.live key) =>
    ({ r with cell := r.cell.withdraw key, futures := r.futures.set future .dropped }, .dropped true)
  | _ => (r, .dropped false)

/-- A thread comes to read and takes the next number. -/
def arrive (r : Room V W) (timed : Bool) : Room V W × Answer V W :=
  let n := r.readers.length
  match r.cell.arrive with
  | .returned answer =>
    let answer := answer.map some
    ({ r with readers := r.readers ++ [.returned timed answer] }, .returned n timed answer)
  | .waiting cell => ({ r with cell, readers := r.readers ++ [.waiting timed] }, .blocked n)

/-- A waiting thread goes on. Time can only run out for a timed one, and the others need the signal. -/
def resume (r : Room V W) (reader : Nat) (timeOver : Bool) : Room V W × Answer V W :=
  match r.readers[reader]? with
  | some (.waiting timed) =>
    if (if timeOver then timed else r.signalled) then
      match r.cell.recheck timeOver with
      | (none, cell) => ({ r with cell }, .blocked reader)
      | (some answer, cell) =>
        ({ r with cell, readers := r.readers.set reader (.returned timed answer) },
          .returned reader timed answer)
    else (r, .nothing)
  | _ => (r, .nothing)

/-- One step. -/
def step (r : Room V W) : Action V W → Room V W × Answer V W
  | .put value => r.put value
  | .signal =>
    if r.signalDue then ({ r with signalDue := false, signalled := true }, .done (.ok ()))
    else (r, .nothing)
  | .destroy =>
    match r.cell.destroy with
    | .error e => (r, .done (.error e))
    | .ok cell => ({ r with cell }, .done (.ok ()))
  | .tryGet => (r, .read r.cell.tryGet)
  | .state => (r, .state r.cell.state)
  | .waiters => (r, .count r.cell.waiters)
  | .get => ({ r with futures := r.futures ++ [.live none] }, .count r.futures.length)
  | .poll future waker => r.poll future waker
  | .drop future => r.drop future
  | .arrive timed => r.arrive timed
  | .resume reader timeOver => r.resume reader timeOver

/-- A run: the room afterwards and the answers, in order. -/
def run (r : Room V W) : List (Action V W) → Room V W × List (Answer V W)
  | [] => (r, [])
  | a :: as =>
    let (r', answer) := r.step a
    let (last, answers) := r'.run as
    (last, answer :: answers)

/-- Threads that wait, by number. -/
def waiting (r : Room V W) : List Nat :=
  (List.range r.readers.length).filter fun i =>
    match r.readers[i]? with
    | some (.waiting _) => true
    | _ => false

end Room
end Dataflow
