import Dataflow.Pool.Frame

/-!
# Threads

A machine is the shared store and the threads on it. Any thread that is not blocked may take the next
step, so the runs of a machine are all interleavings. `Machine.settle` is one of them: thread by
thread, each as far as it gets, until nobody has anything left to do.
-/

namespace Dataflow

/-- A thread: the worker that it is, if any, and its frames, the next step first. -/
structure Thread (V J : Type) where
  worker : Option (PoolId × Nat) := none
  stack : List (Frame V J) := []

/-- Threads on a shared store. -/
structure Machine (V J : Type) where
  store : Store V J := {}
  threads : Array (Thread V J) := #[]

namespace Machine

variable {V J : Type}

/-- The thread can take a step: it has not ended and is not blocked, and the process has not ended. -/
def canStep (m : Machine V J) (thread choice : Nat) : Bool :=
  !m.store.aborted &&
    match m.threads[thread]? with
    | some ⟨worker, frame :: _⟩ => !frame.isBlocked worker choice m.store
    | _ => false

/-- Let a thread that can take a step take it. -/
def advance (start : J → Except RuntimeError (Body V J)) (m : Machine V J) (thread choice : Nat) :
    Machine V J :=
  match m with
  | ⟨store, threads⟩ =>
    match threads[thread]? with
    | some ⟨worker, frame :: rest⟩ =>
      let (store, frames) := frame.step start worker choice store
      ⟨store, threads.setIfInBounds thread ⟨worker, frames ++ rest⟩⟩
    | _ => ⟨store, threads⟩

/-- Let a thread take a step, if it can. -/
def step (start : J → Except RuntimeError (Body V J)) (m : Machine V J) (thread choice : Nat) :
    Option (Machine V J) :=
  if m.canStep thread choice then some (m.advance start thread choice) else none

/-- A machine follows another by one step of some thread. -/
def Next (start : J → Except RuntimeError (Body V J)) (m m' : Machine V J) : Prop :=
  ∃ thread choice, m.step start thread choice = some m'

/-- A machine follows another by any number of steps. -/
inductive Steps (start : J → Except RuntimeError (Body V J)) : Machine V J → Machine V J → Prop where
  | refl (m : Machine V J) : Steps start m m
  | tail {m m' m'' : Machine V J} : Steps start m m' → Next start m' m'' → Steps start m m''

/-- The machine with one more pool and a thread for each of its workers, unless something keeps the pool
from starting. -/
def startPool (m : Machine V J) (config : PoolConfig) : Except StartError (PoolId × Machine V J) :=
  match config.startError? with
  | some e => .error e
  | none =>
    let p := m.store.pools.size
    let workers := (List.range config.numWorkers).map fun w =>
      { worker := some (p, w), stack := [.work .loop] : Thread V J }
    .ok (p, { store := { m.store with pools := m.store.pools.push (.new config) }
              threads := m.threads ++ workers.toArray })

/-- Give a thread frames to begin with. -/
def push (m : Machine V J) (thread : Nat) (frames : List (Frame V J)) : Machine V J :=
  { m with threads := m.threads.modify thread fun t => { t with stack := frames ++ t.stack } }

/-- Some worker of the pool has something in its queue. -/
def hasLocal (pool : Pool V J) : Bool := pool.locals.queues.any fun q => !q.isEmpty

/-- A worker that sleeps has something to wake up for. `stocked` tells whether any worker of any pool has
something in its queue. -/
def isRoused (s : Store V J) (stocked : Bool) (p : PoolId) (w : Nat) : Bool :=
  match s.pools[p]? with
  | none => true
  | some pool =>
    !pool.running || !pool.injector.isEmpty ||
      (stocked && ((((pool.locals.queue? w).map fun q => !q.isEmpty).getD false) ||
        (pool.config.useWorkStealing && hasLocal pool)))

/-- The thread's next step is possible and leads on: not for a worker that sleeps for lack of work, nor
for a reader that only its time limit could free. -/
def isReady (s : Store V J) (stocked : Bool) (t : Thread V J) : Bool :=
  match t.stack with
  | [] => false
  | .work .idle :: _ => (t.worker.map fun (p, w) => isRoused s stocked p w).getD false
  | .blocked c _ _ :: _ => s.signalled.contains c
  | .waitIdle p :: _ => (s.pools[p]?.map (·.active)).getD 0 = 0
  | .shutdown p .join :: _ =>
    match s.pools[p]? with
    | none => true
    | some pool => pool.config.numWorkers ≤ pool.stopped
  | _ => true

/-- The thread waits with a limit on its time. -/
def isTimed (t : Thread V J) : Bool :=
  match t.stack with
  | .blocked _ true _ :: _ => true
  | _ => false

/-- The thread to go on with, and whether its time has run out: the first one that is ready, or else
the first one that waits with a limit. -/
def next? (m : Machine V J) : Option (Nat × Nat) :=
  match m.threads.findIdx? (isReady m.store (m.store.pools.any hasLocal)) with
  | some thread => some (thread, 0)
  | none => (m.threads.findIdx? isTimed).map fun thread => (thread, 1)

/-- Run until nobody has anything left to do, or for so many steps. -/
def settle (start : J → Except RuntimeError (Body V J)) : Nat → Machine V J → Machine V J
  | 0, m => m
  | fuel + 1, m =>
    match m.next? with
    | none => m
    | some (thread, choice) =>
      if m.canStep thread choice then settle start fuel (m.advance start thread choice) else m

end Machine
end Dataflow
