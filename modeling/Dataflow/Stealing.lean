import Dataflow.Queue
import Dataflow.Number.Binary

/-!
# Local queues and theft

Each worker owns a queue. A thief visits every other queue at most once, beginning at an arbitrary
one, and takes a batch from the back of the first that holds anything.
-/

namespace Dataflow

-- powers and sums are those of the core, whatever else is in scope
attribute [local instance (high)] instPowNat Zero.ofOfNat0

/-- Counters of 64 bits wrap around. -/
def counterModulus : Nat := 2 ^ (64 : Nat)

/-- Statistics of theft. -/
structure StealStats where
  successes : Nat := 0
  failures : Nat := 0
  attempts : Nat := 0
  /-- Items taken by all attempts together. -/
  stolen : Nat := 0
  deriving DecidableEq, Repr

namespace StealStats

/-- An attempt that brought so many items. -/
def recordSuccess (s : StealStats) (count : Nat) : StealStats :=
  { s with
    successes := s.successes + 1
    stolen := (s.stolen + count) % counterModulus
    attempts := s.attempts + 1 }

/-- An attempt that brought nothing. -/
def recordFailure (s : StealStats) : StealStats :=
  { s with failures := s.failures + 1, attempts := s.attempts + 1 }

/-- The part of the attempts that brought something; one if there was none. -/
def successRate (s : StealStats) : Binary .double :=
  if s.attempts = 0 then .ofRatio .double 1 1 else .ofRatio .double s.successes s.attempts

end StealStats

/-- The queues of all workers, by worker, with the statistics of theft among them. -/
structure LocalQueues (α : Type) where
  queues : List (Queue α)
  stats : StealStats := {}

namespace LocalQueues

variable {α : Type}

/-- There are fewer workers than this. -/
def workerBound : Nat := 2 ^ (60 : Nat)

/-- Empty queues for so many workers. -/
def new (workers : Nat) : LocalQueues α := { queues := List.replicate workers {} }

/-- How many workers there are. -/
def workers (s : LocalQueues α) : Nat := s.queues.length

/-- The queue of a worker. -/
def queue? (s : LocalQueues α) (worker : Nat) : Option (Queue α) := s.queues[worker]?

/-- Replace the queue of a worker. -/
def setQueue (s : LocalQueues α) (worker : Nat) (q : Queue α) : LocalQueues α :=
  { s with queues := s.queues.set worker q }

/-- Add an item at the back of a worker's queue; `none` if there is no such worker. -/
def push? (s : LocalQueues α) (worker : Nat) (a : α) : Option (LocalQueues α) :=
  (s.queue? worker).map fun q => s.setQueue worker (q.push a)

/-- Add items at the back of a worker's queue; `none` if there is no such worker. -/
def extend? (s : LocalQueues α) (worker : Nat) (as : List α) : Option (LocalQueues α) :=
  (s.queue? worker).map fun q => s.setQueue worker (q.extend as)

/-- Take the item at the front of a worker's own queue. -/
def popLocal (s : LocalQueues α) (worker : Nat) : Option α × LocalQueues α :=
  match s.queue? worker with
  | none => (none, s)
  | some q =>
    let (a, q) := q.popFront
    (a, s.setQueue worker q)

/-- Take up to `max` items from the back of one queue. -/
def stealFrom (s : LocalQueues α) (victim max : Nat) : List α × LocalQueues α :=
  match s.queue? victim with
  | none => ([], s)
  | some q =>
    let (stolen, q) := q.stealBack max
    (stolen, s.setQueue victim q)

/-- The queues that a thief visits, in order: all but its own, beginning at `start` and going round. -/
def victims (workers thief start : Nat) : List Nat :=
  ((List.range workers).map fun offset => (start + offset) % workers).filter (· ≠ thief)

/-- Visit queues until one yields something. -/
def stealAmong (s : LocalQueues α) (max : Nat) : List Nat → List α × LocalQueues α
  | [] => ([], { s with stats := s.stats.recordFailure })
  | victim :: rest =>
    let (stolen, s') := s.stealFrom victim max
    if stolen.isEmpty then s'.stealAmong max rest
    else (stolen, { s' with stats := s'.stats.recordSuccess stolen.length })

/-- Theft is possible only among several workers, and for at least one item. -/
def canSteal (s : LocalQueues α) (max : Nat) : Bool := 2 ≤ s.workers && max ≠ 0

/-- Steal up to `max` items for a worker, beginning at queue `start`. -/
def stealBatch (s : LocalQueues α) (thief max start : Nat) : List α × LocalQueues α :=
  if s.canSteal max then s.stealAmong max (victims s.workers thief start) else ([], s)

/-- Items in all queues. -/
def totalSize (s : LocalQueues α) : Nat := (s.queues.map (·.size)).sum

/-- Take everything, in the order of the workers. -/
def drainAll (s : LocalQueues α) : List α × LocalQueues α :=
  (s.queues.flatMap (·.items), { s with queues := s.queues.map fun q => q.drain.2 })

end LocalQueues
end Dataflow
