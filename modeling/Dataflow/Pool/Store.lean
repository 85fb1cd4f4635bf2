import Dataflow.Body
import Dataflow.Pool.Config
import Dataflow.Stealing

/-!
# What threads share

Cells and pools, with the tasks of each pool. A pool counts its tasks three ways: `queued`, those
accepted and never claimed; `active`, those queued or being polled; `live`, those not finished.
-/

namespace Dataflow

/-- Who runs a body, and is woken when it can go on. -/
inductive Party where
  | task (pool : PoolId) (task : TaskId)
  /-- Code that belongs to no task. -/
  | outside
  deriving DecidableEq, Repr

/-- A body in the middle of its run, with the guards that it has made. -/
structure Run (V J : Type) where
  party : Party
  guards : List (Guard V) := []
  body : Body V J

/-- The same run, with what is left to do. -/
def Run.goOn {V J : Type} (r : Run V J) (body : Body V J) : Run V J := { r with body }

/-- What a task still has to do. -/
inductive Stage (V J : Type) where
  /-- Never claimed; the job is as it was spawned. -/
  | unclaimed (job : J)
  /-- Claimed before; this is left. -/
  | started (guards : List (Guard V)) (body : Body V J)
  /-- In the hands of a worker, or finished. -/
  | consumed

/-- A task of a pool. -/
structure Task (V J : Type) where
  state : TaskState := .queued
  stage : Stage V J
  /-- The registry of its pool holds the task. -/
  registered : Bool := false

/-- Counters of a pool that only tell what happened. -/
structure PoolStats where
  spawned : Nat := 0
  completed : Nat := 0
  failed : Nat := 0
  suspended : Nat := 0
  resumed : Nat := 0
  rejected : Nat := 0
  /-- Tasks being polled now, and the most there were at once. -/
  polling : Nat := 0
  peak : Nat := 0
  deriving DecidableEq, Repr

/-- One more task is being polled. -/
def PoolStats.beginPoll (s : PoolStats) : PoolStats :=
  { s with polling := s.polling + 1, peak := max s.peak (s.polling + 1) }

/-- One task less is being polled. -/
def PoolStats.endPoll (s : PoolStats) : PoolStats := { s with polling := s.polling - 1 }

/-- A pool and its tasks. -/
structure Pool (V J : Type) where
  config : PoolConfig
  /-- Spawns are accepted and workers keep on. -/
  running : Bool := true
  queued : Nat := 0
  active : Nat := 0
  live : Nat := 0
  /-- Ready tasks that did not come from a worker of the pool. -/
  injector : Queue TaskId := {}
  /-- Ready tasks by worker. -/
  locals : LocalQueues TaskId
  stats : PoolStats := {}
  /-- Every task ever accepted, by number. -/
  tasks : Array (Task V J) := #[]
  /-- Workers that have ended. -/
  stopped : Nat := 0

/-- A new pool. -/
def Pool.new {V J : Type} (config : PoolConfig) : Pool V J :=
  { config, locals := .new config.numWorkers }

/-- The registry: the tasks that the pool keeps until they are finished, by number. -/
def Pool.registry {V J : Type} (p : Pool V J) : List TaskId :=
  (List.range p.tasks.size).filter fun t => (p.tasks[t]?.map (·.registered)).getD false

/-- The pool with an empty registry. -/
def Pool.clearRegistry {V J : Type} (p : Pool V J) : Pool V J :=
  { p with tasks := p.tasks.map fun task => { task with registered := false } }

/-- Tasks parked: neither queued nor being polled, nor finished. -/
def Pool.parked {V J : Type} (p : Pool V J) : Nat := p.live - p.active

/-- A change of one counter. -/
inductive Count where
  | activeUp
  | activeDown
  | liveUp
  | liveDown (n : Nat)
  | spawned
  | suspended
  | resumed

/-- Change one counter. -/
def Pool.count {V J : Type} (p : Pool V J) : Count → Pool V J
  | .activeUp => { p with active := p.active + 1 }
  | .activeDown => { p with active := p.active - 1 }
  | .liveUp => { p with live := p.live + 1 }
  | .liveDown n => { p with live := p.live - n }
  | .spawned => { p with stats.spawned := p.stats.spawned + 1 }
  | .suspended => { p with stats.suspended := p.stats.suspended + 1 }
  | .resumed => { p with stats.resumed := p.stats.resumed + 1 }

/-- Everything that the threads share. -/
structure Store (V J : Type) where
  cells : Array (Cell V Party) := #[]
  /-- Cells whose put has told the blocked threads. -/
  signalled : List CellId := []
  pools : Array (Pool V J) := #[]
  /-- A pending body that belongs to no task. -/
  shelf : Option (Run V J) := none
  /-- How often code that belongs to no task was woken. -/
  wakes : Nat := 0
  /-- Wakers handed out. -/
  stash : Array Party := #[]
  /-- What was said, in order. -/
  notes : List (Note V) := []
  /-- The process has ended. -/
  aborted : Bool := false

namespace Store

variable {V J : Type}

/-- A cell; numbers that were never given out stand for an empty one. -/
def cell (s : Store V J) (c : CellId) : Cell V Party := s.cells[c]?.getD {}

/-- Replace a cell. -/
def setCell (s : Store V J) (c : CellId) (x : Cell V Party) : Store V J :=
  { s with cells := s.cells.setIfInBounds c x }

/-- A new empty cell. -/
def newCell (s : Store V J) : CellId × Store V J :=
  (s.cells.size, { s with cells := s.cells.push {} })

/-- Change a pool. -/
def modifyPool (s : Store V J) (p : PoolId) (f : Pool V J → Pool V J) : Store V J :=
  { s with pools := s.pools.modify p f }

/-- Change a task. -/
def modifyTask (s : Store V J) (p : PoolId) (t : TaskId) (f : Task V J → Task V J) : Store V J :=
  s.modifyPool p fun pool => { pool with tasks := pool.tasks.modify t f }

/-- A task of a pool. -/
def task? (s : Store V J) (p : PoolId) (t : TaskId) : Option (Task V J) := do
  let pool ← s.pools[p]?
  pool.tasks[t]?

/-- Set the state of a task, whatever it was. -/
def setState (s : Store V J) (p : PoolId) (t : TaskId) (state : TaskState) : Store V J :=
  s.modifyTask p t fun task => { task with state }

/-- Set what a task still has to do. -/
def setStage (s : Store V J) (p : PoolId) (t : TaskId) (stage : Stage V J) : Store V J :=
  s.modifyTask p t fun task => { task with stage }

/-- Enter a task into the registry of its pool, or strike it out. -/
def setRegistered (s : Store V J) (p : PoolId) (t : TaskId) (registered : Bool) : Store V J :=
  s.modifyTask p t fun task => { task with registered }

/-- Add a note. -/
def say (s : Store V J) (note : Note V) : Store V J := { s with notes := s.notes ++ [note] }

end Store
end Dataflow
