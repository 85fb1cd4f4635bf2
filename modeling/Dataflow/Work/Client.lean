import Dataflow.Pool.Machine
import Dataflow.Work.Core

/-!
# A client of pools

A thread outside all pools that makes cells, starts pools and uses both, one request at a time. After
each request the workers go on until nothing is queued or running. A client can hold all workers at a
gate, so that what it spawns meanwhile stays queued, and it can poll one body by hand.
-/

namespace Dataflow

/-- The machine with the client's own thread, which is number 0. -/
structure Client where
  machine : Machine Datum Job := { threads := #[{}] }
  /-- Pools given up. -/
  dropped : List PoolId := []
  /-- The closed gate that the workers are held at. -/
  gate : Option CellId := none

/-- A request of the client. -/
inductive ClientRequest where
  | spawn (pool : PoolId) (job : Job)
  /-- Spawn through the pool itself, which may have been given up. -/
  | spawnOwned (pool : PoolId) (job : Job)
  /-- Spawn on the pool of the client's thread, which has none. -/
  | spawnHere (job : Job)
  | current
  | hold
  | release
  | wake (index : Nat)
  | idle
  | shutdown (pool : PoolId)
  | drop (pool : PoolId)
  | newCell
  | put (cell : CellId) (value : Datum)
  | tryGet (cell : CellId)
  | getBlocking (cell : CellId)
  | getTimeout (cell : CellId)
  | destroy (cell : CellId)
  /-- Poll the body on the shelf. -/
  | poll
  /-- Drop the body on the shelf. -/
  | discard

/-- The answer to a request. -/
inductive ClientReply where
  | nothing
  | cell (c : CellId)
  | flag (b : Bool)
  | done (result : Except RuntimeError Unit)
  | read (result : Except RuntimeError (Option Datum))
  | value (result : Except RuntimeError Datum)
  | spawned (result : Except RuntimeError TaskId)
  | held (results : List (Except RuntimeError TaskId))
  | notHeld
  | gone
  | wouldBlock
  | noFuture
  | pending
  | panicked (message : Option String)

namespace Client

-- powers are those of the core, whatever else is in scope
attribute [local instance (high)] instPowNat

/-- More steps than any request takes. -/
def stepLimit : Nat := 2 ^ (60 : Nat)

/-- A pool, by number. -/
def pool? (c : Client) (p : PoolId) : Option (Pool Datum Job) := c.machine.store.pools[p]?

/-- The pool still accepts work. -/
def isRunning (c : Client) (p : PoolId) : Bool := ((c.pool? p).map (·.running)).getD false

/-- The client has given the pool up, or never had it. -/
def isDropped (c : Client) (p : PoolId) : Bool :=
  c.dropped.contains p || !(p < c.machine.store.pools.size)

/-- A handle of the pool as inspection shows it, without the pool's number. -/
def inspectHandle (c : Client) (p : PoolId) : String :=
  Text.inspectRecord "PoolHandle" [("id", "#"), ("running", toString (c.isRunning p))]

/-- The pool as inspection shows it, without its number. -/
def inspectPool (c : Client) (p : PoolId) : String :=
  Text.inspectRecord "TaskPool"
    [("id", "#"), ("num_workers", toString (((c.pool? p).map (·.config.numWorkers)).getD 0)),
      ("running", toString (c.isRunning p))]

/-- Change the store. -/
def modifyStore (c : Client) (f : Store Datum Job → Store Datum Job) : Client :=
  match c with
  | ⟨⟨store, threads⟩, dropped, gate⟩ => ⟨⟨f store, threads⟩, dropped, gate⟩

/-- Let the client's thread work off frames, and the workers what comes of it. -/
def perform (c : Client) (frames : List (Frame Datum Job)) : Client × List (Note Datum) :=
  match c with
  | ⟨machine, dropped, gate⟩ =>
    let machine := (machine.push 0 frames).settle Job.start stepLimit
    (⟨{ machine with store := { machine.store with notes := [] } }, dropped, gate⟩,
      machine.store.notes)

/-- Let the client's thread run a body. -/
def execute (c : Client) (body : Body Datum Job) : Client × List (Note Datum) :=
  c.perform [.run { party := .outside, body }]

/-- The lines among notes. -/
def lines (notes : List (Note Datum)) : List String :=
  notes.filterMap fun
    | .line text => some text
    | _ => none

/-- A body that makes one call and reports what came back. -/
def report (note : Note Datum) : Body Datum Job := .note note (.done (.ok ()))

/-- The reply that the notes of a request hold, and the lines that were said meanwhile. -/
def replyOf (notes : List (Note Datum)) : ClientReply × List String :=
  let replies := notes.filterMap fun
    | .spawned result => some (.spawned result)
    | .read result => some (.read result)
    | .flag b => some (.flag b)
    | .paused => some .pending
    | .ended (.returned result) => some (.done result)
    | .ended (.panicked message) => some (.panicked message)
    | .line _ => none
  (replies.headD .nothing, lines notes)

/-- Run a body and give the reply that it reports. -/
def ask (c : Client) (body : Body Datum Job) : Client × ClientReply × List String :=
  let (c, notes) := c.execute body
  (c, replyOf notes)

/-- Start a pool. -/
def startPool (c : Client) (config : PoolConfig) : Except StartError Client :=
  match c.machine.startPool config with
  | .error e => .error e
  | .ok (_, machine) => .ok { c with machine }

/-- Make a cell. -/
def newCell (c : Client) : CellId × Client :=
  (c.machine.store.cells.size, c.modifyStore fun s => s.newCell.2)

/-- Call the entry of a job. What it gives goes onto the shelf, and none of it runs. -/
def load (c : Client) (job : Job) : Except RuntimeError Client :=
  match job.start with
  | .error e => .error e
  | .ok body => .ok (c.modifyStore fun s => { s with shelf := some { party := .outside, body } })

/-- The arguments of a task that waits at a gate. -/
def gateArguments (gate : CellId) : Arguments :=
  .ofValues [.cell .unit] ((⟨gate⟩ : CellRef .unit), ())

/-- A spawn whose result is reported. -/
def spawnBody (pool : Option PoolId) (job : Job) : Body Datum Job :=
  .spawn pool job fun result => report (.spawned result)

/-- Occupy one worker of a pool with a task at the gate. -/
def holdWorker (gate : CellId) (state : Client × List (Except RuntimeError TaskId) × List String)
    (p : PoolId) : Client × List (Except RuntimeError TaskId) × List String :=
  let (c, results, said) := state
  match c.ask (spawnBody (some p) (.core .waitGate (gateArguments gate))) with
  | (c, .spawned result, more) => (c, results ++ [result], said ++ more)
  | (c, _, more) => (c, results, said ++ more)

/-- The workers to hold, each by its pool. -/
def workersToHold (c : Client) : List PoolId :=
  (List.range c.machine.store.pools.size).flatMap fun p =>
    if c.isDropped p then []
    else List.replicate (((c.pool? p).map (·.config.numWorkers)).getD 0) p

/-- Serve a request: the client afterwards, the answer, and what was said meanwhile. -/
def serve (c : Client) : ClientRequest → Client × ClientReply × List String
  | .spawn p job => c.ask (spawnBody (some p) job)
  | .spawnOwned p job =>
    if c.isDropped p then (c, .gone, []) else c.ask (spawnBody (some p) job)
  | .spawnHere job => c.ask (spawnBody none job)
  | .current => c.ask (.current fun b => report (.flag b))
  | .hold =>
    let (gate, c) := c.newCell
    let (c, results, said) := c.workersToHold.foldl (holdWorker gate) (c, [], [])
    ({ c with gate := some gate }, .held results, said)
  | .release =>
    match c.gate with
    | none => (c, .notHeld, [])
    | some gate => { c with gate := none }.ask (.put gate ⟨.unit, ()⟩ .done)
  | .wake index =>
    let (c, notes) := c.execute (.wakeStashed index (.done (.ok ())))
    (c, .nothing, lines notes)
  | .idle => (c, .nothing, [])
  | .shutdown p =>
    if c.isDropped p then (c, .gone, [])
    else
      let (c, notes) := c.execute (.shutdown p (.done (.ok ())))
      (c, .flag (c.isRunning p), lines notes)
  | .drop p =>
    if c.isDropped p then (c, .flag false, [])
    else
      let (c, notes) := c.execute (.shutdown p (.done (.ok ())))
      ({ c with dropped := p :: c.dropped }, .flag true, lines notes)
  | .newCell =>
    let (cell, c) := c.newCell
    (c, .cell cell, [])
  | .put cell value => c.ask (.put cell value .done)
  | .tryGet cell => c.ask (.tryGet cell fun result => report (.read result))
  | .getBlocking cell =>
    match (c.machine.store.cell cell).arrive with
    | .returned answer => (c, .value answer, [])
    | .waiting _ => (c, .wouldBlock, [])
  | .getTimeout cell => c.ask (.getTimeout cell fun result => report (.read result))
  | .destroy cell => c.ask (.destroy cell .done)
  | .poll =>
    match c.machine.store.shelf with
    | none => (c, .noFuture, [])
    | some run =>
      let (c, notes) := (c.modifyStore fun s => { s with shelf := none }).perform [.run run]
      (c, replyOf notes)
  | .discard =>
    match c.machine.store.shelf with
    | none => (c, .flag false, [])
    | some run =>
      let (c, notes) := (c.modifyStore fun s => { s with shelf := none }).perform
        (Frame.dropPending run.guards run.body)
      (c, .flag true, lines notes)

end Client
end Dataflow
