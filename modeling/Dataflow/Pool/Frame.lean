import Dataflow.Pool.Store

/-!
# Frames

What a thread is about to do is a stack of frames, and every frame is one indivisible step on the
shared store: one critical section, one load, store or exchange of an atomic. `Frame.step` takes the
step and gives the frames that replace it. `Frame.isBlocked` tells the steps that have to wait.

`choice` stands for whatever the program leaves open: where a theft begins, which task is released
first, whether time runs out.
-/

namespace Dataflow

/-- Where a worker looks for its next task. -/
inductive Seek where
  /-- Go on, if the pool does. -/
  | loop
  /-- In its own queue. -/
  | own
  /-- In the queue of the pool. -/
  | shared
  /-- In the queues of these workers. -/
  | theft (victims : List Nat)
  /-- It holds a stolen batch and puts all but the first into its own queue. -/
  | keep (first : TaskId) (rest : List TaskId)
  /-- It found nothing and sleeps. -/
  | idle

/-- Where a spawn call stands. -/
inductive SpawnPhase where
  /-- Before it looks whether the pool is running. -/
  | check
  /-- Before it reserves a place. -/
  | reserve
  /-- With a place, before the task is made and numbered. -/
  | number

/-- Where a shutdown call stands. -/
inductive ShutdownPhase where
  /-- Before it looks whether the pool is running. -/
  | check
  /-- Before it stops the workers. -/
  | close
  /-- Waiting for the workers to end. -/
  | join
  /-- Before it empties the queue of a worker. -/
  | drainOwn (worker : Nat)
  /-- Emptying the queue of the pool. -/
  | drainShared
  /-- Before it takes over the registry. -/
  | collect
  /-- With tasks in hand that will never run again. -/
  | release (tasks : List TaskId)

/-- Where a worker stands with a task, or a call with its enqueueing. -/
inductive TaskPhase where
  /-- Taken out of a queue. -/
  | claim
  /-- Claimed; the poll begins. -/
  | begin
  /-- About to take the stage, and to start the job if it is unclaimed. -/
  | enter
  /-- The body has ended and its values are dropped. -/
  | settle (outcome : Outcome)
  /-- The final state is set. -/
  | tally (outcome : Outcome)
  /-- Out of the registry. -/
  | unregister
  /-- The poll was left pending. -/
  | park
  /-- Woken during the poll. -/
  | requeue
  /-- About to enter a ready queue. -/
  | enqueue
  /-- About to enter the registry. -/
  | register
  /-- Released at shutdown: its state becomes final. -/
  | abandon
  /-- Released at shutdown: what it still had to do is dropped. -/
  | discard

/-- One step to come. -/
inductive Frame (V J : Type) where
  /-- The next instruction of a body. -/
  | run (r : Run V J)
  /-- A body is left pending. -/
  | pause (r : Run V J)
  /-- Guards are dropped, in the order they were made. -/
  | drop (guards : List (Guard V))
  /-- A put whose result nobody looks at. -/
  | fill (cell : CellId) (value : V)
  /-- A registration is withdrawn. -/
  | withdraw (cell : CellId) (key : Nat)
  /-- A body has ended. -/
  | ended (party : Party) (outcome : Outcome)
  /-- The threads blocked on a cell are told that it is full. -/
  | signal (cell : CellId)
  /-- The thread is blocked on a cell. -/
  | blocked (cell : CellId) (timed : Bool) (next : Except RuntimeError (Option V) → Run V J)
  | spawn (pool : PoolId) (job : J) (phase : SpawnPhase) (next : Except RuntimeError TaskId → Run V J)
  /-- A wake call, before it loads the state. -/
  | wake (party : Party)
  /-- A wake call that saw one state and tries to change it to another. -/
  | exchange (pool : PoolId) (task : TaskId) (seen target : TaskState)
  /-- A parked task is handed back to its pool. -/
  | reschedule (pool : PoolId) (task : TaskId)
  | task (pool : PoolId) (task : TaskId) (phase : TaskPhase)
  | count (pool : PoolId) (change : Count)
  /-- The thread is a worker. -/
  | work (seek : Seek)
  /-- Waiting until nothing is queued or running on the pool. -/
  | waitIdle (pool : PoolId)
  | shutdown (pool : PoolId) (phase : ShutdownPhase)

namespace Frame

variable {V J : Type}

/-- A put that went through: the signal to blocked threads, if there are any, then the wakers in the
order they registered. `before` is the cell as it was. -/
def afterPut (c : CellId) (before : Cell V Party) : List (Frame V J) :=
  (if before.blocked > 0 then [.signal c] else []) ++ before.registered.map .wake

/-- What is dropped with a pending body: its registrations, then its guards. -/
def dropPending (guards : List (Guard V)) (body : Body V J) : List (Frame V J) :=
  body.held.map (fun (c, key) => .withdraw c key) ++ [.drop guards]

/-- Poll one read of a body. -/
def pollWait (s : Store V J) (party : Party) : Wait V → Wait V × Store V J
  | .answered answer => (.answered answer, s)
  | .open c key =>
    let (answer, cell, key) := (s.cell c).poll key party
    (.ofPoll c key answer, s.setCell c cell)

/-- The next instruction of a body. -/
def stepRun (worker : Option (PoolId × Nat)) (s : Store V J) (r : Run V J) :
    Store V J × List (Frame V J) :=
  match r.body with
  | .done result => (s, [.drop r.guards, .ended r.party (.returned result)])
  | .panic message => (s, [.drop r.guards, .ended r.party (.panicked message)])
  | .get c key next =>
    let (wait, s) := pollWait s r.party (.open c key)
    match wait with
    | .answered answer => (s, [.run (r.goOn (next answer))])
    | .open c key => (s, [.pause (r.goOn (.get c key next))])
  | .join a b false next =>
    let (a, s) := pollWait s r.party a
    (s, [.run (r.goOn (.join a b true next))])
  | .join a b true next =>
    let (b, s) := pollWait s r.party b
    match a, b with
    | .answered x, .answered y => (s, [.run (r.goOn (next x y))])
    | a, b => (s, [.pause (r.goOn (.join a b false next))])
  | .select (a, ka) (b, kb) false next =>
    let (wait, s) := pollWait s r.party (.open a ka)
    match wait with
    | .answered answer =>
      (s, (kb.toList.map fun key => .withdraw b key) ++ [.run (r.goOn (next answer))])
    | .open a ka => (s, [.run (r.goOn (.select (a, ka) (b, kb) true next))])
  | .select (a, ka) (b, kb) true next =>
    let (wait, s) := pollWait s r.party (.open b kb)
    match wait with
    | .answered answer =>
      (s, (ka.toList.map fun key => .withdraw a key) ++ [.run (r.goOn (next answer))])
    | .open b kb => (s, [.pause (r.goOn (.select (a, ka) (b, kb) false next))])
  | .yield times next => (s, List.replicate times (.wake r.party) ++ [.pause (r.goOn next)])
  | .stash next => ({ s with stash := s.stash.push r.party }, [.pause (r.goOn next)])
  | .put c value next =>
    let before := s.cell c
    match before.put value with
    | .error e => (s, [.run (r.goOn (next (.error e)))])
    | .ok cell => (s.setCell c cell, afterPut c before ++ [.run (r.goOn (next (.ok ())))])
  | .destroy c next =>
    match (s.cell c).destroy with
    | .error e => (s, [.run (r.goOn (next (.error e)))])
    | .ok cell => (s.setCell c cell, [.run (r.goOn (next (.ok ())))])
  | .tryGet c next => (s, [.run (r.goOn (next (s.cell c).tryGet))])
  | .look c next => (s, [.run (r.goOn (next (s.cell c).state (s.cell c).waiters))])
  | .getBlocking c next =>
    match (s.cell c).arrive with
    | .returned answer => (s, [.run (r.goOn (next answer))])
    | .waiting cell =>
      (s.setCell c cell, [.blocked c false fun
        | .ok (some value) => r.goOn (next (.ok value))
        | .ok none => r.goOn (.getBlocking c next)
        | .error e => r.goOn (next (.error e))])
  | .getTimeout c next =>
    match (s.cell c).arrive with
    | .returned answer => (s, [.run (r.goOn (next (answer.map some)))])
    | .waiting cell => (s.setCell c cell, [.blocked c true fun answer => r.goOn (next answer)])
  | .newCell next =>
    let (c, s) := s.newCell
    (s, [.run (r.goOn (next c))])
  | .note note next => (s.say note, [.run (r.goOn next)])
  | .guard guard next => (s, [.run { r with guards := r.guards ++ [guard], body := next }])
  | .spawn pool job next =>
    match pool <|> worker.map (·.1) with
    | none => (s, [.run (r.goOn (next (.error .noCurrentPool)))])
    | some p => (s, [.spawn p job .check fun result => r.goOn (next result)])
  | .submit p job next =>
    (s, [.run (r.goOn (.spawn (some p) job fun
      | .ok id => next (.ok id)
      | .error e => if e.isRecoverable then .waitIdle p (.submit p job next) else next (.error e)))])
  | .current next =>
    let running := match worker with
      | none => false
      | some (p, _) => (s.pools[p]?.map (·.running)).getD false
    (s, [.run (r.goOn (next running))])
  | .wakeStashed index next =>
    (s, (s.stash[index]?.toList.map .wake) ++ [.run (r.goOn next)])
  | .waitIdle p next => (s, [.waitIdle p, .run (r.goOn next)])
  | .shutdown p next => (s, [.shutdown p .check, .run (r.goOn next)])

/-- A body is left pending. -/
def stepPause (s : Store V J) (r : Run V J) : Store V J × List (Frame V J) :=
  match r.party with
  | .outside => ({ s.say .paused with shelf := some r }, [])
  | .task p t =>
    let s := s.setStage p t (.started r.guards r.body)
    (s.modifyPool p fun pool => { pool with stats := pool.stats.endPoll }, [.task p t .park])

/-- A body has ended. -/
def stepEnded (s : Store V J) (outcome : Outcome) : Party → Store V J × List (Frame V J)
  | .outside => (s.say (.ended outcome), [])
  | .task p t =>
    (s.modifyPool p fun pool => { pool with stats := pool.stats.endPoll }, [.task p t (.settle outcome)])

/-- A spawn call. -/
def stepSpawn (s : Store V J) (p : PoolId) (job : J) (next : Except RuntimeError TaskId → Run V J) :
    SpawnPhase → Store V J × List (Frame V J)
  | .check =>
    if (s.pools[p]?.map (·.running)).getD false then (s, [.spawn p job .reserve next])
    else (s, [.run (next (.error .poolShutDown))])
  | .reserve =>
    match s.pools[p]? with
    | none => (s, [.run (next (.error .poolShutDown))])
    | some pool =>
      let capacity := pool.config.maxQueueSize
      if capacity > 0 ∧ ¬ pool.queued < capacity then
        (s.modifyPool p fun pool => { pool with stats.rejected := pool.stats.rejected + 1 },
          [.run (next (.error (.spawnBackpressure capacity)))])
      else
        (s.modifyPool p fun pool => { pool with queued := pool.queued + 1 },
          [.spawn p job .number next])
  | .number =>
    match s.pools[p]? with
    | none => (s, [.run (next (.error .poolShutDown))])
    | some pool =>
      let t := pool.tasks.size
      (s.modifyPool p fun pool => { pool with tasks := pool.tasks.push { stage := .unclaimed job } },
        [.count p .activeUp, .count p .liveUp, .task p t .register, .count p .spawned,
          .task p t .enqueue, .run (next (.ok t))])

/-- A wake call loads the state. -/
def stepWake (s : Store V J) : Party → Store V J × List (Frame V J)
  | .outside => ({ s with wakes := s.wakes + 1 }, [])
  | .task p t =>
    match s.task? p t with
    | none => (s, [])
    | some found =>
      match found.state.wakeTarget? with
      | none => (s, [])
      | some target => (s, [.exchange p t found.state target])

/-- A wake call tries its exchange. Only the task it takes out of its parking place is handed back. -/
def stepExchange (s : Store V J) (p : PoolId) (t : TaskId) (seen target : TaskState) :
    Store V J × List (Frame V J) :=
  match s.task? p t with
  | none => (s, [])
  | some found =>
    match found.state.exchange seen target with
    | .error _ => (s, [.wake (.task p t)])
    | .ok state => (s.setState p t state, if target = .queued then [.reschedule p t] else [])

/-- A parked task comes back to its pool, if that is still running. -/
def stepReschedule (s : Store V J) (p : PoolId) (t : TaskId) : Store V J × List (Frame V J) :=
  if (s.pools[p]?.map (·.running)).getD false then
    (s, [.count p .activeUp, .count p .resumed, .task p t .enqueue])
  else (s, [])

/-- Put a ready task into a queue: the worker's own if the thread is a worker of the pool. -/
def enqueue (worker : Option (PoolId × Nat)) (p : PoolId) (t : TaskId) (pool : Pool V J) : Pool V J :=
  let shared := { pool with injector := pool.injector.push t }
  match worker with
  | some (home, w) =>
    if home = p then
      match pool.locals.push? w t with
      | some locals => { pool with locals }
      | none => shared
    else shared
  | none => shared

/-- The final state of a task whose body ended so. -/
def finalState : Outcome → TaskState
  | .returned (.ok ()) => .completed
  | _ => .failed

/-- The error breaks a contract, and the pool wants the process to end then. -/
def isFatal (config : PoolConfig) : Outcome → Bool
  | .returned (.error e) => e.isContractViolation && config.faultPolicy == .abortProcess
  | _ => false

/-- The step of a thread that has to do with a task. -/
def stepTask (start : J → Except RuntimeError (Body V J)) (worker : Option (PoolId × Nat))
    (s : Store V J) (p : PoolId) (t : TaskId) : TaskPhase → Store V J × List (Frame V J)
  | .claim =>
    match s.task? p t with
    | none => (s, [])
    | some found =>
      match found.state.exchange .queued .running with
      | .error _ => (s, [])
      | .ok state => (s.setState p t state, [.task p t .begin])
  | .begin =>
    (s.modifyPool p fun pool => { pool with stats := pool.stats.beginPoll }, [.task p t .enter])
  | .enter =>
    match s.task? p t with
    | none => (s, [])
    | some found =>
      let taken := s.setStage p t .consumed
      match found.stage with
      | .unclaimed job =>
        let s := taken.modifyPool p fun pool => { pool with queued := pool.queued - 1 }
        match start job with
        | .error e => (s, [.ended (.task p t) (.returned (.error e))])
        | .ok body => (s, [.run { party := .task p t, body }])
      | .started guards body => (taken, [.run { party := .task p t, guards, body }])
      | .consumed => (taken, [.ended (.task p t) (.returned (.ok ()))])
  | .settle outcome => (s.setState p t (finalState outcome), [.task p t (.tally outcome)])
  | .tally outcome =>
    match s.pools[p]? with
    | none => (s, [])
    | some pool =>
      let s := s.modifyPool p fun pool =>
        match finalState outcome with
        | .completed => { pool with stats.completed := pool.stats.completed + 1 }
        | _ => { pool with stats.failed := pool.stats.failed + 1 }
      if isFatal pool.config outcome then ({ s with aborted := true }, [])
      else (s, [.task p t .unregister, .count p (.liveDown 1), .count p .activeDown])
  | .unregister => (s.setRegistered p t false, [])
  | .park =>
    match s.task? p t with
    | none => (s, [])
    | some found =>
      match found.state.exchange .running .suspended with
      | .ok state => (s.setState p t state, [.count p .suspended, .count p .activeDown])
      | .error _ => (s, [.task p t .requeue])
  | .requeue => (s.setState p t .queued, [.task p t .enqueue])
  | .enqueue => (s.modifyPool p (enqueue worker p t), [])
  | .register => (s.setRegistered p t true, [])
  | .abandon => (s.setState p t .failed, [.task p t .discard])
  | .discard =>
    match s.task? p t with
    | none => (s, [])
    | some found =>
      (s.setStage p t .consumed,
        match found.stage with
        | .started guards body => dropPending guards body
        | _ => [])

/-- The step of worker `w` of pool `p` on its way to the next task. -/
def stepWork (choice : Nat) (s : Store V J) (p : PoolId) (w : Nat) :
    Seek → Store V J × List (Frame V J)
  | .loop =>
    if (s.pools[p]?.map (·.running)).getD false then (s, [.work .own])
    else (s.modifyPool p fun pool => { pool with stopped := pool.stopped + 1 }, [])
  | .own =>
    match s.pools[p]? with
    | none => (s, [])
    | some pool =>
      match pool.locals.popLocal w with
      | (some t, locals) =>
        (s.modifyPool p fun pool => { pool with locals }, [.task p t .claim, .work .loop])
      | (none, _) => (s, [.work .shared])
  | .shared =>
    match s.pools[p]? with
    | none => (s, [])
    | some pool =>
      match pool.injector.popFront with
      | (some t, injector) =>
        (s.modifyPool p fun pool => { pool with injector }, [.task p t .claim, .work .loop])
      | (none, _) =>
        if pool.config.useWorkStealing ∧ pool.locals.canSteal pool.config.stealBatch then
          (s, [.work (.theft (LocalQueues.victims pool.locals.workers w choice))])
        else (s, [.work .idle])
  | .theft [] =>
    (s.modifyPool p fun pool =>
      { pool with locals.stats := pool.locals.stats.recordFailure }, [.work .idle])
  | .theft (victim :: victims) =>
    match s.pools[p]? with
    | none => (s, [])
    | some pool =>
      match pool.locals.stealFrom victim pool.config.stealBatch with
      | ([], _) => (s, [.work (.theft victims)])
      | (first :: rest, locals) =>
        let stats := locals.stats.recordSuccess (rest.length + 1)
        (s.modifyPool p fun pool => { pool with locals := { locals with stats } },
          [.work (.keep first rest)])
  | .keep first rest =>
    (s.modifyPool p fun pool =>
      { pool with locals := (pool.locals.extend? w rest).getD pool.locals },
      [.task p first .claim, .work .loop])
  | .idle => (s, [.work .loop])

/-- The step of a shutdown call. -/
def stepShutdown (choice : Nat) (s : Store V J) (p : PoolId) :
    ShutdownPhase → Store V J × List (Frame V J)
  | .check =>
    if (s.pools[p]?.map (·.running)).getD false then
      (s, [.waitIdle p, .shutdown p .close])
    else (s, [])
  | .close =>
    (s.modifyPool p fun pool => { pool with running := false }, [.shutdown p .join])
  | .join =>
    match s.pools[p]? with
    | none => (s, [])
    | some pool =>
      (s, (List.range pool.config.numWorkers).map (fun w => .shutdown p (.drainOwn w)) ++
        [.shutdown p .drainShared, .shutdown p .collect])
  | .drainOwn w =>
    (s.modifyPool p fun pool => { pool with locals := pool.locals.setQueue w {} }, [])
  | .drainShared =>
    match s.pools[p]? with
    | none => (s, [])
    | some pool =>
      match pool.injector.popFront with
      | (some _, injector) =>
        (s.modifyPool p fun pool => { pool with injector }, [.shutdown p .drainShared])
      | (none, _) => (s, [])
  | .collect =>
    match s.pools[p]? with
    | none => (s, [])
    | some pool =>
      let tasks := pool.registry
      (s.modifyPool p (·.clearRegistry), [.shutdown p (.release tasks), .count p (.liveDown tasks.length)])
  | .release [] => (s, [])
  | .release (t :: ts) =>
    let chosen := ((t :: ts)[choice % (ts.length + 1)]?).getD t
    (s, [.task p chosen .abandon, .shutdown p (.release ((t :: ts).erase chosen))])

/-- The step has to wait for another thread: for the put that frees a reader whose time is not over, for a
pool to become idle, or for its workers to end. Only a worker looks for tasks. -/
def isBlocked (worker : Option (PoolId × Nat)) (choice : Nat) (s : Store V J) : Frame V J → Bool
  | .blocked c timed _ => !(s.signalled.contains c || (timed && choice != 0))
  | .work _ => worker.isNone
  | .waitIdle p => (s.pools[p]?.map (·.active)).getD 0 != 0
  | .shutdown p .join =>
    match s.pools[p]? with
    | none => false
    | some pool => pool.stopped < pool.config.numWorkers
  | _ => false

/-- One step that does not have to wait: the store afterwards and the frames that come in place of this
one. -/
def step (start : J → Except RuntimeError (Body V J)) (worker : Option (PoolId × Nat)) (choice : Nat)
    (s : Store V J) : Frame V J → Store V J × List (Frame V J)
  | .run r => stepRun worker s r
  | .pause r => stepPause s r
  | .drop [] => (s, [])
  | .drop (g :: guards) =>
    (s.say (.line ("drop " ++ g.label)),
      (g.fill.toList.map fun (c, value) => .fill c value) ++ [.drop guards])
  | .fill c value =>
    let before := s.cell c
    match before.put value with
    | .error _ => (s, [])
    | .ok cell => (s.setCell c cell, afterPut c before)
  | .withdraw c key => (s.setCell c ((s.cell c).withdraw (some key)), [])
  | .ended party outcome => stepEnded s outcome party
  | .signal c => ({ s with signalled := c :: s.signalled }, [])
  | .blocked c timed next =>
    let (answer, cell) := (s.cell c).recheck (timed && choice != 0)
    let s := s.setCell c cell
    match answer with
    | some answer => (s, [.run (next answer)])
    | none => (s, [.blocked c timed next])
  | .spawn p job phase next => stepSpawn s p job next phase
  | .wake party => stepWake s party
  | .exchange p t seen target => stepExchange s p t seen target
  | .reschedule p t => stepReschedule s p t
  | .task p t phase => stepTask start worker s p t phase
  | .count p change => (s.modifyPool p fun pool => pool.count change, [])
  | .work seek =>
    match worker with
    | none => (s, [])
    | some (p, w) => stepWork choice s p w seek
  | .waitIdle _ => (s, [])
  | .shutdown p phase => stepShutdown choice s p phase

end Frame
end Dataflow
