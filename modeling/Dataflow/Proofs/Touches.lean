import Dataflow.Proofs.Desertion

/-!
# Touched stores

Two stores may differ in one task, and in how many tasks of its pool have ended one way or the other: a `Touch` makes
the second out of the first. Nobody reads those counts, and most steps do not look at the task, or not at what is
different in it. Such a step does the same on both stores, and leaves them with the same difference (`Frame.Commutes`).
-/

namespace Dataflow

variable {V J : Type}

/-- A difference in one task and in the counts of ends of its pool. -/
structure Touch (V J : Type) where
  task : Task V J → Task V J
  completed : Nat := 0
  failed : Nat := 0

/-- Two pools that differ only in what a touch may change. -/
structure Pool.Mirrors (x x' : Pool V J) : Prop where
  config : x'.config = x.config
  running : x'.running = x.running
  queued : x'.queued = x.queued
  active : x'.active = x.active
  injector : x'.injector = x.injector
  locals : x'.locals = x.locals
  stopped : x'.stopped = x.stopped
  size : x'.tasks.size = x.tasks.size
  registry : x'.registry = x.registry

namespace Touch

variable {τ : Touch V J} {p q : PoolId} {t u : TaskId} {s : Store V J} {x : Pool V J} {y : Task V J}

def pool (τ : Touch V J) (t : TaskId) (x : Pool V J) : Pool V J :=
  { x with
    tasks := x.tasks.modify t τ.task
    stats := { x.stats with completed := x.stats.completed + τ.completed, failed := x.stats.failed + τ.failed } }

/-- The store with the difference. -/
def on (τ : Touch V J) (p : PoolId) (t : TaskId) (s : Store V J) : Store V J := s.modifyPool p (τ.pool t)

/-- What the registry says of the task is not touched. -/
structure SparesEntry (τ : Touch V J) : Prop where
  registered : ∀ y, (τ.task y).registered = y.registered
  set : ∀ y b, τ.task { y with registered := b } = { τ.task y with registered := b }

/-- The state of the task is not touched. -/
structure SparesState (τ : Touch V J) : Prop where
  state : ∀ y, (τ.task y).state = y.state
  set : ∀ y state, τ.task { y with state } = { τ.task y with state }

/-- What the task has left to do is not touched. -/
structure SparesStage (τ : Touch V J) : Prop where
  stage : ∀ y, (τ.task y).stage = y.stage
  set : ∀ y stage, τ.task { y with stage } = { τ.task y with stage }

theorem mirrors_pool (hτ : τ.SparesEntry) : x.Mirrors (τ.pool t x) := by
  refine ⟨rfl, rfl, rfl, rfl, rfl, rfl, rfl, Array.size_modify, ?_⟩
  have hentry : ∀ u : TaskId, (τ.pool t x).tasks[u]?.map Task.registered = x.tasks[u]?.map Task.registered := by
    intro u
    rw [pool, Array.getElem?_modify]
    split
    · rw [Option.map_map]
      congr 1
      funext y
      exact hτ.registered y
    · rfl
  have hsize : (τ.pool t x).tasks.size = x.tasks.size := Array.size_modify
  simp only [Pool.registry, hentry, hsize]

/-- Whoever looks at a pool sees what he would see without the touch. -/
theorem mirrors (hτ : τ.SparesEntry) (p q : PoolId) (t : TaskId) (s : Store V J) :
    (s.pools[q]? = none ∧ (τ.on p t s).pools[q]? = none) ∨
    ∃ x x', s.pools[q]? = some x ∧ (τ.on p t s).pools[q]? = some x' ∧ x.Mirrors x' := by
  rw [on, Store.pools_modifyPool]
  cases hx : s.pools[q]? with
  | none => exact .inl ⟨rfl, by split <;> rfl⟩
  | some x =>
    by_cases hp : p = q
    · exact .inr ⟨x, τ.pool t x, rfl, by rw [if_pos hp, Option.map_some], mirrors_pool hτ⟩
    · exact .inr ⟨x, x, rfl, by rw [if_neg hp], rfl, rfl, rfl, rfl, rfl, rfl, rfl, rfl, rfl⟩

theorem task?_on (τ : Touch V J) (p q : PoolId) (t u : TaskId) (s : Store V J) :
    (τ.on p t s).task? q u = if p = q ∧ t = u then (s.task? q u).map τ.task else s.task? q u := by
  rw [on, Store.task?_eq, Store.pools_modifyPool, Store.task?_eq]
  by_cases hp : p = q
  · cases s.pools[q]? with
    | none => simp
    | some x => simp [hp, pool, Array.getElem?_modify]
  · simp [hp]

theorem task?_on_self : (τ.on p t s).task? p t = (s.task? p t).map τ.task := by
  rw [task?_on, if_pos ⟨rfl, rfl⟩]

/-- And so does whoever looks at what is spared of a task. -/
theorem task?_mirrors (τ : Touch V J) (p q : PoolId) (t u : TaskId) (s : Store V J) :
    (s.task? q u = none ∧ (τ.on p t s).task? q u = none) ∨
    ∃ y y', s.task? q u = some y ∧ (τ.on p t s).task? q u = some y' ∧
      ((q = p ∧ u = t → τ.SparesState) → y'.state = y.state) ∧
      ((q = p ∧ u = t → τ.SparesStage) → y'.stage = y.stage) := by
  rw [task?_on]
  cases hy : s.task? q u with
  | none => exact .inl ⟨rfl, by split <;> rfl⟩
  | some y =>
    by_cases h : p = q ∧ t = u
    · refine .inr ⟨y, τ.task y, rfl, by rw [if_pos h, Option.map_some], fun hτ => ?_, fun hτ => ?_⟩
      · exact (hτ ⟨h.1.symm, h.2.symm⟩).state y
      · exact (hτ ⟨h.1.symm, h.2.symm⟩).stage y
    · exact .inr ⟨y, y, rfl, if_neg h, fun _ => rfl, fun _ => rfl⟩

theorem modifyPool_on {g : Pool V J → Pool V J}
    (h : q = p → ∀ x, s.pools[p]? = some x → g (τ.pool t x) = τ.pool t (g x)) :
    (τ.on p t s).modifyPool q g = τ.on p t (s.modifyPool q g) := by
  have hpools : (s.pools.modify p (τ.pool t)).modify q g = (s.pools.modify q g).modify p (τ.pool t) :=
    modify_comm fun hp x hx => (h hp.symm x hx).symm
  rw [on, on, Store.modifyPool, Store.modifyPool, Store.modifyPool, Store.modifyPool, hpools]

theorem modifyTask_on {g : Task V J → Task V J}
    (h : q = p ∧ u = t → ∀ y, s.task? p t = some y → τ.task (g y) = g (τ.task y)) :
    (τ.on p t s).modifyTask q u g = τ.on p t (s.modifyTask q u g) := by
  refine modifyPool_on fun hq x hx => ?_
  rw [pool, pool, modify_comm]
  intro ht y hy
  exact h ⟨hq, ht.symm⟩ y (by rw [Store.task?_eq, hx]; exact hy)

theorem setState_on (h : q = p ∧ u = t → τ.SparesState) (state : TaskState) :
    (τ.on p t s).setState q u state = τ.on p t (s.setState q u state) :=
  modifyTask_on fun heq y _ => (h heq).set y state

theorem setStage_on (h : q = p ∧ u = t → τ.SparesStage) (stage : Stage V J) :
    (τ.on p t s).setStage q u stage = τ.on p t (s.setStage q u stage) :=
  modifyTask_on fun heq y _ => (h heq).set y stage

theorem running_on (hτ : τ.SparesEntry) (p q : PoolId) (t : TaskId) (s : Store V J) :
    (τ.on p t s).pools[q]?.map (·.running) = s.pools[q]?.map (·.running) := by
  rcases mirrors hτ p q t s with ⟨hx, hx'⟩ | ⟨x, x', hx, hx', hlike⟩
  · rw [hx, hx']
  · rw [hx, hx', Option.map_some, Option.map_some, hlike.running]

end Touch

namespace Frame

variable {τ : Touch V J} {p : PoolId} {t : TaskId} {start : J → Except RuntimeError (Body V J)}
  {worker : Option (PoolId × Nat)} {choice : Nat} {s : Store V J}

/-- The step does the same on the store with the difference, and leaves the difference. -/
def Commutes (τ : Touch V J) (p : PoolId) (t : TaskId) (start : J → Except RuntimeError (Body V J))
    (worker : Option (PoolId × Nat)) (choice : Nat) (s : Store V J) (f : Frame V J) : Prop :=
  f.step start worker choice (τ.on p t s) =
    (τ.on p t (f.step start worker choice s).1, (f.step start worker choice s).2)

/-- The step depends on the state of the task, or sets it. -/
def HeedsState (p : PoolId) (t : TaskId) : Frame V J → Prop
  | .wake party => party = .task p t
  | .exchange q u _ _ => q = p ∧ u = t
  | .task q u .claim | .task q u (.settle _) | .task q u .park | .task q u .requeue | .task q u .abandon =>
    q = p ∧ u = t
  | _ => False

/-- The step depends on what the task has left to do, or sets it. -/
def HeedsStage (p : PoolId) (t : TaskId) : Frame V J → Prop
  | .pause r => r.party = .task p t
  | .task q u .enter | .task q u .discard => q = p ∧ u = t
  | _ => False

theorem isBlocked_on (hτ : τ.SparesEntry) (worker : Option (PoolId × Nat)) (choice : Nat) (s : Store V J)
    (f : Frame V J) : f.isBlocked worker choice (τ.on p t s) = f.isBlocked worker choice s := by
  cases f with
  | waitIdle q =>
    rcases Touch.mirrors hτ p q t s with ⟨hx, hx'⟩ | ⟨x, x', hx, hx', hlike⟩
    · simp [isBlocked, hx, hx']
    · simp [isBlocked, hx, hx', hlike.active]
  | shutdown q phase =>
    cases phase with
    | join =>
      rcases Touch.mirrors hτ p q t s with ⟨hx, hx'⟩ | ⟨x, x', hx, hx', hlike⟩
      · simp [isBlocked, hx, hx']
      · simp [isBlocked, hx, hx', hlike.stopped, hlike.config]
    | _ => rfl
  | _ => rfl

theorem commutes_run (hτ : τ.SparesEntry) (r : Run V J) : Commutes τ p t start worker choice s (.run r) := by
  have hpoll : ∀ (s : Store V J) (w : Wait V), pollWait (τ.on p t s) r.party w =
      ((pollWait s r.party w).1, τ.on p t (pollWait s r.party w).2) := fun s w => by cases w <;> rfl
  have hcell : ∀ c, (τ.on p t s).cell c = s.cell c := fun _ => rfl
  obtain ⟨party, guards, body⟩ := r
  simp only [Commutes, step]
  cases body with
  | get c key next => simp only [stepRun, hpoll]; split <;> rfl
  | join a b second next =>
    cases second with
    | false => simp only [stepRun, hpoll]
    | true => simp only [stepRun, hpoll]; split <;> rfl
  | select a b second next =>
    obtain ⟨a, ka⟩ := a
    obtain ⟨b, kb⟩ := b
    cases second <;> simp only [stepRun, hpoll] <;> split <;> rfl
  | put c value next | destroy c next | getBlocking c next | getTimeout c next =>
    simp only [stepRun, hcell]
    split <;> rfl
  | spawn q job next => simp only [stepRun]; split <;> rfl
  | current next => simp only [stepRun, Touch.running_on hτ]
  | _ => rfl

theorem commutes_spawn (hτ : τ.SparesEntry) {y : Task V J} (hy : s.task? p t = some y) (q : PoolId) (job : J)
    (phase : SpawnPhase) (next : Except RuntimeError TaskId → Run V J) :
    Commutes τ p t start worker choice s (.spawn q job phase next) := by
  simp only [Commutes, step]
  cases phase with
  | check =>
    simp only [stepSpawn, Touch.running_on hτ]
    split <;> rfl
  | reserve =>
    simp only [stepSpawn]
    rcases Touch.mirrors hτ p q t s with ⟨hx, hx'⟩ | ⟨x, x', hx, hx', hlike⟩
    · simp only [hx, hx']
    · simp only [hx, hx', hlike.config, hlike.queued]
      split <;> rw [Touch.modifyPool_on] <;> exact fun _ _ _ => rfl
  | number =>
    simp only [stepSpawn]
    rcases Touch.mirrors hτ p q t s with ⟨hx, hx'⟩ | ⟨x, x', hx, hx', hlike⟩
    · simp only [hx, hx']
    · simp only [hx, hx', hlike.size]
      rw [Touch.modifyPool_on]
      intro hq z hz
      have hlt : t < z.tasks.size := by
        rw [Store.task?_eq, hz] at hy
        exact (Array.getElem?_eq_some_iff.1 hy).1
      simp only [Touch.pool, push_modify hlt]

theorem commutes_work (hτ : τ.SparesEntry) (seek : Seek) : Commutes τ p t start worker choice s (.work seek) := by
  rcases worker with _ | ⟨q, w⟩
  · rfl
  · simp only [Commutes, step]
    cases seek with
    | loop =>
      simp only [stepWork, Touch.running_on hτ]
      split
      · rfl
      · rw [Touch.modifyPool_on]
        exact fun _ _ _ => rfl
    | keep first rest =>
      simp only [stepWork]
      rw [Touch.modifyPool_on]
      exact fun _ _ _ => rfl
    | idle => rfl
    | own =>
      simp only [stepWork]
      rcases Touch.mirrors hτ p q t s with ⟨hx, hx'⟩ | ⟨x, x', hx, hx', hlike⟩
      · simp only [hx, hx']
      · simp only [hx, hx', hlike.locals]
        rcases x.locals.popLocal w with ⟨_ | u, locals⟩
        · rfl
        · dsimp only
          rw [Touch.modifyPool_on]
          exact fun _ _ _ => rfl
    | shared =>
      simp only [stepWork]
      rcases Touch.mirrors hτ p q t s with ⟨hx, hx'⟩ | ⟨x, x', hx, hx', hlike⟩
      · simp only [hx, hx']
      · simp only [hx, hx', hlike.locals, hlike.injector, hlike.config]
        rcases x.injector.popFront with ⟨_ | u, injector⟩
        · dsimp only
          split <;> rfl
        · dsimp only
          rw [Touch.modifyPool_on]
          exact fun _ _ _ => rfl
    | theft visits =>
      cases visits with
      | nil =>
        simp only [stepWork]
        rw [Touch.modifyPool_on]
        exact fun _ _ _ => rfl
      | cons victim visits =>
        simp only [stepWork]
        rcases Touch.mirrors hτ p q t s with ⟨hx, hx'⟩ | ⟨x, x', hx, hx', hlike⟩
        · simp only [hx, hx']
        · simp only [hx, hx', hlike.locals, hlike.config]
          rcases x.locals.stealFrom victim x.config.stealBatch with ⟨_ | ⟨first, batch⟩, locals⟩
          · rfl
          · dsimp only
            rw [Touch.modifyPool_on]
            exact fun _ _ _ => rfl

theorem commutes_shutdown (hτ : τ.SparesEntry) (q : PoolId) (phase : ShutdownPhase) :
    Commutes τ p t start worker choice s (.shutdown q phase) := by
  simp only [Commutes, step]
  cases phase with
  | check =>
    simp only [stepShutdown, Touch.running_on hτ]
    split <;> rfl
  | close | drainOwn w =>
    simp only [stepShutdown]
    rw [Touch.modifyPool_on]
    exact fun _ _ _ => rfl
  | join =>
    simp only [stepShutdown]
    rcases Touch.mirrors hτ p q t s with ⟨hx, hx'⟩ | ⟨x, x', hx, hx', hlike⟩
    · simp only [hx, hx']
    · simp only [hx, hx', hlike.config]
  | drainShared =>
    simp only [stepShutdown]
    rcases Touch.mirrors hτ p q t s with ⟨hx, hx'⟩ | ⟨x, x', hx, hx', hlike⟩
    · simp only [hx, hx']
    · simp only [hx, hx', hlike.injector]
      rcases x.injector.popFront with ⟨_ | u, injector⟩
      · rfl
      · dsimp only
        rw [Touch.modifyPool_on]
        exact fun _ _ _ => rfl
  | collect =>
    simp only [stepShutdown]
    rcases Touch.mirrors hτ p q t s with ⟨hx, hx'⟩ | ⟨x, x', hx, hx', hlike⟩
    · simp only [hx, hx']
    · simp only [hx, hx', hlike.registry]
      rw [Touch.modifyPool_on]
      intro _ z _
      simp only [Pool.clearRegistry, Touch.pool]
      rw [map_modify]
      exact fun y => (hτ.set y false).symm
  | release tasks => cases tasks <;> rfl

theorem commutes_task (hτ : τ.SparesEntry) (q : PoolId) (u : TaskId) (phase : TaskPhase)
    (hstate : (task q u phase : Frame V J).HeedsState p t → τ.SparesState)
    (hstage : (task q u phase : Frame V J).HeedsStage p t → τ.SparesStage) :
    Commutes τ p t start worker choice s (.task q u phase) := by
  simp only [Commutes, step]
  cases phase with
  | claim | park =>
    rcases Touch.task?_mirrors τ p q t u s with ⟨hy, hy'⟩ | ⟨y, y', hy, hy', hsame, -⟩
    · simp only [stepTask, hy, hy']
    · simp only [stepTask, hy, hy', hsame hstate, Touch.setState_on hstate]
      split <;> rfl
  | begin =>
    simp only [stepTask]
    rw [Touch.modifyPool_on]
    exact fun _ _ _ => rfl
  | enter =>
    rcases Touch.task?_mirrors τ p q t u s with ⟨hy, hy'⟩ | ⟨y, y', hy, hy', -, hsame⟩
    · simp only [stepTask, hy, hy']
    · simp only [stepTask, hy, hy', hsame hstage, Touch.setStage_on hstage]
      split
      · rw [Touch.modifyPool_on]
        · split <;> rfl
        · exact fun _ _ _ => rfl
      · rfl
      · rfl
  | settle outcome | requeue | abandon => simp only [stepTask, Touch.setState_on hstate]
  | tally outcome =>
    simp only [stepTask]
    rcases Touch.mirrors hτ p q t s with ⟨hx, hx'⟩ | ⟨x, x', hx, hx', hlike⟩
    · simp only [hx, hx']
    · simp only [hx, hx', hlike.config]
      rw [Touch.modifyPool_on]
      · split <;> rfl
      · intro _ z _
        cases finalState outcome <;> simp only [Touch.pool, Nat.add_right_comm]
  | unregister | register =>
    simp only [stepTask, Store.setRegistered]
    rw [Touch.modifyTask_on]
    exact fun _ y _ => hτ.set y _
  | enqueue =>
    simp only [stepTask]
    rw [Touch.modifyPool_on]
    intro _ x _
    have hlocals : (τ.pool t x).locals = x.locals := rfl
    rcases worker with _ | ⟨home, w⟩
    · rfl
    · simp only [enqueue, hlocals]
      split
      · split <;> rfl
      · rfl
  | discard =>
    rcases Touch.task?_mirrors τ p q t u s with ⟨hy, hy'⟩ | ⟨y, y', hy, hy', -, hsame⟩
    · simp only [stepTask, hy, hy']
    · simp only [stepTask, hy, hy', hsame hstage, Touch.setStage_on hstage]

/-- A step that heeds only what is spared does the same. -/
theorem commutes_step (hτ : τ.SparesEntry) {y : Task V J} (hy : s.task? p t = some y) {f : Frame V J}
    (hstate : f.HeedsState p t → τ.SparesState) (hstage : f.HeedsStage p t → τ.SparesStage) :
    Commutes τ p t start worker choice s f := by
  have hcell : ∀ c, (τ.on p t s).cell c = s.cell c := fun _ => rfl
  cases f with
  | run r => exact commutes_run hτ r
  | pause r =>
    obtain ⟨party, guards, body⟩ := r
    cases party with
    | outside => rfl
    | task q u =>
      have hspares : q = p ∧ u = t → τ.SparesStage := fun h => hstage (by rw [HeedsStage, h.1, h.2])
      simp only [Commutes, step, stepPause, Touch.setStage_on hspares]
      rw [Touch.modifyPool_on]
      exact fun _ _ _ => rfl
  | drop guards => cases guards <;> rfl
  | fill c value =>
    simp only [Commutes, step, hcell]
    split <;> rfl
  | ended party outcome =>
    cases party with
    | outside => rfl
    | task q u =>
      simp only [Commutes, step, stepEnded]
      rw [Touch.modifyPool_on]
      exact fun _ _ _ => rfl
  | blocked c timed next =>
    simp only [Commutes, step, hcell]
    split <;> rfl
  | spawn q job phase next => exact commutes_spawn hτ hy q job phase next
  | wake party =>
    cases party with
    | outside => rfl
    | task q u =>
      have hspares : q = p ∧ u = t → τ.SparesState := fun h => hstate (by rw [HeedsState, h.1, h.2])
      rcases Touch.task?_mirrors τ p q t u s with ⟨hz, hz'⟩ | ⟨z, z', hz, hz', hsame, -⟩
      · simp only [Commutes, step, stepWake, hz, hz']
      · simp only [Commutes, step, stepWake, hz, hz', hsame hspares]
        split <;> rfl
  | exchange q u seen target =>
    rcases Touch.task?_mirrors τ p q t u s with ⟨hz, hz'⟩ | ⟨z, z', hz, hz', hsame, -⟩
    · simp only [Commutes, step, stepExchange, hz, hz']
    · simp only [Commutes, step, stepExchange, hz, hz', hsame hstate, Touch.setState_on hstate]
      split <;> rfl
  | reschedule q u =>
    simp only [Commutes, step, stepReschedule, Touch.running_on hτ]
    split <;> rfl
  | task q u phase => exact commutes_task hτ q u phase hstate hstage
  | count q change =>
    simp only [Commutes, step]
    rw [Touch.modifyPool_on]
    exact fun _ _ _ => by cases change <;> rfl
  | work seek => exact commutes_work hτ seek
  | shutdown q phase => exact commutes_shutdown hτ q phase
  | _ => rfl

end Frame

namespace Touch

variable {p : PoolId} {t : TaskId} {s : Store V J}

def nothing : Touch V J := { task := id }

/-- The task has something else left to do. -/
def stage (stage : Stage V J) : Touch V J := { task := fun y => { y with stage } }

/-- The task has failed, and so many are counted as failed. -/
def fails (count : Nat) : Touch V J := { task := fun y => { y with state := .failed }, failed := count }

/-- So many are counted as completed. -/
def completes (count : Nat) : Touch V J := { task := id, completed := count }

theorem on_nothing : (nothing : Touch V J).on p t s = s := by
  have hpool : (nothing : Touch V J).pool t = id := funext fun x => by
    rw [pool, nothing, modify_id]
    rfl
  rw [on, hpool, Store.modifyPool, modify_id]

theorem sparesEntry_stage (st : Stage V J) : (stage st).SparesEntry := ⟨fun _ => rfl, fun _ _ => rfl⟩

theorem sparesState_stage (st : Stage V J) : (stage st).SparesState := ⟨fun _ => rfl, fun _ _ => rfl⟩

theorem sparesEntry_fails (n : Nat) : (fails n : Touch V J).SparesEntry := ⟨fun _ => rfl, fun _ _ => rfl⟩

theorem sparesStage_fails (n : Nat) : (fails n : Touch V J).SparesStage := ⟨fun _ => rfl, fun _ _ => rfl⟩

theorem sparesEntry_completes (n : Nat) : (completes n : Touch V J).SparesEntry := ⟨fun _ => rfl, fun _ _ => rfl⟩

theorem sparesState_completes (n : Nat) : (completes n : Touch V J).SparesState := ⟨fun _ => rfl, fun _ _ => rfl⟩

theorem sparesStage_completes (n : Nat) : (completes n : Touch V J).SparesStage := ⟨fun _ => rfl, fun _ _ => rfl⟩

end Touch

namespace Frame

variable {p : PoolId} {t : TaskId} {start : J → Except RuntimeError (Body V J)} {worker : Option (PoolId × Nat)}
  {choice : Nat} {s s' : Store V J} {f : Frame V J} {y : Task V J}

/-- Nobody but a release cares whether a task that has ended has failed. -/
theorem commutes_fails (hy : s.task? p t = some y) (hstate : y.state = .completed) (hok : f.Ok worker s')
    (hworks : ¬ f.Works p t) (habandon : f ≠ .task p t .abandon) (n : Nat) :
    Commutes (Touch.fails n) p t start worker choice s f := by
  by_cases hheeds : f.HeedsState p t
  · have hy' : ((Touch.fails n).on p t s).task? p t = some { y with state := .failed } := by
      rw [Touch.task?_on_self, hy]
      rfl
    cases f with
    | wake party =>
      cases (show party = .task p t from hheeds)
      simp only [Commutes, step, stepWake, hy, hy', hstate, TaskState.wakeTarget?]
    | exchange q u seen target =>
      obtain ⟨rfl, rfl⟩ := hheeds
      have hseen : seen.wakeTarget? = some target := hok
      have hcompleted : TaskState.completed ≠ seen := by
        rintro rfl
        cases hseen
      have hfailed : TaskState.failed ≠ seen := by
        rintro rfl
        cases hseen
      simp only [Commutes, step, stepExchange, hy, hy', hstate, TaskState.exchange, if_neg hcompleted, if_neg hfailed]
    | task q u phase =>
      cases phase with
      | claim =>
        obtain ⟨rfl, rfl⟩ := hheeds
        simp [Commutes, step, stepTask, hy, hy', hstate, TaskState.exchange]
      | settle outcome =>
        obtain ⟨rfl, rfl⟩ := hheeds
        exact absurd (by simp [Works]) hworks
      | park | requeue =>
        obtain ⟨rfl, rfl⟩ := hheeds
        exact absurd (by simp [Works]) hworks
      | abandon =>
        obtain ⟨rfl, rfl⟩ := hheeds
        exact absurd rfl habandon
      | _ => exact hheeds.elim
    | _ => exact hheeds.elim
  · exact commutes_step (Touch.sparesEntry_fails n) hy (fun h => absurd h hheeds) fun _ => Touch.sparesStage_fails n

/-- A step that does not heed what a task has left to do leaves it as it is. -/
theorem stage_alter (hf : ¬ f.HeedsStage p t) : (f.alter p t y).stage = y.stage := by
  cases f with
  | pause r =>
    have hparty : ¬ r.party = .task p t := hf
    rw [alter, if_neg hparty]
  | exchange q u seen target => simp only [alter]; split <;> rfl
  | task q u phase =>
    simp only [alter]
    split
    · cases phase with
      | enter | discard => exact absurd ‹_› hf
      | claim | park => simp only [TaskPhase.alter]; split <;> rfl
      | _ => rfl
    · rfl
  | shutdown q phase =>
    cases phase with
    | collect => simp only [alter]; split <;> rfl
    | _ => rfl
  | _ => rfl

/-- A task is completed by the end of its body only. -/
theorem eq_of_completed_alter (hok : f.Ok worker s) (hy : y.state ≠ .completed)
    (h : (f.alter p t y).state = .completed) : ∃ outcome, f = .task p t (.settle outcome) := by
  cases f with
  | pause r => simp only [alter] at h; split at h <;> exact absurd h hy
  | exchange q u seen target =>
    simp only [alter] at h
    split at h
    · have hseen : seen.wakeTarget? = some target := hok
      cases (show target = .completed from h)
      cases seen <;> cases hseen
    · exact absurd h hy
  | task q u phase =>
    simp only [alter] at h
    split at h
    · rename_i hq
      obtain ⟨rfl, rfl⟩ := hq
      cases phase with
      | settle outcome => exact ⟨outcome, rfl⟩
      | claim | park =>
        simp only [TaskPhase.alter] at h
        split at h
        · cases h
        · exact absurd h hy
      | requeue | abandon => cases h
      | _ => exact absurd h hy
    · exact absurd h hy
  | shutdown q phase =>
    cases phase with
    | collect => simp only [alter] at h; split at h <;> exact absurd h hy
    | _ => exact absurd h hy
  | _ => exact absurd h hy

/-- And stays so, unless it is released. -/
theorem completed_alter (hok : f.Ok worker s) (hy : y.state = .completed) (hworks : ¬ f.Works p t)
    (habandon : f ≠ .task p t .abandon) : (f.alter p t y).state = .completed := by
  cases f with
  | pause r => simp only [alter]; split <;> exact hy
  | exchange q u seen target =>
    simp only [alter]
    split
    · rename_i hq
      have hseen : seen.wakeTarget? = some target := hok
      rw [← hq.2.2, hy] at hseen
      cases hseen
    · exact hy
  | task q u phase =>
    simp only [alter]
    split
    · rename_i hq
      obtain ⟨rfl, rfl⟩ := hq
      cases phase with
      | settle | requeue => exact absurd (by simp [Works]) hworks
      | abandon => exact absurd rfl habandon
      | claim | park => simp [TaskPhase.alter, hy]
      | _ => exact hy
    · exact hy
  | shutdown q phase =>
    cases phase with
    | collect => simp only [alter]; split <;> exact hy
    | _ => exact hy
  | _ => exact hy

end Frame
end Dataflow
