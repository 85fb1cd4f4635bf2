import Dataflow.Proofs.Bookings
import Dataflow.Proofs.Tickets

/-!
# Accounts

What a pool has counted, less what its tasks say, is what the frames of all threads have still to book: every step
that changes a task or a counter is followed by the frames that make up for it (`Frame.balances_step`). The counters
are natural numbers and are counted down, so that a step needs something to count down (`Frame.Covered`).
-/

namespace Dataflow

variable {V J : Type}

/-- What is accounted for in a pool. -/
inductive Account where
  | queued
  | active
  | live
  | spawned
  | completed
  | failed
  | parked
  /-- The entry of a task in the registry. -/
  | entry (t : TaskId)

/-- The task is to be polled, or being polled. -/
def TaskState.isActive : TaskState → Bool
  | .queued | .running | .notified => true
  | _ => false

/-- Nobody has begun with the task. -/
def Stage.isUnclaimed : Stage V J → Bool
  | .unclaimed _ => true
  | _ => false

@[simp] theorem Stage.isUnclaimed_unclaimed (job : J) : (.unclaimed job : Stage V J).isUnclaimed = true := rfl

@[simp] theorem Stage.isUnclaimed_started (guards : List (Guard V)) (body : Body V J) :
    (.started guards body : Stage V J).isUnclaimed = false := rfl

@[simp] theorem Stage.isUnclaimed_consumed : (.consumed : Stage V J).isUnclaimed = false := rfl

/-- What a task adds to an account. -/
def Task.share (u : TaskId) (y : Task V J) : Account → ℤ
  | .queued => if y.stage.isUnclaimed then 1 else 0
  | .active => if y.state.isActive then 1 else 0
  | .live => if y.state.isTerminal then 0 else 1
  | .spawned => 1
  | .completed => if y.state = .completed then 1 else 0
  | .failed => if y.state = .failed then 1 else 0
  | .parked => if y.state = .suspended then 1 else 0
  | .entry t => if u = t then (if y.state.isTerminal then 0 else 1) - (if y.registered then 1 else 0) else 0

namespace Pool

/-- What a pool has counted. -/
def balance (pool : Pool V J) : Account → ℤ
  | .queued => pool.queued
  | .active => pool.active
  | .live => pool.live
  | .spawned => pool.stats.spawned
  | .completed => pool.stats.completed
  | .failed => pool.stats.failed
  | .parked => pool.stats.suspended - pool.stats.resumed
  | .entry _ => 0

/-- What the tasks of a pool say. -/
def shares (pool : Pool V J) (a : Account) : ℤ := (pool.tasks.toList.mapIdx fun t y => y.share t a).sum

/-- What a pool has counted, less what its tasks say. -/
def surplus (pool : Pool V J) (a : Account) : ℤ := pool.balance a - pool.shares a

variable {pool pool' : Pool V J} {a : Account} {t : TaskId}

theorem shares_of_tasks_eq (h : pool'.tasks = pool.tasks) : pool'.shares a = pool.shares a := by
  rw [shares, shares, h]

theorem shares_push (y : Task V J) :
    shares { pool with tasks := pool.tasks.push y } a = pool.shares a + y.share pool.tasks.size a := by
  simp [shares, List.mapIdx_append]

theorem shares_modify {y : Task V J} (hy : pool.tasks[t]? = some y) (g : Task V J → Task V J) :
    shares { pool with tasks := pool.tasks.modify t g } a = pool.shares a + (g y).share t a - y.share t a := by
  obtain ⟨rest, h1, h2⟩ := exists_sum_mapIdx_modify (fun t (y : Task V J) => y.share t a)
    (show pool.tasks.toList[t]? = some y by rw [Array.getElem?_toList, hy])
  rw [shares, Array.toList_modify, h2, shares, h1]
  omega

end Pool

namespace Store

variable {s s' : Store V J} {p q : PoolId} {t u : TaskId} {a : Account}

/-- What a pool has counted, less what its tasks say; nothing if there is no such pool. -/
def surplus (s : Store V J) (p : PoolId) (a : Account) : ℤ := (s.pools[p]?.map (·.surplus a)).getD 0

theorem surplus_of_pool {pool : Pool V J} (hp : s.pools[p]? = some pool) : s.surplus p a = pool.surplus a := by
  rw [surplus, hp]
  rfl

theorem surplus_of_pools_eq (h : s'.pools = s.pools) : s'.surplus p a = s.surplus p a := by
  rw [surplus, h, surplus]

theorem surplus_modifyPool_of_ne {g : Pool V J → Pool V J} (h : q ≠ p) :
    (s.modifyPool q g).surplus p a = s.surplus p a := by
  rw [surplus, pools_modifyPool, if_neg h, surplus]

theorem surplus_modifyPool_of_pool {g : Pool V J → Pool V J} {pool : Pool V J} (hp : s.pools[p]? = some pool) :
    (s.modifyPool p g).surplus p a = (g pool).surplus a :=
  surplus_of_pool (by rw [pools_modifyPool, if_pos rfl, hp]; rfl)

/-- Nothing is counted, and no task is touched. -/
theorem surplus_modifyPool {g : Pool V J → Pool V J}
    (hg : ∀ pool, (g pool).tasks = pool.tasks ∧ (g pool).balance = pool.balance) :
    (s.modifyPool q g).surplus p a = s.surplus p a := by
  by_cases hq : q = p
  · subst hq
    cases hp : s.pools[q]? with
    | none => rw [surplus, pools_modifyPool, if_pos rfl, hp, surplus, hp]; rfl
    | some pool =>
      rw [surplus_modifyPool_of_pool hp, surplus_of_pool hp, Pool.surplus, Pool.surplus, (hg pool).2,
        Pool.shares_of_tasks_eq (hg pool).1]
  · exact surplus_modifyPool_of_ne hq

/-- Something is counted, and no task is touched. -/
theorem surplus_modifyPool_of_tasks {g : Pool V J → Pool V J} {pool : Pool V J} (hp : s.pools[p]? = some pool)
    (hg : (g pool).tasks = pool.tasks) :
    (s.modifyPool p g).surplus p a = s.surplus p a + (g pool).balance a - pool.balance a := by
  rw [surplus_modifyPool_of_pool hp, surplus_of_pool hp, Pool.surplus, Pool.surplus, Pool.shares_of_tasks_eq hg]
  omega

/-- A task is touched, and nothing is counted. -/
theorem surplus_modifyTask {g : Task V J → Task V J} {y : Task V J} (hy : s.task? p t = some y) :
    (s.modifyTask p t g).surplus p a = s.surplus p a + y.share t a - (g y).share t a := by
  obtain ⟨pool, hp, ht⟩ := exists_pool_of_task? hy
  rw [modifyTask, surplus_modifyPool_of_pool hp, surplus_of_pool hp, Pool.surplus, Pool.surplus,
    Pool.shares_modify ht, show Pool.balance { pool with tasks := pool.tasks.modify t g } = pool.balance from rfl]
  omega

theorem surplus_modifyTask_of_ne {g : Task V J → Task V J} (h : q ≠ p) :
    (s.modifyTask q u g).surplus p a = s.surplus p a := surplus_modifyPool_of_ne h

end Store

/-- What is owed before the counter is changed. -/
def Count.due : Count → Account → ℤ
  | .activeUp, .active => -1
  | .activeDown, .active => 1
  | .liveUp, .live => -1
  | .liveDown n, .live => n
  | .spawned, .spawned => -1
  | .suspended, .parked => -1
  | .resumed, .parked => 1
  | _, _ => 0

/-- What is owed before the step with a task is taken. -/
def TaskPhase.due (u : TaskId) : TaskPhase → Account → ℤ
  | .tally _, .active => 1
  | .tally _, .live => 1
  | .tally outcome, .completed => if Frame.finalState outcome = .completed then -1 else 0
  | .tally outcome, .failed => if Frame.finalState outcome = .failed then -1 else 0
  | .tally _, .entry t => if u = t then 1 else 0
  | .unregister, .entry t => if u = t then 1 else 0
  | .register, .entry t => if u = t then -1 else 0
  | _, _ => 0

namespace Frame

/-- What a frame still has to book in an account of a pool. -/
def due (p : PoolId) (a : Account) : Frame V J → ℤ
  | .spawn q _ .number _ => if q = p then match a with | .queued => 1 | _ => 0 else 0
  | .count q change => if q = p then change.due a else 0
  | .reschedule q _ => if q = p then match a with | .active => -1 | .parked => 1 | _ => 0 else 0
  | .task q t phase => if q = p then phase.due t a else 0
  | _ => 0

/-- What frames still have to book. -/
def dues (p : PoolId) (a : Account) (fs : List (Frame V J)) : ℤ := (fs.map (due p a)).sum

variable {p q : PoolId} {a : Account} {t u : TaskId} {f : Frame V J} {fs : List (Frame V J)}

@[simp] theorem dues_nil : dues p a ([] : List (Frame V J)) = 0 := rfl

@[simp] theorem dues_cons : dues p a (f :: fs) = f.due p a + dues p a fs := by simp [dues]

theorem due_of_not_books (h : ¬ f.Books p) : f.due p a = 0 := by
  cases f with
  | spawn q job phase next =>
    cases phase with
    | number => exact if_neg h
    | _ => rfl
  | count q change | reschedule q t => exact if_neg h
  | task q t phase =>
    by_cases hq : q = p
    · cases phase with
      | tally | unregister | register => exact absurd hq h
      | _ => simp [due, TaskPhase.due]
    · exact if_neg hq
  | _ => rfl

theorem dues_of_not_books (h : ∀ f ∈ fs, ¬ f.Books p) : dues p a fs = 0 := by
  induction fs with
  | nil => rfl
  | cons f fs ih =>
    rw [dues_cons, due_of_not_books (h f (List.mem_cons_self ..)), ih fun g hg => h g (List.mem_cons_of_mem _ hg),
      add_zero]

theorem finalState_eq (outcome : Outcome) : finalState outcome = .completed ∨ finalState outcome = .failed := by
  rcases outcome with ((_ | _) | _) <;> simp [finalState]

/-- A step changes the surplus of a pool by as much as it changes what is still to be booked. -/
def Balances (p : PoolId) (s : Store V J) (f : Frame V J) (s' : Store V J) (fs : List (Frame V J)) : Prop :=
  ∀ a, s'.surplus p a + f.due p a = s.surplus p a + dues p a fs

/-- A step of the pool finds what it needs: the task as it should be, and something to count down. -/
structure Covered (worker : Option (PoolId × Nat)) (p : PoolId) (s : Store V J) (f : Frame V J) : Prop where
  fits : ∀ t k, f.holds worker p t = {k} → ∃ y, s.task? p t = some y ∧ k.Fits y
  claims : ∀ t y, f = .task p t .enter → s.task? p t = some y → y.stage.isUnclaimed →
    ∀ pool, s.pools[p]? = some pool → 0 < pool.queued
  made : ∀ job next, f = .spawn p job .number next → ∃ pool, s.pools[p]? = some pool
  counts : ∀ change, f = .count p change → ∃ pool, s.pools[p]? = some pool ∧
    (change = .activeDown → 0 < pool.active) ∧ ∀ n, change = .liveDown n → n ≤ pool.live
  tallies : ∀ t outcome, f = .task p t (.tally outcome) → ∃ pool, s.pools[p]? = some pool
  registers : ∀ t, f = .task p t .register → ∃ y, s.task? p t = some y ∧ y.registered = false
  unregisters : ∀ t, f = .task p t .unregister → ∃ y, s.task? p t = some y ∧ y.registered = true

variable {s s' : Store V J}

/-- Nothing is booked, and nothing is to be. -/
theorem Balances.idle (hs : ∀ a, s'.surplus p a = s.surplus p a) (hf : ¬ f.Books p) (hfs : ∀ g ∈ fs, ¬ g.Books p) :
    Balances p s f s' fs := fun a => by
  rw [hs, due_of_not_books hf, dues_of_not_books hfs]

theorem Balances.of_pools_eq (hs : s'.pools = s.pools) (hf : ¬ f.Books p) (hfs : ∀ g ∈ fs, ¬ g.Books p) :
    Balances p s f s' fs := .idle (fun _ => Store.surplus_of_pools_eq hs) hf hfs

section step

variable {start : J → Except RuntimeError (Body V J)} {worker : Option (PoolId × Nat)} {choice : Nat}

/-- The step of a frame that has to do with a task of another pool. -/
theorem balances_task_of_ne (hq : q ≠ p) (phase : TaskPhase) :
    Balances p s (.task q t phase) (stepTask start worker s q t phase).1 (stepTask start worker s q t phase).2 := by
  have hf : ¬ (task q t phase : Frame V J).Books p := by
    cases phase <;> first | exact hq | exact id
  have changed : ∀ {g : Pool V J → Pool V J} {fs}, (∀ h ∈ fs, ¬ h.Books p) →
      Balances p s (.task q t phase) (s.modifyPool q g) fs := fun hfs =>
    .idle (fun _ => Store.surplus_modifyPool_of_ne hq) hf hfs
  cases phase with
  | claim =>
    simp only [stepTask]
    split
    · exact .of_pools_eq rfl hf (by simp)
    · split
      · exact .of_pools_eq rfl hf (by simp)
      · exact changed (by simp [Books])
  | park =>
    simp only [stepTask]
    split
    · exact .of_pools_eq rfl hf (by simp)
    · split
      · exact changed (by simp [Books, hq])
      · exact .of_pools_eq rfl hf (by simp [Books])
  | enter =>
    simp only [stepTask]
    split
    · exact .of_pools_eq rfl hf (by simp)
    · have hsame : ∀ {g : Pool V J → Pool V J} a,
          ((s.setStage q t .consumed).modifyPool q g).surplus p a = s.surplus p a := fun a =>
        (Store.surplus_modifyPool_of_ne hq).trans (Store.surplus_modifyTask_of_ne hq)
      split
      · split <;> exact .idle hsame hf (by simp [Books])
      · exact changed (by simp [Books])
      · exact changed (by simp [Books])
  | tally outcome =>
    rw [stepTask_tally]
    split
    · exact .of_pools_eq rfl hf (by simp)
    · split
      · exact .idle (fun a => (Store.surplus_of_pools_eq rfl).trans (Store.surplus_modifyPool_of_ne hq)) hf (by simp)
      · exact changed (by simp [Books, hq])
  | discard =>
    simp only [stepTask]
    split
    · exact .of_pools_eq rfl hf (by simp)
    · refine changed fun g hg => ?_
      dsimp only at hg
      split at hg
      · exact (isQuiet_dropPending hg).not_books
      · simp at hg
  | _ =>
    simp only [stepTask]
    exact changed (by simp [Books, hq])

/-- The step of a frame that has to do with a task of the pool. -/
theorem balances_task_self {phase : TaskPhase} (hf : (task p t phase : Frame V J).Ok worker s) (hp : ¬ s.Closed p)
    (hc : (task p t phase : Frame V J).Covered worker p s)
    (halive : (stepTask start worker s p t phase).1.aborted = false) :
    Balances p s (.task p t phase) (stepTask start worker s p t phase).1 (stepTask start worker s p t phase).2 := by
  -- a task is touched in one place
  have touched : ∀ {y : Task V J} {g : Task V J → Task V J} {fs}, s.task? p t = some y →
      (∀ a, y.share t a + phase.due t a = (g y).share t a + dues p a fs) →
      Balances p s (.task p t phase) (s.modifyTask p t g) fs := by
    intro y g fs hy hshare a
    have h := hshare a
    rw [Store.surplus_modifyTask hy, due, if_pos rfl]
    omega
  cases phase with
  | claim =>
    obtain ⟨y, hy, hfit⟩ := hc.fits t .ready (by simp [holds])
    simp only [stepTask, hy, TaskState.exchange, hfit.1, if_true]
    refine touched hy fun a => ?_
    cases a <;> simp [Task.share, hfit.1, TaskPhase.due, due, TaskState.isActive, TaskState.isTerminal]
  | begin => exact .idle (fun _ => Store.surplus_modifyPool fun _ => ⟨rfl, rfl⟩) id (by simp [stepTask, Books])
  | enter =>
    obtain ⟨y, hy, hfit⟩ := hc.fits t .claimed (by simp [holds])
    obtain ⟨pool, hpool, hget⟩ := Store.exists_pool_of_task? hy
    have taken : ∀ {fs : List (Frame V J)}, y.stage.isUnclaimed = false → (∀ g ∈ fs, ¬ g.Books p) →
        Balances p s (.task p t .enter) (s.setStage p t .consumed) fs := fun hstage hfs =>
      touched hy fun a => by
        rw [dues_of_not_books hfs]
        cases a <;> simp [Task.share, hstage, TaskPhase.due]
    simp only [stepTask, hy]
    split
    · rename_i job hjob
      have hpos := hc.claims t y rfl hy (by rw [hjob]; rfl) pool hpool
      have counted : ∀ {fs : List (Frame V J)}, (∀ g ∈ fs, ¬ g.Books p) →
          Balances p s (.task p t .enter) ((s.setStage p t .consumed).modifyPool p fun pool =>
            { pool with queued := pool.queued - 1 }) fs := by
        intro fs hfs a
        have hpool' : (s.setStage p t .consumed).pools[p]? =
            some { pool with tasks := pool.tasks.modify t fun task => { task with stage := .consumed } } := by
          rw [Store.setStage, Store.modifyTask, Store.pools_modifyPool, if_pos rfl, hpool]
          rfl
        rw [Store.surplus_modifyPool_of_tasks hpool' rfl, Store.setStage, Store.surplus_modifyTask hy,
          dues_of_not_books hfs]
        cases a <;> simp [Task.share, hjob, due, TaskPhase.due, Pool.balance]
        omega
      split <;> exact counted (by simp [Books])
    · exact taken (by simp [*]) (by simp [Books])
    · exact taken (by simp [*]) (by simp [Books])
  | settle outcome =>
    obtain ⟨y, hy, hfit⟩ := hc.fits t (.ending outcome) (by simp [holds])
    simp only [stepTask]
    refine touched hy fun a => ?_
    rcases hfit.1 with hstate | hstate <;> rcases finalState_eq outcome with hfinal | hfinal <;> cases a <;>
      simp [Task.share, hstate, hfinal, due, TaskPhase.due, TaskState.isActive, TaskState.isTerminal]
    all_goals split <;> omega
  | tally outcome =>
    obtain ⟨pool, hpool⟩ := hc.tallies t outcome rfl
    rw [stepTask_tally, hpool] at halive ⊢
    dsimp only at halive ⊢
    by_cases hfatal : isFatal pool.config outcome = true
    · rw [if_pos hfatal] at halive
      cases halive
    · rw [if_neg hfatal]
      intro a
      have htasks : (tallied outcome pool).tasks = pool.tasks := by rw [tallied_eq]
      rw [Store.surplus_modifyPool_of_tasks hpool htasks]
      rcases finalState_eq outcome with hfinal | hfinal <;> cases a <;>
        simp [tallied, hfinal, Pool.balance, due, TaskPhase.due, Count.due]
      all_goals omega
  | unregister =>
    obtain ⟨y, hy, hreg⟩ := hc.unregisters t rfl
    simp only [stepTask]
    refine touched hy fun a => ?_
    cases a <;> simp [Task.share, hreg, TaskPhase.due]
    split <;> omega
  | register =>
    obtain ⟨y, hy, hreg⟩ := hc.registers t rfl
    simp only [stepTask]
    refine touched hy fun a => ?_
    cases a <;> simp [Task.share, hreg, TaskPhase.due]
    split <;> omega
  | park =>
    obtain ⟨y, hy, hfit⟩ := hc.fits t .parking (by simp [holds])
    simp only [stepTask, hy, TaskState.exchange]
    rcases hfit.1 with hstate | hstate
    · simp only [hstate, if_true]
      exact touched hy fun a => by
        cases a <;> simp [Task.share, hstate, TaskPhase.due, due, Count.due, TaskState.isActive, TaskState.isTerminal]
    · simp only [hstate, reduceCtorEq, if_false]
      exact .of_pools_eq rfl id (by simp [Books])
  | requeue =>
    obtain ⟨y, hy, hfit⟩ := hc.fits t .requeue (by simp [holds])
    simp only [stepTask]
    exact touched hy fun a => by
      cases a <;> simp [Task.share, hfit.1, TaskPhase.due, due, TaskState.isActive, TaskState.isTerminal]
  | enqueue =>
    have hsame : ∀ pool : Pool V J, (enqueue worker p t pool).balance = pool.balance := by
      intro pool
      unfold enqueue
      split
      · split
        · split <;> rfl
        · rfl
      · rfl
    intro a
    rw [stepTask, Store.surplus_modifyPool fun pool => ⟨tasks_enqueue pool, hsame pool⟩]
    simp [due, TaskPhase.due]
  | abandon | discard => exact absurd hf hp

theorem balances_spawn {job : J} {phase : SpawnPhase} {next : Except RuntimeError TaskId → Run V J}
    (hc : (spawn q job phase next : Frame V J).Covered worker p s) :
    Balances p s (.spawn q job phase next) (stepSpawn s q job next phase).1 (stepSpawn s q job next phase).2 := by
  cases phase with
  | check => simp only [stepSpawn]; split <;> exact .of_pools_eq rfl id (by simp [Books])
  | reserve =>
    simp only [stepSpawn]
    split
    · exact .of_pools_eq rfl id (by simp [Books])
    · rename_i pool hpool
      split
      · exact .idle (fun a => Store.surplus_modifyPool fun _ => ⟨rfl, funext fun a => by cases a <;> rfl⟩) id
          (by simp [Books])
      · by_cases hq : q = p
        · subst hq
          intro a
          rw [Store.surplus_modifyPool_of_tasks hpool rfl]
          cases a <;> simp [Pool.balance, due]
          omega
        · exact .idle (fun a => Store.surplus_modifyPool_of_ne hq) id (by simp [Books, hq])
  | number =>
    by_cases hq : q = p
    · subst hq
      obtain ⟨pool, hpool⟩ := hc.made job next rfl
      intro a
      have hsurplus : (s.modifyPool q fun pool => { pool with tasks := pool.tasks.push { stage := .unclaimed job } }).surplus q a =
          s.surplus q a - Task.share pool.tasks.size ({ stage := .unclaimed job } : Task V J) a := by
        rw [Store.surplus_modifyPool_of_pool hpool, Store.surplus_of_pool hpool, Pool.surplus, Pool.surplus,
          Pool.shares_push]
        simp only [Pool.balance]
        omega
      simp only [stepSpawn, hpool]
      rw [hsurplus]
      cases a <;> simp [Task.share, due, TaskPhase.due, Count.due, TaskState.isActive,
        TaskState.isTerminal]
      all_goals (try split) <;> omega
    · simp only [stepSpawn]
      split
      · exact .of_pools_eq rfl hq (by simp [Books])
      · exact .idle (fun a => Store.surplus_modifyPool_of_ne hq) hq (by simp [Books, hq])

/-- A worker on its way to a task, and a shutdown that has not closed the pool, book nothing. -/
theorem balances_work {seek : Seek} (w : Nat) :
    Balances p s (.work seek) (stepWork choice s q w seek).1 (stepWork choice s q w seek).2 := by
  have hfs : ∀ g ∈ (stepWork choice s q w seek).2, ¬ g.Books p := fun g hg => by
    rcases stepWork_frames choice s hg with ⟨_, rfl⟩ | ⟨_, rfl⟩ <;> exact id
  have counted : ∀ {g : Pool V J → Pool V J} a,
      (∀ pool, (g pool).tasks = pool.tasks ∧ (g pool).balance = pool.balance) →
      (s.modifyPool q g).surplus p a = s.surplus p a := fun a hg => Store.surplus_modifyPool hg
  refine .idle (fun a => ?_) id hfs
  cases seek with
  | loop =>
    simp only [stepWork]
    split
    · rfl
    · exact counted a fun _ => ⟨rfl, rfl⟩
  | own | shared =>
    simp only [stepWork]
    split
    · rfl
    · split
      · exact counted a fun _ => ⟨rfl, rfl⟩
      · first | rfl | (split <;> rfl)
  | theft victims =>
    cases victims with
    | nil => exact counted a fun _ => ⟨rfl, rfl⟩
    | cons victim victims =>
      simp only [stepWork]
      split
      · rfl
      · split
        · rfl
        · exact counted a fun _ => ⟨rfl, rfl⟩
  | keep first rest => exact counted a fun _ => ⟨rfl, rfl⟩
  | idle => rfl

theorem balances_shutdown {phase : ShutdownPhase} (hf : (shutdown q phase : Frame V J).Ok worker s)
    (hp : ¬ s.Closed p) :
    Balances p s (.shutdown q phase) (stepShutdown choice s q phase).1 (stepShutdown choice s q phase).2 := by
  cases phase with
  | check => simp only [stepShutdown]; split <;> exact .of_pools_eq rfl id (by simp [Books])
  | close => exact .idle (fun a => Store.surplus_modifyPool fun _ => ⟨rfl, rfl⟩) id (by simp [stepShutdown, Books])
  | join =>
    simp only [stepShutdown]
    split
    · exact .of_pools_eq rfl id (by simp)
    · refine .of_pools_eq rfl id fun g hg => ?_
      simp only [List.mem_append, List.mem_map, List.mem_cons, List.not_mem_nil, or_false] at hg
      rcases hg with ⟨_, -, rfl⟩ | rfl | rfl <;> exact id
  | drainOwn w => exact .idle (fun a => Store.surplus_modifyPool fun _ => ⟨rfl, rfl⟩) id (by simp [stepShutdown])
  | drainShared =>
    simp only [stepShutdown]
    split
    · exact .of_pools_eq rfl id (by simp)
    · split
      · exact .idle (fun a => Store.surplus_modifyPool fun _ => ⟨rfl, rfl⟩) id (by simp [Books])
      · exact .of_pools_eq rfl id (by simp)
  | collect =>
    have hq : q ≠ p := fun hq => hp (hq ▸ hf)
    simp only [stepShutdown]
    split
    · exact .of_pools_eq rfl id (by simp)
    · exact .idle (fun a => Store.surplus_modifyPool_of_ne hq) id (by simp [Books, hq])
  | release tasks => cases tasks <;> exact .of_pools_eq rfl id (by simp [stepShutdown, Books])

/-- The step of a counter. -/
theorem balances_count {change : Count} (hc : (count q change : Frame V J).Covered worker p s) :
    Balances p s (.count q change) (s.modifyPool q fun pool => pool.count change) [] := by
  by_cases hq : q = p
  · subst hq
    obtain ⟨pool, hpool, hactive, hlive⟩ := hc.counts change rfl
    intro a
    have htasks : (pool.count change).tasks = pool.tasks := by cases change <;> rfl
    rw [Store.surplus_modifyPool_of_tasks hpool htasks]
    cases change with
    | activeDown =>
      have := hactive rfl
      cases a <;> simp [Pool.balance, Pool.count, due, Count.due]
      omega
    | liveDown n =>
      have := hlive n rfl
      cases a <;> simp [Pool.balance, Pool.count, due, Count.due]
      omega
    | _ =>
      cases a <;> simp [Pool.balance, Pool.count, due, Count.due]
      omega
  · exact .idle (fun a => Store.surplus_modifyPool_of_ne hq) hq (by simp)

/-- Every step changes the surplus of a pool by as much as it changes what is still to be booked. -/
theorem balances_step (hf : f.Ok worker s) (hp : ¬ s.Closed p) (hc : f.Covered worker p s)
    (halive : (f.step start worker choice s).1.aborted = false) :
    Balances p s f (f.step start worker choice s).1 (f.step start worker choice s).2 := by
  cases f with
  | run r =>
    obtain ⟨quiet, g, hfs, hquiet, hg⟩ := stepRun_frames worker s r
    refine .of_pools_eq (stepRun_pools worker s r) id fun f hf => ?_
    rw [step, hfs] at hf
    rcases List.mem_append.1 hf with hf | hf
    · exact (hquiet f hf).not_books
    · rw [List.mem_singleton.1 hf]
      exact hg.not_books
  | pause r =>
    simp only [step, stepPause]
    split
    · exact .of_pools_eq rfl id (by simp)
    · rename_i q t hparty
      refine .idle (fun a => ?_) id (by simp [Books])
      have polled : ∀ s' : Store V J, (s'.modifyPool q fun pool =>
          { pool with stats := pool.stats.endPoll }).surplus p a = s'.surplus p a := fun s' =>
        Store.surplus_modifyPool fun _ => ⟨rfl, rfl⟩
      rw [polled]
      by_cases hq : q = p
      · subst hq
        obtain ⟨y, hy, hfit⟩ := hc.fits t (.pausing r) (by simp [holds, hparty])
        rw [Store.setStage, Store.surplus_modifyTask hy]
        cases a <;> simp [Task.share, hfit.2]
      · exact Store.surplus_modifyTask_of_ne hq
  | drop guards =>
    cases guards with
    | nil => exact .of_pools_eq rfl id (by simp [step])
    | cons guard guards =>
      refine .of_pools_eq rfl id fun g hg => ?_
      simp only [step, List.mem_append, List.mem_map, List.mem_singleton] at hg
      rcases hg with ⟨_, -, rfl⟩ | rfl <;> exact id
  | fill c value =>
    simp only [step]
    split
    · exact .of_pools_eq rfl id (by simp)
    · exact .of_pools_eq rfl id fun g hg => (isQuiet_afterPut hg).not_books
  | ended party outcome =>
    cases party with
    | outside => exact .of_pools_eq rfl id (by simp [step, stepEnded])
    | task q t =>
      exact .idle (fun a => Store.surplus_modifyPool fun _ => ⟨rfl, rfl⟩) id (by simp [step, stepEnded, Books])
  | blocked c timed next => simp only [step]; split <;> exact .of_pools_eq rfl id (by simp [Books])
  | spawn q job phase next => exact balances_spawn hc
  | wake party =>
    cases party with
    | outside => exact .of_pools_eq rfl id (by simp [step, stepWake])
    | task q t =>
      simp only [step, stepWake]
      split
      · exact .of_pools_eq rfl id (by simp)
      · split <;> exact .of_pools_eq rfl id (by simp [Books])
  | exchange q t seen target =>
    have hseen : seen.wakeTarget? = some target := hf
    simp only [step, stepExchange]
    split
    · exact .of_pools_eq rfl id (by simp)
    · rename_i y hy
      simp only [TaskState.exchange]
      by_cases hstate : y.state = seen
      · simp only [hstate, if_true]
        by_cases hq : q = p
        · subst hq
          intro a
          rw [Store.setState, Store.surplus_modifyTask hy]
          cases seen <;> simp only [TaskState.wakeTarget?, Option.some.injEq, reduceCtorEq] at hseen <;>
            subst hseen <;> cases a <;>
            simp [Task.share, hstate, due, TaskState.isActive, TaskState.isTerminal]
          omega
        · refine .idle (fun a => Store.surplus_modifyTask_of_ne hq) id ?_
          split <;> simp [Books, hq]
      · simp only [hstate, if_false]
        exact .of_pools_eq rfl id (by simp [Books])
  | reschedule q t =>
    by_cases hq : q = p
    · subst hq
      obtain ⟨y, hy, -⟩ := hc.fits t .rescheduling (by simp [holds])
      obtain ⟨pool, hpool, -⟩ := Store.exists_pool_of_task? hy
      have hrunning := (s.running_iff q).1 (Store.running_of_not_closed hp hpool)
      intro a
      simp only [step, stepReschedule, hrunning, if_true]
      cases a <;> simp [due, Count.due, TaskPhase.due]
    · simp only [step, stepReschedule]
      split <;> exact .of_pools_eq rfl hq (by simp [Books, hq])
  | task q t phase =>
    by_cases hq : q = p
    · subst hq
      exact balances_task_self hf hp hc halive
    · exact balances_task_of_ne hq phase
  | count q change => exact balances_count hc
  | work seek =>
    obtain ⟨q, w, pool, rfl, -⟩ := hf
    exact balances_work w
  | shutdown q phase => exact balances_shutdown hf hp
  | withdraw | signal | waitIdle => exact .of_pools_eq rfl id (by simp [step])

end step

end Frame
end Dataflow
