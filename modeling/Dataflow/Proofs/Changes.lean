import Dataflow.Proofs.Frames

/-!
# One task, step by step

All that a step of a thread can do to one task and to the ways it is held, in one list (`Change`): most
steps do nothing to it, and each of the others takes away one hold and puts another in its place, or moves
the task from one state to the next. `Machine.change` says that every move of a machine is one of these,
so that whatever is claimed of a task is checked against the list and never against the steps.

While its pool is running nothing is lost; the two entries `lose` and `close` are a shutdown's.
-/

namespace Dataflow

variable {V J : Type}

/-- How a worker holds a task whose stage it has just taken. -/
def Stage.entered (start : J → Except RuntimeError (Body V J)) (p : PoolId) (t : TaskId) :
    Stage V J → Hold V J
  | .unclaimed job =>
    match start job with
    | .error e => .ending (.returned (.error e))
    | .ok body => .polling { party := .task p t, body }
  | .started guards body => .polling { party := .task p t, guards, body }
  | .consumed => .ending (.returned (.ok ()))

/-- The frame may answer its body, and the body then goes on with this run. -/
def Frame.Answers (r : Run V J) : Frame V J → Prop
  | .blocked _ _ next => ∃ answer, r = next answer
  | .spawn _ _ _ next => ∃ answer, r = next answer
  | _ => False

/-- What the step of a frame on a store can do to a task: the task, and the holds that the step takes away;
the task, and the holds that come in their place. -/
inductive Change (start : J → Except RuntimeError (Body V J)) (p : PoolId) (t : TaskId) (s : Store V J) :
    Frame V J → Option (Task V J) → Multiset (Hold V J) → Option (Task V J) → Multiset (Hold V J) → Prop where
  | stay {f x} : Change start p t s f x 0 x 0
  /-- The task is made. -/
  | spawn {job next pool} (hp : s.pools[p]? = some pool) (ht : pool.tasks.size = t) :
    Change start p t s (.spawn p job .number next) none 0 (some { stage := .unclaimed job }) {.ready}
  /-- A worker claims it. -/
  | claim {x : Task V J} (hx : x.state = .queued) :
    Change start p t s (.task p t .claim) (some x) {.ready} (some { x with state := .running }) {.claimed}
  /-- A worker finds that it is not queued. -/
  | refuse {x : Task V J} (hx : x.state ≠ .queued) :
    Change start p t s (.task p t .claim) (some x) {.ready} (some x) 0
  /-- Its worker takes its stage. -/
  | enter {x : Task V J} :
    Change start p t s (.task p t .enter) (some x) {.claimed} (some { x with stage := .consumed })
      {x.stage.entered start p t}
  /-- Its body takes a step. -/
  | run {r : Run V J} {x k worker g} (hr : r.party = .task p t) (hk : k.HasBody)
    (hend : r.body.IsEnd → k.IsEnding) (hg : g ∈ (Frame.stepRun worker s r).2)
    (hgk : g.holds worker p t = {k}) : Change start p t s (.run r) x {.polling r} x {k}
  /-- Its body is answered. -/
  | answer {f x} {r : Run V J} (hr : r.party = .task p t) (hf : f.Answers r) :
    Change start p t s f x {.asking} x {.polling r}
  /-- Its body is put away until it is woken. -/
  | pause {r : Run V J} {x : Task V J} (hr : r.party = .task p t) :
    Change start p t s (.pause r) (some x) {.pausing r} (some { x with stage := .started r.guards r.body })
      {.parking}
  /-- Its final state is set. -/
  | settle {outcome} {x : Task V J} :
    Change start p t s (.task p t (.settle outcome)) (some x) {.ending outcome}
      (some { x with state := Frame.finalState outcome }) 0
  /-- It is parked. -/
  | park {x : Task V J} (hx : x.state = .running) :
    Change start p t s (.task p t .park) (some x) {.parking} (some { x with state := .suspended }) 0
  /-- It was woken meanwhile. -/
  | unpark {x : Task V J} (hx : x.state ≠ .running) :
    Change start p t s (.task p t .park) (some x) {.parking} (some x) {.requeue}
  /-- It is queued again. -/
  | requeue {x : Task V J} :
    Change start p t s (.task p t .requeue) (some x) {.requeue} (some { x with state := .queued }) {.ready}
  /-- A wake call takes it out of its parking place. -/
  | wake {x : Task V J} (hx : x.state = .suspended) :
    Change start p t s (.exchange p t .suspended .queued) (some x) 0 (some { x with state := .queued })
      {.rescheduling}
  /-- A wake call reaches it during its poll. -/
  | notify {x : Task V J} (hx : x.state = .running) :
    Change start p t s (.exchange p t .running .notified) (some x) 0 (some { x with state := .notified }) 0
  /-- It comes back to its pool. -/
  | handBack {x} (hp : s.Running p) : Change start p t s (.reschedule p t) x {.rescheduling} x {.ready}
  /-- It enters or leaves the registry. -/
  | flag {f} {x : Task V J} {b} : Change start p t s f (some x) 0 (some { x with registered := b }) 0
  /-- It is taken out of the queues for good. -/
  | lose {f x d} (hp : ¬ s.Running p) (hd : ∀ h ∈ d, h.IsReady) : Change start p t s f x d x 0
  /-- It is released unfinished. -/
  | close {f} {x y : Task V J} (hp : ¬ s.Running p) (hstate : y.state = x.state ∨ y.state = .failed)
    (hstage : y.stage = x.stage ∨ y.stage = .consumed) : Change start p t s f (some x) 0 (some y) 0

namespace Frame

variable (start : J → Except RuntimeError (Body V J)) (worker : Option (PoolId × Nat)) (choice : Nat)
  {s s' : Store V J} {p q : PoolId} {t u : TaskId} {f : Frame V J} {fs : List (Frame V J)}

/-- The step of a frame on `s` that leads to `s'` and is followed by `fs`, seen from one task. -/
def Changes (s : Store V J) (f : Frame V J) (s' : Store V J) (fs : List (Frame V J)) (p : PoolId)
    (t : TaskId) : Prop :=
  ∃ d e rest, s.holds p t + f.holds worker p t = d + rest ∧
    s'.holds p t + holdsAll worker p t fs = e + rest ∧
    Change start p t s f (s.task? p t) d (s'.task? p t) e

variable {start worker}

/-- Nothing happens to the task, and its holds at most change places. -/
theorem Changes.stay (hx : s'.task? p t = s.task? p t)
    (hT : s'.holds p t + holdsAll worker p t fs = s.holds p t + f.holds worker p t) :
    Changes start worker s f s' fs p t :=
  ⟨0, 0, s.holds p t + f.holds worker p t, by simp, by simp [hT], hx ▸ .stay⟩

/-- The same, if the queues stay as they are. -/
theorem Changes.stay_of_waiting (hx : s'.task? p t = s.task? p t) (hwait : s'.waiting p t = s.waiting p t)
    (hT : holdsAll worker p t fs = f.holds worker p t) : Changes start worker s f s' fs p t :=
  .stay hx (by rw [Store.holds, Store.holds, hwait, hT])

/-- The queues stay as they are, and the frame's hold is replaced. -/
theorem Changes.swap {d e : Multiset (Hold V J)} (hwait : s'.waiting p t = s.waiting p t)
    (hd : f.holds worker p t = d) (he : holdsAll worker p t fs = e)
    (h : Change start p t s f (s.task? p t) d (s'.task? p t) e) : Changes start worker s f s' fs p t :=
  ⟨d, e, s.holds p t, by rw [hd, add_comm], by rw [he, Store.holds, Store.holds, hwait, add_comm], h⟩

/-- A store with the same pools holds the same tasks. -/
theorem waiting_of_pools_eq (h : s'.pools = s.pools) : s'.waiting p t = s.waiting p t := by
  rw [Store.waiting, Store.waiting, h]

theorem task?_of_pools_eq (h : s'.pools = s.pools) : s'.task? p t = s.task? p t := by
  rw [Store.task?_eq, Store.task?_eq, h]

theorem Changes.of_pools_eq (h : s'.pools = s.pools) (hT : holdsAll worker p t fs = f.holds worker p t) :
    Changes start worker s f s' fs p t :=
  .stay_of_waiting (task?_of_pools_eq h) (waiting_of_pools_eq h) hT

/-- Counters and settings of a pool have nothing to do with its tasks. -/
theorem Changes.modifyPool {g : Pool V J → Pool V J} (hs : s'.pools = (s.modifyPool q g).pools)
    (hg : ∀ pool, (g pool).tasks = pool.tasks ∧ (g pool).injector = pool.injector ∧
      (g pool).locals.queues = pool.locals.queues)
    (hT : holdsAll worker p t fs = f.holds worker p t) : Changes start worker s f s' fs p t :=
  .stay_of_waiting ((task?_of_pools_eq hs).trans (Store.task?_modifyPool fun pool => (hg pool).1))
    ((waiting_of_pools_eq hs).trans (Store.waiting_modifyPool fun pool => (hg pool).2)) hT

theorem Changes.counted {g : Pool V J → Pool V J} (h : Changes start worker s f s' fs p t)
    (hg : ∀ pool, (g pool).tasks = pool.tasks ∧ (g pool).injector = pool.injector ∧
      (g pool).locals.queues = pool.locals.queues) :
    Changes start worker s f (s'.modifyPool q g) fs p t := by
  obtain ⟨d, e, rest, h1, h2, h3⟩ := h
  refine ⟨d, e, rest, h1, ?_, ?_⟩
  · rw [← h2, Store.holds, Store.waiting_modifyPool fun pool => (hg pool).2, Store.holds]
  · rwa [Store.task?_modifyPool fun pool => (hg pool).1]

theorem changes_run (r : Run V J) :
    Changes start worker s (.run r) (stepRun worker s r).1 (stepRun worker s r).2 p t := by
  have hpools := stepRun_pools worker s r
  obtain ⟨k, hk, hend, hfs, hg⟩ := holdsAll_stepRun worker s r p t
  by_cases hr : r.party = .task p t
  · obtain ⟨g, hg, hgk⟩ := hg hr
    refine .swap (d := {.polling r}) (e := {k}) (waiting_of_pools_eq hpools) (by simp [holds, hr])
      (by simp [hfs, hr]) ?_
    rw [task?_of_pools_eq hpools]
    exact .run hr hk hend hg hgk
  · exact .of_pools_eq hpools (by simp [hfs, holds, hr])

/-- Whoever enqueues a task adds it to one queue of its pool. -/
theorem waiting_enqueue (pool : Pool V J) :
    (enqueue worker q u pool).waiting t = pool.waiting t + [u].count t := by
  have shared : Pool.waiting { pool with injector := pool.injector.push u } t =
      pool.waiting t + [u].count t := by
    unfold Pool.waiting
    rw [Queue.items_push, List.count_append]
    dsimp only
    omega
  unfold enqueue
  split
  · split
    · split
      · rename_i locals hpush
        unfold Pool.waiting
        rw [LocalQueues.count_push? hpush]
        dsimp only
        omega
      · exact shared
    · exact shared
  · exact shared

theorem tasks_enqueue (pool : Pool V J) : (enqueue worker q u pool).tasks = pool.tasks := by
  unfold enqueue
  split
  · split
    · split <;> rfl
    · rfl
  · rfl

/-- A frame that has to do with one task does nothing to any other. -/
theorem changes_task_of_ne (h : ¬ (q = p ∧ u = t)) (phase : TaskPhase) :
    Changes start worker s (.task q u phase) (stepTask start worker s q u phase).1
      (stepTask start worker s q u phase).2 p t := by
  have hparty : ¬ Party.task q u = Party.task p t := by simpa using h
  have changed : ∀ {f fs} (g : Task V J → Task V J), holdsAll worker p t fs = f.holds worker p t →
      Changes start worker s f (s.modifyTask q u g) fs p t := fun g hT =>
    .stay_of_waiting (Store.task?_modifyTask_of_ne h) Store.waiting_modifyTask hT
  cases phase with
  | claim =>
    simp only [stepTask]
    split
    · exact .of_pools_eq rfl (by simp [holds, h])
    · split
      · exact .of_pools_eq rfl (by simp [holds, h])
      · exact changed _ (by simp [holds, h])
  | park =>
    simp only [stepTask]
    split
    · exact .of_pools_eq rfl (by simp [holds, h])
    · split
      · exact changed _ (by simp [holds, h])
      · exact .of_pools_eq rfl (by simp [holds, h])
  | begin =>
    simp only [stepTask]
    exact .modifyPool rfl (fun _ => ⟨rfl, rfl, rfl⟩) (by simp [holds, h])
  | enter =>
    simp only [stepTask]
    split
    · exact .of_pools_eq rfl (by simp [holds, h])
    · split
      · split <;> exact (changed _ (by simp [holds, h, hparty])).counted fun _ => ⟨rfl, rfl, rfl⟩
      · exact changed _ (by simp [holds, h, hparty])
      · exact changed _ (by simp [holds, h, hparty])
  | tally outcome =>
    rw [stepTask_tally]
    split
    · exact .of_pools_eq rfl (by simp [holds, h])
    · have hg : ∀ pool : Pool V J, (tallied outcome pool).tasks = pool.tasks ∧
          (tallied outcome pool).injector = pool.injector ∧
          (tallied outcome pool).locals.queues = pool.locals.queues := fun pool => by
        rw [tallied_eq]; exact ⟨rfl, rfl, rfl⟩
      split <;> exact .modifyPool (g := tallied outcome) rfl hg (by simp [holds, h])
  | enqueue =>
    by_cases hq : q = p
    · have hu : u ≠ t := fun hu => h ⟨hq, hu⟩
      refine .stay_of_waiting (Store.task?_modifyPool tasks_enqueue) ?_ (by simp [stepTask, holds, h])
      subst hq
      cases hp : s.pools[q]? with
      | none => simp [stepTask, Store.waiting, Store.pools_modifyPool, hp]
      | some pool =>
        rw [Store.waiting_of_pool hp, stepTask, Store.waiting_modifyPool_of_pool hp, waiting_enqueue]
        simp [hu]
    · exact .stay_of_waiting (Store.task?_modifyPool tasks_enqueue)
        (Store.waiting_modifyPool_of_ne hq) (by simp [stepTask, holds, h])
  | discard =>
    simp only [stepTask]
    split
    · exact .of_pools_eq rfl (by simp [holds, h])
    · refine changed _ ?_
      split <;> simp [holds, h]
  | settle outcome => exact changed _ (by simp [stepTask, holds, h])
  | unregister | requeue | register | abandon => exact changed _ (by simp [stepTask, holds, h])

/-- What the step of a frame that has to do with a task does to that task. -/
theorem changes_task_self {phase : TaskPhase}
    (hf : (task p t phase : Frame V J).Ok worker s)
    (hnone : s.task? p t = none → (task p t phase : Frame V J).holds worker p t = 0) :
    Changes start worker s (.task p t phase) (stepTask start worker s p t phase).1
      (stepTask start worker s p t phase).2 p t := by
  have known : (task p t phase : Frame V J).holds worker p t ≠ 0 → ∃ x, s.task? p t = some x := fun h =>
    Option.ne_none_iff_exists'.1 fun hx => h (hnone hx)
  have updated : ∀ {f fs d e} (g : Task V J → Task V J) {x}, s.task? p t = some x →
      f.holds worker p t = d → holdsAll worker p t fs = e →
      Change start p t s f (some x) d (some (g x)) e →
      Changes start worker s f (s.modifyTask p t g) fs p t := by
    intro f fs d e g x hx hd he h
    refine .swap Store.waiting_modifyTask hd he ?_
    rwa [Store.task?_modifyTask_self, hx, Option.map_some]
  have replaced : ∀ {f fs d e x}, s.task? p t = some x → f.holds worker p t = d →
      holdsAll worker p t fs = e → Change start p t s f (some x) d (some x) e →
      Changes start worker s f s fs p t := by
    intro f fs d e x hx hd he h
    refine .swap rfl hd he ?_
    rwa [hx]
  have flagged : ∀ {f fs} (b : Bool), f.holds worker p t = 0 → holdsAll worker p t fs = 0 →
      Changes start worker s f (s.setRegistered p t b) fs p t := by
    intro f fs b hd he
    cases hx : s.task? p t with
    | none =>
      exact .stay_of_waiting (by rw [Store.setRegistered, Store.task?_modifyTask_self, hx]; rfl)
        Store.waiting_modifyTask (by rw [hd, he])
    | some x => exact updated _ hx hd he .flag
  cases phase with
  | claim =>
    obtain ⟨x, hx⟩ := known (by simp [holds])
    simp only [stepTask, hx, TaskState.exchange]
    by_cases hqueued : x.state = .queued
    · simp only [hqueued, if_true]
      exact updated _ hx (by simp [holds]) (by simp [holds]) (.claim hqueued)
    · simp only [hqueued, if_false]
      exact replaced hx (by simp [holds]) (by simp) (.refuse hqueued)
  | begin => exact .modifyPool rfl (fun _ => ⟨rfl, rfl, rfl⟩) (by simp [stepTask, holds])
  | enter =>
    obtain ⟨x, hx⟩ := known (by simp [holds])
    have henter : Change start p t s (.task p t .enter) (some x) {.claimed}
      (some { x with stage := .consumed }) {x.stage.entered start p t} := .enter
    have entered : ∀ fs, holdsAll worker p t fs = {x.stage.entered start p t} →
        Changes start worker s (.task p t .enter) (s.setStage p t .consumed) fs p t := fun fs hfs =>
      updated _ hx (by simp [holds]) hfs henter
    simp only [stepTask, hx]
    rcases hstage : x.stage with job | ⟨guards, body⟩ | _ <;> rw [hstage] at entered
    · rcases hjob : start job with e | body <;> simp only [hjob] <;>
        exact (entered _ (by simp [holds, Stage.entered, hjob])).counted fun _ => ⟨rfl, rfl, rfl⟩
    · exact entered _ (by simp [holds, Stage.entered])
    · exact entered _ (by simp [holds, Stage.entered])
  | settle outcome =>
    obtain ⟨x, hx⟩ := known (by simp [holds])
    exact updated _ hx (by simp [holds]) (by simp [stepTask, holds]) .settle
  | tally outcome =>
    rw [stepTask_tally]
    split
    · exact .of_pools_eq rfl (by simp [holds])
    · have hg : ∀ pool : Pool V J, (tallied outcome pool).tasks = pool.tasks ∧
          (tallied outcome pool).injector = pool.injector ∧
          (tallied outcome pool).locals.queues = pool.locals.queues := fun pool => by
        rw [tallied_eq]; exact ⟨rfl, rfl, rfl⟩
      split <;> exact .modifyPool (g := tallied outcome) rfl hg (by simp [holds])
  | park =>
    obtain ⟨x, hx⟩ := known (by simp [holds])
    simp only [stepTask, hx, TaskState.exchange]
    by_cases hrunning : x.state = .running
    · simp only [hrunning, if_true]
      exact updated _ hx (by simp [holds]) (by simp [holds]) (.park hrunning)
    · simp only [hrunning, if_false]
      exact replaced hx (by simp [holds]) (by simp [holds]) (.unpark hrunning)
  | requeue =>
    obtain ⟨x, hx⟩ := known (by simp [holds])
    exact updated _ hx (by simp [holds]) (by simp [stepTask, holds]) .requeue
  | enqueue =>
    obtain ⟨x, hx⟩ := known (by simp [holds])
    obtain ⟨pool, hp, -⟩ := Store.exists_pool_of_task? hx
    refine .stay (Store.task?_modifyPool tasks_enqueue) ?_
    rw [stepTask, Store.holds, Store.waiting_modifyPool_of_pool hp, waiting_enqueue, Store.holds,
      Store.waiting_of_pool hp, List.count_singleton_self, Multiset.replicate_add]
    simp [holds]
  | unregister | register => exact flagged _ (by simp [holds]) (by simp [stepTask])
  | abandon =>
    have hclosed : s.Closed p := hf
    cases hx : s.task? p t with
    | none =>
      refine .stay_of_waiting ?_ Store.waiting_modifyTask (by simp [stepTask, holds])
      rw [stepTask, Store.setState, Store.task?_modifyTask_self, hx]
      rfl
    | some x =>
      exact updated _ hx (by simp [holds]) (by simp [stepTask, holds])
        (.close hclosed.not_running (.inr rfl) (.inl rfl))
  | discard =>
    have hclosed : s.Closed p := hf
    cases hx : s.task? p t with
    | none => simp only [stepTask, hx]; exact .of_pools_eq rfl (by simp [holds])
    | some x =>
      simp only [stepTask, hx]
      refine updated _ hx (by simp [holds]) ?_ (.close hclosed.not_running (.inl rfl) (.inr rfl))
      split <;> simp

/-- A worker that takes up a task holds it ready. -/
theorem holdsAll_claim : holdsAll worker p t [(task p u .claim : Frame V J), .work .loop] =
    .replicate ([u].count t) .ready := by
  by_cases hu : u = t <;> simp [holds, hu]

/-- Queues and frames share the ready holds out anew. -/
theorem Changes.move {a b : Nat} (hx : s'.task? p t = s.task? p t)
    (ha : f.holds worker p t = .replicate a .ready) (hb : holdsAll worker p t fs = .replicate b .ready)
    (h : s'.waiting p t + b = s.waiting p t + a) : Changes start worker s f s' fs p t := by
  refine .stay hx ?_
  rw [Store.holds, Store.holds, ha, hb, ← Multiset.replicate_add, ← Multiset.replicate_add, h]

/-- A worker on its way to a task only moves ready tasks, from queue to queue and into its hands. -/
theorem changes_work {choice : Nat} {w : Nat} {seek : Seek} {pool : Pool V J} (hw : worker = some (q, w))
    (hp : s.pools[q]? = some pool) (hlt : w < pool.locals.workers) :
    Changes start worker s (.work seek) (stepWork choice s q w seek).1 (stepWork choice s q w seek).2 p t := by
  subst hw
  by_cases hq : q = p
  · subst hq
    have waited := Store.waiting_of_pool (t := t) hp
    have waits := fun g : Pool V J → Pool V J => Store.waiting_modifyPool_of_pool (g := g) (t := t) hp
    cases seek with
    | loop =>
      simp only [stepWork]
      split
      · exact .of_pools_eq rfl (by simp [holds])
      · exact .modifyPool rfl (fun _ => ⟨rfl, rfl, rfl⟩) (by simp [holds])
    | own =>
      simp only [stepWork, hp]
      rcases hpop : pool.locals.popLocal w with ⟨_ | u, locals⟩
      · exact .of_pools_eq rfl (by simp [holds])
      · refine .move (a := 0) (Store.task?_modifyPool fun _ => rfl) (by simp [holds]) holdsAll_claim ?_
        rw [waits, waited, Pool.waiting, Pool.waiting, LocalQueues.count_popLocal hpop t]
        dsimp only
        omega
    | shared =>
      simp only [stepWork, hp]
      rcases hpop : pool.injector.popFront with ⟨_ | u, injector⟩
      · dsimp only
        split <;> exact .of_pools_eq rfl (by simp [holds])
      · refine .move (a := 0) (Store.task?_modifyPool fun _ => rfl) (by simp [holds]) holdsAll_claim ?_
        have hcount : (u :: injector.items).count t = [u].count t + injector.items.count t := by
          rw [← List.count_append, List.singleton_append]
        rw [waits, waited, Pool.waiting, Pool.waiting, Queue.items_of_popFront hpop, hcount]
        dsimp only
        omega
    | theft victims =>
      cases victims with
      | nil => exact .modifyPool rfl (fun _ => ⟨rfl, rfl, rfl⟩) (by simp [stepWork, holds])
      | cons victim victims =>
        simp only [stepWork, hp]
        have hcount := LocalQueues.count_stealFrom pool.locals victim pool.config.stealBatch t
        rcases hsteal : pool.locals.stealFrom victim pool.config.stealBatch with ⟨_ | ⟨first, rest⟩, locals⟩
        · exact .of_pools_eq rfl (by simp [holds])
        · rw [hsteal] at hcount
          refine .move (a := 0) (b := (first :: rest).count t) (Store.task?_modifyPool fun _ => rfl)
            (by simp [holds]) (by simp [holds]) ?_
          rw [waits, waited, Pool.waiting, Pool.waiting, hcount, LocalQueues.count]
          dsimp only
          rw [← LocalQueues.count]
          omega
    | keep first rest =>
      refine .move (a := (first :: rest).count t) (Store.task?_modifyPool fun _ => rfl) (by simp [holds])
        holdsAll_claim ?_
      have hcount : (first :: rest).count t = [first].count t + rest.count t := by
        rw [← List.count_append, List.singleton_append]
      rw [stepWork, waits, waited, Pool.waiting, Pool.waiting, LocalQueues.count_extend? hlt, hcount]
      dsimp only
      omega
    | idle => exact .of_pools_eq rfl (by simp [stepWork, holds])
  · have hfs : holdsAll (some (q, w)) p t (stepWork choice s q w seek).2 = 0 := by
      refine holdsAll_eq_zero fun g hg => ?_
      rcases stepWork_frames choice s hg with ⟨seek', rfl⟩ | ⟨u, rfl⟩
      · cases seek' <;> simp [holds, hq]
      · simp [holds, hq]
    have hf : (work seek : Frame V J).holds (some (q, w)) p t = 0 := by cases seek <;> simp [holds, hq]
    rcases stepWork_pools choice s q w seek with heq | ⟨g, heq, hg⟩
    · rw [heq]
      exact .of_pools_eq rfl (hfs.trans hf.symm)
    · rw [heq]
      exact .stay_of_waiting (Store.task?_modifyPool hg) (Store.waiting_modifyPool_of_ne hq) (hfs.trans hf.symm)

/-- Who empties the queues of a closed pool loses what was in them. -/
theorem Changes.lose (hclosed : s.Closed p) (hx : s'.task? p t = s.task? p t)
    (hwait : s'.waiting p t ≤ s.waiting p t) (hT : holdsAll worker p t fs = f.holds worker p t) :
    Changes start worker s f s' fs p t := by
  refine ⟨.replicate (s.waiting p t - s'.waiting p t) .ready, 0, s'.holds p t + f.holds worker p t, ?_,
    by rw [hT, zero_add], hx ▸ .lose hclosed.not_running fun h hh => ?_⟩
  · rw [Store.holds, Store.holds, ← add_assoc, ← Multiset.replicate_add, Nat.sub_add_cancel hwait]
  · rw [Multiset.eq_of_mem_replicate hh]
    trivial

/-- A shutdown that has stopped the workers loses what is in the queues; its other steps do nothing to a
task or strike it out of the registry. -/
theorem changes_shutdown {choice : Nat} {phase : ShutdownPhase}
    (hf : (shutdown q phase : Frame V J).Ok worker s) :
    Changes start worker s (.shutdown q phase) (stepShutdown choice s q phase).1
      (stepShutdown choice s q phase).2 p t := by
  cases phase with
  | check => simp only [stepShutdown]; split <;> exact .of_pools_eq rfl (by simp [holds])
  | close => exact .modifyPool rfl (fun _ => ⟨rfl, rfl, rfl⟩) (by simp [stepShutdown, holds])
  | join =>
    simp only [stepShutdown]
    split
    · exact .of_pools_eq rfl (by simp [holds])
    · refine .of_pools_eq rfl ?_
      rw [holdsAll_append, holdsAll_eq_zero fun f hf => ?_]
      · simp [holds]
      · obtain ⟨w, -, rfl⟩ := List.mem_map.1 hf
        rfl
  | drainOwn w =>
    by_cases hq : q = p
    · subst hq
      obtain ⟨pool, hp, -⟩ := id hf
      refine .lose hf (Store.task?_modifyPool fun _ => rfl) ?_ (by simp [stepShutdown, holds])
      rw [stepShutdown, Store.waiting_modifyPool_of_pool hp, Store.waiting_of_pool hp, Pool.waiting,
        Pool.waiting]
      exact Nat.add_le_add_left (LocalQueues.count_setQueue_empty_le ..) _
    · exact .stay_of_waiting (Store.task?_modifyPool fun _ => rfl) (Store.waiting_modifyPool_of_ne hq)
        (by simp [stepShutdown, holds])
  | drainShared =>
    obtain ⟨pool, hp, -⟩ := id hf
    simp only [stepShutdown, hp]
    rcases hpop : pool.injector.popFront with ⟨_ | u, injector⟩
    · exact .of_pools_eq rfl (by simp [holds])
    · by_cases hq : q = p
      · subst hq
        refine .lose hf (Store.task?_modifyPool fun _ => rfl) ?_ (by simp [holds])
        rw [Store.waiting_modifyPool_of_pool hp, Store.waiting_of_pool hp, Pool.waiting, Pool.waiting,
          Queue.items_of_popFront hpop]
        exact Nat.add_le_add_right (List.count_le_count_cons) _
      · exact .stay_of_waiting (Store.task?_modifyPool fun _ => rfl) (Store.waiting_modifyPool_of_ne hq)
          (by simp [holds])
  | collect =>
    obtain ⟨pool, hp, -⟩ := hf
    simp only [stepShutdown, hp]
    by_cases hq : q = p
    · subst hq
      refine .swap (d := 0) (e := 0) (Store.waiting_modifyPool fun _ => ⟨rfl, rfl⟩) (by simp [holds])
        (by simp [holds]) ?_
      rw [Store.task?_clearRegistry]
      cases s.task? q t with
      | none => exact .stay
      | some x => exact .flag
    · exact .stay_of_waiting (Store.task?_modifyPool_of_ne hq) (Store.waiting_modifyPool_of_ne hq)
        (by simp [holds])
  | release tasks => cases tasks <;> exact .of_pools_eq rfl (by simp [stepShutdown, holds])

/-- A body is answered. -/
theorem changes_answer {r : Run V J} (hs : s'.pools = s.pools) (hr' : f.Answers r)
    (hf : f.holds worker p t = if r.party = .task p t then {.asking} else 0) :
    Changes start worker s f s' [.run r] p t := by
  by_cases hr : r.party = .task p t
  · refine .swap (d := {.asking}) (e := {.polling r}) (waiting_of_pools_eq hs) (by simp [hf, hr])
      (by simp [holds, hr]) ?_
    rw [task?_of_pools_eq hs]
    exact .answer hr hr'
  · refine .of_pools_eq hs ?_
    rw [hf]
    simp [holds, hr]

/-- A spawn call goes on, answers its body, or makes a task. -/
theorem changes_spawn {job : J} {phase : SpawnPhase} {next : Except RuntimeError TaskId → Run V J}
    (hf : (spawn q job phase next).Ok worker s)
    (hnone : s.task? p t = none → (spawn q job phase next).holds worker p t = 0) :
    Changes start worker s (.spawn q job phase next) (stepSpawn s q job next phase).1
      (stepSpawn s q job next phase).2 p t := by
  obtain ⟨party, -, hnext⟩ := hf
  have going : ∀ phase', (spawn q job phase' next).holds worker p t =
      if party = .task p t then {.asking} else 0 := fun _ => by simp [holds, hnext]
  have answered : ∀ answer, Changes start worker s (.spawn q job phase next) s [.run (next answer)] p t :=
    fun answer => changes_answer rfl ⟨answer, rfl⟩ (by rw [going, hnext])
  cases phase with
  | check =>
    simp only [stepSpawn]
    split
    · exact .of_pools_eq rfl (by simp [going])
    · exact answered _
  | reserve =>
    simp only [stepSpawn]
    split
    · exact answered _
    · split
      · exact (answered _).counted fun _ => ⟨rfl, rfl, rfl⟩
      · exact .modifyPool rfl (fun _ => ⟨rfl, rfl, rfl⟩) (by simp [going])
  | number =>
    simp only [stepSpawn]
    split
    · exact answered _
    · rename_i pool hp
      have hwait : Store.waiting (s.modifyPool q fun pool =>
          { pool with tasks := pool.tasks.push { stage := .unclaimed job } }) p t = s.waiting p t :=
        Store.waiting_modifyPool fun _ => ⟨rfl, rfl⟩
      have hother : ∀ answer, (next answer).party = .task p t ↔ party = .task p t := fun answer => by
        rw [hnext]
      by_cases hnew : q = p ∧ pool.tasks.size = t
      · obtain ⟨rfl, rfl⟩ := hnew
        have hx : s.task? q pool.tasks.size = none := by simp [Store.task?_eq, hp]
        have hparty : party ≠ .task q pool.tasks.size := by
          have := hnone hx
          simpa [going] using this
        refine .swap (d := 0) (e := {.ready}) hwait (by simp [going, hparty]) ?_ ?_
        · simp [holds, hother, hparty]
        · rw [hx, Store.task?_eq, Store.pools_modifyPool, if_pos rfl, hp]
          simpa using Change.spawn hp rfl
      · have hx : Store.task? (s.modifyPool q fun pool =>
            { pool with tasks := pool.tasks.push { stage := .unclaimed job } }) p t = s.task? p t := by
          rw [Store.task?_eq, Store.task?_eq, Store.pools_modifyPool]
          by_cases hq : q = p
          · subst hq
            have ht : t ≠ pool.tasks.size := fun ht => hnew ⟨rfl, ht.symm⟩
            simp [hp, Array.getElem?_push, ht]
          · rw [if_neg hq]
        by_cases hparty : party = .task p t
        · refine .swap (d := {.asking}) (e := {.polling (next (.ok pool.tasks.size))}) hwait
            (by simp [going, hparty]) ?_ ?_
          · simp [holds, hother, hparty, hnew]
          · rw [hx]
            exact .answer ((hother _).2 hparty) ⟨_, rfl⟩
        · exact .stay_of_waiting hx hwait (by simp [holds, hother, hparty, hnew])

/-- What a step does to a task. -/
theorem changes_step {choice : Nat} (hf : f.Ok worker s)
    (hnone : s.task? p t = none → f.holds worker p t = 0) :
    Changes start worker s f (f.step start worker choice s).1 (f.step start worker choice s).2 p t := by
  cases f with
  | run r => exact changes_run r
  | pause r =>
    simp only [step, stepPause]
    split
    · rename_i hparty
      exact .of_pools_eq rfl (by simp [holds, hparty])
    · rename_i q u hparty
      by_cases hq : q = p ∧ u = t
      · obtain ⟨rfl, rfl⟩ := hq
        have known := Option.ne_none_iff_exists'.1 fun hx => absurd (hnone hx) (by simp [holds, hparty])
        obtain ⟨x, hx⟩ := known
        refine Changes.counted (.swap (d := {.pausing r}) (e := {.parking}) Store.waiting_modifyTask
          (by simp [holds, hparty]) (by simp [holds]) ?_) fun _ => ⟨rfl, rfl, rfl⟩
        rw [Store.setStage, Store.task?_modifyTask_self, hx]
        exact .pause hparty
      · refine Changes.counted (.stay_of_waiting (Store.task?_modifyTask_of_ne hq)
          Store.waiting_modifyTask ?_) fun _ => ⟨rfl, rfl, rfl⟩
        simp [holds, hparty, hq]
  | drop guards =>
    cases guards with
    | nil => exact .of_pools_eq rfl (by simp [step, holds])
    | cons guard guards =>
      refine .of_pools_eq rfl ?_
      rw [step, holdsAll_append, holdsAll_eq_zero fun f hf => ?_]
      · simp [holds]
      · obtain ⟨_, -, rfl⟩ := List.mem_map.1 hf
        rfl
  | fill c value =>
    simp only [step]
    split
    · exact .of_pools_eq rfl (by simp [holds])
    · exact .of_pools_eq rfl (by simp [holds])
  | ended party outcome =>
    cases party with
    | outside => exact .of_pools_eq rfl (by simp [step, stepEnded, holds])
    | task q u => exact .modifyPool rfl (fun _ => ⟨rfl, rfl, rfl⟩) (by simp [step, stepEnded, holds])
  | blocked c timed next =>
    obtain ⟨party, -, hnext⟩ := hf
    simp only [step]
    split
    · exact changes_answer rfl ⟨_, rfl⟩ (by simp [holds, hnext])
    · exact .of_pools_eq rfl (by simp [holds])
  | spawn q job phase next => exact changes_spawn hf hnone
  | wake party =>
    cases party with
    | outside => exact .of_pools_eq rfl (by simp [step, stepWake, holds])
    | task q u =>
      simp only [step, stepWake]
      split
      · exact .of_pools_eq rfl (by simp [holds])
      · split <;> exact .of_pools_eq rfl (by simp [holds])
  | exchange q u seen target =>
    have hseen : seen.wakeTarget? = some target := hf
    simp only [step, stepExchange]
    split
    · exact .of_pools_eq rfl (by simp [holds])
    · rename_i x hx
      simp only [TaskState.exchange]
      by_cases hstate : x.state = seen
      · simp only [hstate, if_true]
        by_cases hq : q = p ∧ u = t
        · obtain ⟨rfl, rfl⟩ := hq
          cases seen <;> simp only [TaskState.wakeTarget?, Option.some.injEq, reduceCtorEq] at hseen
          · subst hseen
            refine .swap (d := 0) (e := 0) Store.waiting_modifyTask (by simp [holds]) (by simp) ?_
            rw [Store.setState, Store.task?_modifyTask_self, hx]
            exact .notify hstate
          · subst hseen
            refine .swap (d := 0) (e := {.rescheduling}) Store.waiting_modifyTask (by simp [holds])
              (by simp [holds]) ?_
            rw [Store.setState, Store.task?_modifyTask_self, hx]
            exact .wake hstate
        · refine .stay_of_waiting (Store.task?_modifyTask_of_ne hq) Store.waiting_modifyTask ?_
          split <;> simp [holds, hq]
      · simp only [hstate, if_false]
        exact .of_pools_eq rfl (by simp [holds])
  | reschedule q u =>
    simp only [step, stepReschedule]
    by_cases hq : q = p ∧ u = t
    · obtain ⟨rfl, rfl⟩ := hq
      split
      · rename_i hr
        refine .swap (d := {.rescheduling}) (e := {.ready}) rfl (by simp [holds]) (by simp [holds]) ?_
        exact .handBack ((s.running_iff q).2 hr)
      · rename_i hr
        refine .swap (d := {.rescheduling}) (e := 0) rfl (by simp [holds]) (by simp) ?_
        exact .lose (mt (s.running_iff q).1 hr) fun h hh => by rw [Multiset.mem_singleton.1 hh]; trivial
    · split <;> exact .of_pools_eq rfl (by simp [holds, hq])
  | task q u phase =>
    by_cases hq : q = p ∧ u = t
    · obtain ⟨rfl, rfl⟩ := hq
      exact changes_task_self hf hnone
    · exact changes_task_of_ne hq phase
  | count q change =>
    exact .modifyPool rfl (fun _ => by cases change <;> exact ⟨rfl, rfl, rfl⟩) (by simp [step, holds])
  | work seek =>
    obtain ⟨q, w, pool, hw, hp, hlt⟩ := hf
    have h : Changes start worker s (.work seek) (stepWork choice s q w seek).1
      (stepWork choice s q w seek).2 p t := changes_work hw hp hlt
    subst hw
    exact h
  | shutdown q phase => exact changes_shutdown hf
  | _ => exact .of_pools_eq rfl (by simp [step, holds])

end Frame

namespace Machine

variable {start : J → Except RuntimeError (Body V J)} {p : PoolId} {t : TaskId}

/-- A thread whose frames hold nothing adds nothing. -/
theorem holds_spawnThread (m : Machine V J) {frames : List (Frame V J)}
    (h : Frame.holdsAll none p t frames = 0) : (m.spawnThread frames).holds p t = m.holds p t := by
  simp [spawnThread, holds, Thread.holds, h]

theorem holds_addPool (m : Machine V J) (config : PoolConfig) : (m.addPool config).holds p t = m.holds p t := by
  have hworkers : ((workers m.store.pools.size config.numWorkers : List (Thread V J)).map
      (Thread.holds p t)).sum = 0 := by
    refine List.sum_eq_zero fun T hT => ?_
    simp only [workers, List.map_map, List.mem_map, Function.comp_apply] at hT
    obtain ⟨w, -, rfl⟩ := hT
    simp [Thread.holds, Frame.holds]
  have hwait : (m.addPool config).store.waiting p t = m.store.waiting p t := by
    unfold Store.waiting
    simp only [addPool, Array.getElem?_push]
    split
    · rename_i hp
      simp [hp, Pool.waiting, Pool.new, LocalQueues.new, LocalQueues.count]
    · rfl
  rw [holds, Store.holds, hwait]
  simp [addPool, holds, hworkers, Store.holds]

theorem task?_addPool (m : Machine V J) (config : PoolConfig) :
    (m.addPool config).store.task? p t = m.store.task? p t := by
  rw [Store.task?_eq, Store.task?_eq]
  simp only [addPool, Array.getElem?_push]
  split
  · rename_i hp
    simp [hp, Pool.new]
  · rfl

/-- What a move does to one task: nothing, if it is not a step, and otherwise what is in the list. -/
theorem change (start : J → Except RuntimeError (Body V J)) {m : Machine V J} (hm : m.Framed)
    (hnone : m.store.task? p t = none → m.holds p t = 0) (mv : Move V J) :
    (m.taken mv = none ∧ (m.after start mv).store.task? p t = m.store.task? p t ∧
      (m.after start mv).holds p t = m.holds p t) ∨
    ∃ i worker f d e rest, m.taken mv = some ⟨i, worker, f, m.store⟩ ∧ m.holds p t = d + rest ∧
      (m.after start mv).holds p t = e + rest ∧
      Change start p t m.store f (m.store.task? p t) d ((m.after start mv).store.task? p t) e := by
  cases mv with
  | step i choice =>
    rcases m.after_step start i choice with ⟨heq, htaken⟩ | ⟨worker, f, stack, hi, -, -, htaken, heq⟩
    · exact .inl ⟨htaken, by rw [heq], by rw [heq]⟩
    · obtain ⟨others, hbefore, hafter⟩ := holds_set hi p t
      have hf : m.store.task? p t = none → f.holds worker p t = 0 := by
        intro hx
        have hle : f.holds worker p t ≤ m.holds p t := by
          rw [hbefore]
          exact (Multiset.le_add_left _ _).trans (Multiset.le_add_right _ _)
        rwa [hnone hx, Multiset.le_zero] at hle
      have hstep : Frame.Changes start worker m.store f (f.step start worker choice m.store).1
        (f.step start worker choice m.store).2 p t := Frame.changes_step (hm.frames i _ hi f (by simp)) hf
      obtain ⟨d, e, rest, hd, he, hchange⟩ := hstep
      refine .inr ⟨i, worker, f, d, e, rest + others, htaken, ?_, ?_, ?_⟩
      · rw [hbefore, hd, add_assoc]
      · rw [heq, hafter, he, add_assoc]
      · rw [heq]
        exact hchange
  | startPool config =>
    refine .inl ⟨rfl, ?_⟩
    rcases m.after_startPool start config with heq | heq
    · rw [heq]
      exact ⟨rfl, rfl⟩
    · rw [heq]
      exact ⟨m.task?_addPool config, m.holds_addPool config⟩
  | enter body => exact .inl ⟨rfl, rfl, m.holds_spawnThread (by simp [Frame.holds])⟩
  | poll =>
    refine .inl ⟨rfl, ?_⟩
    simp only [after]
    split
    · rename_i r hr
      exact ⟨rfl, m.clearShelf.holds_spawnThread (by simp [Frame.holds, hm.shelf r hr])⟩
    · exact ⟨rfl, rfl⟩
  | discard =>
    refine .inl ⟨rfl, ?_⟩
    simp only [after]
    split
    · exact ⟨rfl, m.clearShelf.holds_spawnThread (by simp)⟩
    · exact ⟨rfl, rfl⟩

end Machine
end Dataflow
