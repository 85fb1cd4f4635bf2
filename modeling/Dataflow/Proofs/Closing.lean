import Dataflow.Proofs.Drained

/-!
# Closing a pool

What a shutdown call does to a pool without work, from the step that stops the workers to its end, one step at a
time. The pool is compared with `d`, the pool that was stopped. `Progress` says how far the call has come,
`Plan` which frames it still has before it, and `Pool.Winding` what it has made of the pool; `Plan.step` carries all
of them over a step of the call.

Dropping a continuation drops guards, and they may put values into cells for which other parked tasks of the pool
wait. The wake calls get those tasks out of their parking places, but not back into a queue, since the pool is
stopped: a task that waits for its release is parked or queued (`Task.Winding.waits`), and its continuation is still
there.
-/

namespace Dataflow

variable {V J : Type}

/-- What is left of a task that has begun and not ended. -/
structure Continuation (V J : Type) where
  task : TaskId
  guards : List (Guard V)
  body : Body V J

def Stage.continuation? (t : TaskId) : Stage V J → Option (Continuation V J)
  | .started guards body => some ⟨t, guards, body⟩
  | _ => none

/-- The continuation of a task, if the pool has it. -/
def Pool.continuation? (pool : Pool V J) (t : TaskId) : Option (Continuation V J) :=
  pool.tasks[t]?.bind (·.stage.continuation? t)

/-- All continuations that the pool has, by task. -/
def Pool.continuations (pool : Pool V J) : List (Continuation V J) :=
  (List.range pool.tasks.size).filterMap pool.continuation?

/-- The continuation that a step takes away from a task of the pool to drop it. -/
def Taken.drops? (p : PoolId) (e : Taken V J) : Option (Continuation V J) :=
  match e.frame with
  | .task q t .discard => if q = p then e.store.pools[p]?.bind (·.continuation? t) else none
  | _ => none

/-- The task as a shutdown call leaves it: an ended task as it is, any other one failed. -/
def Task.released (x : Task V J) : Task V J :=
  { state := if x.state.isTerminal then x.state else .failed, stage := .consumed }

/-- How far a shutdown call has come since it stopped the workers. -/
structure Progress where
  /-- The registry is still as it was. -/
  enrolled : Bool
  /-- The counter of live tasks. -/
  live : Nat
  /-- The task whose continuation is about to be dropped. -/
  hand : List TaskId
  /-- The tasks that are still to be released. -/
  todo : List TaskId

/-- The tasks that have their continuations. -/
def Progress.left (g : Progress) : List TaskId := g.hand ++ g.todo

/-- What a shutdown call has made of the task `x`. -/
structure Task.Winding (g : Progress) (t : TaskId) (x y : Task V J) : Prop where
  kept : t ∈ g.left → y.stage = x.stage ∧ x.state.isTerminal = false
  waits : t ∈ g.todo → y.state = .suspended ∨ y.state = .queued
  failed : t ∈ g.hand → y.state = .failed
  done : t ∉ g.left → y.stage = .consumed ∧ y.state = x.released.state
  registered : y.registered = (g.enrolled && x.registered)

/-- What a shutdown call has made of the pool `d`. -/
structure Pool.Winding (d : Pool V J) (g : Progress) (pool : Pool V J) : Prop where
  closed : pool.running = false
  config : pool.config = d.config
  stats : pool.stats = d.stats
  queued : pool.queued = 0
  active : pool.active = 0
  live : pool.live = g.live
  injector : pool.injector.items = []
  locals : ∀ q ∈ pool.locals.queues, q.items = []
  size : pool.tasks.size = d.tasks.size
  nodup : g.left.Nodup
  tasks : ∀ (t : TaskId) (x y : Task V J), d.tasks[t]? = some x → pool.tasks[t]? = some y → Task.Winding g t x y

namespace Pool

variable {d pool pool' : Pool V J} {g g' : Progress} {t : TaskId}

theorem Winding.like (h : d.Winding g pool) (hlike : pool.Like pool') : d.Winding g pool' := by
  rw [hlike]
  exact { h with }

/-- A change of one task. -/
theorem Winding.modify {f : Task V J → Task V J} (h : d.Winding g pool) (hlive : g'.live = g.live)
    (hnodup : g'.left.Nodup)
    (hself : ∀ x y, pool.tasks[t]? = some y → Task.Winding g t x y → Task.Winding g' t x (f y))
    (hothers : ∀ u (x y : Task V J), u ≠ t → Task.Winding g u x y → Task.Winding g' u x y) :
    d.Winding g' { pool with tasks := pool.tasks.modify t f } := by
  refine { h with live := h.live.trans hlive.symm, size := ?_, nodup := hnodup, tasks := fun u x y hx hy => ?_ }
  · simp [h.size]
  · simp only [Array.getElem?_modify] at hy
    split at hy
    · rename_i htu
      subst htu
      obtain ⟨y', hy', rfl⟩ := Option.map_eq_some_iff.1 hy
      exact hself x y' hy' (h.tasks t x y' hx hy')
    · rename_i htu
      exact hothers u x y (Ne.symm htu) (h.tasks u x y hx hy)

/-- A stopped pool has the continuations of the tasks that are left. -/
theorem Winding.continuation?_eq (h : d.Winding g pool) (ht : t ∈ g.left) :
    pool.continuation? t = d.continuation? t := by
  rw [continuation?, continuation?]
  cases hx : d.tasks[t]? with
  | none =>
    have hle := Array.getElem?_eq_none_iff.1 hx
    rw [Array.getElem?_eq_none (h.size ▸ hle)]
  | some x =>
    have hlt := (Array.getElem?_eq_some_iff.1 hx).1
    obtain ⟨y, hy⟩ : ∃ y, pool.tasks[t]? = some y := ⟨_, Array.getElem?_eq_getElem (h.size ▸ hlt)⟩
    rw [hy, Option.bind_some, Option.bind_some, ((h.tasks t x y hx hy).kept ht).1]

/-- A task that still has its continuation is registered. -/
theorem Quiet.mem_registry_of_stage (h : d.Quiet) {x : Task V J} (hx : d.tasks[t]? = some x)
    (hstage : x.stage ≠ .consumed) : t ∈ d.registry := by
  rcases h.rests t x hx with ⟨hstate, -⟩ | ⟨-, hconsumed⟩
  · exact (Pool.mem_registry _).2 ⟨x, hx, (h.registry t x hx).2 hstate⟩
  · exact absurd hconsumed hstage

theorem Quiet.filterMap_registry (h : d.Quiet) : d.registry.filterMap d.continuation? = d.continuations := by
  unfold Pool.registry continuations
  rw [List.filterMap_filter]
  refine List.filterMap_congr fun t ht => ?_
  obtain ⟨x, hx⟩ : ∃ x, d.tasks[t]? = some x := ⟨_, Array.getElem?_eq_getElem (List.mem_range.1 ht)⟩
  cases hregistered : x.registered with
  | true => simp [hx, hregistered]
  | false =>
    have hstage : x.stage = .consumed := by
      by_contra hstage
      obtain ⟨y, hy, hyes⟩ := (Pool.mem_registry _).1 (h.mem_registry_of_stage hx hstage)
      rw [hx] at hy
      cases hy
      rw [hregistered] at hyes
      cases hyes
    simp [hx, hregistered, continuation?, hstage, Stage.continuation?]

/-- The pool when it was just stopped. -/
theorem Quiet.winding (h : d.Quiet) : d.Winding ⟨true, d.live, [], d.registry⟩ { d with running := false } := by
  refine ⟨rfl, rfl, rfl, h.queued, h.active, rfl, h.injector, h.locals, rfl, ?_, fun t x y hx hy => ?_⟩
  · exact List.nodup_range.filter _
  · obtain rfl : x = y := Option.some.inj (hx.symm.trans hy)
    have parked : t ∈ d.registry → x.state = .suspended := fun ht => by
      obtain ⟨y, hy, hregistered⟩ := (Pool.mem_registry _).1 ht
      rw [hx] at hy
      cases hy
      exact (h.registry t x hx).1 hregistered
    refine ⟨fun ht => ⟨rfl, ?_⟩, fun ht => .inl (parked ht), nofun, fun ht => ?_, rfl⟩
    · rw [parked ht]
      rfl
    · rcases h.rests t x hx with ⟨hstate, -⟩ | ⟨hterminal, hstage⟩
      · exact absurd ((Pool.mem_registry _).2 ⟨x, hx, (h.registry t x hx).2 hstate⟩) ht
      · exact ⟨hstage, by simp [Task.released, hterminal]⟩

/-- The order in which the tasks are released does not matter. -/
theorem Winding.perm {enrolled : Bool} {live : Nat} {hand todo todo' : List TaskId}
    (h : d.Winding ⟨enrolled, live, hand, todo⟩ pool) (hperm : todo'.Perm todo) :
    d.Winding ⟨enrolled, live, hand, todo'⟩ pool := by
  have hleft : (hand ++ todo').Perm (hand ++ todo) := hperm.append_left hand
  refine { h with nodup := hleft.nodup_iff.2 h.nodup, tasks := fun t x y hx hy => ?_ }
  have hy := h.tasks t x y hx hy
  exact ⟨fun ht => hy.kept (hleft.mem_iff.1 ht), fun ht => hy.waits (hperm.mem_iff.1 ht), hy.failed,
    fun ht => hy.done fun ht' => ht (hleft.mem_iff.2 ht'), hy.registered⟩

theorem Winding.registry_eq (h : d.Winding g pool) (henrolled : g.enrolled = true) : pool.registry = d.registry := by
  unfold registry
  rw [h.size]
  refine List.filter_congr fun t ht => ?_
  have hlt := List.mem_range.1 ht
  have hy := h.tasks t _ _ (Array.getElem?_eq_getElem hlt) (Array.getElem?_eq_getElem (h.size ▸ hlt))
  simp [hlt, h.size, hy.registered, henrolled]

/-- The registry is taken over. -/
theorem Winding.clearRegistry {live : Nat} {hand todo : List TaskId} (h : d.Winding ⟨true, live, hand, todo⟩ pool) :
    d.Winding ⟨false, live, hand, todo⟩ pool.clearRegistry := by
  refine { h with size := ?_, tasks := fun t x y hx hy => ?_ }
  · simp [Pool.clearRegistry, h.size]
  · simp only [Pool.clearRegistry, Array.getElem?_map, Option.map_eq_some_iff] at hy
    obtain ⟨y', hy', rfl⟩ := hy
    have hbefore := h.tasks t x y' hx hy'
    exact ⟨hbefore.kept, hbefore.waits, hbefore.failed, hbefore.done, rfl⟩

end Pool

namespace Frame

/-- The step empties a queue of the pool. -/
def Drains (p : PoolId) : Frame V J → Prop
  | .shutdown q (.drainOwn _) | .shutdown q .drainShared => q = p
  | _ => False

/-- Values are dropped and put, and the calls that this makes are on their way. They do not queue a task of the
pool. -/
def IsLoose (p : PoolId) : Frame V J → Prop
  | .drop _ | .fill .. | .withdraw .. | .signal _ | .wake _ | .exchange .. | .reschedule .. => True
  | .count q _ | .task q _ .enqueue => q ≠ p
  | _ => False

variable {start : J → Except RuntimeError (Body V J)} {worker : Option (PoolId × Nat)} {choice : Nat}
  {s : Store V J} {p : PoolId} {f : Frame V J}

theorem isLoose_afterPut {c : CellId} {before : Cell V Party} :
    ∀ f ∈ (afterPut c before : List (Frame V J)), f.IsLoose p := by
  intro f hf
  unfold afterPut at hf
  rcases List.mem_append.1 hf with hf | hf
  · split at hf
    · exact List.mem_singleton.1 hf ▸ trivial
    · cases hf
  · obtain ⟨party, -, rfl⟩ := List.mem_map.1 hf
    trivial

theorem isLoose_dropPending {guards : List (Guard V)} {body : Body V J} :
    ∀ f ∈ dropPending guards body, f.IsLoose p := by
  intro f hf
  rcases List.mem_append.1 hf with hf | hf
  · obtain ⟨k, -, rfl⟩ := List.mem_map.1 hf
    trivial
  · exact List.mem_singleton.1 hf ▸ trivial

theorem isLoose_step (hf : f.IsLoose p) (hp : ¬ s.Running p) :
    ∀ g ∈ (f.step start worker choice s).2, g.IsLoose p := by
  have hgives := gives_step start worker choice s f
  generalize (f.step start worker choice s).2 = fs at hgives ⊢
  cases hgives with
  | nothing => nofun
  | drop hfs =>
    intro g hg
    rcases hfs g hg with ⟨c, value, rfl⟩ | ⟨guards, rfl⟩ <;> trivial
  | fill => exact isLoose_afterPut
  | wake | missed | woken => simp [IsLoose]
  | @handedBack q t hrunning =>
    have hq : q ≠ p := by
      rintro rfl
      exact hp hrunning
    simp [IsLoose, hq]
  | _ => exact hf.elim

/-- The task that is released next is one of those to be released. -/
theorem chosen_mem (t : TaskId) (todo : List TaskId) (choice : Nat) :
    ((t :: todo)[choice % (todo.length + 1)]?).getD t ∈ t :: todo := by
  have hlt : choice % (todo.length + 1) < (t :: todo).length := Nat.mod_lt _ (Nat.succ_pos _)
  rw [List.getElem?_eq_getElem hlt]
  exact List.getElem_mem hlt

/-- All that they do to a pool that does not run is to wake tasks of it. -/
theorem pools_step_of_isLoose (start : J → Except RuntimeError (Body V J)) (choice : Nat) (hf : f.IsLoose p)
    (hok : f.Ok worker s) (hworker : ∀ w, worker ≠ some (p, w)) (hp : ¬ s.Running p) :
    (f.step start worker choice s).1.pools[p]? = s.pools[p]? ∨
      ∃ t target y, s.task? p t = some y ∧ y.state.wakeTarget? = some target ∧
        (f.step start worker choice s).1 = s.setState p t target := by
  by_cases hacts : f.ActsOn p
  · cases f with
    | wake party =>
      left
      cases party <;> simp only [step, stepWake]
      all_goals repeat' split
      all_goals rfl
    | exchange q t seen target =>
      obtain rfl : q = p := hacts
      simp only [step, stepExchange]
      split
      · exact .inl rfl
      · rename_i y hy
        split
        · exact .inl rfl
        · rename_i state hstate
          right
          simp only [TaskState.exchange] at hstate
          split at hstate
          · rename_i hseen
            cases hstate
            exact ⟨t, target, y, hy, hseen ▸ hok, rfl⟩
          · cases hstate
    | reschedule q t =>
      left
      simp only [step, stepReschedule]
      split <;> rfl
    | count q change => exact absurd hacts hf
    | task q t phase => cases phase <;> first | exact absurd hacts hf | exact hf.elim
    | _ => first | exact hacts.elim | exact hf.elim
  · exact .inl (pools_step_of_not_actsOn hok hworker hacts)

end Frame

open Dataflow.Frame (Drains IsLoose)

/-- The frames that a shutdown call has before it. -/
inductive Plan (p : PoolId) (d : Pool V J) : Progress → List (Frame V J) → Prop where
  | join : Plan p d ⟨true, d.live, [], d.registry⟩ [.shutdown p .join]
  | drain {fs} (h : ∀ f ∈ fs, f.Drains p) : Plan p d ⟨true, d.live, [], d.registry⟩ (fs ++ [.shutdown p .collect])
  | release {fs} (todo : List TaskId) (h : ∀ f ∈ fs, f.IsLoose p) : Plan p d ⟨false, d.live, [], todo⟩
      (fs ++ [.shutdown p (.release todo), .count p (.liveDown d.live)])
  | abandon (t : TaskId) (todo : List TaskId) : Plan p d ⟨false, d.live, [], t :: todo⟩
      [.task p t .abandon, .shutdown p (.release todo), .count p (.liveDown d.live)]
  | discard (t : TaskId) (todo : List TaskId) : Plan p d ⟨false, d.live, [t], todo⟩
      [.task p t .discard, .shutdown p (.release todo), .count p (.liveDown d.live)]
  | count : Plan p d ⟨false, d.live, [], []⟩ [.count p (.liveDown d.live)]
  | done : Plan p d ⟨false, 0, [], []⟩ []

/-- A step leads on: the pool and the frames after it are those of some later point of the call. If it drops a
continuation, that is the one of the task in hand, and its registrations are about to be withdrawn. -/
def Plan.Leads (p : PoolId) (d : Pool V J) (g : Progress) (f : Frame V J) (call : List (Frame V J))
    (next : Store V J × List (Frame V J)) : Prop :=
  ∃ g' pool', next.1.pools[p]? = some pool' ∧ d.Winding g' pool' ∧ Plan p d g' (next.2 ++ call) ∧
    ((g'.left.Perm g.left ∧ ∀ t, f ≠ .task p t .discard) ∨
      ∃ t, f = .task p t .discard ∧ g.left = t :: g'.left ∧
        ∀ x, d.tasks[t]? = some x → ∀ k ∈ x.stage.held, .withdraw k.1 k.2 ∈ next.2)

namespace Plan

variable {start : J → Except RuntimeError (Body V J)} {worker : Option (PoolId × Nat)} {choice : Nat}
  {s : Store V J} {p : PoolId} {d pool : Pool V J} {g : Progress} {f : Frame V J} {fs call : List (Frame V J)}
  {t : TaskId} {todo : List TaskId}

theorem leads_of_pool {s' : Store V J} {g' : Progress} {pool' : Pool V J} (hpool : s'.pools[p]? = some pool')
    (h : d.Winding g' pool') (hplan : Plan p d g' (fs ++ call)) (hleft : g'.left.Perm g.left)
    (hf : ∀ t, f ≠ .task p t .discard) : Leads p d g f call (s', fs) :=
  ⟨g', pool', hpool, h, hplan, .inl ⟨hleft, hf⟩⟩

theorem pools_modifyPool_self {h : Pool V J → Pool V J} (hpool : s.pools[p]? = some pool) :
    (s.modifyPool p h).pools[p]? = some (h pool) := by
  rw [Store.pools_modifyPool, if_pos rfl, hpool]
  rfl

theorem leads_join (hpool : s.pools[p]? = some pool) (h : d.Winding ⟨true, d.live, [], d.registry⟩ pool) :
    Leads p d ⟨true, d.live, [], d.registry⟩ (.shutdown p .join) []
      ((Frame.shutdown p .join).step start worker choice s) := by
  simp only [Frame.step, Frame.stepShutdown, hpool]
  refine leads_of_pool hpool h ?_ (.refl _) (by simp)
  have hdrains : ∀ f ∈ (List.range pool.config.numWorkers).map (fun w => (.shutdown p (.drainOwn w) : Frame V J)) ++
      [.shutdown p .drainShared], f.Drains p := by
    intro f hf
    rcases List.mem_append.1 hf with hf | hf
    · obtain ⟨w, -, rfl⟩ := List.mem_map.1 hf
      rfl
    · exact List.mem_singleton.1 hf ▸ rfl
  have hplan := Plan.drain (p := p) (d := d) hdrains
  simpa using hplan

theorem leads_drain (hpool : s.pools[p]? = some pool) (h : d.Winding ⟨true, d.live, [], d.registry⟩ pool)
    (hf : f.Drains p) (hfs : ∀ f ∈ fs, f.Drains p) :
    Leads p d ⟨true, d.live, [], d.registry⟩ f (fs ++ [.shutdown p .collect]) (f.step start worker choice s) := by
  cases f with
  | shutdown q phase =>
    cases phase with
    | drainOwn w =>
      obtain rfl : q = p := hf
      refine leads_of_pool (pools_modifyPool_self hpool) ?_ (.drain hfs) (.refl _) (by simp)
      exact { h with locals := LocalQueues.empty_setQueue h.locals w }
    | drainShared =>
      obtain rfl : q = p := hf
      simp only [Frame.step, Frame.stepShutdown, hpool]
      split
      · rename_i heq
        cases (Queue.items_of_popFront heq).symm.trans h.injector
      · exact leads_of_pool hpool h (.drain hfs) (.refl _) (by simp)
    | _ => exact hf.elim
  | _ => exact hf.elim

theorem leads_collect (hpool : s.pools[p]? = some pool) (h : d.Winding ⟨true, d.live, [], d.registry⟩ pool)
    (hlive : d.live = d.registry.length) : Leads p d ⟨true, d.live, [], d.registry⟩ (.shutdown p .collect) []
      ((Frame.shutdown p .collect).step start worker choice s) := by
  simp only [Frame.step, Frame.stepShutdown, hpool, h.registry_eq rfl, ← hlive]
  have hplan : Plan p d ⟨false, d.live, [], d.registry⟩
      ([] ++ [.shutdown p (.release d.registry), .count p (.liveDown d.live)]) := .release d.registry (by simp)
  exact leads_of_pool (pools_modifyPool_self hpool) h.clearRegistry hplan (.refl _) (by simp)

theorem leads_loose (hpool : s.pools[p]? = some pool) (h : d.Winding ⟨false, d.live, [], todo⟩ pool)
    (hok : f.Ok worker s) (hworker : ∀ w, worker ≠ some (p, w)) (hf : f.IsLoose p) (hfs : ∀ f ∈ fs, f.IsLoose p) :
    Leads p d ⟨false, d.live, [], todo⟩ f (fs ++ [.shutdown p (.release todo), .count p (.liveDown d.live)])
      (f.step start worker choice s) := by
  have hp : ¬ s.Running p := Store.Closed.not_running ⟨pool, hpool, h.closed⟩
  have hnot : ∀ t, f ≠ .task p t .discard := by
    rintro t rfl
    exact hf
  have hplan : Plan p d ⟨false, d.live, [], todo⟩ ((f.step start worker choice s).2 ++
      (fs ++ [.shutdown p (.release todo), .count p (.liveDown d.live)])) := by
    rw [← List.append_assoc]
    refine .release todo fun f' hf' => ?_
    exact (List.mem_append.1 hf').elim (Frame.isLoose_step hf hp f') (hfs f')
  rcases Frame.pools_step_of_isLoose start choice hf hok hworker hp with
    heq | ⟨t, target, y, hy, htarget, heq⟩
  · exact leads_of_pool (heq.trans hpool) h hplan (.refl _) hnot
  · -- only a task that waits for its release can be woken
    have hy' : pool.tasks[t]? = some y := by
      rw [Store.task?_eq, hpool] at hy
      exact hy
    suffices hwoken : d.Winding ⟨false, d.live, [], todo⟩
        { pool with tasks := pool.tasks.modify t fun y => { y with state := target } } from
      leads_of_pool (heq ▸ pools_modifyPool_self hpool) hwoken hplan (.refl _) hnot
    refine h.modify rfl h.nodup (fun x z hz hwinds => ?_) fun u x z _ => id
    obtain rfl : y = z := Option.some.inj (hy'.symm.trans hz)
    refine ⟨hwinds.kept, fun ht => .inr ?_, nofun, fun ht => ?_, hwinds.registered⟩
    · rcases hwinds.waits ht with hstate | hstate <;> rw [hstate] at htarget <;> cases htarget
      rfl
    · obtain ⟨hstage, hstate⟩ := hwinds.done ht
      refine absurd htarget ?_
      rw [hstate, Task.released]
      cases x.state <;> simp [TaskState.isTerminal, TaskState.wakeTarget?]

theorem leads_release (hpool : s.pools[p]? = some pool) (h : d.Winding ⟨false, d.live, [], todo⟩ pool) :
    Leads p d ⟨false, d.live, [], todo⟩ (.shutdown p (.release todo)) [.count p (.liveDown d.live)]
      ((Frame.shutdown p (.release todo)).step start worker choice s) := by
  cases todo with
  | nil => exact leads_of_pool hpool h .count (.refl _) (by simp)
  | cons t todo =>
    have hperm := (List.perm_cons_erase (Frame.chosen_mem t todo choice)).symm
    simp only [Frame.step, Frame.stepShutdown]
    exact leads_of_pool hpool (h.perm hperm) (.abandon _ _) hperm (by simp)

theorem leads_abandon (hpool : s.pools[p]? = some pool) (h : d.Winding ⟨false, d.live, [], t :: todo⟩ pool) :
    Leads p d ⟨false, d.live, [], t :: todo⟩ (.task p t .abandon)
      [.shutdown p (.release todo), .count p (.liveDown d.live)]
      ((Frame.task p t .abandon).step start worker choice s) := by
  have hnot : t ∉ todo := (List.nodup_cons.1 h.nodup).1
  refine leads_of_pool (pools_modifyPool_self hpool) ?_ (.discard t todo) (.refl _) nofun
  refine h.modify rfl h.nodup (fun x y _ hy => ?_) fun u x y hu hy => ?_
  · exact ⟨hy.kept, fun ht => absurd ht hnot, fun _ => rfl, fun ht => absurd (List.mem_cons_self ..) ht, hy.registered⟩
  · exact ⟨hy.kept, fun ht => hy.waits (List.mem_cons_of_mem _ ht), fun ht => absurd (List.mem_singleton.1 ht) hu,
      hy.done, hy.registered⟩

theorem leads_discard (hpool : s.pools[p]? = some pool) (h : d.Winding ⟨false, d.live, [t], todo⟩ pool) :
    Leads p d ⟨false, d.live, [t], todo⟩ (.task p t .discard)
      [.shutdown p (.release todo), .count p (.liveDown d.live)]
      ((Frame.task p t .discard).step start worker choice s) := by
  obtain ⟨hnot, hnodup⟩ := List.nodup_cons.1 h.nodup
  have others : ∀ (u : TaskId) (x y : Task V J), u ≠ t → Task.Winding ⟨false, d.live, [t], todo⟩ u x y →
      Task.Winding ⟨false, d.live, [], todo⟩ u x y := fun u x y hu hy =>
    ⟨fun ht => hy.kept (List.mem_cons_of_mem _ ht), hy.waits, by simp,
      fun ht => hy.done fun ht' => ht ((List.mem_cons.1 ht').resolve_left hu), hy.registered⟩
  have htask : s.task? p t = pool.tasks[t]? := by
    rw [Store.task?_eq, hpool]
    rfl
  cases hy : pool.tasks[t]? with
  | none =>
    have hnone : d.tasks[t]? = none := Array.getElem?_eq_none (h.size ▸ Array.getElem?_eq_none_iff.1 hy)
    simp only [Frame.step, Frame.stepTask, htask, hy]
    have hplan : Plan p d ⟨false, d.live, [], todo⟩
        ([] ++ [.shutdown p (.release todo), .count p (.liveDown d.live)]) := .release todo (by simp)
    refine ⟨⟨false, d.live, [], todo⟩, pool, hpool, ?_, hplan, .inr ⟨t, rfl, rfl, ?_⟩⟩
    · refine { h with nodup := hnodup, tasks := fun u x z hx hz => others u x z ?_ (h.tasks u x z hx hz) }
      rintro rfl
      rw [hy] at hz
      cases hz
    · rintro x hx
      rw [hnone] at hx
      cases hx
  | some y =>
    simp only [Frame.step, Frame.stepTask, htask, hy]
    refine ⟨⟨false, d.live, [], todo⟩, _, pools_modifyPool_self hpool, ?_, ?_, .inr ⟨t, rfl, rfl, fun x hx k hk => ?_⟩⟩
    · refine h.modify rfl hnodup (fun x y _ hy => ?_) others
      have hstate : y.state = x.released.state := by
        simp [hy.failed (List.mem_singleton_self t), Task.released, (hy.kept (List.mem_cons_self ..)).2]
      exact ⟨fun ht => absurd ht hnot, fun ht => absurd ht hnot, by simp, fun _ => ⟨rfl, hstate⟩, hy.registered⟩
    · refine .release todo ?_
      split
      · exact Frame.isLoose_dropPending
      · simp
    · have hstage := ((h.tasks t x y hx hy).kept (List.mem_cons_self ..)).1
      rw [← hstage] at hk
      split
      · rename_i guards body heq
        rw [heq] at hk
        exact List.mem_append_left _ (List.mem_map.2 ⟨k, hk, rfl⟩)
      · rename_i hstarted
        cases hy : y.stage with
        | started guards body => exact absurd hy (hstarted guards body)
        | _ => rw [hy] at hk; cases hk

theorem leads_count (hpool : s.pools[p]? = some pool) (h : d.Winding ⟨false, d.live, [], []⟩ pool) :
    Leads p d ⟨false, d.live, [], []⟩ (.count p (.liveDown d.live)) []
      ((Frame.count p (.liveDown d.live)).step start worker choice s) := by
  refine leads_of_pool (pools_modifyPool_self hpool) ?_ .done (.refl _) nofun
  refine { h with live := ?_, tasks := fun t x y hx hy => ?_ }
  · simp [Pool.count, h.live]
  · have hy := h.tasks t x y hx hy
    exact ⟨hy.kept, hy.waits, hy.failed, hy.done, hy.registered⟩

/-- Every step of the call leads on. -/
theorem step (hplan : Plan p d g (f :: call)) (hlive : d.live = d.registry.length) (hpool : s.pools[p]? = some pool)
    (h : d.Winding g pool) (hok : f.Ok worker s) (hworker : ∀ w, worker ≠ some (p, w)) :
    Leads p d g f call (f.step start worker choice s) := by
  generalize hcall : f :: call = frames at hplan
  cases hplan with
  | join =>
    cases hcall
    exact leads_join hpool h
  | @drain fs hfs =>
    cases fs with
    | nil =>
      cases hcall
      exact leads_collect hpool h hlive
    | cons f' fs =>
      obtain ⟨rfl, rfl⟩ := List.cons.inj hcall
      exact leads_drain hpool h (hfs f (List.mem_cons_self ..)) fun f' hf' => hfs f' (List.mem_cons_of_mem _ hf')
  | @release fs todo hfs =>
    cases fs with
    | nil =>
      cases hcall
      exact leads_release hpool h
    | cons f' fs =>
      obtain ⟨rfl, rfl⟩ := List.cons.inj hcall
      exact leads_loose hpool h hok hworker (hfs f (List.mem_cons_self ..)) fun f' hf' =>
        hfs f' (List.mem_cons_of_mem _ hf')
  | abandon t todo =>
    cases hcall
    exact leads_abandon hpool h
  | discard t todo =>
    cases hcall
    exact leads_discard hpool h
  | count =>
    cases hcall
    exact leads_count hpool h
  | done => cases hcall

theorem eq_done (hplan : Plan p d g []) : g = ⟨false, 0, [], []⟩ := by
  generalize hcall : [] = call at hplan
  cases hplan with
  | done => rfl
  | drain | release => simp at hcall
  | _ => cases hcall

/-- The call runs no body and ends no task. -/
theorem plain (hplan : Plan p d g call) : ∀ f ∈ call, (∀ r, f ≠ .run r ∧ f ≠ .pause r) ∧
    ∀ q t outcome, f ≠ .task q t (.tally outcome) := by
  intro f hf
  cases hplan with
  | join | count =>
    obtain rfl := List.mem_singleton.1 hf
    exact ⟨fun _ => ⟨nofun, nofun⟩, fun _ _ _ => nofun⟩
  | drain hfs =>
    rcases List.mem_append.1 hf with hf | hf
    · have hdrains := hfs f hf
      refine ⟨fun r => ⟨?_, ?_⟩, fun q t outcome => ?_⟩
      all_goals rintro rfl; exact hdrains
    · obtain rfl := List.mem_singleton.1 hf
      exact ⟨fun _ => ⟨nofun, nofun⟩, fun _ _ _ => nofun⟩
  | release todo hfs =>
    rcases List.mem_append.1 hf with hf | hf
    · have hloose := hfs f hf
      refine ⟨fun r => ⟨?_, ?_⟩, fun q t outcome => ?_⟩
      all_goals rintro rfl; exact hloose
    · simp only [List.mem_cons, List.not_mem_nil, or_false] at hf
      rcases hf with rfl | rfl
      all_goals exact ⟨fun _ => ⟨nofun, nofun⟩, fun _ _ _ => nofun⟩
  | abandon | discard =>
    simp only [List.mem_cons, List.not_mem_nil, or_false] at hf
    rcases hf with rfl | rfl | rfl
    all_goals exact ⟨fun _ => ⟨nofun, nofun⟩, fun _ _ _ => nofun⟩
  | done => cases hf

end Plan
end Dataflow
