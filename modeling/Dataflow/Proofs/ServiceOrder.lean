import Dataflow.Proofs.StateGraph
import Dataflow.Proofs.Thefts
import Dataflow.Proofs.TwoQueues

/-!
# A pool with one worker serves two queues

Which queue a task goes to depends on whose thread puts it there: the worker's own, or another. A worker that has
nobody to steal from takes the first task of its own queue, and the first of the pool's queue when its own is empty.
So the steps of a run are those of a scheduler with two queues, although the worker looks into the queues some steps
before it claims what it found, while others go on filling them (`Machine.ordered_run`).

The delicate part of the simulation (`Serving`) is those steps: a task that was taken out and is not claimed yet is
still first in its queue for the scheduler, and between a look into an empty queue of its own and the claim of a task
from outside the worker puts nothing there, since it does nothing else.
-/

namespace Dataflow

variable {V J : Type}

/-! ### The queues of a pool -/

/-- On which side of a pool a thread is. -/
def Side.of (p : PoolId) (worker : Option (PoolId × Nat)) : Side :=
  if worker.map (·.1) = some p then .inside else .outside

theorem Side.of_worker (p : PoolId) (w : Nat) : Side.of p (some (p, w)) = .inside := if_pos rfl

theorem Side.of_other {p : PoolId} {worker : Option (PoolId × Nat)} (h : ∀ w, worker ≠ some (p, w)) :
    Side.of p worker = .outside := by
  refine if_neg fun heq => ?_
  obtain ⟨⟨q, w⟩, rfl, hq⟩ := Option.map_eq_some_iff.1 heq
  obtain rfl : q = p := hq
  exact h w rfl

/-- What the step does to the queues of a pool. -/
def Taken.event? (p : PoolId) (e : Taken V J) : Option QueueEvent :=
  match e.frame with
  | .task q t .enqueue =>
    if q = p then some (.enqueue (Side.of p e.worker) t) else none
  | .task q t .claim => if q = p then some (.claim t) else none
  | _ => none

/-- The pool has one worker, and its queues hold these tasks. -/
structure Pool.Queues (pool : Pool V J) (inside outside : List TaskId) : Prop where
  own : pool.locals.contents = [inside]
  shared : pool.injector.items = outside

theorem Pool.Queues.congr {pool pool' : Pool V J} {inside outside : List TaskId} (h : pool.Queues inside outside)
    (hlocals : pool'.locals.queues = pool.locals.queues) (hinjector : pool'.injector = pool.injector) :
    pool'.Queues inside outside := by
  obtain ⟨hown, hshared⟩ := h
  exact ⟨by rw [LocalQueues.contents, hlocals, ← LocalQueues.contents, hown], by rw [hinjector, hshared]⟩

namespace Store

variable {s s' : Store V J} {p q : PoolId} {t : TaskId}

/-- The queues of a pool. -/
def queues (s : Store V J) (p : PoolId) : Option (Queue TaskId × List (Queue TaskId)) :=
  s.pools[p]?.map fun pool => (pool.injector, pool.locals.queues)

theorem queues_modifyPool {g : Pool V J → Pool V J}
    (hg : ∀ pool, (g pool).injector = pool.injector ∧ (g pool).locals.queues = pool.locals.queues) :
    (s.modifyPool q g).queues p = s.queues p := by
  unfold queues
  rw [pools_modifyPool]
  split
  · cases s.pools[p]? <;> simp [hg]
  · rfl

theorem queues_modifyPool_of_ne {g : Pool V J → Pool V J} (h : q ≠ p) :
    (s.modifyPool q g).queues p = s.queues p := by
  unfold queues
  rw [pools_modifyPool, if_neg h]

theorem queues_of_pools_eq (h : s'.pools = s.pools) : s'.queues p = s.queues p := by
  unfold queues
  rw [h]

/-- A pool that is there stays there with its queues. -/
theorem exists_pool_of_queues (h : s'.queues p = s.queues p) {pool : Pool V J} (hpool : s.pools[p]? = some pool) :
    ∃ pool', s'.pools[p]? = some pool' ∧ pool'.locals.queues = pool.locals.queues ∧ pool'.injector = pool.injector := by
  unfold queues at h
  rw [hpool] at h
  obtain ⟨pool', hpool', heq⟩ := Option.map_eq_some_iff.1 h
  obtain ⟨hinjector, hlocals⟩ := Prod.mk.inj heq
  exact ⟨pool', hpool', hlocals, hinjector⟩

theorem queues_modifyTask {f : Task V J → Task V J} : (s.modifyTask q t f).queues p = s.queues p :=
  queues_modifyPool fun _ => ⟨rfl, rfl⟩

end Store

namespace Frame

variable {start : J → Except RuntimeError (Body V J)} {worker : Option (PoolId × Nat)} {choice : Nat}
  {s : Store V J} {p q : PoolId} {t : TaskId} {f g : Frame V J}

theorem queues_stepTask {phase : TaskPhase} (h : q = p → phase ≠ .enqueue) :
    (stepTask start worker s q t phase).1.queues p = s.queues p := by
  cases phase with
  | enter =>
    simp only [stepTask]
    split
    · rfl
    · have hstage : (s.setStage q t .consumed).queues p = s.queues p := Store.queues_modifyTask
      have hqueued : ((s.setStage q t .consumed).modifyPool q fun pool =>
          { pool with queued := pool.queued - 1 }).queues p = (s.setStage q t .consumed).queues p :=
        Store.queues_modifyPool fun _ => ⟨rfl, rfl⟩
      split
      · split <;> exact hqueued.trans hstage
      · exact hstage
      · exact hstage
  | tally outcome =>
    have htallied : (s.modifyPool q (tallied outcome)).queues p = s.queues p :=
      Store.queues_modifyPool fun pool => by rw [tallied_eq]; exact ⟨rfl, rfl⟩
    rw [stepTask_tally]
    split
    · rfl
    · split <;> exact htallied
  | enqueue =>
    by_cases hq : q = p
    · exact absurd rfl (h hq)
    · exact Store.queues_modifyPool_of_ne hq
  | _ =>
    simp only [stepTask]
    repeat' split
    all_goals
      first
      | rfl
      | exact Store.queues_modifyTask
      | exact Store.queues_modifyPool fun _ => ⟨rfl, rfl⟩

/-- Whoever neither puts a task into a queue of the pool nor looks for one there leaves its queues as they are, until
they are emptied. -/
theorem queues_step (henqueue : ∀ t, f ≠ .task p t .enqueue) (hwork : ∀ seek w, f = .work seek → worker ≠ some (p, w))
    (hclears : ¬ f.Clears p) : (f.step start worker choice s).1.queues p = s.queues p := by
  have same : ∀ {q} {g : Pool V J → Pool V J},
      (∀ pool, (g pool).injector = pool.injector ∧ (g pool).locals.queues = pool.locals.queues) →
      (s.modifyPool q g).queues p = s.queues p := Store.queues_modifyPool
  cases f with
  | run r => exact Store.queues_of_pools_eq (stepRun_pools worker s r)
  | pause r =>
    simp only [step, stepPause]
    split
    · rfl
    · rename_i q t _
      have hstage : (s.setStage q t (.started r.guards r.body)).queues p = s.queues p := Store.queues_modifyTask
      refine Eq.trans ?_ hstage
      exact Store.queues_modifyPool fun _ => ⟨rfl, rfl⟩
  | drop guards => cases guards <;> rfl
  | fill c value => simp only [step]; split <;> rfl
  | ended party outcome =>
    cases party with
    | outside => rfl
    | task q t => exact same fun _ => ⟨rfl, rfl⟩
  | blocked c timed next => simp only [step]; split <;> rfl
  | spawn q job phase next =>
    cases phase <;> simp only [step, stepSpawn] <;> repeat' split
    all_goals first | rfl | exact same fun _ => ⟨rfl, rfl⟩
  | wake party =>
    cases party <;> simp only [step, stepWake]
    all_goals repeat' split
    all_goals rfl
  | exchange q t seen target =>
    simp only [step, stepExchange]
    repeat' split
    all_goals first | rfl | exact Store.queues_modifyTask
  | reschedule q t => simp only [step, stepReschedule]; split <;> rfl
  | task q t phase =>
    refine queues_stepTask ?_
    rintro rfl rfl
    exact henqueue t rfl
  | count q change => exact same fun pool => by cases change <;> exact ⟨rfl, rfl⟩
  | work seek =>
    rcases worker with _ | ⟨q, w⟩
    · rfl
    · have hq : q ≠ p := fun hq => hwork seek w rfl (by rw [hq])
      rcases stepWork_pools choice s q w seek with heq | ⟨g, heq, -⟩
      · rw [step, heq]
      · rw [step, heq]
        exact Store.queues_modifyPool_of_ne hq
  | shutdown q phase =>
    cases phase with
    | drainOwn w => exact Store.queues_modifyPool_of_ne hclears
    | drainShared =>
      have hq : q ≠ p := hclears
      simp only [step, stepShutdown]
      repeat' split
      all_goals first | rfl | exact Store.queues_modifyPool_of_ne hq
    | release tasks => cases tasks <;> rfl
    | _ =>
      simp only [step, stepShutdown]
      repeat' split
      all_goals first | rfl | exact same fun _ => ⟨rfl, rfl⟩
  | _ => rfl

/-- Only a worker that looks for a task comes to claim one. -/
theorem ne_claim_step (hf : ∀ seek, f ≠ .work seek) (hg : g ∈ (f.step start worker choice s).2) (t : TaskId) :
    g ≠ .task p t .claim := by
  rintro rfl
  have hgives := gives_step start worker choice s f
  generalize (f.step start worker choice s).2 = fs at hgives hg
  cases hgives with
  | @run r =>
    obtain ⟨quiet, g, hfs, hquiet, hcarries⟩ := stepRun_frames worker s r
    rw [hfs] at hg
    rcases List.mem_append.1 hg with hg | hg
    · exact hquiet _ hg
    · exact (List.mem_singleton.1 hg ▸ hcarries : CarriesOn r (.task p t .claim))
  | drop hfs => rcases hfs _ hg with ⟨_, _, h⟩ | ⟨_, h⟩ <;> cases h
  | fill => exact isQuiet_afterPut hg
  | discarded guards body => exact isQuiet_dropPending hg
  | seeks | finds => exact hf _ rfl
  | _ => simp at hg

end Frame

/-! ### The worker -/

/-- Where the only worker of a pool stands, and what the queues then hold of what the scheduler does. -/
inductive Serving (p : PoolId) (q : TwoQueues) (pool : Pool V J) : List (Frame V J) → Prop where
  /-- It looks for a task. -/
  | seeks {seek : Seek} (hseek : seek = .loop ∨ seek = .own ∨ seek = .idle ∨ seek = .shared ∧ q.waiting .inside = [])
      (hq : pool.Queues (q.waiting .inside) (q.waiting .outside)) : Serving p q pool [.work seek]
  /-- It is about to claim the next task, which is in its queue no longer. -/
  | claims {side : Side} {t : TaskId} (hnext : q.next? = some (side, t))
      (hq : pool.Queues ((q.pop side).waiting .inside) ((q.pop side).waiting .outside)) :
      Serving p q pool [.task p t .claim, .work .loop]
  /-- It is busy with a task. -/
  | busy {fs : List (Frame V J)} (hfs : ∀ f ∈ fs, (∀ seek, f ≠ .work seek) ∧ ∀ t, f ≠ .task p t .claim)
      (hq : pool.Queues (q.waiting .inside) (q.waiting .outside)) : Serving p q pool (fs ++ [.work .loop])

namespace Serving

variable {p : PoolId} {q : TwoQueues} {side : Side} {pool pool' : Pool V J} {stack rest : List (Frame V J)} {f : Frame V J}
  {t : TaskId} {s : Store V J} {start : J → Except RuntimeError (Body V J)} {choice : Nat}

theorem congr (h : Serving p q pool stack) (hlocals : pool'.locals.queues = pool.locals.queues)
    (hinjector : pool'.injector = pool.injector) : Serving p q pool' stack := by
  cases h with
  | seeks hseek hq => exact .seeks hseek (hq.congr hlocals hinjector)
  | claims hnext hq => exact .claims hnext (hq.congr hlocals hinjector)
  | busy hfs hq => exact .busy hfs (hq.congr hlocals hinjector)

/-- Others put a task into the queue of the pool, wherever the worker stands. -/
theorem push (h : Serving p q pool stack) {injector : Queue TaskId} (hinjector : injector.items = pool.injector.items ++ [t]) :
    Serving p (q.push .outside t) { pool with injector := injector } stack := by
  have pushed : ∀ {inside outside : List TaskId}, pool.Queues inside outside →
      Pool.Queues { pool with injector := injector } inside (outside ++ [t]) := fun hq =>
    ⟨hq.own, by rw [hinjector, hq.shared]⟩
  have hin : (q.push .outside t).waiting .inside = q.waiting .inside := TwoQueues.waiting_push_of_ne (by decide)
  have hout : (q.push .outside t).waiting .outside = q.waiting .outside ++ [t] := TwoQueues.waiting_push_self
  cases h with
  | seeks hseek hq =>
    refine .seeks ?_ ?_
    · rwa [hin]
    · rw [hin, hout]
      exact pushed hq
  | claims hnext hq =>
    refine .claims (TwoQueues.next?_push hnext t) ?_
    rw [TwoQueues.pop_push hnext, TwoQueues.waiting_push_of_ne (by decide), TwoQueues.waiting_push_self]
    exact pushed hq
  | busy hfs hq =>
    refine .busy hfs ?_
    rw [hin, hout]
    exact pushed hq

theorem of_work {seek : Seek} (h : Serving p q pool (.work seek :: rest)) : rest = [] ∧
    (seek = .loop ∨ seek = .own ∨ seek = .idle ∨ seek = .shared ∧ q.waiting .inside = []) ∧
    pool.Queues (q.waiting .inside) (q.waiting .outside) := by
  generalize hstack : (.work seek :: rest : List (Frame V J)) = stack at h
  cases h with
  | seeks hseek hq =>
    cases hstack
    exact ⟨rfl, hseek, hq⟩
  | claims hnext hq => cases hstack
  | @busy fs hfs hq =>
    cases fs with
    | nil =>
      cases hstack
      exact ⟨rfl, .inl rfl, hq⟩
    | cons f fs =>
      cases hstack
      exact absurd rfl ((hfs _ (List.mem_cons_self ..)).1 seek)

theorem of_claim (h : Serving p q pool (.task p t .claim :: rest)) : rest = [.work .loop] ∧
    ∃ side, q.next? = some (side, t) ∧ pool.Queues ((q.pop side).waiting .inside) ((q.pop side).waiting .outside) := by
  generalize hstack : (.task p t .claim :: rest : List (Frame V J)) = stack at h
  cases h with
  | seeks hseek hq => cases hstack
  | @claims side u hnext hq =>
    cases hstack
    exact ⟨rfl, side, hnext, hq⟩
  | @busy fs hfs hq =>
    cases fs with
    | nil => cases hstack
    | cons f fs =>
      cases hstack
      exact absurd rfl ((hfs _ (List.mem_cons_self ..)).2 t)

theorem of_busy (h : Serving p q pool (f :: rest)) (hwork : ∀ seek, f ≠ .work seek) (hclaim : ∀ t, f ≠ .task p t .claim) :
    (∃ fs, rest = fs ++ [.work .loop] ∧ ∀ f ∈ fs, (∀ seek, f ≠ .work seek) ∧ ∀ t, f ≠ .task p t .claim) ∧
    pool.Queues (q.waiting .inside) (q.waiting .outside) := by
  generalize hstack : f :: rest = stack at h
  cases h with
  | @seeks seek hseek hq =>
    cases hstack
    exact absurd rfl (hwork seek)
  | @claims side u hnext hq =>
    cases hstack
    exact absurd rfl (hclaim u)
  | @busy fs hfs hq =>
    cases fs with
    | nil =>
      cases hstack
      exact absurd rfl (hwork .loop)
    | cons f fs =>
      cases hstack
      exact ⟨⟨fs, rfl, fun g hg => hfs g (List.mem_cons_of_mem _ hg)⟩, hq⟩

/-- Its pool has no other worker. -/
theorem workers (h : Serving p q pool stack) : pool.locals.workers = 1 := by
  have one : ∀ {inside outside : List TaskId}, pool.Queues inside outside → pool.locals.workers = 1 := fun hq => by
    rw [← LocalQueues.length_contents, hq.own]
    rfl
  cases h with
  | seeks hseek hq => exact one hq
  | claims hnext hq => exact one hq
  | busy hfs hq => exact one hq

theorem mem_work (h : Serving p q pool stack) : ∃ seek, .work seek ∈ stack := by
  cases h with
  | seeks hseek hq => exact ⟨_, List.mem_cons_self ..⟩
  | claims hnext hq => exact ⟨.loop, by simp⟩
  | busy hfs hq => exact ⟨.loop, by simp⟩

/-- What waits for the scheduler is in a queue of the pool, or in the hands of the worker. -/
theorem held (h : Serving p q pool stack) (ht : t ∈ q.waiting side) :
    0 < pool.waiting t ∨ .task p t .claim ∈ stack := by
  have queued : ∀ {inside outside : List TaskId}, pool.Queues inside outside → t ∈ inside ∨ t ∈ outside →
      0 < pool.waiting t := by
    intro inside outside hq ht
    have hcount : pool.waiting t = outside.count t + inside.count t := by
      have hlocals : pool.locals.count t = (pool.locals.contents.map (·.count t)).sum := by
        simp [LocalQueues.count, LocalQueues.contents, Function.comp_def]
      rw [Pool.waiting, hlocals, hq.own, hq.shared]
      simp
    rw [hcount]
    rcases ht with ht | ht
    · have := List.count_pos_iff.2 ht
      omega
    · have := List.count_pos_iff.2 ht
      omega
  have either : ∀ {q : TwoQueues}, t ∈ q.waiting side → t ∈ q.waiting .inside ∨ t ∈ q.waiting .outside := by
    intro q ht
    cases side with
    | inside => exact .inl ht
    | outside => exact .inr ht
  cases h with
  | seeks hseek hq => exact .inl (queued hq (either ht))
  | busy hfs hq => exact .inl (queued hq (either ht))
  | @claims taken u hnext hq =>
    obtain ⟨⟨rest, hwaiting⟩, -⟩ := TwoQueues.of_next? hnext
    by_cases htu : t = u
    · subst htu
      exact .inr (List.mem_cons_self ..)
    · refine .inl (queued hq (either ?_))
      by_cases hside : side = taken
      · subst hside
        rw [TwoQueues.waiting_pop_self, hwaiting]
        rw [hwaiting] at ht
        exact (List.mem_cons.1 ht).resolve_left htu
      · rwa [TwoQueues.waiting_pop_of_ne hside]

end Serving

/-- The store as the scheduler sees it while the worker has these frames before it. -/
def Store.Serves (s : Store V J) (p : PoolId) (q : TwoQueues) (stack : List (Frame V J)) : Prop :=
  ∃ pool, s.pools[p]? = some pool ∧ Serving p q pool stack

namespace Store.Serves

variable {p : PoolId} {q : TwoQueues} {stack rest : List (Frame V J)} {f : Frame V J} {t : TaskId}
  {s s' : Store V J} {start : J → Except RuntimeError (Body V J)} {choice : Nat}

/-- The only worker has the first queue. -/
theorem worker_eq_zero {w : Nat} (h : s.Serves p q stack) (hok : ∀ f ∈ stack, f.Ok (some (p, w)) s) : w = 0 := by
  obtain ⟨pool, hpool, hserving⟩ := h
  obtain ⟨seek, hseek⟩ := hserving.mem_work
  obtain ⟨home, v, pool', hworker, hpool', hlt⟩ := hok _ hseek
  cases hworker
  rw [hpool] at hpool'
  cases hpool'
  rw [hserving.workers] at hlt
  omega

/-- The worker looks for a task, and ends if its pool is closed. -/
theorem step_work {seek : Seek} (h : s.Serves p q (.work seek :: rest)) :
    (Frame.stepWork choice s p 0 seek).2 ++ rest = [] ∨
      (Frame.stepWork choice s p 0 seek).1.Serves p q ((Frame.stepWork choice s p 0 seek).2 ++ rest) := by
  obtain ⟨pool, hpool, h⟩ := h
  obtain ⟨rfl, hseek, hq⟩ := h.of_work
  have hown : pool.locals.contents[0]? = some (q.waiting .inside) := by rw [hq.own]; rfl
  rcases hseek with rfl | rfl | rfl | ⟨rfl, hin⟩
  · simp only [Frame.stepWork]
    split
    · exact .inr ⟨pool, hpool, .seeks (.inr (.inl rfl)) hq⟩
    · exact .inl rfl
  · simp only [Frame.stepWork, hpool]
    cases hin : q.waiting .inside with
    | nil =>
      rw [hin] at hown
      have hnone := LocalQueues.popLocal_of_contents_nil hown
      split
      · rename_i t locals heq
        rw [heq] at hnone
        cases hnone
      · exact .inr ⟨pool, hpool, .seeks (.inr (.inr (.inr ⟨rfl, hin⟩))) hq⟩
    | cons t inside =>
      rw [hin] at hown
      obtain ⟨locals, hlocals, hcontents⟩ := LocalQueues.popLocal_of_contents hown
      rw [hlocals]
      refine .inr ⟨_, Plan.pools_modifyPool_self hpool, .claims (TwoQueues.next?_inside hin) ⟨?_, ?_⟩⟩
      · show locals.contents = [(q.pop .inside).waiting .inside]
        rw [hcontents, hq.own, TwoQueues.waiting_pop_self, hin]
        rfl
      · rw [TwoQueues.waiting_pop_of_ne (by decide)]
        exact hq.shared
  · exact .inr ⟨pool, hpool, .seeks (.inl rfl) hq⟩
  · have hpop := pool.injector.popFront_eq
    rw [hq.shared] at hpop
    have hsolo : pool.locals.canSteal pool.config.stealBatch = false := by
      have hworkers : pool.locals.workers = 1 := by
        rw [← LocalQueues.length_contents, hq.own]
        rfl
      simp [LocalQueues.canSteal, hworkers]
    simp only [Frame.stepWork, hpool]
    cases hout : q.waiting .outside with
    | nil =>
      rw [hout] at hpop
      split
      · rename_i t injector heq
        rw [heq] at hpop
        cases hpop.1
      · rw [hsolo]
        simp only [Bool.false_eq_true, and_false, if_false]
        exact .inr ⟨pool, hpool, .seeks (.inr (.inr (.inl rfl))) hq⟩
    | cons t outside =>
      rw [hout] at hpop
      split
      · rename_i u injector heq
        rw [heq] at hpop
        cases hpop.1
        refine .inr ⟨_, Plan.pools_modifyPool_self hpool, .claims (TwoQueues.next?_outside hin hout) ⟨?_, ?_⟩⟩
        · rw [TwoQueues.waiting_pop_of_ne (by decide)]
          exact hq.own
        · show injector.items = (q.pop .outside).waiting .outside
          rw [TwoQueues.waiting_pop_self, hout]
          exact hpop.2
      · rename_i injector heq
        rw [heq] at hpop
        cases hpop.1

/-- The worker puts a task into its own queue. -/
theorem step_enqueue (h : s.Serves p q (.task p t .enqueue :: rest)) :
    ((Frame.task p t .enqueue : Frame V J).step start (some (p, 0)) choice s).1.Serves p (q.push .inside t)
      (((Frame.task p t .enqueue : Frame V J).step start (some (p, 0)) choice s).2 ++ rest) := by
  obtain ⟨pool, hpool, h⟩ := h
  obtain ⟨⟨fs, rfl, hfs⟩, hq⟩ := h.of_busy (by simp) (by simp)
  have hown : pool.locals.contents[0]? = some (q.waiting .inside) := by rw [hq.own]; rfl
  rw [LocalQueues.getElem?_contents] at hown
  obtain ⟨own, hqueue, hitems⟩ := Option.map_eq_some_iff.1 hown
  refine ⟨_, Plan.pools_modifyPool_self hpool, .busy hfs ⟨?_, ?_⟩⟩
  · simp only [Frame.enqueue, if_true, LocalQueues.push?, hqueue, Option.map_some, LocalQueues.contents_setQueue, hq.own,
      TwoQueues.waiting_push_self, Queue.items_push, hitems, List.set_cons_zero]
  · rw [TwoQueues.waiting_push_of_ne (by decide)]
    simp only [Frame.enqueue, if_true, LocalQueues.push?, hqueue, Option.map_some]
    exact hq.shared

/-- The worker claims what it took out. -/
theorem step_claim (start : J → Except RuntimeError (Body V J)) (choice : Nat)
    (h : s.Serves p q (.task p t .claim :: rest)) : ∃ side, q.next? = some (side, t) ∧
    ((Frame.task p t .claim : Frame V J).step start (some (p, 0)) choice s).1.Serves p (q.pop side)
      (((Frame.task p t .claim : Frame V J).step start (some (p, 0)) choice s).2 ++ rest) := by
  obtain ⟨pool, hpool, h⟩ := h
  obtain ⟨rfl, side, hnext, hq⟩ := h.of_claim
  have hsame : ((Frame.task p t .claim : Frame V J).step start (some (p, 0)) choice s).1.queues p = s.queues p :=
    Frame.queues_step (by simp) (by simp) (by simp [Frame.Clears])
  obtain ⟨pool', hpool', hlocals, hinjector⟩ := Store.exists_pool_of_queues hsame hpool
  have hq' := hq.congr hlocals hinjector
  refine ⟨side, hnext, pool', hpool', ?_⟩
  have hgives := Frame.gives_step start (some (p, 0)) choice s (.task p t .claim)
  generalize ((Frame.task p t .claim : Frame V J).step start (some (p, 0)) choice s).2 = fs at hgives ⊢
  cases hgives with
  | nothing => exact .seeks (.inl rfl) hq'
  | claimed =>
    show Serving p (q.pop side) pool' ([.task p t .begin] ++ [.work .loop])
    exact .busy (by simp) hq'

/-- The worker is busy with something else. -/
theorem step_busy (h : s.Serves p q (f :: rest)) (hwork : ∀ seek, f ≠ .work seek) (hclaim : ∀ t, f ≠ .task p t .claim)
    (henqueue : ∀ t, f ≠ .task p t .enqueue) (hclears : ¬ f.Clears p) :
    (f.step start (some (p, 0)) choice s).1.Serves p q ((f.step start (some (p, 0)) choice s).2 ++ rest) := by
  obtain ⟨pool, hpool, h⟩ := h
  obtain ⟨⟨fs, rfl, hfs⟩, hq⟩ := h.of_busy hwork hclaim
  have hsame : (f.step start (some (p, 0)) choice s).1.queues p = s.queues p :=
    Frame.queues_step henqueue (fun seek w hf => absurd hf (hwork seek)) hclears
  obtain ⟨pool', hpool', hlocals, hinjector⟩ := Store.exists_pool_of_queues hsame hpool
  refine ⟨pool', hpool', ?_⟩
  rw [← List.append_assoc]
  refine .busy (fun g hg => ?_) (hq.congr hlocals hinjector)
  rcases List.mem_append.1 hg with hg | hg
  · exact ⟨Frame.ne_work_step hwork hg, Frame.ne_claim_step hwork hg⟩
  · exact hfs g hg

/-- Somebody else takes a step. -/
theorem step_other (h : s.Serves p q stack) {worker : Option (PoolId × Nat)} (hworker : ∀ w, worker ≠ some (p, w))
    (henqueue : ∀ t, f ≠ .task p t .enqueue) (hclears : ¬ f.Clears p) :
    (f.step start worker choice s).1.Serves p q stack := by
  obtain ⟨pool, hpool, h⟩ := h
  have hsame : (f.step start worker choice s).1.queues p = s.queues p :=
    Frame.queues_step henqueue (fun seek w _ => hworker w) hclears
  obtain ⟨pool', hpool', hlocals, hinjector⟩ := Store.exists_pool_of_queues hsame hpool
  exact ⟨pool', hpool', h.congr hlocals hinjector⟩

/-- Somebody else puts a task into a queue of the pool. -/
theorem step_push (h : s.Serves p q stack) {worker : Option (PoolId × Nat)} (hworker : ∀ w, worker ≠ some (p, w)) :
    ((Frame.task p t .enqueue : Frame V J).step start worker choice s).1.Serves p (q.push .outside t) stack := by
  obtain ⟨pool, hpool, h⟩ := h
  have hshared : Frame.enqueue worker p t pool = { pool with injector := pool.injector.push t } := by
    rcases worker with _ | ⟨home, w⟩
    · rfl
    · have hne : home ≠ p := fun hhome => hworker w (by rw [hhome])
      simp [Frame.enqueue, hne]
  refine ⟨_, Plan.pools_modifyPool_self hpool, ?_⟩
  rw [hshared]
  exact h.push (Queue.items_push ..)

end Store.Serves

theorem Hold.not_isReady {k : Hold V J} (hk : k.HasBody) : ¬ k.IsReady := by
  cases k <;> first | exact id | exact hk.elim

namespace Machine

variable {start : J → Except RuntimeError (Body V J)} {m : Machine V J} {p : PoolId} {t : TaskId}

/-- Until the workers of a pool have ended, whatever is about to be claimed is queued. -/
def Ready (m : Machine V J) : Prop :=
  ∀ p t, ∀ k ∈ m.holds p t, k.IsReady →
    m.store.Closed p ∧ m.Deserted p ∨ ∃ y, m.store.task? p t = some y ∧ y.state = .queued

theorem Ready.initial : ({} : Machine V J).Ready := by
  intro p t k hk
  simp [holds, Store.holds, Store.waiting] at hk

theorem Ready.after (hm : m.Scheduled) (htidy : m.Tidy) (hcharted : m.Charted) (h : m.Ready) (mv : Move V J) :
    (m.after start mv).Ready := by
  intro p t k hk hready
  rcases change start hm.framed (hm.sound p t).made mv with
    ⟨htaken, hx, hT⟩ | ⟨i, worker, f, d, e, rest, htaken, hd, he, hc⟩
  · have harrival := arrival_of_not_taken start htaken
    rw [hT] at hk
    rcases h p t k hk hready with ⟨hclosed, hdeserted⟩ | hqueued
    · exact .inl ⟨hclosed.mono (m.after_keeps start mv), hdeserted.arrival harrival hclosed⟩
    · exact .inr (hx ▸ hqueued)
  · obtain ⟨choice, stack, rfl, -, hi, heq⟩ := after_of_taken start htaken
    dsimp only at hi
    by_cases hleft : m.store.Closed p ∧ m.Deserted p
    · refine .inl ⟨hleft.1.mono (m.after_keeps start _), ?_⟩
      rw [heq]
      exact hleft.2.set hi _
    refine .inr ?_
    have queued : ∀ k ∈ d + rest, k.IsReady → ∃ y, m.store.task? p t = some y ∧ y.state = .queued := fun k hk hready =>
      (h p t k (hd ▸ hk) hready).resolve_left hleft
    have hs := hm.sound p t
    have hstate := fun x hx => hcharted.after_state start (p := p) (t := t) (x := x) hm hx (.step i choice)
    rw [hd] at hs
    rw [he] at hk
    generalize (m.after start (.step i choice)).store.task? p t = y at hc hstate ⊢
    generalize hx : m.store.task? p t = x at hc hs queued hstate
    have only : ∀ {k : Hold V J} {z}, Sound z ({k} + rest) → rest = 0 := fun h => eq_zero_of_card_le h.once
    cases hc with
    | stay => exact queued k hk hready
    | lose hp hd => exact queued k (Multiset.mem_add.2 (.inr (by simpa using hk))) hready
    | spawn | requeue | wake => exact ⟨_, rfl, rfl⟩
    | claim | unpark | pause | answer =>
      obtain rfl := only hs
      obtain rfl := Multiset.mem_singleton.1 (by simpa using hk)
      exact hready.elim
    | refuse | settle | park =>
      obtain rfl := only hs
      simp at hk
    | enter =>
      obtain rfl := only hs
      obtain rfl := Multiset.mem_singleton.1 (by simpa using hk)
      exact (Hold.not_isReady (Stage.hasBody_entered _) hready).elim
    | run hr hbody hend hg hgk =>
      obtain rfl := only hs
      obtain rfl := Multiset.mem_singleton.1 (by simpa using hk)
      exact (Hold.not_isReady hbody hready).elim
    | notify hrunning =>
      obtain ⟨y, hy, hqueued⟩ := queued k hk hready
      cases hy
      rw [hrunning] at hqueued
      cases hqueued
    | handBack =>
      obtain rfl := only hs
      exact queued .rescheduling (by simp) trivial
    | flag =>
      obtain ⟨y, hy, hqueued⟩ := queued k hk hready
      cases hy
      exact ⟨_, rfl, hqueued⟩
    | @close f x z hp hsame =>
      obtain ⟨y, hy, hqueued⟩ := queued k hk hready
      cases hy
      obtain ⟨z', hz, hshift, -⟩ := hstate x rfl
      cases hz
      rcases hshift with hshift | ⟨e, he, hshift⟩
      · exact ⟨z, rfl, hshift.trans hqueued⟩
      · -- nothing else takes a queued task to another state without taking it up than its release
        rw [htaken] at he
        cases he
        rw [hqueued] at hshift hsame
        generalize z.state = state at hshift hsame
        cases hshift with
        | claim => simp at hsame
        | complete hx houtcome | fail hx houtcome => simp at hx
        | release =>
          have hmem : (Frame.task p t .abandon : Frame V J) ∈ Frame.task p t .abandon :: stack := List.mem_cons_self ..
          exact absurd ⟨hm.framed.frames i _ hi _ hmem, htidy.vacated i _ hi _ hmem p rfl⟩ hleft

/-- A claim finds its task queued: its worker has not ended. -/
theorem Ready.of_claim (hm : m.Scheduled) (h : m.Ready) {mv : Move V J} {e : Taken V J} (htaken : m.taken mv = some e)
    (hf : e.frame = .task p t .claim) : ∃ y, e.store.task? p t = some y ∧ y.state = .queued := by
  obtain ⟨choice, rest, -, hstore, hi, -⟩ := after_of_taken (fun _ => .error .poolShutDown) htaken
  rw [hstore]
  rw [hf] at hi
  have hmem : (Frame.task p t .claim : Frame V J) ∈ Frame.task p t .claim :: rest := List.mem_cons_self ..
  have hk : .ready ∈ m.holds p t := mem_holds_of_mem hi hmem (by simp [Frame.holds])
  obtain ⟨w, hw⟩ : ∃ w, e.worker = some (p, w) := hm.framed.frames _ _ hi _ hmem
  rw [hw] at hi
  rcases h p t _ hk trivial with hdeserted | hready
  · cases hdeserted.2 _ w _ hi
  · exact hready

/-! ### The pool -/

/-- The pool, once it is there, has one worker. -/
def Solo (m : Machine V J) (p : PoolId) : Prop :=
  ∀ pool, m.store.pools[p]? = some pool → pool.config.numWorkers = 1

theorem Solo.of_keeps {m' : Machine V J} (h : m'.Solo p) (hkeeps : m.store.Keeps m'.store) : m.Solo p := by
  intro pool hpool
  obtain ⟨pool', hpool', -, hconfig, -⟩ := hkeeps p pool hpool
  rw [← hconfig]
  exact h pool' hpool'

/-- Nobody is a worker of a pool that is not there. -/
theorem deserted_of_absent (hm : m.Framed) (hanchored : m.Anchored) (hp : m.store.pools[p]? = none) :
    m.Deserted p := by
  intro i w stack hi
  by_contra hne
  obtain ⟨seek, hlast⟩ := hanchored i _ hi (by simp) _ (List.getLast?_eq_some_getLast hne)
  have hok := hm.frames i _ hi _ (List.getLast_mem hne)
  rw [hlast] at hok
  obtain ⟨q, v, pool, hworker, hpool, -⟩ := hok
  cases hworker
  rw [hp] at hpool
  cases hpool

/-- The only worker of a pool is on one thread. -/
theorem Solo.unique (hstaffed : m.Staffed) (hanchored : m.Anchored) (h : m.Solo p) {pool : Pool V J}
    (hpool : m.store.pools[p]? = some pool) {i j v w : Nat} {stack stack' : List (Frame V J)}
    (hi : m.threads[i]? = some ⟨some (p, v), stack⟩) (hj : m.threads[j]? = some ⟨some (p, w), stack'⟩)
    (hne : stack ≠ []) (hne' : stack' ≠ []) : i = j := by
  by_contra hij
  have works : ∀ {k w : Nat} {stack : List (Frame V J)}, m.threads[k]? = some ⟨some (p, w), stack⟩ → stack ≠ [] →
      1 ≤ (stack.map (Frame.workOf p (some (p, w)))).sum := by
    intro k w stack hk hne
    obtain ⟨seek, hlast⟩ := hanchored k _ hk (by simp) _ (List.getLast?_eq_some_getLast hne)
    have hle := List.le_sum_of_mem (List.mem_map_of_mem (f := Frame.workOf p (some (p, w))) (List.getLast_mem hne))
    rw [hlast] at hle
    simpa [Frame.workOf] using hle
  have hi' : m.threads.toList[i]? = some ⟨some (p, v), stack⟩ := by rw [Array.getElem?_toList, hi]
  obtain ⟨others, hsum, hset⟩ := exists_sum_set (fun th : Thread V J => (th.stack.map (Frame.workOf p th.worker)).sum) hi'
  have hj' : (m.threads.toList.set i {})[j]? = some ⟨some (p, w), stack'⟩ := by
    rw [List.getElem?_set_ne hij, Array.getElem?_toList, hj]
  obtain ⟨others', hsum', -⟩ := exists_sum_set (fun th : Thread V J => (th.stack.map (Frame.workOf p th.worker)).sum) hj'
  rw [hset] at hsum'
  have hstaff := hstaffed p pool hpool
  rw [h pool hpool, frameSum, hsum] at hstaff
  have hone := works hi hne
  have hone' := works hj hne'
  simp only [List.map_nil, List.sum_nil, zero_add] at hstaff hsum'
  omega

/-- Who takes a step with a task of a pool in hand, or one to enqueue, takes it in a pool that is there. -/
theorem exists_pool_of_holds (hm : m.Scheduled) {mv : Move V J} {e : Taken V J} (htaken : m.taken mv = some e)
    (hholds : e.frame.holds e.worker p t ≠ 0) : ∃ pool, m.store.pools[p]? = some pool := by
  cases hy : m.store.task? p t with
  | some y =>
    obtain ⟨pool, hpool, -⟩ := Store.exists_pool_of_task? hy
    exact ⟨pool, hpool⟩
  | none =>
    have hle := holds_le_of_taken (p := p) (t := t) htaken
    rw [(hm.sound p t).made hy] at hle
    exact absurd (Multiset.le_zero.1 hle) hholds

/-- The worker of the pool, if it has not ended, serves the queues. -/
def Attended (m : Machine V J) (p : PoolId) (q : TwoQueues) : Prop :=
  ∀ (i w : Nat) (stack : List (Frame V J)), m.threads[i]? = some ⟨some (p, w), stack⟩ → stack ≠ [] →
    m.store.Serves p q stack

/-- What is about to be enqueued does not wait yet. -/
theorem Attended.fresh {q : TwoQueues} (hm : m.Scheduled) (h : m.Attended p q) (hlive : ¬ m.Deserted p)
    {i : Nat} {worker : Option (PoolId × Nat)} {rest : List (Frame V J)}
    (hi : m.threads[i]? = some ⟨worker, .task p t .enqueue :: rest⟩) (side : Side) : t ∉ q.waiting side := by
  intro ht
  have hholds : (Frame.task p t .enqueue : Frame V J).holds worker p t = {.ready} := by simp [Frame.holds]
  obtain ⟨others, hsum, -⟩ := holds_set hi p t
  have honce := (hm.sound p t).once
  rw [hsum, hholds, Store.holds] at honce
  simp only [Multiset.card_add, Multiset.card_replicate, Multiset.card_singleton] at honce
  unfold Deserted at hlive
  push Not at hlive
  obtain ⟨j, w, stack, hj, hne⟩ := hlive
  obtain ⟨pool, hpool, hserving⟩ := h j w stack hj hne
  rcases hserving.held ht with hwaiting | hmem
  · rw [← Store.waiting_of_pool hpool] at hwaiting
    omega
  · -- the worker would have the same task in hand
    have hnobody := holds_eq_zero_of_pop (hm.sound p t) hi (by simp [hholds])
    have hclaim : (Frame.task p t .claim : Frame V J).holds (some (p, w)) p t = {.ready} := by simp [Frame.holds]
    by_cases hij : i = j
    · subst hij
      rw [hi] at hj
      cases hj
      have hzero := hnobody i _ (getElem?_setIfInBounds_self hi) _ ((List.mem_cons.1 hmem).resolve_left (by simp))
      exact Multiset.singleton_ne_zero _ (hclaim.symm.trans hzero)
    · have hzero := hnobody j ⟨some (p, w), stack⟩ (by rw [pop, Array.getElem?_setIfInBounds_ne hij, hj]) _ hmem
      exact Multiset.singleton_ne_zero _ (hclaim.symm.trans hzero)

/-- A step of the worker, or of somebody else. -/
theorem Attended.set {q q' : TwoQueues} (hstaffed : m.Staffed) (hanchored : m.Anchored) (hsolo : m.Solo p)
    (h : m.Attended p q) {i : Nat} {worker : Option (PoolId × Nat)} {f : Frame V J} {fs rest : List (Frame V J)}
    {s : Store V J} (hi : m.threads[i]? = some ⟨worker, f :: rest⟩)
    (hown : ∀ w, worker = some (p, w) → m.store.Serves p q (f :: rest) → fs ++ rest = [] ∨ s.Serves p q' (fs ++ rest))
    (hother : (∀ w, worker ≠ some (p, w)) → ∀ stack, m.store.Serves p q stack → s.Serves p q' stack) :
    Attended ⟨s, m.threads.setIfInBounds i ⟨worker, fs ++ rest⟩⟩ p q' := by
  intro j w stack hj hne
  by_cases hworker : ∃ v, worker = some (p, v)
  · obtain ⟨v, rfl⟩ := hworker
    have hserves := h i v _ hi (by simp)
    rcases thread_of_set hi hj with ⟨-, heq⟩ | ⟨hij, hj⟩
    · cases heq
      exact (hown _ rfl hserves).resolve_left hne
    · obtain ⟨pool, hpool, -⟩ := hserves
      exact absurd (hsolo.unique hstaffed hanchored hpool hi hj (by simp) hne) hij
  · have hworker : ∀ v, worker ≠ some (p, v) := fun v hv => hworker ⟨v, hv⟩
    have hj := worker_of_set hi hworker hj rfl
    exact hother hworker _ (h j w stack hj hne)

/-- What has happened to the queues of a pool, and who attends to them now. -/
structure InService (m : Machine V J) (p : PoolId) (history : List QueueEvent) : Prop where
  ordered : QueueEvent.Ordered history
  /-- Nothing happens before the pool starts. -/
  unborn : m.store.pools[p]? = none → history = []
  attended : m.Deserted p ∨ ∃ q, QueueEvent.Tracks history q ∧ m.Attended p q

theorem InService.initial (p : PoolId) : ({} : Machine V J).InService p [] :=
  ⟨.nil, fun _ => rfl, .inl fun i w stack hi => by simp at hi⟩

theorem InService.arrival {m' : Machine V J} {history : List QueueEvent} (hm : m.Framed) (hanchored : m.Anchored)
    (hm' : m'.Framed) (hanchored' : m'.Anchored) (hsolo : m'.Solo p) (h : m.InService p history)
    (hkeeps : m.store.Keeps m'.store) (harrival : Arrival m m') : m'.InService p history := by
  cases hp' : m'.store.pools[p]? with
  | none =>
    have hp : m.store.pools[p]? = none := by
      refine Option.eq_none_iff_forall_ne_some.2 fun pool hpool => ?_
      obtain ⟨pool', hpool', -⟩ := hkeeps p pool hpool
      rw [hp'] at hpool'
      cases hpool'
    exact ⟨h.ordered, fun _ => h.unborn hp, .inl (deserted_of_absent hm' hanchored' hp')⟩
  | some pool' =>
    refine ⟨h.ordered, fun hnone => ?_, ?_⟩
    · rw [hp'] at hnone
      cases hnone
    -- those who come are no workers of the pool, unless it is new
    have others : m'.store.pools[p]? = m.store.pools[p]? →
        (∀ (i w : Nat) (stack : List (Frame V J)), m'.threads[i]? = some ⟨some (p, w), stack⟩ →
          m.threads[i]? = some ⟨some (p, w), stack⟩) →
        m'.Deserted p ∨ ∃ q, QueueEvent.Tracks history q ∧ m'.Attended p q := by
      intro hpools hthreads
      refine h.attended.imp (fun hdeserted i w stack hi => hdeserted i w stack (hthreads i w stack hi)) ?_
      rintro ⟨q, htracks, hattended⟩
      refine ⟨q, htracks, fun i w stack hi hne => ?_⟩
      obtain ⟨pool, hpool, hserving⟩ := hattended i w stack (hthreads i w stack hi) hne
      exact ⟨pool, hpools.trans hpool, hserving⟩
    cases harrival with
    | nobody => exact h.attended
    | outsider hpools => exact others (by rw [← hpools]; rfl) fun _ _ _ => thread_of_spawnThread
    | workers config =>
      by_cases hp : p < m.store.pools.size
      · refine others ?_ fun _ _ _ => thread_of_addPool hp
        simp [addPool, Array.getElem?_push, Nat.ne_of_lt hp]
      · -- the pool is new, and its worker begins
        simp only [addPool, Array.getElem?_push] at hp'
        split at hp'
        · rename_i heq
          cases hp'
          have hone : config.numWorkers = 1 := hsolo (.new config) (by simp [addPool, heq])
          have hnone : m.store.pools[p]? = none := by simp [heq]
          have hempty := h.unborn hnone
          subst hempty
          refine .inr ⟨{}, .nil, fun i w stack hi hne => ?_⟩
          simp only [addPool, Array.getElem?_append] at hi
          split at hi
          · exact absurd (deserted_of_absent hm hanchored hnone i w stack hi) hne
          · simp only [Machine.workers, List.getElem?_toArray, List.getElem?_map, Option.map_eq_some_iff, Thread.mk.injEq] at hi
            obtain ⟨v, -, -, rfl⟩ := hi
            refine ⟨.new config, by simp [addPool, heq], .seeks (.inl rfl) ⟨?_, rfl⟩⟩
            show (LocalQueues.new config.numWorkers).contents = [[]]
            rw [hone]
            rfl
        · have hlt := (Array.getElem?_eq_some_iff.1 hp').1
          exact absurd hlt hp

/-- What the step of a thread is to the scheduler. -/
theorem event?_cases (p : PoolId) (e : Taken V J) :
    (∃ t, e.frame = .task p t .enqueue ∧ e.event? p = some (.enqueue (Side.of p e.worker) t)) ∨
    (∃ t, e.frame = .task p t .claim ∧ e.event? p = some (.claim t)) ∨
    (∀ t, e.frame ≠ .task p t .enqueue) ∧ (∀ t, e.frame ≠ .task p t .claim) ∧ e.event? p = none := by
  obtain ⟨i, worker, f, s⟩ := e
  unfold Taken.event?
  dsimp only
  split
  · rename_i q t
    by_cases hq : q = p
    · subst hq
      exact .inl ⟨t, rfl, if_pos rfl⟩
    · exact .inr (.inr ⟨by simp [hq], by simp, if_neg hq⟩)
  · rename_i q t
    by_cases hq : q = p
    · subst hq
      exact .inr (.inl ⟨t, rfl, if_pos rfl⟩)
    · exact .inr (.inr ⟨by simp, by simp [hq], if_neg hq⟩)
  · rename_i henqueue hclaim
    exact .inr (.inr ⟨fun t ht => henqueue p t ht, fun t ht => hclaim p t ht, rfl⟩)

theorem InService.after_step {history : List QueueEvent} (hm : m.Scheduled) (hstaffed : m.Staffed) (htidy : m.Tidy)
    (hsolo : m.Solo p) (h : m.InService p history) {mv : Move V J} {e : Taken V J} (htaken : m.taken mv = some e) :
    (m.after start mv).InService p ((e.event? p).toList ++ history) := by
  obtain ⟨i, worker, f, s⟩ := e
  obtain ⟨choice, rest, rfl, -, hi, heq⟩ := after_of_taken start htaken
  have hkeeps := m.after_keeps start (.step i choice)
  dsimp only at hi heq hkeeps
  have hmem : f ∈ f :: rest := List.mem_cons_self ..
  have born : ∀ {pool}, m.store.pools[p]? = some pool → (m.after start (.step i choice)).store.pools[p]? ≠ none := by
    intro pool hpool hnone
    obtain ⟨pool', hpool', -⟩ := hkeeps p pool hpool
    rw [hnone] at hpool'
    cases hpool'
  have first : ∀ {w q}, worker = some (p, w) → m.store.Serves p q (f :: rest) → worker = some (p, 0) := by
    rintro w q rfl hserves
    rw [hserves.worker_eq_zero (hm.framed.frames i _ hi)]
  rcases event?_cases p ⟨i, worker, f, s⟩ with ⟨t, rfl, hevent⟩ | ⟨t, rfl, hevent⟩ | ⟨henqueue, hclaim, hevent⟩
  · obtain ⟨pool, hpool⟩ := exists_pool_of_holds (p := p) (t := t) hm htaken (by simp [Frame.holds])
    rw [hevent]
    refine ⟨h.ordered.enqueue _ t, fun hnone => absurd hnone (born hpool), ?_⟩
    by_cases hdeserted : m.Deserted p
    · rw [heq]
      exact .inl (hdeserted.set hi _)
    · obtain ⟨q, htracks, hattended⟩ := h.attended.resolve_left hdeserted
      refine .inr ⟨_, htracks.enqueue (hattended.fresh hm hdeserted hi) _, ?_⟩
      rw [heq]
      refine hattended.set hstaffed htidy.anchored hsolo hi (fun w hw hserves => ?_) fun hw stack hserves => ?_
      · obtain rfl := first hw hserves
        rw [Side.of_worker]
        exact .inr hserves.step_enqueue
      · rw [Side.of_other hw]
        exact hserves.step_push hw
  · obtain ⟨w, rfl⟩ : ∃ w, worker = some (p, w) := hm.framed.frames i _ hi _ hmem
    have hlive : ¬ m.Deserted p := fun hdeserted => by cases hdeserted i w _ hi
    obtain ⟨q, htracks, hattended⟩ := h.attended.resolve_left hlive
    have hserves := hattended i w _ hi (by simp)
    obtain ⟨pool, hpool, -⟩ := id hserves
    obtain rfl : w = 0 := hserves.worker_eq_zero (hm.framed.frames i _ hi)
    obtain ⟨side, hnext, hserves⟩ := hserves.step_claim start choice
    rw [hevent]
    refine ⟨h.ordered.claim htracks hnext, fun hnone => absurd hnone (born hpool), .inr ⟨_, htracks.claim hnext, ?_⟩⟩
    rw [heq]
    exact hattended.set hstaffed htidy.anchored hsolo hi (fun _ _ _ => .inr hserves) fun hw => absurd rfl (hw 0)
  · rw [hevent]
    refine ⟨h.ordered, fun hnone => h.unborn ?_, ?_⟩
    · refine Option.eq_none_iff_forall_ne_some.2 fun pool hpool => born hpool hnone
    by_cases hdeserted : m.Deserted p
    · rw [heq]
      exact .inl (hdeserted.set hi _)
    · obtain ⟨q, htracks, hattended⟩ := h.attended.resolve_left hdeserted
      have hclears : ¬ f.Clears p := fun hclears => hdeserted (htidy.vacated i _ hi f hmem p hclears)
      refine .inr ⟨q, htracks, ?_⟩
      rw [heq]
      refine hattended.set hstaffed htidy.anchored hsolo hi (fun w hw hserves => ?_) fun hw stack hserves =>
        hserves.step_other hw henqueue hclears
      obtain rfl := first hw hserves
      by_cases hwork : ∃ seek, f = .work seek
      · obtain ⟨seek, rfl⟩ := hwork
        exact hserves.step_work
      · exact .inr (hserves.step_busy (fun seek hseek => hwork ⟨seek, hseek⟩) hclaim henqueue hclears)

theorem InService.after {history : List QueueEvent} (hm : m.Scheduled) (hstaffed : m.Staffed) (htidy : m.Tidy)
    (mv : Move V J) (hsolo : (m.after start mv).Solo p) (h : m.InService p history) :
    (m.after start mv).InService p (((m.taken mv).bind (·.event? p)).toList ++ history) := by
  cases htaken : m.taken mv with
  | some e => exact h.after_step hm hstaffed htidy (hsolo.of_keeps (m.after_keeps start mv)) htaken
  | none =>
    exact h.arrival hm.framed htidy.anchored (hm.framed.after mv) (htidy.after hm hstaffed mv).anchored hsolo
      (m.after_keeps start mv) (arrival_of_not_taken start htaken)

/-- What a run has done to the queues of a pool, the last event first. -/
def queueHistory (p : PoolId) (tr : List (Taken V J)) : List QueueEvent := (tr.filterMap (·.event? p)).reverse

theorem queueHistory_append (p : PoolId) (tr : List (Taken V J)) (e : Option (Taken V J)) :
    queueHistory p (tr ++ e.toList) = (e.bind (·.event? p)).toList ++ queueHistory p tr := by
  unfold queueHistory
  rw [List.filterMap_append, List.reverse_append]
  congr 1
  cases e with
  | none => rfl
  | some e => cases hevent : e.event? p <;> simp [hevent]

/-- On a pool with one worker, after every run: the events are those of a scheduler with two queues. The tasks that
were enqueued on other threads are claimed in their order, those that the worker enqueued in theirs, and none of the
former while one of the latter waits. Whatever is claimed is there to be claimed. -/
theorem ordered_run (start : J → Except RuntimeError (Body V J)) (mvs : List (Move V J)) (p : PoolId)
    (hsolo : (({} : Machine V J).run start mvs).Solo p) :
    QueueEvent.Ordered (queueHistory p (({} : Machine V J).trace start mvs)) ∧
      ∀ e ∈ ({} : Machine V J).trace start mvs, ∀ t, e.frame = .task p t .claim →
        ∃ y, e.store.task? p t = some y ∧ y.state = .queued := by
  let P (m : Machine V J) (tr : List (Taken V J)) : Prop :=
    m.Scheduled ∧ m.Staffed ∧ m.Tidy ∧ m.Charted ∧ m.Ready ∧ (m.Solo p → m.InService p (queueHistory p tr)) ∧
      ∀ e ∈ tr, ∀ t, e.frame = .task p t .claim → ∃ y, e.store.task? p t = some y ∧ y.state = .queued
  have hrun : P (({} : Machine V J).run start mvs) (({} : Machine V J).trace start mvs) := by
    refine trace_induction start (P := P) ?_
      ⟨.initial 0, .initial 0, .initial, .initial, .initial, fun _ => .initial p, by simp⟩ mvs
    rintro m tr mv ⟨hm, hstaffed, htidy, hcharted, hready, hservice, hclaims⟩
    refine ⟨hm.after mv, hstaffed.after hm.framed mv, htidy.after hm hstaffed mv, hcharted.after hm htidy mv,
      hready.after hm htidy hcharted mv, fun hsolo => ?_, fun e he t hf => ?_⟩
    · rw [queueHistory_append]
      exact (hservice (hsolo.of_keeps (m.after_keeps start mv))).after hm hstaffed htidy mv hsolo
    · rcases List.mem_append.1 he with he | he
      · exact hclaims e he t hf
      · exact hready.of_claim hm (Option.mem_toList.1 he) hf
  obtain ⟨-, -, -, -, -, hservice, hclaims⟩ := hrun
  exact ⟨(hservice hsolo).ordered, hclaims⟩

/-- A job that spawns another and ends, or ends at once. -/
def spawnOrEnd : Bool → Except RuntimeError (Body Nat Bool)
  | true => .ok (.spawn none false fun _ => .done (.ok ()))
  | false => .ok (.done (.ok ()))

/-- Someone spawns a job that spawns another, and one more job, before the only worker begins. -/
def nestingMoves : List (Move Nat Bool) :=
  .startPool {} :: .enter (.spawn (some 0) true fun _ => .spawn (some 0) false fun _ => .done (.ok ())) ::
    (List.replicate 20 (.step 1 0) ++ List.replicate 40 (.step 0 0))

set_option maxRecDepth 8000 in
/-- The child overtakes the job that has been waiting since before it was spawned. -/
theorem ordered_nested : (({} : Machine Nat Bool).run spawnOrEnd nestingMoves).Solo 0 ∧
    queueHistory 0 (({} : Machine Nat Bool).trace spawnOrEnd nestingMoves) =
      [.claim 1, .claim 2, .enqueue .inside 2, .claim 0, .enqueue .outside 1, .enqueue .outside 0] ∧
    QueueEvent.Ordered (queueHistory 0 (({} : Machine Nat Bool).trace spawnOrEnd nestingMoves)) ∧
      ∀ e ∈ ({} : Machine Nat Bool).trace spawnOrEnd nestingMoves, ∀ t, e.frame = .task 0 t .claim →
        ∃ y, e.store.task? 0 t = some y ∧ y.state = .queued := by
  have hone : ∀ pool ∈ (({} : Machine Nat Bool).run spawnOrEnd nestingMoves).store.pools.toList,
      pool.config.numWorkers = 1 := by
    rw [nestingMoves, run_startPool startError?_default]
    decide +kernel
  have hsolo : (({} : Machine Nat Bool).run spawnOrEnd nestingMoves).Solo 0 := fun pool hpool =>
    hone pool (Array.mem_toList_iff.2 (Array.mem_of_getElem? hpool))
  refine ⟨hsolo, ?_, ordered_run spawnOrEnd nestingMoves 0 hsolo⟩
  rw [nestingMoves, trace_startPool startError?_default]
  decide +kernel

end Machine
end Dataflow
