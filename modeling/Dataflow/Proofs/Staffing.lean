import Dataflow.Proofs.Tickets

/-!
# Doors and staff of a pool

Only calls on a pool and the workers of the pool change it (`Frame.pools_step_of_not_actsOn`). Nothing but a
shutdown closes it, and nothing but a worker that ends adds to the workers that have ended (`Frame.door_step`), so
these and the workers that are still there add up to the number of workers (`Machine.Staffed`): once a shutdown call
has waited for all of them, there are none.
-/

namespace Dataflow

variable {V J : Type}

namespace Store

variable {s : Store V J} {p q : PoolId} {t : TaskId}

/-- Whether the pool is running, and how many of its workers have ended. -/
def door (s : Store V J) (p : PoolId) : Option (Bool × Nat) := s.pools[p]?.map fun pool => (pool.running, pool.stopped)

theorem door_modifyPool {g : Pool V J → Pool V J}
    (hg : ∀ pool, (g pool).running = pool.running ∧ (g pool).stopped = pool.stopped) :
    (s.modifyPool q g).door p = s.door p := by
  rw [door, door, pools_modifyPool]
  split
  · cases s.pools[p]? <;> simp [hg]
  · rfl

theorem door_modifyPool_of_ne {g : Pool V J → Pool V J} (h : q ≠ p) : (s.modifyPool q g).door p = s.door p := by
  rw [door, door, pools_modifyPool, if_neg h]

@[simp] theorem door_modifyTask {f : Task V J → Task V J} : (s.modifyTask q t f).door p = s.door p :=
  door_modifyPool fun _ => ⟨rfl, rfl⟩

theorem door_of_pools_eq {s' : Store V J} (h : s'.pools = s.pools) : s'.door p = s.door p := by
  rw [door, door, h]

end Store

namespace Frame

/-- The frame belongs to a call on the pool, or on one of its tasks. -/
def ActsOn (p : PoolId) : Frame V J → Prop
  | .wake party => ∃ t, party = .task p t
  | .exchange q _ _ _ | .reschedule q _ | .spawn q _ _ _ | .task q _ _ | .count q _ | .shutdown q _ => q = p
  | _ => False

variable {start : J → Except RuntimeError (Body V J)} {worker : Option (PoolId × Nat)} {choice : Nat}
  {s : Store V J} {p q : PoolId} {t : TaskId}

theorem pools_stepTask_of_ne (h : q ≠ p) (phase : TaskPhase) :
    (stepTask start worker s q t phase).1.pools[p]? = s.pools[p]? := by
  cases phase with
  | enter =>
    simp only [stepTask]
    split
    · rfl
    · split <;> (try split) <;> simp [Store.setStage, Store.modifyTask, Store.pools_modifyPool, h]
  | tally outcome =>
    rw [stepTask_tally]
    split
    · rfl
    · split <;> exact (Store.pools_modifyPool ..).trans (if_neg h)
  | _ =>
    simp only [stepTask]
    repeat' split
    all_goals
      first
      | rfl
      | exact (Store.pools_modifyPool ..).trans (if_neg h)

theorem pools_stepShutdown_of_ne (h : q ≠ p) (phase : ShutdownPhase) :
    (stepShutdown choice s q phase).1.pools[p]? = s.pools[p]? := by
  cases phase with
  | release tasks => cases tasks <;> rfl
  | _ =>
    simp only [stepShutdown]
    repeat' split
    all_goals
      first
      | rfl
      | exact (Store.pools_modifyPool ..).trans (if_neg h)

/-- A pool stays as it is while others are at work elsewhere. -/
theorem pools_step_of_not_actsOn {f : Frame V J} (hf : f.Ok worker s) (hworker : ∀ w, worker ≠ some (p, w))
    (h : ¬ f.ActsOn p) : (f.step start worker choice s).1.pools[p]? = s.pools[p]? := by
  have other : ∀ {q} {g : Pool V J → Pool V J}, q ≠ p → (s.modifyPool q g).pools[p]? = s.pools[p]? := fun hq => by
    rw [Store.pools_modifyPool, if_neg hq]
  have home : ∀ {q t}, Party.On worker (.task q t) → q ≠ p := by
    rintro q t ⟨w, hw⟩ rfl
    exact hworker w hw
  cases f with
  | run r => rw [step, stepRun_pools]
  | pause r =>
    have hon : r.party.On worker := hf
    simp only [step, stepPause]
    split
    · rfl
    · rename_i q t hparty
      rw [hparty] at hon
      simp [Store.setStage, Store.modifyTask, Store.pools_modifyPool, home hon]
  | drop guards => cases guards <;> rfl
  | fill c value => simp only [step]; split <;> rfl
  | ended party outcome =>
    cases party with
    | outside => rfl
    | task q t => exact other (home (t := t) hf)
  | blocked c timed next => simp only [step]; split <;> rfl
  | spawn q job phase next =>
    cases phase <;> simp only [step, stepSpawn]
    all_goals repeat' split
    all_goals first | rfl | exact other h
  | wake party =>
    cases party <;> simp only [step, stepWake]
    all_goals repeat' split
    all_goals rfl
  | exchange q t seen target =>
    simp only [step, stepExchange]
    repeat' split
    all_goals first | rfl | exact other h
  | reschedule q t => simp only [step, stepReschedule]; split <;> rfl
  | task q t phase => exact pools_stepTask_of_ne h phase
  | count q change => exact other h
  | work seek =>
    obtain ⟨q, w, pool, rfl, -⟩ := hf
    rcases stepWork_pools choice s q w seek with heq | ⟨g, heq, -⟩
    · rw [step, heq]
    · rw [step, heq]
      exact other fun hq => hworker w (hq ▸ rfl)
  | shutdown q phase => exact pools_stepShutdown_of_ne h phase
  | _ => rfl

theorem door_stepTask (phase : TaskPhase) : (stepTask start worker s q t phase).1.door p = s.door p := by
  cases phase with
  | enter =>
    simp only [stepTask]
    split
    · rfl
    · have hqueued : ((s.setStage q t .consumed).modifyPool q fun pool => { pool with queued := pool.queued - 1 }).door p =
          (s.setStage q t .consumed).door p := Store.door_modifyPool fun _ => ⟨rfl, rfl⟩
      have hstage : (s.setStage q t .consumed).door p = s.door p := Store.door_modifyTask
      split
      · split <;> exact hqueued.trans hstage
      · exact hstage
      · exact hstage
  | tally outcome =>
    have htallied : (s.modifyPool q (tallied outcome)).door p = s.door p :=
      Store.door_modifyPool fun pool => by rw [tallied_eq]; exact ⟨rfl, rfl⟩
    rw [stepTask_tally]
    split
    · rfl
    · split <;> exact htallied
  | enqueue =>
    refine Store.door_modifyPool fun pool => ?_
    unfold enqueue
    split
    · split <;> (try split) <;> exact ⟨rfl, rfl⟩
    · exact ⟨rfl, rfl⟩
  | _ =>
    simp only [stepTask]
    repeat' split
    all_goals
      first
      | rfl
      | exact Store.door_modifyTask
      | exact Store.door_modifyPool fun _ => ⟨rfl, rfl⟩

theorem door_stepWork {w : Nat} {seek : Seek} (hloop : seek ≠ .loop) :
    (stepWork choice s q w seek).1.door p = s.door p := by
  cases seek with
  | loop => exact absurd rfl hloop
  | theft victims =>
    cases victims <;> simp only [stepWork]
    all_goals repeat' split
    all_goals first | rfl | exact Store.door_modifyPool fun _ => ⟨rfl, rfl⟩
  | _ =>
    simp only [stepWork]
    repeat' split
    all_goals first | rfl | exact Store.door_modifyPool fun _ => ⟨rfl, rfl⟩

/-- Apart from the step that closes it and from workers that end, nobody touches the door of a pool. -/
theorem door_step {f : Frame V J} (hclose : f ≠ .shutdown p .close) (hloop : f ≠ .work .loop) :
    (f.step start worker choice s).1.door p = s.door p := by
  have same : ∀ {q} {g : Pool V J → Pool V J},
      (∀ pool, (g pool).running = pool.running ∧ (g pool).stopped = pool.stopped) →
      (s.modifyPool q g).door p = s.door p := Store.door_modifyPool
  cases f with
  | run r => exact Store.door_of_pools_eq (stepRun_pools worker s r)
  | pause r =>
    simp only [step, stepPause]
    split
    · rfl
    · rename_i q t _
      have hstage : (s.setStage q t (.started r.guards r.body)).door p = s.door p := Store.door_modifyTask
      refine Eq.trans ?_ hstage
      exact Store.door_modifyPool fun _ => ⟨rfl, rfl⟩
  | drop guards => cases guards <;> rfl
  | fill c value => simp only [step]; split <;> rfl
  | ended party outcome =>
    cases party with
    | outside => rfl
    | task q t => exact same fun _ => ⟨rfl, rfl⟩
  | blocked c timed next => simp only [step]; split <;> rfl
  | spawn q job phase next =>
    cases phase <;> simp only [step, stepSpawn] <;> repeat' split
    all_goals first | rfl | exact same fun _ => ⟨rfl, rfl⟩
  | wake party =>
    cases party <;> simp only [step, stepWake]
    all_goals repeat' split
    all_goals rfl
  | exchange q t seen target =>
    simp only [step, stepExchange]
    repeat' split
    all_goals first | rfl | exact Store.door_modifyTask
  | reschedule q t => simp only [step, stepReschedule]; split <;> rfl
  | task q t phase => exact door_stepTask phase
  | count q change => exact same fun pool => by cases change <;> exact ⟨rfl, rfl⟩
  | work seek =>
    rcases worker with _ | ⟨q, w⟩
    · rfl
    · exact door_stepWork fun h => hloop (h ▸ rfl)
  | shutdown q phase =>
    cases phase with
    | close =>
      have hq : q ≠ p := fun h => hclose (h ▸ rfl)
      exact Store.door_modifyPool_of_ne hq
    | release tasks => cases tasks <;> rfl
    | _ =>
      simp only [step, stepShutdown]
      repeat' split
      all_goals first | rfl | exact same fun _ => ⟨rfl, rfl⟩
  | _ => rfl

/-- One for every worker of the pool that is on its way to the next task. -/
def workOf (p : PoolId) (worker : Option (PoolId × Nat)) : Frame V J → Nat
  | .work _ => if worker.map (·.1) = some p then 1 else 0
  | _ => 0

theorem workOf_of_ne {f : Frame V J} (h : ∀ seek, f ≠ .work seek) : f.workOf p worker = 0 := by
  cases f with
  | work seek => exact absurd rfl (h seek)
  | _ => rfl

/-- Nothing else brings a worker onto its way. -/
theorem ne_work_step {f g : Frame V J} (hf : ∀ seek, f ≠ .work seek) (hg : g ∈ (f.step start worker choice s).2)
    (seek : Seek) : g ≠ .work seek := by
  rintro rfl
  have hgives := gives_step start worker choice s f
  generalize (f.step start worker choice s).2 = fs at hgives hg
  cases hgives with
  | @run r =>
    obtain ⟨quiet, g, hfs, hquiet, hcarries⟩ := stepRun_frames worker s r
    rw [hfs] at hg
    rcases List.mem_append.1 hg with hg | hg
    · exact hquiet _ hg
    · exact (List.mem_singleton.1 hg ▸ hcarries : CarriesOn r (.work seek))
  | drop hfs => rcases hfs _ hg with ⟨_, _, h⟩ | ⟨_, h⟩ <;> cases h
  | fill => exact isQuiet_afterPut hg
  | discarded guards body => exact isQuiet_dropPending hg
  | seeks | finds => exact hf _ rfl
  | _ => simp at hg

/-- A worker stays on its way until it finds that its pool is closed. -/
theorem staff_stepWork {w : Nat} (seek : Seek) {pool : Pool V J} (hpool : s.pools[q]? = some pool) :
    ((stepWork choice s q w seek).1.door q = s.door q ∧
      ((stepWork choice s q w seek).2.map (workOf q (some (q, w)))).sum = 1) ∨
    (stepWork choice s q w seek).1.door q = some (pool.running, pool.stopped + 1) ∧
      (stepWork choice s q w seek).2 = [] := by
  cases seek with
  | loop =>
    simp only [stepWork]
    split
    · exact .inl ⟨rfl, by simp [workOf]⟩
    · exact .inr ⟨by simp [Store.door, Store.pools_modifyPool, hpool], rfl⟩
  | theft victims =>
    refine .inl ⟨door_stepWork (by simp), ?_⟩
    cases victims <;> simp only [stepWork, hpool]
    all_goals repeat' split
    all_goals simp [workOf]
  | own | shared =>
    refine .inl ⟨door_stepWork (by simp), ?_⟩
    simp only [stepWork, hpool]
    repeat' split
    all_goals simp [workOf]
  | keep first rest | idle => exact .inl ⟨door_stepWork (by simp), by simp [stepWork, workOf]⟩

/-- A step adds no pool. -/
theorem hasPool_of_step {f : Frame V J} {pool' : Pool V J}
    (h : (f.step start worker choice s).1.pools[p]? = some pool') : ∃ pool, s.pools[p]? = some pool := by
  refine Option.ne_none_iff_exists'.1 fun hnone => ?_
  have absent : ∀ {q} {g : Pool V J → Pool V J}, (s.modifyPool q g).pools[p]? ≠ some pool' := fun hsome => by
    rw [Store.pools_modifyPool, hnone] at hsome
    split at hsome <;> cases hsome
  by_cases hclose : f = .shutdown p .close
  · subst hclose
    exact absent h
  · by_cases hloop : f = .work .loop
    · subst hloop
      rcases worker with _ | ⟨q, w⟩
      · rw [step, hnone] at h
        cases h
      · rcases stepWork_pools choice s q w .loop with heq | ⟨g, heq, -⟩
        · rw [step, heq, hnone] at h
          cases h
        · rw [step, heq] at h
          exact absent h
    · have hdoor : (f.step start worker choice s).1.door p = s.door p := door_step hclose hloop
      rw [Store.door, Store.door, h, hnone] at hdoor
      cases hdoor

/-- A worker that is no longer on its way has ended. -/
theorem staff_step {f : Frame V J} (hf : f.Ok worker s) {pool pool' : Pool V J} (hpool : s.pools[p]? = some pool)
    (hpool' : (f.step start worker choice s).1.pools[p]? = some pool') :
    pool'.stopped + ((f.step start worker choice s).2.map (workOf p worker)).sum =
      pool.stopped + f.workOf p worker := by
  have hdoor : s.door p = some (pool.running, pool.stopped) := by rw [Store.door, hpool]; rfl
  have hdoor' : (f.step start worker choice s).1.door p = some (pool'.running, pool'.stopped) := by
    rw [Store.door, hpool']
    rfl
  have same : (f.step start worker choice s).1.door p = s.door p → pool'.stopped = pool.stopped := fun h => by
    rw [hdoor, hdoor'] at h
    exact (Prod.mk.inj (Option.some.inj h)).2
  by_cases hwork : ∃ seek, f = .work seek
  · obtain ⟨seek, rfl⟩ := hwork
    have hok := hf
    obtain ⟨q, w, _, rfl, -⟩ := hf
    by_cases hqp : q = p
    · subst hqp
      rw [show workOf q (some (q, w)) (.work seek : Frame V J) = 1 by simp [workOf]]
      rcases staff_stepWork  (w := w) seek hpool with ⟨hsame, hsum⟩ | ⟨hended, hfs⟩
      · rw [step, hsum, same hsame]
      · rw [step, hended] at hdoor'
        rw [step, hfs, ← (Prod.mk.inj (Option.some.inj hdoor')).2]
        rfl
    · have hother : ∀ g : Frame V J, g.workOf p (some (q, w)) = 0 := fun g => by cases g <;> simp [workOf, hqp]
      have hsum : (((work seek : Frame V J).step start (some (q, w)) choice s).2.map (workOf p (some (q, w)))).sum = 0 :=
        List.sum_eq_zero fun n hn => by
          obtain ⟨g, -, rfl⟩ := List.mem_map.1 hn
          exact hother g
      have hkept : ((work seek : Frame V J).step start (some (q, w)) choice s).1.pools[p]? = s.pools[p]? :=
        pools_step_of_not_actsOn hok (fun w' h => hqp (Prod.mk.inj (Option.some.inj h)).1) id
      rw [hpool', hpool] at hkept
      rw [hsum, hother, Option.some.inj hkept]
  · have hne : ∀ seek, f ≠ .work seek := fun seek h => hwork ⟨seek, h⟩
    have hsum : ((f.step start worker choice s).2.map (workOf p worker)).sum = 0 := List.sum_eq_zero fun n hn => by
      obtain ⟨g, hg, rfl⟩ := List.mem_map.1 hn
      exact workOf_of_ne (ne_work_step hne hg)
    rw [hsum, workOf_of_ne hne]
    by_cases hclose : f = .shutdown p .close
    · subst hclose
      simp only [step, stepShutdown, Store.pools_modifyPool, if_true, hpool, Option.map_some, Option.some.injEq] at hpool'
      rw [← hpool']
    · rw [same (door_step hclose (hne _))]

end Frame

namespace Machine

variable {start : J → Except RuntimeError (Body V J)} {m : Machine V J}

/-- The workers of every pool are on their way, have ended, or have a task below which they are on their way. -/
def Staffed (m : Machine V J) : Prop :=
  ∀ (p : PoolId) (pool : Pool V J), m.store.pools[p]? = some pool →
    pool.stopped + m.frameSum (Frame.workOf p) = pool.config.numWorkers

theorem Staffed.initial (n : Nat) : (withCells n : Machine V J).Staffed := by
  intro p pool hpool
  simp [withCells] at hpool

theorem Staffed.after (hm : m.Framed) (h : m.Staffed) (mv : Move V J) : (m.after start mv).Staffed := by
  intro p pool hpool
  have outside : ∀ {s : Store V J} {frames : List (Frame V J)}, s.pools = m.store.pools → s.pools[p]? = some pool →
      (∀ f ∈ frames, ∀ seek, f ≠ .work seek) →
      pool.stopped + (spawnThread ⟨s, m.threads⟩ frames).frameSum (Frame.workOf p) = pool.config.numWorkers := by
    intro s frames hs hpool hframes
    have hsum : (frames.map (Frame.workOf p none)).sum = 0 := List.sum_eq_zero fun n hn => by
      obtain ⟨f, hf, rfl⟩ := List.mem_map.1 hn
      exact Frame.workOf_of_ne (hframes f hf)
    rw [frameSum_spawnThread, hsum, add_zero]
    exact h p pool (hs ▸ hpool)
  cases mv with
  | step i choice =>
    rcases m.after_step start i choice with ⟨heq, -⟩ | ⟨worker, f, rest, hi, -, -, -, heq⟩
    · rw [heq] at hpool ⊢
      exact h p pool hpool
    · have hkeeps := m.after_keeps start (.step i choice)
      rw [heq] at hpool hkeeps ⊢
      obtain ⟨before, hbefore⟩ := Frame.hasPool_of_step hpool
      obtain ⟨_, hafter, -, hconfig, -⟩ := hkeeps p before hbefore
      rw [hpool] at hafter
      cases hafter
      have hok : f.Ok worker m.store := hm.frames i _ hi f (List.mem_cons_self ..)
      have hstaff := Frame.staff_step hok hbefore hpool
      obtain ⟨others, h1, h2⟩ := frameSum_set (Frame.workOf p) hi
      have hsum := h p before hbefore
      rw [h1] at hsum
      rw [h2, hconfig]
      omega
  | startPool config =>
    rcases m.after_startPool start config with heq | heq
    · rw [heq] at hpool ⊢
      exact h p pool hpool
    · rw [heq] at hpool ⊢
      have hsum : (m.addPool config).frameSum (Frame.workOf p) = m.frameSum (Frame.workOf p) +
          ((workers m.store.pools.size config.numWorkers : List (Thread V J)).map
            fun th => (th.stack.map (Frame.workOf p th.worker)).sum).sum := by
        simp [frameSum, addPool]
      have hnew : ((workers m.store.pools.size config.numWorkers : List (Thread V J)).map
          fun th => (th.stack.map (Frame.workOf p th.worker)).sum).sum =
            if m.store.pools.size = p then config.numWorkers else 0 := by
        simp [workers, Function.comp_def, Frame.workOf]
      rw [hsum, hnew]
      by_cases hp : m.store.pools.size = p
      · -- nobody was a worker of the pool before
        have hnone : m.frameSum (Frame.workOf p) = 0 := by
          refine frameSum_eq_zero (hm.frames.mono fun worker f hf => ?_)
          cases f with
          | work seek =>
            obtain ⟨q, w, pool', rfl, hq, -⟩ := hf
            have hlt := (Array.getElem?_eq_some_iff.1 hq).1
            have hne : q ≠ p := Nat.ne_of_lt (hp ▸ hlt)
            simp [Frame.workOf, hne]
          | _ => rfl
        simp only [addPool, Array.getElem?_push, hp, if_true, Option.some.injEq] at hpool
        rw [hnone, if_pos hp, ← hpool]
        simp [Pool.new]
      · rw [if_neg hp, add_zero]
        refine h p pool ?_
        simpa [addPool, Array.getElem?_push, Ne.symm hp] using hpool
  | enter body => exact outside rfl hpool (by simp)
  | poll =>
    simp only [Machine.after] at hpool ⊢
    split at hpool
    · exact outside rfl hpool (by simp)
    · exact h p pool hpool
  | discard =>
    simp only [Machine.after] at hpool ⊢
    split at hpool
    · refine outside rfl hpool fun f hf seek hseek => ?_
      exact (hseek ▸ Frame.isQuiet_dropPending hf : (Frame.work seek : Frame V J).IsQuiet)
    · exact h p pool hpool

theorem staffed_run (start : J → Except RuntimeError (Body V J)) (mvs : List (Move V J)) :
    (({} : Machine V J).run start mvs).Staffed :=
  (run_induction start (P := fun m => m.Framed ∧ m.Staffed) (fun _ mv ⟨hm, h⟩ => ⟨hm.after mv, h.after hm mv⟩)
    ⟨.initial 0, .initial 0⟩ mvs).2

end Machine
end Dataflow
