import Dataflow.Proofs.Balance
import Dataflow.Proofs.ExactlyOnce
import Dataflow.Proofs.Staffing

/-!
# What is charged against the bound of a pool

A pool charges every place that a spawn call has reserved, until a worker begins with the task that was made for it.
Three steps change what is charged or how many tasks there are (`Frame.Charges`): the reservation, the making of the
task, and the first entry; every other step leaves both alone (`Frame.charge_step`).

The steps that led to a machine tell it all (`Machine.Ledger`): what was reserved is what is still charged and what
was given back, and is also what is about to be made and what was made, under consecutive numbers. Nothing is taken
off a counter that is zero, as each task is begun once, and only after it was made; that is read off `Chronicle`. All
this holds of closed pools, too, for which the counters of `Balanced` say nothing.
-/

namespace Dataflow

variable {V J : Type}

/-! ### The charge -/

namespace Store

variable {s s' : Store V J} {p q : PoolId} {t : TaskId}

/-- What a pool charges against its bound, and how many tasks it has made. -/
def charge (s : Store V J) (p : PoolId) : Option (Nat × Nat) :=
  s.pools[p]?.map fun pool => (pool.queued, pool.tasks.size)

theorem charge_of_pool {pool : Pool V J} (h : s.pools[p]? = some pool) :
    s.charge p = some (pool.queued, pool.tasks.size) := by
  rw [charge, h]
  rfl

theorem charge_of_pools_eq (h : s'.pools = s.pools) : s'.charge p = s.charge p := by
  rw [charge, charge, h]

theorem charge_modifyPool {g : Pool V J → Pool V J}
    (hg : ∀ pool, (g pool).queued = pool.queued ∧ (g pool).tasks.size = pool.tasks.size) :
    (s.modifyPool q g).charge p = s.charge p := by
  unfold charge
  rw [pools_modifyPool]
  split
  · cases s.pools[p]? <;> simp [hg]
  · rfl

theorem charge_modifyPool_self {g : Pool V J → Pool V J} {pool : Pool V J} (h : s.pools[p]? = some pool) :
    (s.modifyPool p g).charge p = some ((g pool).queued, (g pool).tasks.size) := by
  apply charge_of_pool
  rw [pools_modifyPool, if_pos rfl, h]
  rfl

theorem charge_modifyPool_of_ne {g : Pool V J → Pool V J} (h : q ≠ p) : (s.modifyPool q g).charge p = s.charge p := by
  rw [charge, charge, pools_modifyPool, if_neg h]

theorem charge_modifyTask {g : Task V J → Task V J} : (s.modifyTask q t g).charge p = s.charge p :=
  charge_modifyPool fun _ => ⟨rfl, Array.size_modify ..⟩

end Store

namespace Frame

/-- The step may change what the pool charges, or make a task of it. -/
def Charges (p : PoolId) : Frame V J → Prop
  | .spawn q _ .reserve _ | .spawn q _ .number _ | .task q _ .enter => q = p
  | _ => False

variable {start : J → Except RuntimeError (Body V J)} {worker : Option (PoolId × Nat)} {choice : Nat}
  {s : Store V J} {p q : PoolId} {t : TaskId} {f : Frame V J}

theorem charge_stepTask {phase : TaskPhase} (h : ¬ (task q t phase : Frame V J).Charges p) :
    (stepTask start worker s q t phase).1.charge p = s.charge p := by
  cases phase with
  | enter =>
    unfold Store.charge
    rw [pools_stepTask_of_ne h]
  | tally outcome =>
    have htallied : (s.modifyPool q (tallied outcome)).charge p = s.charge p :=
      Store.charge_modifyPool fun pool => by rw [tallied_eq]; exact ⟨rfl, rfl⟩
    rw [stepTask_tally]
    split
    · rfl
    · split <;> exact htallied
  | enqueue =>
    refine Store.charge_modifyPool fun pool => ?_
    unfold enqueue
    split
    · split <;> (try split) <;> exact ⟨rfl, rfl⟩
    · exact ⟨rfl, rfl⟩
  | begin => exact Store.charge_modifyPool fun _ => ⟨rfl, rfl⟩
  | _ =>
    simp only [stepTask]
    repeat' split
    all_goals
      first
      | rfl
      | exact Store.charge_modifyTask

theorem charge_stepShutdown (phase : ShutdownPhase) : (stepShutdown choice s q phase).1.charge p = s.charge p := by
  cases phase with
  | release tasks => cases tasks <;> rfl
  | collect =>
    simp only [stepShutdown]
    split
    · rfl
    · exact Store.charge_modifyPool fun pool => ⟨rfl, by simp [Pool.clearRegistry]⟩
  | _ =>
    simp only [stepShutdown]
    repeat' split
    all_goals
      first
      | rfl
      | exact Store.charge_modifyPool fun _ => ⟨rfl, rfl⟩

/-- Apart from these steps, nothing changes what is charged. -/
theorem charge_step (h : ¬ f.Charges p) : (f.step start worker choice s).1.charge p = s.charge p := by
  cases f with
  | run r => exact Store.charge_of_pools_eq (stepRun_pools worker s r)
  | pause r =>
    simp only [step, stepPause]
    split
    · rfl
    · rename_i q t _
      have hstage : (s.setStage q t (.started r.guards r.body)).charge p = s.charge p := Store.charge_modifyTask
      refine Eq.trans ?_ hstage
      exact Store.charge_modifyPool fun _ => ⟨rfl, rfl⟩
  | drop guards => cases guards <;> rfl
  | fill c value =>
    simp only [step]
    split <;> rfl
  | ended party outcome =>
    cases party with
    | outside => rfl
    | task q t => exact Store.charge_modifyPool fun _ => ⟨rfl, rfl⟩
  | blocked c timed next =>
    simp only [step]
    split <;> rfl
  | spawn q job phase next =>
    cases phase with
    | check =>
      simp only [step, stepSpawn]
      split <;> rfl
    | reserve =>
      simp only [step, stepSpawn]
      split
      · rfl
      · split <;> exact Store.charge_modifyPool_of_ne h
    | number =>
      simp only [step, stepSpawn]
      split
      · rfl
      · exact Store.charge_modifyPool_of_ne h
  | wake party =>
    cases party with
    | outside => rfl
    | task q t =>
      simp only [step, stepWake]
      repeat' split
      all_goals rfl
  | exchange q t seen target =>
    simp only [step, stepExchange]
    repeat' split
    all_goals first | rfl | exact Store.charge_modifyTask
  | reschedule q t =>
    simp only [step, stepReschedule]
    split <;> rfl
  | task q t phase => exact charge_stepTask h
  | count q change => exact Store.charge_modifyPool fun pool => by cases change <;> exact ⟨rfl, rfl⟩
  | work seek =>
    rcases worker with _ | ⟨q, w⟩
    · rfl
    · cases seek with
      | theft victims =>
        cases victims <;> simp only [step, stepWork]
        all_goals repeat' split
        all_goals first | rfl | exact Store.charge_modifyPool fun _ => ⟨rfl, rfl⟩
      | _ =>
        simp only [step, stepWork]
        repeat' split
        all_goals first | rfl | exact Store.charge_modifyPool fun _ => ⟨rfl, rfl⟩
  | shutdown q phase => exact charge_stepShutdown phase
  | withdraw | signal | waitIdle => rfl

section spawn

variable {job : J} {next : Except RuntimeError TaskId → Run V J} {pool : Pool V J}

theorem step_check (h : s.Running p) :
    (Frame.spawn p job .check next).step start worker choice s = (s, [.spawn p job .reserve next]) := by
  simp only [step, stepSpawn]
  rw [if_pos ((s.running_iff p).1 h)]

theorem step_check_of_closed (h : ¬ s.Running p) :
    (Frame.spawn p job .check next).step start worker choice s = (s, [.run (next (.error .poolShutDown))]) := by
  simp only [step, stepSpawn]
  rw [if_neg (mt (s.running_iff p).2 h)]

theorem step_reserve (hpool : s.pools[p]? = some pool)
    (hfree : pool.config.maxQueueSize = 0 ∨ pool.queued < pool.config.maxQueueSize) :
    (Frame.spawn p job .reserve next).step start worker choice s =
      (s.modifyPool p fun pool => { pool with queued := pool.queued + 1 }, [.spawn p job .number next]) := by
  simp only [step, stepSpawn, hpool]
  rw [if_neg (by omega)]

theorem step_reserve_of_full (hpool : s.pools[p]? = some pool) (hpos : 0 < pool.config.maxQueueSize)
    (hfull : pool.config.maxQueueSize ≤ pool.queued) :
    (Frame.spawn p job .reserve next).step start worker choice s =
      (s.modifyPool p fun pool => { pool with stats.rejected := pool.stats.rejected + 1 },
        [.run (next (.error (.spawnBackpressure pool.config.maxQueueSize)))]) := by
  simp only [step, stepSpawn, hpool]
  rw [if_pos (by omega)]

theorem step_number (hpool : s.pools[p]? = some pool) :
    (Frame.spawn p job .number next).step start worker choice s =
      (s.modifyPool p fun pool => { pool with tasks := pool.tasks.push { stage := .unclaimed job } },
        [.count p .activeUp, .count p .liveUp, .task p pool.tasks.size .register, .count p .spawned,
          .task p pool.tasks.size .enqueue, .run (next (.ok pool.tasks.size))]) := by
  simp only [step, stepSpawn, hpool]

end spawn

/-- One for a place that a spawn call has reserved and made no task for yet. -/
def reserves (p : PoolId) : Frame V J → Nat
  | .spawn q _ .number _ => if q = p then 1 else 0
  | _ => 0

theorem IsQuiet.reserves_eq_zero (h : f.IsQuiet) : f.reserves p = 0 := by
  cases f <;> first | rfl | exact h.elim

theorem CarriesOn.reserves_eq_zero {r : Run V J} (h : f.CarriesOn r) : f.reserves p = 0 := by
  cases f with
  | spawn q job phase next =>
    obtain rfl : phase = .check := h.1
    rfl
  | _ => rfl

/-- Only a reservation gives a frame with a reserved place. -/
theorem reserves_step (hf : ∀ job next, f ≠ .spawn p job .reserve next) :
    ((f.step start worker choice s).2.map (reserves p)).sum = 0 := by
  have hgives := gives_step start worker choice s f
  generalize (f.step start worker choice s).2 = fs at hgives
  refine List.sum_eq_zero fun n hn => ?_
  obtain ⟨g, hg, rfl⟩ := List.mem_map.1 hn
  cases hgives with
  | @run r =>
    obtain ⟨quiet, g', hfs, hquiet, hcarries⟩ := stepRun_frames worker s r
    rw [hfs] at hg
    rcases List.mem_append.1 hg with hg | hg
    · exact (hquiet g hg).reserves_eq_zero
    · rw [List.mem_singleton.1 hg]
      exact hcarries.reserves_eq_zero
  | drop hfs => rcases hfs g hg with ⟨_, _, rfl⟩ | ⟨_, rfl⟩ <;> rfl
  | fill => exact (isQuiet_afterPut hg).reserves_eq_zero
  | discarded guards body => exact (isQuiet_dropPending hg).reserves_eq_zero
  | @reserved q _ job next =>
    have hq : q ≠ p := by
      rintro rfl
      exact hf job next rfl
    rw [List.mem_singleton.1 hg]
    exact if_neg hq
  | joined n =>
    rcases List.mem_append.1 hg with hg | hg
    · obtain ⟨w, -, rfl⟩ := List.mem_map.1 hg
      rfl
    · revert hg
      simp +contextual [or_imp, reserves]
  | _ =>
    revert hg
    simp +contextual [or_imp, reserves]

end Frame

/-! ### Steps that were taken -/

namespace Taken

variable (p : PoolId) (e : Taken V J)

/-- The step reserves a place for a task of the pool. -/
def accepts : Bool :=
  match e.frame, e.store.pools[p]? with
  | .spawn q _ .reserve _, some pool =>
    q = p && (pool.config.maxQueueSize = 0 || pool.queued < pool.config.maxQueueSize)
  | _, _ => false

/-- The number of the task of the pool that the step makes. -/
def made? : Option TaskId :=
  match e.frame, e.store.pools[p]? with
  | .spawn q _ .number _, some pool => if q = p then some pool.tasks.size else none
  | _, _ => none

/-- The task of the pool with which the step begins. -/
def begun? : Option TaskId :=
  match e.frame with
  | .task q t .enter => if q = p ∧ (e.store.task? p t).any (·.stage.isUnclaimed) then some t else none
  | _ => none

variable {p} {t : TaskId} {e}

theorem accepts_of_not_charges (h : ¬ e.frame.Charges p) : e.accepts p = false := by
  unfold accepts
  split
  · rename_i q job next pool hf hpool
    rw [hf] at h
    simp [show q ≠ p from h]
  · rfl

theorem made?_of_not_charges (h : ¬ e.frame.Charges p) : e.made? p = none := by
  unfold made?
  split
  · rename_i q job next pool hf hpool
    rw [hf] at h
    rw [if_neg (show q ≠ p from h)]
  · rfl

theorem begun?_of_not_charges (h : ¬ e.frame.Charges p) : e.begun? p = none := by
  unfold begun?
  split
  · rename_i q t hf
    rw [hf] at h
    rw [if_neg (fun hq => h hq.1)]
  · rfl

theorem begun?_eq_some_iff : e.begun? p = some t ↔ ∃ job, e.Starts p t job := by
  constructor
  · intro h
    unfold begun? at h
    split at h
    · rename_i q u hf
      split at h
      · rename_i hq
        obtain ⟨rfl, hany⟩ := hq
        cases h
        obtain ⟨y, hy, hstage⟩ := (Option.any_eq_true ..).1 hany
        cases hjob : y.stage with
        | unclaimed job => exact ⟨job, hf, y, hy, hjob⟩
        | _ =>
          rw [hjob] at hstage
          cases hstage
      · cases h
    · cases h
  · rintro ⟨job, hf, y, hy, hstage⟩
    unfold begun?
    rw [hf]
    simp [hy, hstage]

theorem accepts_reserve {i : Nat} {worker : Option (PoolId × Nat)} {job : J}
    {next : Except RuntimeError TaskId → Run V J} {s : Store V J} {pool : Pool V J} (hpool : s.pools[p]? = some pool) :
    (⟨i, worker, .spawn p job .reserve next, s⟩ : Taken V J).accepts p = true ↔
      pool.config.maxQueueSize = 0 ∨ pool.queued < pool.config.maxQueueSize := by
  simp [accepts, hpool]

variable {start : J → Except RuntimeError (Body V J)} {choice : Nat} {pool : Pool V J}

/-- A spawn call charges a place, and makes the task for it. -/
theorem charge_stepSpawn {i : Nat} {worker : Option (PoolId × Nat)} {job : J} (phase : SpawnPhase)
    {next : Except RuntimeError TaskId → Run V J} {s : Store V J} (hpool : s.pools[p]? = some pool)
    (he : e = ⟨i, worker, .spawn p job phase next, s⟩) :
    (e.frame.step start e.worker choice e.store).1.charge p =
      some (pool.queued + (if e.accepts p then 1 else 0), pool.tasks.size + (e.made? p).toList.length) ∧
    ((e.frame.step start e.worker choice e.store).2.map (Frame.reserves p)).sum = if e.accepts p then 1 else 0 := by
  have hcharge := Store.charge_of_pool hpool
  cases phase with
  | check =>
    have hidle : e.accepts p = false ∧ e.made? p = none := by
      rw [he]
      exact ⟨rfl, rfl⟩
    rw [hidle.1, hidle.2, he]
    by_cases hrunning : s.Running p
    · rw [Frame.step_check hrunning]
      exact ⟨hcharge, rfl⟩
    · rw [Frame.step_check_of_closed hrunning]
      exact ⟨hcharge, rfl⟩
  | reserve =>
    have hmade : e.made? p = none := by
      rw [he]
      rfl
    rw [hmade]
    by_cases hfree : pool.config.maxQueueSize = 0 ∨ pool.queued < pool.config.maxQueueSize
    · have haccepts : e.accepts p = true := by
        rw [he]
        exact (accepts_reserve hpool).2 hfree
      rw [if_pos haccepts, he, Frame.step_reserve hpool hfree]
      exact ⟨Store.charge_modifyPool_self hpool, by simp [Frame.reserves]⟩
    · have haccepts : ¬ e.accepts p = true := by
        rw [he]
        exact mt (accepts_reserve hpool).1 hfree
      have hrefused : (s.modifyPool p fun pool =>
          { pool with stats.rejected := pool.stats.rejected + 1 }).charge p = s.charge p :=
        Store.charge_modifyPool fun _ => ⟨rfl, rfl⟩
      rw [if_neg haccepts, he, Frame.step_reserve_of_full hpool (by omega) (by omega)]
      exact ⟨hrefused.trans hcharge, rfl⟩
  | number =>
    have hmade : e.accepts p = false ∧ e.made? p = some pool.tasks.size := by
      rw [he]
      exact ⟨rfl, by simp [made?, hpool]⟩
    have hpushed : (s.modifyPool p fun pool =>
        { pool with tasks := pool.tasks.push { stage := .unclaimed job } }).charge p =
          some (pool.queued, pool.tasks.size + 1) := by
      rw [Store.charge_modifyPool_self hpool, Array.size_push]
    rw [hmade.1, hmade.2, he, Frame.step_number hpool]
    exact ⟨hpushed, by simp [Frame.reserves]⟩

/-- Whoever begins with a task gives its place back. -/
theorem charge_step_enter {i : Nat} {worker : Option (PoolId × Nat)} {s : Store V J} (hpool : s.pools[p]? = some pool)
    (he : e = ⟨i, worker, .task p t .enter, s⟩) :
    (e.frame.step start e.worker choice e.store).1.charge p =
      some (pool.queued - (e.begun? p).toList.length, pool.tasks.size) := by
  have hcharge := Store.charge_of_pool hpool
  have hstage : (s.setStage p t .consumed).charge p = some (pool.queued, pool.tasks.size) :=
    Store.charge_modifyTask.trans hcharge
  have hgiven : ((s.setStage p t .consumed).modifyPool p fun pool =>
      { pool with queued := pool.queued - 1 }).charge p = some (pool.queued - 1, pool.tasks.size) := by
    unfold Store.charge at hstage ⊢
    rw [Store.pools_modifyPool, if_pos rfl]
    cases hx : (s.setStage p t .consumed).pools[p]? with
    | none =>
      rw [hx] at hstage
      cases hstage
    | some pool' =>
      rw [hx] at hstage
      simp only [Option.map_some, Option.some.injEq, Prod.mk.injEq] at hstage ⊢
      omega
  rw [he]
  show (Frame.stepTask start worker s p t .enter).1.charge p = _
  cases hy : s.task? p t with
  | none =>
    have hbegun : begun? p (⟨i, worker, .task p t .enter, s⟩ : Taken V J) = none := by simp [begun?, hy]
    rw [hbegun]
    simp only [Frame.stepTask, hy]
    exact hcharge
  | some y =>
    cases hjob : y.stage with
    | unclaimed job =>
      have hbegun : begun? p (⟨i, worker, .task p t .enter, s⟩ : Taken V J) = some t := by simp [begun?, hy, hjob]
      rw [hbegun]
      simp only [Frame.stepTask, hy, hjob]
      split <;> exact hgiven
    | _ =>
      have hbegun : begun? p (⟨i, worker, .task p t .enter, s⟩ : Taken V J) = none := by simp [begun?, hy, hjob]
      rw [hbegun]
      simp only [Frame.stepTask, hy, hjob]
      exact hstage

/-- What a step does to what is charged. -/
theorem charge_step (start : J → Except RuntimeError (Body V J)) (choice : Nat)
    (hpool : e.store.pools[p]? = some pool) :
    (e.frame.step start e.worker choice e.store).1.charge p =
      some (pool.queued + (if e.accepts p then 1 else 0) - (e.begun? p).toList.length,
        pool.tasks.size + (e.made? p).toList.length) ∧
    ((e.frame.step start e.worker choice e.store).2.map (Frame.reserves p)).sum = if e.accepts p then 1 else 0 := by
  have hcharge := Store.charge_of_pool hpool
  by_cases hf : e.frame.Charges p
  · obtain ⟨i, worker, f, s⟩ := e
    cases f with
    | spawn q job phase next =>
      obtain rfl : q = p := by cases phase <;> first | exact hf | exact hf.elim
      exact charge_stepSpawn phase hpool rfl
    | task q t phase =>
      cases phase with
      | enter =>
        obtain rfl : q = p := hf
        exact ⟨charge_step_enter hpool rfl, Frame.reserves_step nofun⟩
      | _ => exact hf.elim
    | _ => exact hf.elim
  · rw [accepts_of_not_charges hf, made?_of_not_charges hf, begun?_of_not_charges hf]
    refine ⟨(Frame.charge_step hf).trans hcharge, Frame.reserves_step fun job next hframe => hf ?_⟩
    rw [hframe]
    rfl

theorem length_made? (hpool : e.store.pools[p]? = some pool) : (e.made? p).toList.length = e.frame.reserves p := by
  obtain ⟨i, worker, f, s⟩ := e
  unfold made?
  cases f with
  | spawn q job phase next =>
    cases phase with
    | number =>
      simp only [hpool, Frame.reserves]
      split <;> rfl
    | _ => rfl
  | _ => rfl

theorem eq_size_of_made? (hpool : e.store.pools[p]? = some pool) (h : e.made? p = some t) : t = pool.tasks.size := by
  unfold made? at h
  rw [hpool] at h
  split at h
  · rename_i hfound
    cases hfound
    split at h
    · cases h
      rfl
    · cases h
  · cases h

theorem free_of_accepts (hpool : e.store.pools[p]? = some pool) (h : e.accepts p = true) :
    pool.config.maxQueueSize = 0 ∨ pool.queued < pool.config.maxQueueSize := by
  unfold accepts at h
  rw [hpool] at h
  split at h
  · rename_i hfound
    cases hfound
    simp only [Bool.and_eq_true, Bool.or_eq_true, decide_eq_true_eq] at h
    exact h.2
  · cases h

/-- Nothing is charged for a pool that was not started. -/
theorem idle_of_no_pool (start : J → Except RuntimeError (Body V J)) (choice : Nat)
    (hnone : e.store.pools[p]? = none) :
    e.accepts p = false ∧ e.made? p = none ∧ e.begun? p = none ∧
      ((e.frame.step start e.worker choice e.store).2.map (Frame.reserves p)).sum = 0 := by
  have htask : ∀ t, e.store.task? p t = none := by
    intro t
    rw [Store.task?_eq, hnone]
    rfl
  refine ⟨?_, ?_, ?_, ?_⟩
  · unfold accepts
    rw [hnone]
    split
    · rename_i h
      cases h
    · rfl
  · unfold made?
    rw [hnone]
    split
    · rename_i h
      cases h
    · rfl
  · unfold begun?
    split
    · simp [htask]
    · rfl
  · by_cases hreserve : ∃ job next, e.frame = .spawn p job .reserve next
    · obtain ⟨job, next, hframe⟩ := hreserve
      simp [hframe, Frame.step, Frame.stepSpawn, hnone, Frame.reserves]
    · exact Frame.reserves_step fun job next h => hreserve ⟨job, next, h⟩

end Taken

namespace Machine

variable {start : J → Except RuntimeError (Body V J)} {m : Machine V J} {p : PoolId} {t : TaskId}
  {tr : List (Taken V J)}

/-! ### Who was begun with -/

theorem chronicle_run (start : J → Except RuntimeError (Body V J)) (mvs : List (Move V J)) (p : PoolId) (t : TaskId) :
    Chronicle p t (({} : Machine V J).run start mvs) (({} : Machine V J).trace start mvs) :=
  (trace_induction start (P := fun m tr => m.Scheduled ∧ Chronicle p t m tr)
    (fun _ _ mv ⟨hm, h⟩ => ⟨hm.after mv, h.after hm mv⟩) ⟨.initial 0, .initial⟩ mvs).2

/-- Every task is begun once. -/
theorem nodup_begun (h : ∀ t, Chronicle p t m tr) : (tr.filterMap (·.begun? p)).Nodup := by
  refine List.pairwise_filterMap.2 ?_
  have hpair : tr.Pairwise fun e e' => ∀ t job job', e.Starts p t job → ¬ e'.Starts p t job' := by
    rw [List.pairwise_iff_forall_sublist]
    intro e e' hsub t
    exact (List.pairwise_iff_forall_sublist.1 (h t).once) hsub
  refine hpair.imp ?_
  rintro e e' hstarts t ht t' ht' rfl
  obtain ⟨job, hjob⟩ := Taken.begun?_eq_some_iff.1 ht
  obtain ⟨job', hjob'⟩ := Taken.begun?_eq_some_iff.1 ht'
  exact hstarts t job job' hjob hjob'

theorem isClaimed_of_mem_begun (h : ∀ t, Chronicle p t m tr) (ht : t ∈ tr.filterMap (·.begun? p)) :
    IsClaimed (m.store.task? p t) := by
  obtain ⟨e, he, hbegun⟩ := List.mem_filterMap.1 ht
  obtain ⟨job, hjob⟩ := Taken.begun?_eq_some_iff.1 hbegun
  exact (h t).claimed e he job hjob

/-- If a task was not begun yet, fewer tasks were than there are. -/
theorem length_begun_lt (h : ∀ t, Chronicle p t m tr) {pool : Pool V J} (hpool : m.store.pools[p]? = some pool)
    {y : Task V J} (hy : m.store.task? p t = some y) (hstage : y.stage.isUnclaimed = true) :
    (tr.filterMap (·.begun? p)).length < pool.tasks.size := by
  have lt_size : ∀ {u : TaskId} {z : Task V J}, m.store.task? p u = some z → u < pool.tasks.size := by
    intro u z hz
    rw [Store.task?_eq, hpool] at hz
    exact (Array.getElem?_eq_some_iff.1 hz).1
  have hnew : t ∉ tr.filterMap (·.begun? p) := by
    intro ht
    obtain ⟨z, hz, hclaimed⟩ := isClaimed_of_mem_begun h ht
    rw [hy] at hz
    cases hz
    cases hjob : y.stage with
    | unclaimed job => exact hclaimed job hjob
    | _ =>
      rw [hjob] at hstage
      cases hstage
  -- together with this task they are different tasks of the pool
  have hsub : t :: tr.filterMap (·.begun? p) ⊆ List.range pool.tasks.size := by
    intro u hu
    rw [List.mem_range]
    rcases List.mem_cons.1 hu with rfl | hu
    · exact lt_size hy
    · obtain ⟨z, hz, -⟩ := isClaimed_of_mem_begun h hu
      exact lt_size hz
  have hle := (List.nodup_cons.2 ⟨hnew, nodup_begun h⟩).subperm hsub |>.length_le
  rw [List.length_cons, List.length_range] at hle
  exact hle

/-! ### The ledger -/

/-- The places that spawn calls have reserved and made no task for yet. -/
def reserved (m : Machine V J) (p : PoolId) : Nat := m.frameSum fun _ f => f.reserves p

/-- What the steps so far tell of what a pool charges. -/
structure Ledger (p : PoolId) (pool : Pool V J) (m : Machine V J) (tr : List (Taken V J)) : Prop where
  charged : pool.queued + (tr.filterMap (·.begun? p)).length = tr.countP (·.accepts p)
  accepted : m.reserved p + pool.tasks.size = tr.countP (·.accepts p)
  made : tr.filterMap (·.made? p) = List.range pool.tasks.size
  bounded : 0 < pool.config.maxQueueSize → pool.queued ≤ pool.config.maxQueueSize

/-- Nothing has to do with the pool yet. -/
structure Unheard (p : PoolId) (m : Machine V J) (tr : List (Taken V J)) : Prop where
  accepted : tr.countP (·.accepts p) = 0
  made : tr.filterMap (·.made? p) = []
  begun : tr.filterMap (·.begun? p) = []
  reserved : m.reserved p = 0

/-- The ledgers of all pools are right. -/
structure Kept (m : Machine V J) (tr : List (Taken V J)) : Prop where
  ledger : ∀ p pool, m.store.pools[p]? = some pool → Ledger p pool m tr
  unheard : ∀ p, m.store.pools[p]? = none → Unheard p m tr

theorem Unheard.ledger (h : Unheard p m tr) (config : PoolConfig) : Ledger p (.new config) m tr := by
  constructor
  case charged =>
    rw [h.accepted, h.begun]
    rfl
  case accepted =>
    rw [h.accepted, h.reserved]
    rfl
  case made =>
    rw [h.made]
    rfl
  case bounded => exact fun _ => Nat.zero_le _

/-- A step is entered into the ledger. -/
theorem Ledger.step {pool pool' : Pool V J} (h : Ledger p pool m tr) (hchron : ∀ t, Chronicle p t m tr)
    (hpool : m.store.pools[p]? = some pool) {mv : Move V J} {e : Taken V J} (htaken : m.taken mv = some e)
    (hpool' : (m.after start mv).store.pools[p]? = some pool') :
    Ledger p pool' (m.after start mv) (tr ++ [e]) := by
  obtain ⟨choice, rest, -, hstore, hi, heq⟩ := after_of_taken start htaken
  have hfound : e.store.pools[p]? = some pool := by rw [hstore, hpool]
  obtain ⟨hcharge, hreserves⟩ := Taken.charge_step start choice hfound
  have hmade := Taken.length_made? hfound
  rw [heq] at hpool'
  rw [hstore, Store.charge_of_pool hpool'] at hcharge
  simp only [Option.some.injEq, Prod.mk.injEq] at hcharge
  obtain ⟨hqueued, hsize⟩ := hcharge
  have hconfig : pool'.config = pool.config := by
    obtain ⟨pool'', hpool'', -, hconfig, -⟩ := Frame.step_keeps start e.worker choice m.store e.frame p pool hpool
    rw [hpool'] at hpool''
    cases hpool''
    exact hconfig
  obtain ⟨others, hbefore, hafter⟩ := frameSum_set (fun _ f => f.reserves p) hi
  have hreserved : m.reserved p = e.frame.reserves p + others := hbefore
  have hreserved' : (m.after start mv).reserved p = (if e.accepts p then 1 else 0) + others := by
    rw [heq, reserved, hafter, ← hstore, hreserves]
  have hcount : (tr ++ [e]).countP (·.accepts p) = tr.countP (·.accepts p) + if e.accepts p then 1 else 0 := by
    rw [List.countP_append, List.countP_singleton]
  have hbegun : (tr ++ [e]).filterMap (·.begun? p) = tr.filterMap (·.begun? p) ++ (e.begun? p).toList := by
    rw [List.filterMap_append]
    cases hb : e.begun? p <;> simp [hb]
  have hnumbers : (tr ++ [e]).filterMap (·.made? p) = tr.filterMap (·.made? p) ++ (e.made? p).toList := by
    rw [List.filterMap_append]
    cases hm : e.made? p <;> simp [hm]
  -- whoever begins with a task finds its place charged
  have hpaid : (e.begun? p).toList.length ≤ pool.queued := by
    cases hb : e.begun? p with
    | none => exact Nat.zero_le _
    | some t =>
      obtain ⟨job, -, y, hy, hjob⟩ := Taken.begun?_eq_some_iff.1 hb
      rw [hstore] at hy
      have hlt := length_begun_lt hchron hpool hy (by rw [hjob]; rfl)
      have hcharged := h.charged
      have haccepted := h.accepted
      rw [Option.toList_some, List.length_singleton]
      omega
  constructor
  case charged =>
    rw [hcount, hbegun, List.length_append, hqueued, ← h.charged]
    omega
  case accepted =>
    rw [hcount, hreserved', hsize, hmade, ← h.accepted, hreserved]
    omega
  case made =>
    rw [hnumbers, hsize, h.made]
    cases hm : e.made? p with
    | none => exact List.append_nil _
    | some t =>
      rw [Taken.eq_size_of_made? hfound hm]
      exact List.range_succ.symm
  case bounded =>
    intro hpos
    rw [hconfig] at hpos ⊢
    have hbound := h.bounded hpos
    rw [hqueued]
    by_cases ha : e.accepts p = true
    · have hfree := Taken.free_of_accepts hfound ha
      rw [if_pos ha]
      omega
    · rw [if_neg ha]
      omega

theorem Unheard.step (h : Unheard p m tr) (hnone : m.store.pools[p]? = none) {mv : Move V J} {e : Taken V J}
    (htaken : m.taken mv = some e) : Unheard p (m.after start mv) (tr ++ [e]) := by
  obtain ⟨choice, rest, -, hstore, hi, heq⟩ := after_of_taken start htaken
  have hnone' : e.store.pools[p]? = none := by rw [hstore, hnone]
  obtain ⟨haccepts, hmade, hbegun, hreserves⟩ := Taken.idle_of_no_pool start choice hnone'
  obtain ⟨others, hbefore, hafter⟩ := frameSum_set (fun _ f => f.reserves p) hi
  have hsum : m.reserved p = e.frame.reserves p + others := hbefore
  have hzero := h.reserved
  constructor
  case accepted => rw [List.countP_append, h.accepted, List.countP_singleton, haccepts]; rfl
  case made => simp [h.made, hmade]
  case begun => simp [h.begun, hbegun]
  case reserved =>
    rw [heq, Machine.reserved, hafter, ← hstore, hreserves]
    omega

theorem reserved_spawnThread {frames : List (Frame V J)} (hframes : ∀ f ∈ frames, f.reserves p = 0) :
    (m.spawnThread frames).reserved p = m.reserved p := by
  have hsum : (frames.map (Frame.reserves p)).sum = 0 := by
    refine List.sum_eq_zero fun n hn => ?_
    obtain ⟨f, hf, rfl⟩ := List.mem_map.1 hn
    exact hframes f hf
  have h := frameSum_spawnThread (fun _ f => f.reserves p) m frames
  rw [hsum, add_zero] at h
  exact h

theorem reserved_addPool (config : PoolConfig) : (m.addPool config).reserved p = m.reserved p :=
  frameSum_addPool (fun _ => rfl) m config

/-- Moves that are no steps leave the ledgers alone, but for the one of a new pool. -/
theorem Kept.of_pools_eq {m' : Machine V J} (h : m.Kept tr) (hpools : m'.store.pools = m.store.pools)
    (hreserved : ∀ p, m'.reserved p = m.reserved p) : m'.Kept tr := by
  constructor
  case ledger =>
    intro p pool hpool
    rw [hpools] at hpool
    obtain ⟨hcharged, haccepted, hmade, hbounded⟩ := h.ledger p pool hpool
    exact ⟨hcharged, by rw [hreserved, haccepted], hmade, hbounded⟩
  case unheard =>
    intro p hnone
    rw [hpools] at hnone
    obtain ⟨haccepted, hmade, hbegun, hzero⟩ := h.unheard p hnone
    exact ⟨haccepted, hmade, hbegun, by rw [hreserved, hzero]⟩

theorem Kept.addPool (h : m.Kept tr) (config : PoolConfig) : (m.addPool config).Kept tr := by
  have hget : ∀ p, (m.addPool config).store.pools[p]? =
      if p = m.store.pools.size then some (.new config) else m.store.pools[p]? := fun p => by
    simp [Machine.addPool, Array.getElem?_push]
  constructor
  case ledger =>
    intro p pool hpool
    rw [hget] at hpool
    split at hpool
    · rename_i hp
      cases hpool
      have hnew : Unheard p m tr := h.unheard p (by simp [hp])
      obtain ⟨hcharged, haccepted, hmade, hbounded⟩ := hnew.ledger config
      exact ⟨hcharged, by rw [reserved_addPool, haccepted], hmade, hbounded⟩
    · obtain ⟨hcharged, haccepted, hmade, hbounded⟩ := h.ledger p pool hpool
      exact ⟨hcharged, by rw [reserved_addPool, haccepted], hmade, hbounded⟩
  case unheard =>
    intro p hnone
    rw [hget] at hnone
    split at hnone
    · cases hnone
    · obtain ⟨haccepted, hmade, hbegun, hzero⟩ := h.unheard p hnone
      exact ⟨haccepted, hmade, hbegun, by rw [reserved_addPool, hzero]⟩

theorem Kept.step (h : m.Kept tr) (hchron : ∀ p t, Chronicle p t m tr) {mv : Move V J} {e : Taken V J}
    (htaken : m.taken mv = some e) : (m.after start mv).Kept (tr ++ [e]) := by
  constructor
  case ledger =>
    intro p pool' hpool'
    obtain ⟨choice, rest, -, -, -, heq⟩ := after_of_taken start htaken
    -- no step makes a pool, so it was there
    obtain ⟨pool, hpool⟩ : ∃ pool, m.store.pools[p]? = some pool := by
      rw [heq] at hpool'
      exact Frame.hasPool_of_step hpool'
    exact (h.ledger p pool hpool).step (hchron p) hpool htaken hpool'
  case unheard =>
    intro p hnone'
    have hnone : m.store.pools[p]? = none := by
      refine Option.eq_none_iff_forall_ne_some.2 fun pool hpool => ?_
      obtain ⟨pool', hpool', -⟩ := m.after_keeps start mv p pool hpool
      rw [hnone'] at hpool'
      cases hpool'
    exact (h.unheard p hnone).step hnone htaken

theorem Kept.after (h : m.Kept tr) (hchron : ∀ p t, Chronicle p t m tr) (mv : Move V J) :
    (m.after start mv).Kept (tr ++ (m.taken mv).toList) := by
  cases htaken : m.taken mv with
  | some e => exact h.step hchron htaken
  | none =>
    rw [Option.toList_none, List.append_nil]
    have harrival := arrival_of_not_taken start htaken
    generalize m.after start mv = m' at harrival ⊢
    cases harrival with
    | nobody => exact h
    | workers config => exact h.addPool config
    | outsider hpools hframes =>
      refine h.of_pools_eq hpools fun p => reserved_spawnThread fun f hf => ?_
      rcases hframes f hf with hquiet | ⟨r, rfl⟩
      · exact hquiet.reserves_eq_zero
      · rfl

theorem kept_run (start : J → Except RuntimeError (Body V J)) (mvs : List (Move V J)) :
    (({} : Machine V J).run start mvs).Kept (({} : Machine V J).trace start mvs) := by
  have hinitial : ({} : Machine V J).Kept [] := by
    constructor
    case ledger =>
      intro p pool hpool
      simp at hpool
    case unheard =>
      intro p hnone
      exact ⟨rfl, rfl, rfl, by simp [reserved, frameSum]⟩
  refine (trace_induction start (P := fun m tr => m.Scheduled ∧ (∀ p t, Chronicle p t m tr) ∧ m.Kept tr) ?_
    ⟨.initial 0, fun _ _ => .initial, hinitial⟩ mvs).2.2
  rintro m tr mv ⟨hm, hchron, h⟩
  exact ⟨hm.after mv, fun p t => (hchron p t).after hm mv, h.after hchron mv⟩

end Machine
end Dataflow
