import Dataflow.Proofs.Charges
import Dataflow.Proofs.Counters

/-!
# Admission

A pool with a bound never has more accepted tasks that nobody has claimed than that (`Machine.admission_run`), however
many threads spawn and whatever the workers do meanwhile. A task counts from the step in which a spawn call reserves
its place, before it is made. Its place is given back when its worker takes the stage, so until then a worker that
has claimed a task leaves it charged; no task is begun that was not claimed before (`Machine.Heralded`).

A spawn call that nobody interrupts takes one step if the pool is closed, two if it is full, and eight if the task is
accepted. It is answered by what the pool charges then, which is exact as long as the pool is running.
-/

namespace Dataflow

variable {V J : Type}

/-! ### Claims -/

/-- The task of the pool that a worker claims in the step. -/
def Taken.claimed? (p : PoolId) (e : Taken V J) : Option TaskId :=
  match e.frame with
  | .task q t .claim => if q = p ∧ (e.store.task? p t).any (·.state = .queued) then some t else none
  | _ => none

theorem Taken.accepts_of_ne {p : PoolId} {e : Taken V J} (h : ∀ job next, e.frame ≠ .spawn p job .reserve next) :
    e.accepts p = false := by
  unfold accepts
  split
  · rename_i q job next pool hf hpool
    have hq : q ≠ p := by
      rintro rfl
      exact h job next hf
    simp [hq]
  · rfl

theorem Taken.frame_of_claimed? {p : PoolId} {t : TaskId} {e : Taken V J} (h : e.claimed? p = some t) :
    e.frame = .task p t .claim := by
  unfold claimed? at h
  split at h
  · split at h
    · rename_i hq
      cases h
      rw [← hq.1]
      assumption
    · cases h
  · cases h

namespace Frame

variable (start : J → Except RuntimeError (Body V J)) {worker : Option (PoolId × Nat)} {choice : Nat}
  {s : Store V J} {p : PoolId} {t : TaskId} {f g : Frame V J}

theorem IsQuiet.not_takesUp (h : f.IsQuiet) : ¬ f.TakesUp p t := by
  rintro (rfl | rfl) <;> exact h

theorem CarriesOn.not_takesUp {r : Run V J} (h : f.CarriesOn r) : ¬ f.TakesUp p t := by
  rintro (rfl | rfl) <;> exact h

/-- A claim that succeeds is what brings a worker to take up a task. -/
theorem takesUp_stepTask_claim {q : PoolId} {u : TaskId} (hg : g ∈ (stepTask start worker s q u .claim).2)
    (h : g.TakesUp p t) (i : Nat) : (⟨i, worker, .task q u .claim, s⟩ : Taken V J).claimed? p = some t := by
  simp only [stepTask] at hg
  split at hg
  · cases hg
  · rename_i y hy
    split at hg
    · cases hg
    · rename_i state hstate
      rw [List.mem_singleton.1 hg] at h
      obtain ⟨rfl, rfl⟩ : q = p ∧ u = t := by
        rcases h with h | h <;> cases h
        exact ⟨rfl, rfl⟩
      have hqueued : y.state = .queued := by
        unfold TaskState.exchange at hstate
        split at hstate
        · assumption
        · cases hstate
      simp [Taken.claimed?, hy, hqueued]

theorem takesUp_step (hg : g ∈ (f.step start worker choice s).2) (h : g.TakesUp p t) (i : Nat) :
    f.TakesUp p t ∨ (⟨i, worker, f, s⟩ : Taken V J).claimed? p = some t := by
  by_cases hclaim : ∃ q u, f = .task q u .claim
  · obtain ⟨q, u, rfl⟩ := hclaim
    exact .inr (takesUp_stepTask_claim start hg h i)
  · -- a worker that has claimed a task and goes on to begin with it is the only other one that has it
    have hgives := gives_step start worker choice s f
    generalize (f.step start worker choice s).2 = fs at hgives hg
    cases hgives with
    | claimed => exact absurd ⟨_, _, rfl⟩ hclaim
    | @begun q u =>
      rw [List.mem_singleton.1 hg] at h
      rcases h with h | h <;> cases h
      exact .inl (.inl rfl)
    | @run r =>
      obtain ⟨quiet, g', hfs, hquiet, hcarries⟩ := stepRun_frames worker s r
      rw [hfs] at hg
      rcases List.mem_append.1 hg with hg | hg
      · exact absurd h (hquiet g hg).not_takesUp
      · rw [List.mem_singleton.1 hg] at h
        exact absurd h hcarries.not_takesUp
    | drop hfs =>
      rcases hfs g hg with ⟨_, _, rfl⟩ | ⟨_, rfl⟩ <;> rcases h with h | h <;> cases h
    | fill => exact absurd h (isQuiet_afterPut hg).not_takesUp
    | discarded guards body => exact absurd h (isQuiet_dropPending hg).not_takesUp
    | joined n =>
      rcases List.mem_append.1 hg with hg | hg
      · obtain ⟨w, -, rfl⟩ := List.mem_map.1 hg
        rcases h with h | h <;> cases h
      · revert h
        revert hg
        simp +contextual [or_imp, TakesUp]
    | _ =>
      revert h
      revert hg
      simp +contextual [or_imp, TakesUp]

theorem due_queued (f : Frame V J) : f.due p .queued = f.reserves p := by
  cases f with
  | spawn q job phase next =>
    cases phase with
    | number =>
      simp only [due, reserves]
      split <;> rfl
    | _ => rfl
  | count q change =>
    simp only [due, reserves]
    split
    · cases change <;> rfl
    · rfl
  | task q t phase =>
    simp only [due, reserves]
    split
    · cases phase <;> rfl
    · rfl
  | reschedule q t =>
    simp only [due, reserves]
    split <;> rfl
  | _ => rfl

/-- The frame books something for a task that a spawn call has made, and gives way to the next. -/
def IsBooking : Frame V J → Prop
  | .count _ _ | .task _ _ .register | .task _ _ .enqueue => True
  | _ => False

theorem IsBooking.step (h : f.IsBooking) (worker : Option (PoolId × Nat)) (choice : Nat) (s : Store V J) :
    f.isBlocked worker choice s = false ∧ (f.step start worker choice s).2 = [] ∧
      (f.step start worker choice s).1.aborted = s.aborted := by
  cases f with
  | count => exact ⟨rfl, rfl, rfl⟩
  | task q t phase => cases phase <;> first | exact h.elim | exact ⟨rfl, rfl, rfl⟩
  | _ => exact h.elim

end Frame

namespace Machine

variable {start : J → Except RuntimeError (Body V J)} {m : Machine V J} {p : PoolId} {t : TaskId}
  {tr : List (Taken V J)} {pool : Pool V J}

/-- Whoever takes up a task has claimed it, and so has whoever has begun with one. -/
structure Heralded (p : PoolId) (m : Machine V J) (tr : List (Taken V J)) : Prop where
  frames : m.AllFrames fun _ f => ∀ t, f.TakesUp p t → t ∈ tr.filterMap (·.claimed? p)
  begun : ∀ t ∈ tr.filterMap (·.begun? p), t ∈ tr.filterMap (·.claimed? p)

theorem Heralded.step (h : Heralded p m tr) {mv : Move V J} {e : Taken V J} (htaken : m.taken mv = some e) :
    Heralded p (m.after start mv) (tr ++ [e]) := by
  obtain ⟨choice, rest, -, hstore, hi, heq⟩ := after_of_taken start htaken
  have hold : ∀ {t}, t ∈ tr.filterMap (·.claimed? p) → t ∈ (tr ++ [e]).filterMap (·.claimed? p) := by
    intro t ht
    rw [List.filterMap_append]
    exact List.mem_append_left _ ht
  constructor
  case frames =>
    rw [heq]
    refine AllFrames.set (h.frames.mono fun _ f hf t ht => hold (hf t ht)) hi (fun g hg t ht => ?_) _
    rcases Frame.takesUp_step start hg ht e.thread with htakes | hclaim
    · exact hold (h.frames _ _ hi _ (List.mem_cons_self ..) t htakes)
    · rw [← hstore] at hclaim
      rw [List.filterMap_append]
      refine List.mem_append_right _ ?_
      simp [show e.claimed? p = some t from hclaim]
  case begun =>
    intro t ht
    rw [List.filterMap_append] at ht
    rcases List.mem_append.1 ht with ht | ht
    · exact hold (h.begun t ht)
    · obtain ⟨e', he', hbegun⟩ := List.mem_filterMap.1 ht
      obtain rfl := List.mem_singleton.1 he'
      obtain ⟨job, hframe, -⟩ := Taken.begun?_eq_some_iff.1 hbegun
      exact hold (h.frames _ _ hi _ (List.mem_cons_self ..) t (.inr hframe))

theorem Heralded.after (h : Heralded p m tr) (mv : Move V J) :
    Heralded p (m.after start mv) (tr ++ (m.taken mv).toList) := by
  cases htaken : m.taken mv with
  | some e => exact h.step htaken
  | none =>
    rw [Option.toList_none, List.append_nil]
    have harrival := arrival_of_not_taken start htaken
    generalize m.after start mv = m' at harrival ⊢
    cases harrival with
    | nobody => exact h
    | workers config =>
      refine ⟨h.frames.addPool fun w hw t ht => ?_, h.begun⟩
      rcases ht with ht | ht <;> cases ht
    | outsider hpools hframes =>
      have hold : AllFrames (fun _ f => ∀ t, f.TakesUp p t → t ∈ tr.filterMap (·.claimed? p)) ⟨_, m.threads⟩ := h.frames
      refine ⟨hold.spawnThread fun f hf t ht => ?_, h.begun⟩
      rcases hframes f hf with hquiet | ⟨r, rfl⟩
      · exact absurd ht hquiet.not_takesUp
      · rcases ht with ht | ht <;> cases ht

theorem heralded_run (start : J → Except RuntimeError (Body V J)) (mvs : List (Move V J)) (p : PoolId) :
    Heralded p (({} : Machine V J).run start mvs) (({} : Machine V J).trace start mvs) := by
  refine trace_induction start (fun _ _ mv h => h.after mv) ⟨fun i th hi => ?_, by simp⟩ mvs
  simp at hi

/-! ### What is charged -/

/-- The accepted tasks whose stage nobody has taken; a spawn call that has reserved a place counts as one of them. -/
def unclaimed (m : Machine V J) (p : PoolId) (pool : Pool V J) : Nat :=
  m.reserved p + pool.tasks.toList.countP fun y => y.stage.isUnclaimed

/-- The accepted tasks that nobody has claimed so far; a spawn call that has reserved a place counts as one of them. -/
def awaiting (m : Machine V J) (p : PoolId) (pool : Pool V J) (tr : List (Taken V J)) : Nat :=
  m.reserved p + ((List.range pool.tasks.size).filter fun t => t ∉ tr.filterMap (·.claimed? p)).length

/-- Tasks that nobody has begun with are charged. -/
theorem Ledger.fresh_le (h : Ledger p pool m tr) (hchron : ∀ t, Chronicle p t m tr)
    (hpool : m.store.pools[p]? = some pool) {P : TaskId → Bool}
    (hP : ∀ t, P t = true → t ∉ tr.filterMap (·.begun? p)) :
    m.reserved p + ((List.range pool.tasks.size).filter P).length ≤ pool.queued := by
  have hnodup : ((List.range pool.tasks.size).filter P ++ tr.filterMap (·.begun? p)).Nodup := by
    refine List.nodup_append'.2 ⟨List.nodup_range.filter _, nodup_begun hchron, fun t hfresh hbegun => ?_⟩
    exact hP t (List.mem_filter.1 hfresh).2 hbegun
  have hsub : (List.range pool.tasks.size).filter P ++ tr.filterMap (·.begun? p) ⊆ List.range pool.tasks.size := by
    intro t ht
    rcases List.mem_append.1 ht with ht | ht
    · exact (List.mem_filter.1 ht).1
    · obtain ⟨y, hy, -⟩ := isClaimed_of_mem_begun hchron ht
      rw [Store.task?_eq, hpool] at hy
      exact List.mem_range.2 (Array.getElem?_eq_some_iff.1 hy).1
  have hle := (hnodup.subperm hsub).length_le
  rw [List.length_append, List.length_range] at hle
  have hcharged := h.charged
  have haccepted := h.accepted
  omega

theorem Ledger.awaiting_le (h : Ledger p pool m tr) (hchron : ∀ t, Chronicle p t m tr) (hherald : Heralded p m tr)
    (hpool : m.store.pools[p]? = some pool) : m.awaiting p pool tr ≤ pool.queued := by
  refine h.fresh_le hchron hpool fun t ht hbegun => ?_
  exact of_decide_eq_true ht (hherald.begun t hbegun)

theorem Ledger.unclaimed_le (h : Ledger p pool m tr) (hchron : ∀ t, Chronicle p t m tr)
    (hpool : m.store.pools[p]? = some pool) : m.unclaimed p pool ≤ pool.queued := by
  unfold unclaimed
  rw [← length_filter_range, Array.length_toList]
  refine h.fresh_le hchron hpool fun t ht hbegun => ?_
  obtain ⟨y, hy, hclaimed⟩ := isClaimed_of_mem_begun hchron hbegun
  rw [Store.task?_eq, hpool] at hy
  have hget : pool.tasks[t]? = some y := hy
  rw [Array.getElem?_toList, hget] at ht
  cases hjob : y.stage with
  | unclaimed job => exact hclaimed job hjob
  | _ => simp [hjob, Stage.isUnclaimed] at ht

theorem queued_eq_unclaimed (hb : m.Balanced) (halive : m.store.aborted = false)
    (hpool : m.store.pools[p]? = some pool) (hrunning : pool.running = true) : pool.queued = m.unclaimed p pool := by
  have hp : ¬ m.store.Closed p := fun hc => hc.not_running ⟨pool, hpool, hrunning⟩
  have hbalance := hb.balance_eq halive hp hpool .queued
  have hdue : (m.frameSum fun _ f => f.due p .queued) = (m.reserved p : ℤ) := by
    simp only [Frame.due_queued]
    exact (map_frameSum (Nat.castAddMonoidHom ℤ) _ m).symm
  rw [hdue, Pool.shares_queued] at hbalance
  simp only [Pool.balance] at hbalance
  unfold unclaimed
  omega

/-- Nobody reserves a place and nobody begins with a task, so what is charged stays as it is. -/
theorem Ledger.steady {m' : Machine V J} {pool' : Pool V J} {es : List (Taken V J)} (h : Ledger p pool m tr)
    (h' : Ledger p pool' m' (tr ++ es)) (haccepts : ∀ e ∈ es, e.accepts p = false)
    (hbegun : ∀ e ∈ es, e.begun? p = none) : pool'.queued = pool.queued := by
  have hcount : es.countP (·.accepts p) = 0 := List.countP_eq_zero.2 fun e he => by simp [haccepts e he]
  have hlist : es.filterMap (·.begun? p) = [] := List.filterMap_eq_nil_iff.2 hbegun
  have hcharged := h.charged
  have hcharged' := h'.charged
  rw [List.countP_append, hcount, List.filterMap_append, hlist, List.append_nil] at hcharged'
  omega

/-- A task that is claimed already and still has its stage is being taken up. -/
theorem ClaimsTold.takenUp (h : m.ClaimsTold tr) (hp : ¬ m.store.Closed p) {y : Task V J}
    (hy : m.store.task? p t = some y) (hstage : y.stage.isUnclaimed = true)
    (ht : t ∈ tr.filterMap (·.claimed? p)) : ∃ th ∈ m.threads.toList, ∃ f ∈ th.stack, f.TakesUp p t := by
  obtain ⟨e, he, hclaim⟩ := List.mem_filterMap.1 ht
  have hmem : .claimed ∈ m.holds p t := by
    by_contra hnot
    have hun : IsUnclaimed (m.store.task? p t) (m.holds p t) := .inr ⟨y, hy, hstage, hnot⟩
    exact (h p t hp).2 hun e he (Taken.frame_of_claimed? hclaim)
  rcases Multiset.mem_add.1 hmem with hmem | hmem
  · cases Multiset.eq_of_mem_replicate hmem
  · have hframes : .claimed ∈ m.frameSum fun worker f => f.holds worker p t := hmem
    obtain ⟨th, hth, f, hf, hheld⟩ := mem_frameSum.1 hframes
    exact ⟨th, hth, f, hf, Frame.takesUp_of_mem_holds hheld⟩

/-- A spawn call that comes back with an error changes nothing, or one counter. -/
theorem store_of_refused (hpool : m.store.pools[p]? = some pool) {mv : Move V J} {e : Taken V J} {job : J}
    {phase : SpawnPhase} {next : Except RuntimeError TaskId → Run V J} {r : Run V J} {rest : List (Frame V J)}
    (htaken : m.taken mv = some e) (hframe : e.frame = .spawn p job phase next)
    (hback : (m.after start mv).stackOf e.thread = .run r :: rest) :
    (r = next (.error .poolShutDown) ∧ (m.after start mv).store = m.store) ∨
    (0 < pool.config.maxQueueSize ∧ pool.config.maxQueueSize ≤ pool.queued ∧
      r = next (.error (.spawnBackpressure pool.config.maxQueueSize)) ∧ (m.after start mv).store =
        m.store.modifyPool p fun pool => { pool with stats.rejected := pool.stats.rejected + 1 }) := by
  obtain ⟨choice, below, -, -, hi, heq⟩ := after_of_taken start htaken
  rw [heq, stackOf_eq (getElem?_setIfInBounds_self hi), hframe] at hback
  rw [heq, hframe]
  cases phase with
  | check =>
    by_cases hrunning : m.store.Running p
    · rw [Frame.step_check hrunning] at hback
      cases hback
    · rw [Frame.step_check_of_closed hrunning] at hback ⊢
      cases hback
      exact .inl ⟨rfl, rfl⟩
  | reserve =>
    by_cases hfree : pool.config.maxQueueSize = 0 ∨ pool.queued < pool.config.maxQueueSize
    · rw [Frame.step_reserve hpool hfree] at hback
      cases hback
    · have hpos : 0 < pool.config.maxQueueSize := by omega
      have hfull : pool.config.maxQueueSize ≤ pool.queued := by omega
      rw [Frame.step_reserve_of_full hpool hpos hfull] at hback ⊢
      cases hback
      exact .inr ⟨hpos, hfull, rfl, rfl⟩
  | number =>
    rw [Frame.step_number hpool] at hback
    cases hback

/-! ### A spawn call that nobody interrupts -/

section alone

variable {i : Nat} {worker : Option (PoolId × Nat)} {s s' : Store V J} {f : Frame V J} {fs rest : List (Frame V J)}
  {threads : Array (Thread V J)}

theorem setIfInBounds_eq_self {th : Thread V J} (h : threads[i]? = some th) : threads.setIfInBounds i th = threads := by
  refine Array.ext_getElem? fun j => ?_
  by_cases hij : i = j
  · subst hij
    rw [getElem?_setIfInBounds_self h, h]
  · rw [Array.getElem?_setIfInBounds_ne hij]

/-- The machine whose thread `i` has this stack. -/
def withStack (s : Store V J) (threads : Array (Thread V J)) (i : Nat) (worker : Option (PoolId × Nat))
    (stack : List (Frame V J)) : Machine V J := ⟨s, threads.setIfInBounds i ⟨worker, stack⟩⟩

theorem withStack_of_thread {stack : List (Frame V J)} (hi : m.threads[i]? = some ⟨worker, stack⟩) :
    withStack m.store m.threads i worker stack = m := by
  rw [withStack, setIfInBounds_eq_self hi]

/-- One step of a thread that goes on alone. -/
theorem run_withStack (choice n : Nat) (rest : List (Frame V J)) (hlt : i < threads.size) (halive : s.aborted = false)
    (hfree : f.isBlocked worker choice s = false) (hstep : f.step start worker choice s = (s', fs)) :
    (withStack s threads i worker (f :: rest)).run start (.replicate (n + 1) (.step i choice)) =
      (withStack s' threads i worker (fs ++ rest)).run start (.replicate n (.step i choice)) := by
  have hi : (withStack s threads i worker (f :: rest)).threads[i]? = some ⟨worker, f :: rest⟩ :=
    getElem?_setIfInBounds_self (Array.getElem?_eq_getElem hlt)
  obtain ⟨worker', f', rest', hi', -, heq⟩ :=
    after_of_canStep start (canStep_iff.2 ⟨halive, worker, f, rest, hi, hfree⟩)
  rw [hi] at hi'
  cases hi'
  have hafter : (withStack s threads i worker (f :: rest)).after start (.step i choice) =
      withStack s' threads i worker (fs ++ rest) := by
    refine heq.trans ?_
    show (⟨(f.step start worker choice s).1, (threads.setIfInBounds i ⟨worker, f :: rest⟩).setIfInBounds i
      ⟨worker, (f.step start worker choice s).2 ++ rest⟩⟩ : Machine V J) = _
    rw [hstep, Array.setIfInBounds_setIfInBounds, withStack]
  rw [List.replicate_succ, run, hafter]

/-- A thread passes over frames that book something. -/
theorem run_bookings (choice : Nat) (hlt : i < threads.size) (hfs : ∀ f ∈ fs, f.IsBooking) (halive : s.aborted = false) :
    ∃ s', (withStack s threads i worker (fs ++ rest)).run start (.replicate fs.length (.step i choice)) =
      withStack s' threads i worker rest := by
  induction fs generalizing s with
  | nil => exact ⟨s, rfl⟩
  | cons f fs ih =>
    obtain ⟨hfree, hnone, hsame⟩ := (hfs f (List.mem_cons_self ..)).step start worker choice s
    have hstep : f.step start worker choice s = ((f.step start worker choice s).1, []) := Prod.ext rfl hnone
    obtain ⟨s', hs⟩ := ih (fun f hf => hfs f (List.mem_cons_of_mem _ hf)) (hsame.trans halive)
    refine ⟨s', ?_⟩
    rw [List.length_cons, List.cons_append, run_withStack choice fs.length _ hlt halive hfree hstep]
    exact hs

variable {job : J} {next : Except RuntimeError TaskId → Run V J}

theorem run_number (choice : Nat) (hlt : i < threads.size) (halive : s.aborted = false)
    (hpool : s.pools[p]? = some pool) (ht : pool.tasks.size = t) :
    ∃ s', (withStack s threads i worker (.spawn p job .number next :: rest)).run start
        (.replicate 6 (.step i choice)) =
      withStack s' threads i worker (.run (next (.ok t)) :: rest) := by
  subst ht
  have hbookings : ∀ f ∈ ([.count p .activeUp, .count p .liveUp, .task p pool.tasks.size .register, .count p .spawned,
      .task p pool.tasks.size .enqueue] : List (Frame V J)), f.IsBooking := by simp [Frame.IsBooking]
  have hmade : (s.modifyPool p fun pool =>
      { pool with tasks := pool.tasks.push { stage := .unclaimed job } }).aborted = false := halive
  obtain ⟨s', hs⟩ := run_bookings choice hlt hbookings hmade
  exact ⟨s', (run_withStack choice 5 _ hlt halive rfl (Frame.step_number hpool)).trans hs⟩

section call

variable (choice : Nat) (hi : m.threads[i]? = some ⟨worker, .spawn p job .check next :: rest⟩)
  (halive : m.store.aborted = false)

include hi halive

theorem run_closed (hclosed : ¬ m.store.Running p) : m.run start (.replicate 1 (.step i choice)) =
    withStack m.store m.threads i worker (.run (next (.error .poolShutDown)) :: rest) := by
  have hlt : i < m.threads.size := (Array.getElem?_eq_some_iff.1 hi).1
  have hcheck : (Frame.spawn p job .check next).step start worker choice m.store = _ :=
    Frame.step_check_of_closed hclosed
  calc m.run start (.replicate 1 (.step i choice))
    _ = (withStack m.store m.threads i worker (.spawn p job .check next :: rest)).run start
          (.replicate 1 (.step i choice)) := by rw [withStack_of_thread hi]
    _ = _ := (run_withStack choice 0 rest hlt halive rfl hcheck :)

theorem run_full (hrunning : m.store.Running p) (hpool : m.store.pools[p]? = some pool)
    (hpos : 0 < pool.config.maxQueueSize) (hfull : pool.config.maxQueueSize ≤ pool.queued) :
    m.run start (.replicate 2 (.step i choice)) =
      withStack (m.store.modifyPool p fun pool => { pool with stats.rejected := pool.stats.rejected + 1 }) m.threads i
        worker (.run (next (.error (.spawnBackpressure pool.config.maxQueueSize))) :: rest) := by
  have hlt : i < m.threads.size := (Array.getElem?_eq_some_iff.1 hi).1
  have hcheck : (Frame.spawn p job .check next).step start worker choice m.store = _ := Frame.step_check hrunning
  have hreserve : (Frame.spawn p job .reserve next).step start worker choice m.store = _ :=
    Frame.step_reserve_of_full hpool hpos hfull
  calc m.run start (.replicate 2 (.step i choice))
    _ = (withStack m.store m.threads i worker (.spawn p job .check next :: rest)).run start
          (.replicate 2 (.step i choice)) := by rw [withStack_of_thread hi]
    _ = (withStack m.store m.threads i worker (.spawn p job .reserve next :: rest)).run start
          (.replicate 1 (.step i choice)) := (run_withStack choice 1 rest hlt halive rfl hcheck :)
    _ = _ := (run_withStack choice 0 rest hlt halive rfl hreserve :)

theorem run_accepted (hrunning : m.store.Running p) (hpool : m.store.pools[p]? = some pool)
    (hfree : pool.config.maxQueueSize = 0 ∨ pool.queued < pool.config.maxQueueSize) :
    ∃ s, m.run start (.replicate 8 (.step i choice)) =
      withStack s m.threads i worker (.run (next (.ok pool.tasks.size)) :: rest) := by
  have hlt : i < m.threads.size := (Array.getElem?_eq_some_iff.1 hi).1
  have hreserved : (m.store.modifyPool p fun pool => { pool with queued := pool.queued + 1 }).pools[p]? =
      some { pool with queued := pool.queued + 1 } := by
    rw [Store.pools_modifyPool, if_pos rfl, hpool]
    rfl
  have hcheck : (Frame.spawn p job .check next).step start worker choice m.store = _ := Frame.step_check hrunning
  have hreserve : (Frame.spawn p job .reserve next).step start worker choice m.store = _ :=
    Frame.step_reserve hpool hfree
  have hnumber : ∃ s, (withStack (m.store.modifyPool p fun pool => { pool with queued := pool.queued + 1 })
      m.threads i worker (.spawn p job .number next :: rest)).run start (.replicate 6 (.step i choice)) =
        withStack s m.threads i worker (.run (next (.ok pool.tasks.size)) :: rest) :=
    run_number choice hlt halive hreserved rfl
  obtain ⟨s, hs⟩ := hnumber
  refine ⟨s, ?_⟩
  calc m.run start (.replicate 8 (.step i choice))
    _ = (withStack m.store m.threads i worker (.spawn p job .check next :: rest)).run start
          (.replicate 8 (.step i choice)) := by rw [withStack_of_thread hi]
    _ = (withStack m.store m.threads i worker (.spawn p job .reserve next :: rest)).run start
          (.replicate 7 (.step i choice)) := (run_withStack choice 7 rest hlt halive rfl hcheck :)
    _ = _ := (run_withStack choice 6 rest hlt halive rfl hreserve :)
    _ = _ := hs

end call

end alone

end Machine

/-! ### Admission -/

/-- How a spawn call is answered that nobody interrupts, and the store that it leaves behind. -/
structure Answered (p : PoolId) (pool : Pool V J) (m : Machine V J) (tr : List (Taken V J)) (s : Store V J)
    (answer : Except RuntimeError TaskId) : Prop where
  /-- The pool pushes back if it is running and as many tasks are unclaimed as it may have. -/
  backpressure : answer = .error (.spawnBackpressure pool.config.maxQueueSize) ↔
    pool.running = true ∧ 0 < pool.config.maxQueueSize ∧ m.unclaimed p pool = pool.config.maxQueueSize
  shutDown : answer = .error .poolShutDown ↔ pool.running = false
  /-- The number of the task is that of the calls that were accepted before, but for those not through yet. -/
  accepted : ∀ t, answer = .ok t → m.reserved p + t = tr.countP (·.accepts p)
  /-- A refused call changes nothing, or one counter. -/
  refused : ∀ e, answer = .error e → (e = .poolShutDown ∧ s = m.store) ∨
    (e = .spawnBackpressure pool.config.maxQueueSize ∧
      s = m.store.modifyPool p fun pool => { pool with stats.rejected := pool.stats.rejected + 1 })

/-- Who is admitted to a pool, as far as a machine tells and the steps that led to it. -/
structure Admission (start : J → Except RuntimeError (Body V J)) (p : PoolId) (pool : Pool V J) (m : Machine V J)
    (tr : List (Taken V J)) : Prop where
  /-- Of the accepted tasks, never more than the bound are unclaimed: that have their stage, or were never claimed. -/
  bounded : 0 < pool.config.maxQueueSize →
    m.unclaimed p pool ≤ pool.config.maxQueueSize ∧ m.awaiting p pool tr ≤ pool.config.maxQueueSize
  /-- Accepted are the tasks that there are, and those about to be made. -/
  accepted : m.reserved p + pool.tasks.size = tr.countP (·.accepts p)
  /-- The tasks are numbered in the order in which they were made, without a gap. -/
  numbered : tr.filterMap (·.made? p) = List.range pool.tasks.size
  /-- Every accepted task is charged until it is begun, which happens once and after its claim. -/
  charged : pool.queued + (tr.filterMap (·.begun? p)).length = tr.countP (·.accepts p)
  once : (tr.filterMap (·.begun? p)).Nodup
  claimed : ∀ t ∈ tr.filterMap (·.begun? p), t ∈ tr.filterMap (·.claimed? p)
  /-- While the pool is running, charged are the tasks whose stage nobody has taken. -/
  exact : pool.running = true → m.store.aborted = false → pool.queued = m.unclaimed p pool
  /-- One of these is claimed only if its worker is about to take its stage. -/
  underway : pool.running = true → ∀ t y, pool.tasks[t]? = some y → y.stage.isUnclaimed = true →
    (t ∈ tr.filterMap (·.claimed? p) ↔ ∃ th ∈ m.threads.toList, ∃ f ∈ th.stack, f.TakesUp p t)
  /-- Nothing else changes what is charged: no wake, no requeue, no theft, and no task that is begun again. -/
  steady : ∀ mv pool', (m.after start mv).store.pools[p]? = some pool' →
    (∀ e, m.taken mv = some e → (∀ job next, e.frame ≠ .spawn p job .reserve next) ∧
      ∀ t, e.frame = .task p t .enter → t ∈ tr.filterMap (·.begun? p)) → pool'.queued = pool.queued
  /-- Looking whether the pool is running changes nothing. -/
  checked : ∀ mv e job next, m.taken mv = some e → e.frame = .spawn p job .check next →
    (m.after start mv).store = m.store
  /-- A spawn call that comes back with an error changes nothing, or one counter. -/
  refused : ∀ mv e job phase next r rest, m.taken mv = some e → e.frame = .spawn p job phase next →
    (m.after start mv).stackOf e.thread = .run r :: rest →
      (r = next (.error .poolShutDown) ∧ (m.after start mv).store = m.store) ∨
      (0 < pool.config.maxQueueSize ∧ pool.config.maxQueueSize ≤ pool.queued ∧
        r = next (.error (.spawnBackpressure pool.config.maxQueueSize)) ∧ (m.after start mv).store =
          m.store.modifyPool p fun pool => { pool with stats.rejected := pool.stats.rejected + 1 })
  /-- A spawn call that nobody interrupts comes back. -/
  alone : ∀ i worker job next rest choice, m.threads[i]? = some ⟨worker, .spawn p job .check next :: rest⟩ →
    m.store.aborted = false → ∃ n answer s, m.run start (.replicate n (.step i choice)) =
      .withStack s m.threads i worker (.run (next answer) :: rest) ∧ Answered p pool m tr s answer

namespace Machine

variable {start : J → Except RuntimeError (Body V J)}

/-- A spawn call that nobody interrupts is answered by what the pool charges. -/
theorem exists_answer {m : Machine V J} {p : PoolId} {pool : Pool V J} {tr : List (Taken V J)} (choice : Nat)
    {i : Nat} {worker : Option (PoolId × Nat)} {job : J} {next : Except RuntimeError TaskId → Run V J}
    {rest : List (Frame V J)} (hpool : m.store.pools[p]? = some pool)
    (hi : m.threads[i]? = some ⟨worker, .spawn p job .check next :: rest⟩) (halive : m.store.aborted = false)
    (hexact : pool.running = true → pool.queued = m.unclaimed p pool) (hledger : Ledger p pool m tr) :
    ∃ n answer s, m.run start (.replicate n (.step i choice)) =
      withStack s m.threads i worker (.run (next answer) :: rest) ∧ Answered p pool m tr s answer := by
  by_cases hrunning : pool.running = true
  · have hstore : m.store.Running p := ⟨pool, hpool, hrunning⟩
    have hcharged := hexact hrunning
    by_cases hfree : pool.config.maxQueueSize = 0 ∨ pool.queued < pool.config.maxQueueSize
    · obtain ⟨s, hs⟩ := run_accepted choice hi halive hstore hpool hfree
      refine ⟨8, .ok pool.tasks.size, s, hs, ?_⟩
      constructor
      case backpressure =>
        refine iff_of_false nofun ?_
        rintro ⟨-, hpos, hfull⟩
        omega
      case shutDown => exact iff_of_false nofun (by simp [hrunning])
      case accepted =>
        rintro t ⟨⟩
        exact hledger.accepted
      case refused => exact nofun
    · -- never more than the bound are charged, so now exactly as many
      have hpos : 0 < pool.config.maxQueueSize := by omega
      have hbound := hledger.bounded hpos
      refine ⟨2, .error (.spawnBackpressure pool.config.maxQueueSize), _,
        run_full choice hi halive hstore hpool hpos (by omega), ?_⟩
      constructor
      case backpressure => exact iff_of_true rfl ⟨hrunning, hpos, by omega⟩
      case shutDown => exact iff_of_false nofun (by simp [hrunning])
      case accepted => exact nofun
      case refused =>
        rintro e ⟨⟩
        exact .inr ⟨rfl, rfl⟩
  · have hclosed : ¬ m.store.Running p := by
      rintro ⟨pool', hpool', hrunning'⟩
      rw [hpool] at hpool'
      cases hpool'
      exact hrunning hrunning'
    refine ⟨1, .error .poolShutDown, m.store, run_closed choice hi halive hclosed, ?_⟩
    constructor
    case backpressure => exact iff_of_false nofun fun h => hrunning h.1
    case shutDown => exact iff_of_true rfl (by simpa using hrunning)
    case accepted => exact nofun
    case refused =>
      rintro e ⟨⟩
      exact .inl ⟨rfl, rfl⟩

/-- After any run, a pool admits tasks as its bound allows. -/
theorem admission_run (mvs : List (Move V J)) {p : PoolId} {pool : Pool V J}
    (hpool : (({} : Machine V J).run start mvs).store.pools[p]? = some pool) :
    Admission start p pool (({} : Machine V J).run start mvs) (({} : Machine V J).trace start mvs) := by
  have hchron := chronicle_run start mvs p
  have hherald := heralded_run start mvs p
  have hledger := (kept_run start mvs).ledger p pool hpool
  have htold := claimsTold_run start mvs
  have hbal := (balanced_run start mvs).2
  -- the ledger after one more move, to compare what is charged
  have hnext : ∀ mv pool', ((({} : Machine V J).run start mvs).after start mv).store.pools[p]? = some pool' →
      Ledger p pool' ((({} : Machine V J).run start mvs).after start mv)
        (({} : Machine V J).trace start mvs ++ ((({} : Machine V J).run start mvs).taken mv).toList) ∧
      ((({} : Machine V J).trace start mvs ++ ((({} : Machine V J).run start mvs).taken mv).toList).filterMap
        (·.begun? p)).Nodup := by
    intro mv pool' hpool'
    have hkept := kept_run start (mvs ++ [mv])
    have hnodup := nodup_begun (chronicle_run start (mvs ++ [mv]) p)
    rw [run_append, trace_append] at *
    have htrace : (({} : Machine V J).run start mvs).trace start [mv] =
        ((({} : Machine V J).run start mvs).taken mv).toList := List.append_nil _
    rw [htrace] at hkept hnodup
    exact ⟨hkept.ledger p pool' hpool', hnodup⟩
  generalize ({} : Machine V J).run start mvs = m at *
  generalize ({} : Machine V J).trace start mvs = tr at *
  have hexact : pool.running = true → m.store.aborted = false → pool.queued = m.unclaimed p pool :=
    fun hrunning halive => queued_eq_unclaimed hbal halive hpool hrunning
  constructor
  case bounded =>
    intro hpos
    have hbound := hledger.bounded hpos
    exact ⟨(hledger.unclaimed_le hchron hpool).trans hbound, (hledger.awaiting_le hchron hherald hpool).trans hbound⟩
  case accepted => exact hledger.accepted
  case numbered => exact hledger.made
  case charged => exact hledger.charged
  case once => exact nodup_begun hchron
  case claimed => exact hherald.begun
  case exact => exact hexact
  case underway =>
    intro hrunning t y hy hstage
    have hp : ¬ m.store.Closed p := fun hc => hc.not_running ⟨pool, hpool, hrunning⟩
    have htask : m.store.task? p t = some y := by
      rw [Store.task?_eq, hpool]
      exact hy
    refine ⟨htold.takenUp hp htask hstage, ?_⟩
    rintro ⟨th, hth, f, hf, htakes⟩
    obtain ⟨i, hi⟩ := List.mem_iff_getElem?.1 hth
    exact hherald.frames i th (by rw [← Array.getElem?_toList, hi]) f hf t htakes
  case steady =>
    intro mv pool' hpool' hquiet
    obtain ⟨hledger', hnodup⟩ := hnext mv pool' hpool'
    refine hledger.steady hledger' (fun e he => ?_) fun e he => ?_
    · exact Taken.accepts_of_ne (hquiet e (Option.mem_toList.1 he)).1
    · cases hbegun : e.begun? p with
      | none => rfl
      | some t =>
        obtain ⟨job, hframe, -⟩ := Taken.begun?_eq_some_iff.1 hbegun
        have hagain := (hquiet e (Option.mem_toList.1 he)).2 t hframe
        rw [List.filterMap_append] at hnodup
        refine absurd (List.mem_filterMap.2 ⟨e, he, hbegun⟩) ((List.nodup_append'.1 hnodup).2.2 hagain)
  case checked =>
    intro mv e job next htaken hframe
    obtain ⟨choice, rest, -, -, -, heq⟩ := after_of_taken start htaken
    rw [heq, hframe]
    by_cases hrunning : m.store.Running p
    · rw [Frame.step_check hrunning]
    · rw [Frame.step_check_of_closed hrunning]
  case refused => exact fun mv e job phase next r rest => store_of_refused hpool
  case alone =>
    intro i worker job next rest choice hi halive
    exact exists_answer choice hpool hi halive (fun hrunning => hexact hrunning halive) hledger

/-- A pool that may have one unclaimed task starts, and someone spawns a job and is about to spawn another. -/
def fullMoves : List (Move Nat Bool) :=
  .startPool { maxQueueSize := 1 } :: .enter (.spawn (some 0) false fun _ => .spawn (some 0) false fun _ =>
      .done (.ok ())) :: List.replicate 10 (.step 1 0)

theorem admission_full : ∃ pool next, (({} : Machine Nat Bool).run waitOrEnd fullMoves).store.pools[0]? = some pool ∧
    pool.running = true ∧ pool.config.maxQueueSize = 1 ∧
    (({} : Machine Nat Bool).run waitOrEnd fullMoves).unclaimed 0 pool = 1 ∧
    (({} : Machine Nat Bool).run waitOrEnd fullMoves).threads[1]? = some ⟨none, [.spawn 0 false .check next]⟩ ∧
    (({} : Machine Nat Bool).run waitOrEnd fullMoves).store.aborted = false ∧
    Admission waitOrEnd 0 pool (({} : Machine Nat Bool).run waitOrEnd fullMoves)
      (({} : Machine Nat Bool).trace waitOrEnd fullMoves) := by
  have hstart : ({ maxQueueSize := 1 } : PoolConfig).startError? = none := by cbv
  have hfull : ∃ pool next, (({} : Machine Nat Bool).run waitOrEnd fullMoves).store.pools[0]? = some pool ∧
      pool.running = true ∧ pool.config.maxQueueSize = 1 ∧
      (({} : Machine Nat Bool).run waitOrEnd fullMoves).unclaimed 0 pool = 1 ∧
      (({} : Machine Nat Bool).run waitOrEnd fullMoves).threads[1]? = some ⟨none, [.spawn 0 false .check next]⟩ ∧
      (({} : Machine Nat Bool).run waitOrEnd fullMoves).store.aborted = false := by
    rw [fullMoves, run_startPool hstart]
    exact ⟨_, _, rfl, rfl, rfl, rfl, rfl, rfl⟩
  obtain ⟨pool, next, hpool, hrunning, hbound, hunclaimed, hthread, halive⟩ := hfull
  exact ⟨pool, next, hpool, hrunning, hbound, hunclaimed, hthread, halive, admission_run fullMoves hpool⟩

end Machine
end Dataflow
