import Dataflow.Proofs.Releasing

/-!
# Shutdown calls return

`Frame.Finishes` says of a list of frames that a thread comes to its end, whatever the choices, if it runs by itself.
The errands of a shutdown call do so on every store (`Frame.IsLoose.finishes`), and so does the rest of the call once
the workers have ended (`Plan.finishes`).
-/

namespace Dataflow

variable {V J : Type}

namespace Frame

variable {start : J → Except RuntimeError (Body V J)} {worker : Option (PoolId × Nat)} {s : Store V J}
  {f : Frame V J} {fs gs : List (Frame V J)} {p q : PoolId} {t : TaskId}

/-- A thread that runs by itself comes to the end of these frames, and never has to wait. -/
inductive Finishes (start : J → Except RuntimeError (Body V J)) (worker : Option (PoolId × Nat)) :
    Store V J → List (Frame V J) → Prop where
  | nil {s : Store V J} : Finishes start worker s []
  | cons {s : Store V J} {f : Frame V J} {fs : List (Frame V J)} (hfree : ∀ choice, f.isBlocked worker choice s = false)
      (hplain : ∀ (q : PoolId) (t : TaskId) (outcome : Outcome), f ≠ .task q t (.tally outcome))
      (h : ∀ choice, Finishes start worker (f.step start worker choice s).1
        ((f.step start worker choice s).2 ++ fs)) : Finishes start worker s (f :: fs)

namespace Finishes

theorem append (h : Finishes start worker s fs) (hgs : ∀ s', Finishes start worker s' gs) :
    Finishes start worker s (fs ++ gs) := by
  induction h with
  | nil => exact hgs _
  | cons hfree hplain _ ih => exact .cons hfree hplain fun choice => by simpa using ih choice

theorem of_forall (h : ∀ f ∈ fs, ∀ s, Finishes start worker s [f]) (s : Store V J) : Finishes start worker s fs := by
  induction fs generalizing s with
  | nil => exact .nil
  | cons f fs ih =>
    have hrest : ∀ s', Finishes start worker s' fs := ih fun g hg => h g (List.mem_cons_of_mem _ hg)
    exact (h f (List.mem_cons_self ..) s).append hrest

theorem single (hfree : ∀ choice, f.isBlocked worker choice s = false)
    (hplain : ∀ q t outcome, f ≠ .task q t (.tally outcome))
    (h : ∀ choice, Finishes start worker (f.step start worker choice s).1 (f.step start worker choice s).2) :
    Finishes start worker s [f] :=
  .cons hfree hplain fun choice => by simpa using h choice

end Finishes

theorem finishes_withdraw (c : CellId) (key : Nat) : Finishes start worker s [.withdraw c key] :=
  .single (fun _ => rfl) (fun _ _ _ => nofun) fun _ => .nil

theorem finishes_signal (c : CellId) : Finishes start worker s [.signal c] :=
  .single (fun _ => rfl) (fun _ _ _ => nofun) fun _ => .nil

theorem finishes_count (change : Count) : Finishes start worker s [.count q change] :=
  .single (fun _ => rfl) (fun _ _ _ => nofun) fun _ => .nil

theorem finishes_enqueue : Finishes start worker s [.task q t .enqueue] :=
  .single (fun _ => rfl) (fun _ _ _ => nofun) fun _ => .nil

theorem finishes_reschedule : Finishes start worker s [.reschedule q t] := by
  refine .single (fun _ => rfl) (fun _ _ _ => nofun) fun choice => ?_
  simp only [step, stepReschedule]
  split
  · refine .of_forall (fun f hf s => ?_) _
    simp only [List.mem_cons, List.not_mem_nil, or_false] at hf
    rcases hf with rfl | rfl | rfl
    · exact finishes_count _
    · exact finishes_count _
    · exact finishes_enqueue
  · exact .nil

/-- Nobody comes between the look at the state and the exchange, so that goes through. -/
theorem finishes_wake (party : Party) : Finishes start worker s [.wake party] := by
  refine .single (fun _ => rfl) (fun _ _ _ => by simp) fun choice => ?_
  cases party with
  | outside => exact .nil
  | task q t =>
    simp only [step, stepWake]
    cases hy : s.task? q t with
    | none => exact .nil
    | some y =>
      cases htarget : y.state.wakeTarget? with
      | none => simpa [htarget] using Finishes.nil
      | some target =>
        simp only [htarget]
        refine .single (fun _ => rfl) (fun _ _ _ => by simp) fun choice => ?_
        simp only [step, stepExchange, hy, TaskState.exchange, if_true]
        split
        · exact finishes_reschedule
        · exact .nil

theorem finishes_exchange {seen target : TaskState} : Finishes start worker s [.exchange q t seen target] := by
  refine .single (fun _ => rfl) (fun _ _ _ => nofun) fun choice => ?_
  simp only [step, stepExchange]
  split
  · exact .nil
  · split
    · exact finishes_wake _
    · simp only
      split
      · exact finishes_reschedule
      · exact .nil

theorem finishes_afterPut (c : CellId) (before : Cell V Party) :
    Finishes start worker s (afterPut c before : List (Frame V J)) := by
  refine .of_forall (fun f hf s => ?_) s
  unfold afterPut at hf
  rcases List.mem_append.1 hf with hf | hf
  · split at hf
    · obtain rfl := List.mem_singleton.1 hf
      exact finishes_signal c
    · cases hf
  · obtain ⟨party, -, rfl⟩ := List.mem_map.1 hf
    exact finishes_wake party

theorem finishes_fill (c : CellId) (value : V) : Finishes start worker s [.fill c value] := by
  refine .single (fun _ => rfl) (fun _ _ _ => nofun) fun choice => ?_
  simp only [step]
  split
  · exact .nil
  · exact finishes_afterPut _ _

theorem finishes_drop (guards : List (Guard V)) : Finishes start worker s [.drop guards] := by
  induction guards generalizing s with
  | nil => exact .single (fun _ => rfl) (fun _ _ _ => nofun) fun _ => .nil
  | cons guard guards ih =>
    refine .single (fun _ => rfl) (fun _ _ _ => nofun) fun choice => ?_
    refine Finishes.append (.of_forall (fun f hf s => ?_) _) fun s => ih
    obtain ⟨x, -, rfl⟩ := List.mem_map.1 hf
    exact finishes_fill _ _

/-- Whatever comes of values that are dropped comes to an end. -/
theorem IsLoose.finishes (hf : f.IsLoose p) (s : Store V J) : Finishes start worker s [f] := by
  cases f with
  | drop guards => exact finishes_drop guards
  | fill c value => exact finishes_fill c value
  | withdraw c key => exact finishes_withdraw c key
  | signal c => exact finishes_signal c
  | wake party => exact finishes_wake party
  | exchange q t seen target => exact finishes_exchange
  | reschedule q t => exact finishes_reschedule
  | count q change => exact finishes_count change
  | task q t phase => cases phase <;> first | exact finishes_enqueue | exact hf.elim
  | _ => exact hf.elim

theorem finishes_discard : Finishes start worker s [.task p t .discard] := by
  refine .single (fun _ => rfl) (fun _ _ _ => nofun) fun choice => ?_
  simp only [step, stepTask]
  split
  · exact .nil
  · simp only
    split
    · exact .of_forall (fun f hf s => (isLoose_dropPending (p := p) f hf).finishes s) _
    · exact .nil

theorem finishes_abandon : Finishes start worker s [.task p t .abandon] :=
  .single (fun _ => rfl) (fun _ _ _ => nofun) fun _ => finishes_discard

theorem finishes_release (todo : List TaskId) : Finishes start worker s [.shutdown p (.release todo)] := by
  induction hlen : todo.length generalizing todo s with
  | zero =>
    obtain rfl := List.length_eq_zero_iff.1 hlen
    exact .single (fun _ => rfl) (fun _ _ _ => nofun) fun _ => .nil
  | succ n ih =>
    cases todo with
    | nil => cases hlen
    | cons t todo =>
      refine .single (fun _ => rfl) (fun _ _ _ => nofun) fun choice => ?_
      simp only [step, stepShutdown]
      have hchosen := chosen_mem t todo choice
      have hshorter : ((t :: todo).erase (((t :: todo)[choice % (todo.length + 1)]?).getD t)).length = n := by
        rw [List.length_erase_of_mem hchosen, hlen, Nat.add_sub_cancel]
      exact finishes_abandon.append fun s' => ih _ hshorter

theorem finishes_release_count (todo : List TaskId) (live : Nat) (s : Store V J) :
    Finishes start worker s [.shutdown p (.release todo), .count p (.liveDown live)] :=
  (finishes_release todo).append fun _ => finishes_count _

theorem finishes_drainShared : Finishes start worker s [.shutdown p .drainShared] := by
  induction hlen : ((s.pools[p]?.map fun pool => pool.injector.items.length).getD 0) generalizing s with
  | zero =>
    refine .single (fun _ => rfl) (fun _ _ _ => nofun) fun choice => ?_
    cases hpool : s.pools[p]? with
    | none => simpa [step, stepShutdown, hpool] using Finishes.nil
    | some pool =>
      have hsize : pool.injector.items.length = 0 := by simpa [hpool] using hlen
      have hempty : pool.injector.items = [] := List.length_eq_zero_iff.1 hsize
      simp only [step, stepShutdown, hpool]
      split
      · rename_i heq
        cases (Queue.items_of_popFront heq).symm.trans hempty
      · exact .nil
  | succ n ih =>
    refine .single (fun _ => rfl) (fun _ _ _ => nofun) fun choice => ?_
    cases hpool : s.pools[p]? with
    | none => simpa [step, stepShutdown, hpool] using Finishes.nil
    | some pool =>
      simp only [step, stepShutdown, hpool]
      split
      · rename_i t injector heq
        refine ih ?_
        have hitems := Queue.items_of_popFront heq
        simp only [hpool, Option.map_some, Option.getD_some, hitems, List.length_cons, Nat.add_right_cancel_iff] at hlen
        simpa [Store.pools_modifyPool, hpool] using hlen
      · exact .nil

theorem Drains.finishes (hf : f.Drains p) (s : Store V J) : Finishes start worker s [f] := by
  cases f with
  | shutdown q phase =>
    cases phase with
    | drainOwn w => exact .single (fun _ => rfl) (fun _ _ _ => nofun) fun _ => .nil
    | drainShared => exact finishes_drainShared
    | _ => exact hf.elim
  | _ => exact hf.elim

theorem finishes_collect : Finishes start worker s [.shutdown p .collect] := by
  refine .single (fun _ => rfl) (fun _ _ _ => nofun) fun choice => ?_
  simp only [step, stepShutdown]
  split
  · exact .nil
  · exact finishes_release_count _ _ _

end Frame

/-- Once the workers have ended, a shutdown call comes to its end by itself. -/
theorem Plan.finishes {start : J → Except RuntimeError (Body V J)} {worker : Option (PoolId × Nat)} {p : PoolId}
    {d : Pool V J} {g : Progress} {call : List (Frame V J)} (hplan : Plan p d g call)
    (hjoin : call ≠ [.shutdown p .join]) (s : Store V J) : Frame.Finishes start worker s call := by
  cases hplan with
  | join => exact absurd rfl hjoin
  | drain hfs =>
    exact (Frame.Finishes.of_forall (fun f hf s => (hfs f hf).finishes s) s).append fun _ => Frame.finishes_collect
  | release todo hfs =>
    exact (Frame.Finishes.of_forall (fun f hf s => (hfs f hf).finishes s) s).append
      (Frame.finishes_release_count todo _)
  | abandon t todo => exact Frame.finishes_abandon.append (Frame.finishes_release_count todo _)
  | discard t todo => exact Frame.finishes_discard.append (Frame.finishes_release_count todo _)
  | count => exact Frame.finishes_count _
  | done => exact .nil

/-- Only the end of a task can end the process. -/
theorem Frame.aborted_step {start : J → Except RuntimeError (Body V J)} {worker : Option (PoolId × Nat)} {choice : Nat}
    {s : Store V J} {f : Frame V J} (h : ∀ q t outcome, f ≠ .task q t (.tally outcome)) :
    (f.step start worker choice s).1.aborted = s.aborted := by
  cases f with
  | run r => exact (stepRun_pools_shelf_aborted worker s r).2.2
  | drop guards => cases guards <;> rfl
  | ended party outcome => cases party <;> rfl
  | spawn q job phase next =>
    cases phase <;> simp only [step, stepSpawn]
    all_goals repeat' split
    all_goals rfl
  | wake party =>
    cases party <;> simp only [step, stepWake]
    all_goals repeat' split
    all_goals rfl
  | task q t phase =>
    cases phase with
    | tally outcome => exact absurd rfl (h q t outcome)
    | enter =>
      simp only [step, stepTask]
      split
      · rfl
      · split <;> (try split) <;> rfl
    | _ =>
      simp only [step, stepTask]
      repeat' split
      all_goals rfl
  | work seek =>
    rcases worker with _ | ⟨q, w⟩
    · rfl
    · cases seek with
      | theft victims =>
        cases victims <;> simp only [step, stepWork]
        all_goals repeat' split
        all_goals rfl
      | _ =>
        simp only [step, stepWork]
        repeat' split
        all_goals rfl
  | shutdown q phase =>
    cases phase with
    | release tasks => cases tasks <;> rfl
    | _ =>
      simp only [step, stepShutdown]
      repeat' split
      all_goals rfl
  | _ =>
    simp only [step, stepPause, stepExchange, stepReschedule]
    repeat' split
    all_goals rfl

/-- How many steps a worker that looks for tasks is away from its end, if there are at most `n` workers and nothing to
do. -/
def Frame.laps (n : Nat) : Frame V J → Nat
  | .work .own => n + 5
  | .work .shared => n + 4
  | .work (.theft victims) => victims.length + 3
  | .work .idle => 2
  | .work .loop => 1
  | _ => 0

theorem LocalQueues.length_victims_le (workers thief first : Nat) : (victims workers thief first).length ≤ workers := by
  refine (List.length_filter_le _ _).trans ?_
  simp

/-- A worker of a stopped pool without work comes nearer to its end. -/
theorem Frame.laps_stepWork (choice w : Nat) {n : Nat} {s : Store V J} {p : PoolId} {pool : Pool V J} {seek : Seek}
    (hlook : (.work seek : Frame V J).IsLooking) (hpool : s.pools[p]? = some pool) (hclosed : pool.running = false)
    (hinjector : pool.injector.items = []) (hlocals : ∀ q ∈ pool.locals.queues, q.items = [])
    (hn : pool.locals.workers ≤ n) :
    ((stepWork choice s p w seek).2.map (laps n)).sum < (.work seek : Frame V J).laps n := by
  cases seek with
  | loop => simp [stepWork, hpool, hclosed, laps]
  | own =>
    have hpop := LocalQueues.popLocal_of_empty hlocals w
    simp only [stepWork, hpool]
    split
    · rename_i heq
      rw [heq] at hpop
      cases hpop
    · simp [laps]
  | shared =>
    simp only [stepWork, hpool]
    split
    · rename_i heq
      cases (Queue.items_of_popFront heq).symm.trans hinjector
    · split
      · have hle := LocalQueues.length_victims_le pool.locals.workers w choice
        simp only [List.map_cons, List.map_nil, List.sum_cons, List.sum_nil, laps]
        omega
      · simp [laps]
  | theft victims =>
    cases victims with
    | nil => simp [stepWork, laps]
    | cons victim victims =>
      have hsteal := LocalQueues.stealFrom_of_empty hlocals victim pool.config.stealBatch
      simp only [stepWork, hpool]
      split
      · simp [laps]
      · rename_i heq
        rw [heq] at hsteal
        cases hsteal
  | keep first rest => exact hlook.elim
  | idle => simp [stepWork, laps]

theorem Frame.join_notMem_step {start : J → Except RuntimeError (Body V J)} {worker : Option (PoolId × Nat)}
    {choice : Nat} {s : Store V J} {p : PoolId} :
    .shutdown p .join ∉ ((Frame.shutdown p .join).step start worker choice s).2 := by
  simp only [step, stepShutdown]
  split <;> simp

namespace Machine

variable {start : J → Except RuntimeError (Body V J)} {m : Machine V J} {p : PoolId} {i : Nat}

/-- Whatever those do who may act, in whatever order, the machine comes to the goal. -/
inductive Inevitable (start : J → Except RuntimeError (Body V J)) (who : Machine V J → Nat → Prop)
    (goal : Machine V J → Prop) : Machine V J → Prop where
  | now {m : Machine V J} (h : goal m) : Inevitable start who goal m
  | later {m : Machine V J} (hcan : ∃ j choice, who m j ∧ m.canStep j choice = true)
      (h : ∀ j choice, who m j → m.canStep j choice = true →
        Inevitable start who goal (m.after start (.step j choice))) : Inevitable start who goal m

/-- The thread itself and the workers of the pool. -/
def Concerns (p : PoolId) (i : Nat) (m : Machine V J) (j : Nat) : Prop :=
  j = i ∨ ∃ w stack, m.threads[j]? = some ⟨some (p, w), stack⟩

/-- Frames that a thread comes to the end of by itself it gets through if the workers of the pool have ended. -/
theorem inevitable_of_finishes {worker : Option (PoolId × Nat)} {s : Store V J} {call rest : List (Frame V J)}
    (h : Frame.Finishes start worker s call) (hs : m.store = s) (halive : s.aborted = false)
    (hi : m.threads[i]? = some ⟨worker, call ++ rest⟩) (hworker : ∀ w, worker ≠ some (p, w))
    (hended : ∀ (j w : Nat) (stack : List (Frame V J)), m.threads[j]? = some ⟨some (p, w), stack⟩ → stack = []) :
    Inevitable start (Concerns p i) (fun m => m.stackOf i = rest) m := by
  induction h generalizing m with
  | nil => exact .now (stackOf_eq hi)
  | @cons s f fs hfree hplain _ ih =>
    subst hs
    refine .later ⟨i, 0, .inl rfl, canStep_iff.2 ⟨halive, worker, f, fs ++ rest, hi, hfree 0⟩⟩ fun j choice hj hcan => ?_
    rcases hj with rfl | ⟨w, stack, hj⟩
    · obtain ⟨worker', f', below, hi', -, heq⟩ := after_of_canStep start hcan
      rw [hi] at hi'
      cases hi'
      rw [heq]
      refine ih choice rfl ?_ ?_ fun j w stack hj => ?_
      · exact (Frame.aborted_step hplain).trans halive
      · rw [List.append_assoc]
        exact getElem?_setIfInBounds_self hi
      · exact hended j w stack (worker_of_set hi hworker hj rfl)
    · obtain ⟨-, worker', f', below, hj', -⟩ := canStep_iff.1 hcan
      rw [hended j w stack hj, hj'] at hj
      cases hj

/-- Steps of workers that look for tasks leave the pool to the thread. -/
theorem Alone.of_workers {m' : Machine V J} (halone : m.Alone p i)
    (hlook : ∀ (j w : Nat) (stack : List (Frame V J)), m'.threads[j]? = some ⟨some (p, w), stack⟩ →
      ∀ f ∈ stack, f.IsLooking)
    (hsame : ∀ (j : Nat) (th : Thread V J), m'.threads[j]? = some th → (∀ w, th.worker ≠ some (p, w)) →
      m.threads[j]? = some th) : m'.Alone p i := by
  intro j th hj hji f hf hacts
  by_cases hworker : ∃ w, th.worker = some (p, w)
  · obtain ⟨w, hw⟩ := hworker
    obtain ⟨seek, rfl⟩ := (hlook j w th.stack (by rw [hj, ← hw]) f hf).exists_seek
    exact hacts.elim
  · exact halone j th (hsame j th hj fun w hw => hworker ⟨w, hw⟩) hji f hf hacts

/-- As long as workers are missing, one of them can take a step. -/
theorem Staffed.exists_worker (h : m.Staffed) {pool : Pool V J} (hpool : m.store.pools[p]? = some pool)
    (hmissing : pool.stopped < pool.config.numWorkers) :
    ∃ (j w : Nat) (f : Frame V J) (stack : List (Frame V J)), m.threads[j]? = some ⟨some (p, w), f :: stack⟩ := by
  by_contra hnone
  have hsum := h p pool hpool
  have hzero : m.frameSum (Frame.workOf p) = 0 := frameSum_eq_zero fun j th hj f hf => by
    rcases th with ⟨worker, stack⟩
    cases f with
    | work seek =>
      rcases worker with _ | ⟨q, w⟩
      · rfl
      · by_cases hq : q = p
        · subst hq
          cases stack with
          | nil => cases hf
          | cons f stack => exact absurd ⟨j, w, f, stack, hj⟩ hnone
        · simp [Frame.workOf, hq]
    | _ => rfl
  omega

/-- A shutdown call that has stopped the workers returns. -/
theorem inevitable_of_join {rest : List (Frame V J)} {d : Pool V J} {g : Progress} (n : Nat) (hm : m.Lawful)
    (halone : m.Alone p i) (halive : m.store.aborted = false) (h : m.Winding p i rest d g [.shutdown p .join])
    (hlive : d.live = d.registry.length) (hn : ∀ pool, m.store.pools[p]? = some pool → pool.locals.workers ≤ n) :
    Inevitable start (Concerns p i) (fun m => m.stackOf i = rest) m := by
  induction hlaps : m.frameSum (fun _ f => f.laps n) using Nat.strong_induction_on generalizing m with
  | _ laps ih =>
  obtain ⟨pool, hpool, hwinds⟩ := h.pool
  obtain ⟨worker, hi, hworker⟩ := h.thread
  have hlook : ∀ (j w : Nat) (stack : List (Frame V J)), m.threads[j]? = some ⟨some (p, w), stack⟩ →
      ∀ f ∈ stack, f.IsLooking := fun j w stack hj => (h.workers j w stack hj).1
  refine .later ?_ fun j choice hj hcan => ?_
  · rcases Nat.lt_or_ge pool.stopped pool.config.numWorkers with hmissing | hstopped
    · obtain ⟨j, w, f, stack, hj⟩ := hm.staffed.exists_worker hpool hmissing
      obtain ⟨seek, rfl⟩ := (hlook j w _ hj f (List.mem_cons_self ..)).exists_seek
      exact ⟨j, 0, .inr ⟨w, _, hj⟩, canStep_iff.2 ⟨halive, _, .work seek, stack, hj, rfl⟩⟩
    · refine ⟨i, 0, .inl rfl, canStep_iff.2 ⟨halive, worker, _, rest, hi, ?_⟩⟩
      simpa [Frame.isBlocked, hpool] using hstopped
  · obtain ⟨worker', f, below, hj', hfree, heq⟩ := after_of_canStep start hcan
    by_cases hji : j = i
    · -- the call goes on, so the workers have ended
      subst hji
      rw [hi] at hj'
      cases hj'
      obtain ⟨g', h', -⟩ := h.after_own start hlive hm.scheduled.framed hm.staffed hi hfree
      have hcall : (((Frame.shutdown p .join).step start worker choice m.store).2 ++ []) ≠ [.shutdown p .join] := by
        rw [List.append_nil]
        intro hcall
        exact Frame.join_notMem_step (hcall ▸ List.mem_singleton_self _)
      obtain ⟨worker', hi', hworker'⟩ := h'.thread
      rw [heq]
      refine inevitable_of_finishes (h'.plan.finishes hcall _) rfl ?_ hi' hworker' fun j w stack hj =>
        (h'.workers j w stack hj).2 hcall
      exact (Frame.aborted_step (f := .shutdown p .join) fun _ _ _ => by simp).trans halive
    · obtain ⟨w, stack, hstack⟩ := hj.resolve_left hji
      rw [hstack] at hj'
      cases hj'
      have hlooking := hlook j w _ hstack
      obtain ⟨seek, rfl⟩ := (hlooking f (List.mem_cons_self ..)).exists_seek
      have hother : ∀ e, m.taken (.step j choice) = some e → e.thread ≠ i := by
        intro e he
        obtain ⟨choice', -, hmv, -⟩ := after_of_taken start he
        cases hmv
        exact hji
      have h' := h.after_other start hm.scheduled.framed halone (.step j choice) hother
      have hlaps' : (m.after start (.step j choice)).frameSum (fun _ f => f.laps n) < laps := by
        obtain ⟨others, hbefore, hafter⟩ := frameSum_set (fun _ f => f.laps n) hstack
        have hless := Frame.laps_stepWork choice w (hlooking _ (List.mem_cons_self ..)) hpool
          hwinds.closed hwinds.injector hwinds.locals (hn pool hpool)
        rw [hbefore] at hlaps
        rw [heq, hafter, ← hlaps]
        exact Nat.add_lt_add_right hless others
      refine ih _ hlaps' (hm.after _) (halone.of_workers (fun j w stack hj => (h'.workers j w stack hj).1) ?_) ?_ h' ?_ rfl
      · intro j' th hj' hth
        rw [heq] at hj'
        rcases thread_of_set hstack hj' with ⟨-, rfl⟩ | ⟨-, hj'⟩
        · exact absurd rfl (hth w)
        · exact hj'
      · rw [heq]
        exact (Frame.aborted_step (f := .work seek) fun _ _ _ => by simp).trans halive
      · intro pool' hpool'
        obtain ⟨_, hkept, -, -, hworkers⟩ := m.after_keeps start (.step j choice) p pool hpool
        rw [hpool'] at hkept
        cases hkept
        exact hworkers.trans_le (hn pool hpool)

/-- A shutdown call that has stopped the pool returns, in whatever order it and the workers of the pool go on. -/
theorem Winding.inevitable {rest call : List (Frame V J)} {d : Pool V J} {g : Progress}
    (h : m.Winding p i rest d g call) (hm : m.Lawful) (halone : m.Alone p i) (halive : m.store.aborted = false)
    (hlive : d.live = d.registry.length) : Inevitable start (Concerns p i) (fun m => m.stackOf i = rest) m := by
  by_cases hjoin : call = [.shutdown p .join]
  · subst hjoin
    obtain ⟨pool, hpool, -⟩ := h.pool
    refine inevitable_of_join pool.locals.workers hm halone halive h hlive fun pool' hpool' => ?_
    rw [hpool] at hpool'
    cases hpool'
    exact Nat.le_refl _
  · obtain ⟨worker, hi, hworker⟩ := h.thread
    exact inevitable_of_finishes (h.plan.finishes hjoin _) rfl halive hi hworker fun j w stack hj =>
      (h.workers j w stack hj).2 hjoin

end Machine
end Dataflow
