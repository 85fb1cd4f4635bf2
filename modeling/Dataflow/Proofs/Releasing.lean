import Dataflow.Proofs.Closing

/-!
# Releasing

A shutdown call among the steps of everybody else. `Machine.Winding` is the state of the machine while a call is
winding a pool up: what the call has before it and has made of the pool, that the workers only look for tasks or have
ended, and that a registration of a task of the pool is one the call still has to withdraw. `Machine.Shutting` follows
a call from its first step. With nobody else acting on the pool, every move keeps it (`Machine.shutting_run`), and
together with the continuations dropped so far it tells at the end what has become of the pool
(`Machine.Shutting.returned`).
-/

namespace Dataflow

variable {V J : Type}

theorem Taken.drops?_eq_none {p : PoolId} {e : Taken V J} (h : ∀ t, e.frame ≠ .task p t .discard) :
    e.drops? p = none := by
  unfold drops?
  split
  · rename_i q t hframe
    rw [if_neg]
    rintro rfl
    exact h t hframe
  · rfl

theorem Frame.running_step {start : J → Except RuntimeError (Body V J)} {worker : Option (PoolId × Nat)}
    {choice : Nat} {s : Store V J} {p : PoolId} {f : Frame V J} (hclose : f ≠ .shutdown p .close) (h : s.Running p) :
    (f.step start worker choice s).1.Running p := by
  by_cases hloop : f = .work .loop
  · subst hloop
    rcases worker with _ | ⟨q, w⟩
    · exact h
    · simp only [step, stepWork]
      split
      · exact h
      · refine (Store.running_modifyPool ?_).2 h
        exact fun _ => rfl
  · have hdoor : (f.step start worker choice s).1.door p = s.door p := door_step hclose hloop
    obtain ⟨pool, hpool, hrunning⟩ := h
    rw [Store.door, Store.door, hpool] at hdoor
    obtain ⟨pool', hpool', heq⟩ := Option.map_eq_some_iff.1 hdoor
    exact ⟨pool', hpool', (congrArg Prod.fst heq).trans hrunning⟩

namespace Machine

variable {start : J → Except RuntimeError (Body V J)} {m : Machine V J} {p : PoolId} {i : Nat}

/-- Thread `i` is in the middle of a shutdown call that has stopped the pool `d` and still has `call` before it. -/
structure Winding (p : PoolId) (i : Nat) (rest : List (Frame V J)) (d : Pool V J) (g : Progress)
    (call : List (Frame V J)) (m : Machine V J) : Prop where
  pool : ∃ pool, m.store.pools[p]? = some pool ∧ d.Winding g pool
  plan : Plan p d g call
  thread : ∃ worker, m.threads[i]? = some ⟨worker, call ++ rest⟩ ∧ ∀ w, worker ≠ some (p, w)
  /-- Workers that have not ended look for tasks. -/
  workers : ∀ (j w : Nat) (stack : List (Frame V J)), m.threads[j]? = some ⟨some (p, w), stack⟩ →
    (∀ f ∈ stack, f.IsLooking) ∧ (call ≠ [.shutdown p .join] → stack = [])
  /-- A task that is registered with a cell has its continuation, or the call withdraws the registration. -/
  entries : ∀ k t, m.store.Enters k (.task p t) →
    (t ∈ g.left ∧ ∃ x, d.tasks[t]? = some x ∧ k ∈ x.stage.held) ∨ .withdraw k.1 k.2 ∈ call

theorem allFrames_of_frameSum_eq_zero {g : Option (PoolId × Nat) → Frame V J → Nat} {m : Machine V J}
    (h : m.frameSum g = 0) : m.AllFrames fun worker f => g worker f = 0 := by
  intro i th hi f hf
  have hth : th ∈ m.threads.toList := List.mem_iff_getElem?.2 ⟨i, by rw [Array.getElem?_toList, hi]⟩
  have hsum := List.sum_eq_zero_iff.1 h _ (List.mem_map_of_mem hth)
  exact List.sum_eq_zero_iff.1 hsum _ (List.mem_map_of_mem hf)

/-- If as many workers have ended as there were, all have. -/
theorem Staffed.ended (h : m.Staffed) {pool : Pool V J} (hpool : m.store.pools[p]? = some pool)
    (hstopped : pool.config.numWorkers ≤ pool.stopped) {j w : Nat} {stack : List (Frame V J)}
    (hj : m.threads[j]? = some ⟨some (p, w), stack⟩) (hlook : ∀ f ∈ stack, f.IsLooking) : stack = [] := by
  have hsum := h p pool hpool
  have hzero := allFrames_of_frameSum_eq_zero (g := Frame.workOf p) (m := m) (by omega) j _ hj
  cases stack with
  | nil => rfl
  | cons f stack =>
    obtain ⟨seek, rfl⟩ := (hlook f (List.mem_cons_self ..)).exists_seek
    have hwork := hzero (.work seek) (List.mem_cons_self ..)
    simp [Frame.workOf] at hwork

namespace Winding

variable {rest call : List (Frame V J)} {d : Pool V J} {g : Progress}

/-- What others do leaves the call as it is. -/
theorem after_other (start : J → Except RuntimeError (Body V J)) (h : m.Winding p i rest d g call) (hm : m.Framed)
    (halone : m.Alone p i) (mv : Move V J) (hother : ∀ e, m.taken mv = some e → e.thread ≠ i) :
    (m.after start mv).Winding p i rest d g call := by
  obtain ⟨pool, hpool, hwinds⟩ := h.pool
  obtain ⟨worker, hi, hworker⟩ := h.thread
  have hbeside := beside_after start hm halone (fun j w stack hj => (h.workers j w stack hj).1) hpool
    hwinds.injector hwinds.locals mv hother
  obtain ⟨pool', hpool', hlike⟩ := hbeside.pool
  refine ⟨⟨pool', hpool', hwinds.like hlike⟩, h.plan, ⟨worker, ?_, hworker⟩, fun j w stack hj => ?_,
    fun k t henters => h.entries k t (hbeside.entries k t henters)⟩
  · rcases thread_after start m mv hi with ⟨hafter, -⟩ | ⟨choice, f, _, -, -, -, -, htaken, -⟩
    · exact hafter
    · exact absurd rfl (hother _ htaken)
  · obtain ⟨hlook, stack', hj', hended⟩ := hbeside.workers j w stack hj
    exact ⟨hlook, fun hcall => hended ((h.workers j w stack' hj').2 hcall)⟩

/-- What the call itself does leads on. -/
theorem after_own (start : J → Except RuntimeError (Body V J)) {f : Frame V J} {worker : Option (PoolId × Nat)}
    {choice : Nat} (h : m.Winding p i rest d g (f :: call)) (hlive : d.live = d.registry.length) (hm : m.Framed)
    (hstaffed : m.Staffed)
    (hi : m.threads[i]? = some ⟨worker, f :: (call ++ rest)⟩) (hfree : f.isBlocked worker choice m.store = false) :
    ∃ g', Winding p i rest d g' ((f.step start worker choice m.store).2 ++ call)
        ⟨(f.step start worker choice m.store).1,
          m.threads.setIfInBounds i ⟨worker, (f.step start worker choice m.store).2 ++ (call ++ rest)⟩⟩ ∧
      ((g'.left.Perm g.left ∧ ∀ t, f ≠ .task p t .discard) ∨
        ∃ t, f = .task p t .discard ∧ g.left = t :: g'.left) := by
  obtain ⟨pool, hpool, hwinds⟩ := h.pool
  obtain ⟨worker', hi', hworker⟩ := h.thread
  obtain rfl : worker = worker' := by
    rw [hi] at hi'
    cases hi'
    rfl
  have hok : f.Ok worker m.store := hm.frames i _ hi f (List.mem_cons_self ..)
  obtain ⟨g', pool', hpool', hwinds', hplan', hleft⟩ : Plan.Leads p d g f call (f.step start worker choice m.store) :=
    h.plan.step hlive hpool hwinds hok hworker
  refine ⟨g', ⟨⟨pool', hpool', hwinds'⟩, hplan', ?_, fun j w stack hj => ?_, fun k t henters => ?_⟩, ?_⟩
  · exact ⟨worker, by rw [getElem?_setIfInBounds_self hi, List.append_assoc], hworker⟩
  · obtain ⟨hlook, hended⟩ := h.workers j w stack (worker_of_set hi hworker hj rfl)
    refine ⟨hlook, fun _ => ?_⟩
    by_cases hjoin : f :: call = [.shutdown p .join]
    · -- the call goes on when all workers have ended
      obtain rfl : f = .shutdown p .join := (List.cons.inj hjoin).1
      have hstopped : pool.config.numWorkers ≤ pool.stopped := by
        simpa [Frame.isBlocked, hpool] using hfree
      exact hstaffed.ended hpool hstopped (worker_of_set hi hworker hj rfl) hlook
    · exact hended hjoin
  · obtain ⟨hbody, -⟩ := h.plan.plain f (List.mem_cons_self ..)
    rcases Frame.enters_step henters with ⟨r, rfl, -⟩ | ⟨hbefore, hminds⟩
    · exact absurd rfl (hbody r).1
    rcases h.entries k t hbefore with ⟨ht, x, hx, hk⟩ | hwithdraw
    · rcases hleft with ⟨hperm, -⟩ | ⟨u, -, hu, hheld⟩
      · exact .inl ⟨hperm.mem_iff.2 ht, x, hx, hk⟩
      · rw [hu] at ht
        rcases List.mem_cons.1 ht with rfl | ht
        · exact .inr (List.mem_append_left _ (hheld x hx k hk))
        · exact .inl ⟨ht, x, hx, hk⟩
    · rcases List.mem_cons.1 hwithdraw with rfl | hwithdraw
      · rcases hminds rfl with ⟨_, hnone, -⟩ | ⟨r, hr⟩
        · cases hnone
        · cases hr
      · exact .inr (List.mem_append_right _ hwithdraw)
  · rcases hleft with hleft | ⟨u, hu, hleft, -⟩
    · exact .inl hleft
    · exact .inr ⟨u, hu, hleft⟩

/-- The continuations that the call has dropped and those that it has yet to drop. -/
theorem dropped_own (worker : Option (PoolId × Nat)) {f : Frame V J} {g' : Progress} {drops : List (Continuation V J)}
    (h : m.Winding p i rest d g (f :: call))
    (hleft : (g'.left.Perm g.left ∧ ∀ t, f ≠ .task p t .discard) ∨ ∃ t, f = .task p t .discard ∧ g.left = t :: g'.left)
    (hdrops : (drops ++ g.left.filterMap d.continuation?).Perm d.continuations) :
    (drops ++ ((⟨i, worker, f, m.store⟩ : Taken V J).drops? p).toList ++
      g'.left.filterMap d.continuation?).Perm d.continuations := by
  obtain ⟨pool, hpool, hwinds⟩ := h.pool
  rcases hleft with ⟨hperm, hf⟩ | ⟨t, rfl, hleft⟩
  · rw [Taken.drops?_eq_none hf, Option.toList_none, List.append_nil]
    exact ((hperm.filterMap _).append_left drops).trans hdrops
  · have hdropped : (⟨i, worker, .task p t .discard, m.store⟩ : Taken V J).drops? p = d.continuation? t := by
      rw [← hwinds.continuation?_eq (hleft ▸ List.mem_cons_self ..)]
      simp [Taken.drops?, hpool]
    rw [hdropped]
    rw [hleft] at hdrops
    cases ht : d.continuation? t with
    | none => simpa [List.filterMap_cons, ht] using hdrops
    | some c => simpa [List.filterMap_cons, ht] using hdrops

end Winding

/-- A pool runs until a shutdown call stops it. -/
theorem running_after (h : m.store.Running p) (mv : Move V J)
    (hclose : ∀ e, m.taken mv = some e → e.frame ≠ .shutdown p .close) : (m.after start mv).store.Running p := by
  obtain ⟨pool, hpool, hrunning⟩ := h
  cases mv with
  | step j choice =>
    rcases m.after_step start j choice with ⟨heq, -⟩ | ⟨worker, f, below, -, -, -, htaken, heq⟩
    · rw [heq]
      exact ⟨pool, hpool, hrunning⟩
    · rw [heq]
      exact Frame.running_step (hclose _ htaken) ⟨pool, hpool, hrunning⟩
  | startPool config =>
    rcases m.after_startPool start config with heq | heq
    · rw [heq]
      exact ⟨pool, hpool, hrunning⟩
    · rw [heq]
      exact ⟨pool, pools_addPool hpool, hrunning⟩
  | enter body => exact ⟨pool, hpool, hrunning⟩
  | poll | discard =>
    simp only [Machine.after]
    split
    all_goals exact ⟨pool, hpool, hrunning⟩

/-- The step that stops the workers of a pool without work. -/
theorem Drained.winding {worker : Option (PoolId × Nat)} {rest : List (Frame V J)} {d : Pool V J} (h : m.Drained p)
    (hm : m.Lawful) (hpool : m.store.pools[p]? = some d) (hi : m.threads[i]? = some ⟨worker, .shutdown p .close :: rest⟩)
    (hworker : ∀ w, worker ≠ some (p, w)) :
    Winding p i rest d ⟨true, d.live, [], d.registry⟩ [.shutdown p .join]
      ⟨m.store.modifyPool p fun pool => { pool with running := false },
        m.threads.setIfInBounds i ⟨worker, [.shutdown p .join] ++ rest⟩⟩ := by
  obtain ⟨d', hpool', hrunning, hquiet⟩ := h.pool
  obtain rfl : d' = d := Option.some.inj (hpool'.symm.trans hpool)
  have hopen : ¬ m.store.Closed p := fun hc => hc.not_running ⟨d', hpool, hrunning⟩
  refine ⟨⟨_, Plan.pools_modifyPool_self hpool, hquiet.winding⟩, .join, ⟨worker, getElem?_setIfInBounds_self hi, hworker⟩,
    fun j w stack hj => ⟨?_, fun hne => absurd rfl hne⟩, fun k t henters => .inl ?_⟩
  · exact h.workers j w stack (worker_of_set hi hworker hj rfl)
  · -- a worker that looks for tasks has no registration, so the task has kept it
    rcases hm.minded p hopen k t henters with ⟨x, hx, hk⟩ | ⟨j, w, stack, hj, f, hf, hminds⟩
    · rw [Store.task?_eq, hpool] at hx
      refine ⟨hquiet.mem_registry_of_stage hx fun hstage => ?_, x, hx, hk⟩
      rw [hstage] at hk
      cases hk
    · have hlook := h.workers j w stack hj f hf
      cases f <;> first | exact hminds.elim | exact hlook.elim

/-- Where a shutdown call of thread `i` stands, if the steps `tr` were taken since it began. -/
inductive Shutting (p : PoolId) (i : Nat) (rest : List (Frame V J)) (m : Machine V J) (tr : List (Taken V J)) :
    Prop where
  | asked {worker} (hi : m.threads[i]? = some ⟨worker, .shutdown p .check :: rest⟩) (hrunning : m.store.Running p)
      (hdrops : tr.filterMap (Taken.drops? p) = [])
  | waiting {worker} (hi : m.threads[i]? = some ⟨worker, .waitIdle p :: .shutdown p .close :: rest⟩)
      (hrunning : m.store.Running p) (hdrops : tr.filterMap (Taken.drops? p) = [])
  | drained {worker} (hi : m.threads[i]? = some ⟨worker, .shutdown p .close :: rest⟩)
      (hworker : ∀ w, worker ≠ some (p, w)) (h : m.Drained p) (hdrops : tr.filterMap (Taken.drops? p) = [])
  | winding {d g call} (hclosed : ∃ e ∈ tr, e.thread = i ∧ e.frame = .shutdown p .close ∧ e.store.pools[p]? = some d)
      (hquiet : d.Quiet) (h : m.Winding p i rest d g call)
      (hdrops : (tr.filterMap (Taken.drops? p) ++ g.left.filterMap d.continuation?).Perm d.continuations)

/-- Nobody drops a continuation of a pool that was not stopped. -/
theorem Framed.drops?_eq_none (hm : m.Framed) (h : ¬ m.store.Closed p) {mv : Move V J} {e : Taken V J}
    (he : m.taken mv = some e) : e.drops? p = none := by
  obtain ⟨below, hj⟩ := thread_of_taken he
  refine Taken.drops?_eq_none fun t hframe => h ?_
  have hok := hm.frames _ _ hj _ (List.mem_cons_self ..)
  rwa [hframe] at hok

/-- Nobody but the thread itself does. -/
theorem Alone.drops?_eq_none (halone : m.Alone p i)
    (hlook : ∀ (j w : Nat) (stack : List (Frame V J)), m.threads[j]? = some ⟨some (p, w), stack⟩ →
      ∀ f ∈ stack, f.IsLooking) {mv : Move V J} {e : Taken V J} (he : m.taken mv = some e) (hother : e.thread ≠ i) :
    e.drops? p = none := by
  obtain ⟨below, hj⟩ := thread_of_taken he
  refine Taken.drops?_eq_none fun t hframe => ?_
  obtain ⟨⟨w, hw⟩, -⟩ := halone _ _ hj hother e.frame (List.mem_cons_self ..) (by rw [hframe]; rfl)
  simp only at hw
  rw [hw] at hj
  have hlooking := hlook _ _ _ hj e.frame (List.mem_cons_self ..)
  rw [hframe] at hlooking
  exact hlooking

theorem filterMap_taken {α : Type} (g : Taken V J → Option α) (tr : List (Taken V J)) (mv : Move V J) :
    (tr ++ (m.taken mv).toList).filterMap g = tr.filterMap g ++ ((m.taken mv).bind g).toList := by
  rw [List.filterMap_append]
  cases m.taken mv with
  | none => rfl
  | some e => cases he : g e <;> simp [he]

namespace Shutting

variable {rest : List (Frame V J)} {tr : List (Taken V J)} {worker : Option (PoolId × Nat)}

theorem filterMap_eq_nil (hdrops : tr.filterMap (Taken.drops? p) = []) (mv : Move V J)
    (hnone : ∀ e, m.taken mv = some e → e.drops? p = none) :
    (tr ++ (m.taken mv).toList).filterMap (Taken.drops? p) = [] := by
  rw [filterMap_taken, hdrops]
  cases he : m.taken mv with
  | none => rfl
  | some e => simp [hnone e he]

theorem running_after_other (halone : m.Alone p i) (mv : Move V J) (hrunning : m.store.Running p)
    (hother : ∀ e, m.taken mv = some e → e.thread ≠ i) : (m.after start mv).store.Running p := by
  refine running_after hrunning mv fun e he hframe => ?_
  obtain ⟨below, hj⟩ := thread_of_taken he
  exact (halone _ _ hj (hother e he) e.frame (List.mem_cons_self ..) (by rw [hframe]; rfl)).2 _ hframe

section after

variable (hm : m.Lawful) (halone : m.Alone p i) (mv : Move V J)

include hm halone

theorem after_asked (hi : m.threads[i]? = some ⟨worker, .shutdown p .check :: rest⟩) (hrunning : m.store.Running p)
    (hdrops : tr.filterMap (Taken.drops? p) = []) :
    Shutting p i rest (m.after start mv) (tr ++ (m.taken mv).toList) := by
  have hopen : ¬ m.store.Closed p := fun hc => hc.not_running hrunning
  have hdrops' := filterMap_eq_nil hdrops mv fun e he => hm.scheduled.framed.drops?_eq_none hopen he
  rcases thread_after start m mv hi with ⟨hi', hother⟩ | ⟨choice, f, below, -, hf, -, -, -, heq⟩
  · exact .asked hi' (running_after_other halone mv hrunning hother) hdrops'
  · obtain ⟨rfl, rfl⟩ := List.cons.inj hf
    have hstep : (Frame.shutdown p .check).step start worker choice m.store =
        (m.store, [.waitIdle p, .shutdown p .close]) := if_pos ((Store.running_iff _ _).1 hrunning)
    rw [hstep] at heq
    rw [heq] at ⊢
    exact .waiting (getElem?_setIfInBounds_self hi) hrunning hdrops'

theorem after_waiting (hi : m.threads[i]? = some ⟨worker, .waitIdle p :: .shutdown p .close :: rest⟩)
    (hrunning : m.store.Running p) (hdrops : tr.filterMap (Taken.drops? p) = []) :
    Shutting p i rest (m.after start mv) (tr ++ (m.taken mv).toList) := by
  have hopen : ¬ m.store.Closed p := fun hc => hc.not_running hrunning
  have hdrops' := filterMap_eq_nil hdrops mv fun e he => hm.scheduled.framed.drops?_eq_none hopen he
  rcases thread_after start m mv hi with ⟨hi', hother⟩ | ⟨choice, f, below, -, hf, halive, hfree, -, heq⟩
  · exact .waiting hi' (running_after_other halone mv hrunning hother) hdrops'
  · obtain ⟨rfl, rfl⟩ := List.cons.inj hf
    obtain ⟨pool, hpool, hrunning⟩ := hrunning
    have hactive : pool.active = 0 := by simpa [Frame.isBlocked, hpool] using hfree
    have hdrained := hm.drained halive hpool hrunning hactive halone (stackOf_eq hi)
    have hworker := hm.worker_ne halive hpool hrunning hactive hi
    rw [heq]
    refine .drained (getElem?_setIfInBounds_self hi) hworker ⟨hdrained.pool, fun j w stack hj => ?_⟩ hdrops'
    exact hdrained.workers j w stack (worker_of_set hi hworker hj rfl)

theorem after_drained (hi : m.threads[i]? = some ⟨worker, .shutdown p .close :: rest⟩)
    (hworker : ∀ w, worker ≠ some (p, w)) (h : m.Drained p) (hdrops : tr.filterMap (Taken.drops? p) = []) :
    Shutting p i rest (m.after start mv) (tr ++ (m.taken mv).toList) := by
  rcases thread_after start m mv hi with ⟨hi', hother⟩ | ⟨choice, f, below, -, hf, -, -, htaken, heq⟩
  · refine .drained hi' hworker (h.after hm.scheduled.framed halone mv hother) ?_
    exact filterMap_eq_nil hdrops mv fun e he => halone.drops?_eq_none h.workers he (hother e he)
  · obtain ⟨rfl, rfl⟩ := List.cons.inj hf
    obtain ⟨d, hpool, -, hquiet⟩ := h.pool
    have hdrops' := filterMap_eq_nil hdrops mv fun e he => by
      rw [htaken] at he
      cases he
      rfl
    have hmem : ⟨i, worker, .shutdown p .close, m.store⟩ ∈ tr ++ (m.taken mv).toList :=
      List.mem_append_right _ (by simp [htaken])
    rw [heq]
    refine .winding ⟨_, hmem, rfl, rfl, hpool⟩ hquiet (h.winding hm hpool hi hworker) ?_
    rw [hdrops']
    exact .of_eq hquiet.filterMap_registry

theorem after_winding {d : Pool V J} {g : Progress} {call : List (Frame V J)} (hgoing : m.stackOf i ≠ rest)
    (hclosed : ∃ e ∈ tr, e.thread = i ∧ e.frame = .shutdown p .close ∧ e.store.pools[p]? = some d) (hquiet : d.Quiet)
    (h : m.Winding p i rest d g call)
    (hdrops : (tr.filterMap (Taken.drops? p) ++ g.left.filterMap d.continuation?).Perm d.continuations) :
    Shutting p i rest (m.after start mv) (tr ++ (m.taken mv).toList) := by
  obtain ⟨worker, hi, -⟩ := h.thread
  have hclosed' : ∃ e ∈ tr ++ (m.taken mv).toList, e.thread = i ∧ e.frame = .shutdown p .close ∧
      e.store.pools[p]? = some d := by
    obtain ⟨e, he, hthread⟩ := hclosed
    exact ⟨e, List.mem_append_left _ he, hthread⟩
  rcases thread_after start m mv hi with ⟨-, hother⟩ | ⟨choice, f, below, -, hf, -, hfree, htaken, heq⟩
  · refine .winding hclosed' hquiet (h.after_other start hm.scheduled.framed halone mv hother) ?_
    have hnone : (m.taken mv).bind (Taken.drops? p) = none := by
      cases he : m.taken mv with
      | none => rfl
      | some e => exact halone.drops?_eq_none (fun j w stack hj => (h.workers j w stack hj).1) he (hother e he)
    rw [filterMap_taken, hnone, Option.toList_none, List.append_nil]
    exact hdrops
  · cases call with
    | nil => exact absurd (stackOf_eq hi) hgoing
    | cons f' call =>
      obtain ⟨rfl, rfl⟩ := List.cons.inj hf
      obtain ⟨g', h', hleft⟩ := h.after_own start hquiet.live hm.scheduled.framed hm.staffed hi hfree
      have hdrops' := h.dropped_own worker hleft hdrops
      rw [heq]
      refine .winding hclosed' hquiet h' ?_
      rw [filterMap_taken, htaken]
      exact hdrops'

end after

/-- The frames below the call wait for it. -/
theorem suffix (h : Shutting p i rest m tr) : rest <:+ m.stackOf i := by
  cases h with
  | asked hi _ _ => exact ⟨[.shutdown p .check], (stackOf_eq hi).symm⟩
  | waiting hi _ _ => exact ⟨[.waitIdle p, .shutdown p .close], (stackOf_eq hi).symm⟩
  | drained hi _ _ _ => exact ⟨[.shutdown p .close], (stackOf_eq hi).symm⟩
  | winding _ _ h _ =>
    obtain ⟨worker, hi, -⟩ := h.thread
    exact ⟨_, (stackOf_eq hi).symm⟩

/-- Every move of a run leads the call on or leaves it where it is. -/
theorem after (h : Shutting p i rest m tr) (hm : m.Lawful) (halone : m.Alone p i) (hgoing : m.stackOf i ≠ rest)
    (mv : Move V J) : Shutting p i rest (m.after start mv) (tr ++ (m.taken mv).toList) := by
  cases h with
  | asked hi hrunning hdrops => exact after_asked hm halone mv hi hrunning hdrops
  | waiting hi hrunning hdrops => exact after_waiting hm halone mv hi hrunning hdrops
  | drained hi hworker h hdrops => exact after_drained hm halone mv hi hworker h hdrops
  | winding hclosed hquiet h hdrops => exact after_winding hm halone mv hgoing hclosed hquiet h hdrops

end Shutting

theorem Lawful.run (h : m.Lawful) (mvs : List (Move V J)) : (m.run start mvs).Lawful :=
  run_induction start (fun _ mv h => h.after mv) h mvs

/-- A run leads the call on as long as nobody else acts on the pool and the call has not returned. -/
theorem shutting_run {rest : List (Frame V J)} (hm : m.Lawful) (hcall : m.stackOf i = .shutdown p .check :: rest)
    (hrunning : m.store.Running p) {during : List (Move V J)}
    (halone : ∀ k < during.length, (m.run start (during.take k)).Alone p i)
    (hgoing : ∀ k < during.length, (m.run start (during.take k)).stackOf i ≠ rest) :
    Shutting p i rest (m.run start during) (m.trace start during) := by
  have htake : ∀ k ≤ during.length,
      Shutting p i rest (m.run start (during.take k)) (m.trace start (during.take k)) := by
    intro k
    induction k with
    | zero =>
      intro _
      obtain ⟨⟨worker, stack⟩, hi, hstack⟩ := exists_of_stackOf_ne_nil (m := m) (i := i) (by rw [hcall]; exact nofun)
      obtain rfl : stack = .shutdown p .check :: rest := hstack.symm.trans hcall
      exact .asked hi hrunning rfl
    | succ k ih =>
      intro hk
      rw [List.take_succ_eq_append_getElem hk, run_append, trace_append]
      have hlaw : (m.run start (during.take k)).Lawful := hm.run _
      have hbefore := ih (Nat.le_of_succ_le hk)
      simpa [Machine.run, trace] using hbefore.after hlaw (halone k hk) (hgoing k hk) during[k]
  simpa using htake during.length (Nat.le_refl _)

end Machine

/-- What a shutdown call leaves of the pool `d` that it stopped. -/
structure Pool.Released (d pool : Pool V J) : Prop where
  closed : pool.running = false
  /-- The tasks that had not ended are failed. -/
  tasks : pool.tasks = d.tasks.map Task.released
  ended : ∀ y ∈ pool.tasks, y.state.isTerminal = true
  registry : pool.registry = []
  injector : pool.injector.items = []
  locals : ∀ q ∈ pool.locals.queues, q.items = []
  queued : pool.queued = 0
  active : pool.active = 0
  live : pool.live = 0
  stats : pool.stats = d.stats

theorem Task.isTerminal_released (x : Task V J) : x.released.state.isTerminal = true := by
  rw [released]
  cases x.state <;> rfl

theorem Pool.Winding.released {d pool : Pool V J} (h : d.Winding ⟨false, 0, [], []⟩ pool) : d.Released pool := by
  have htasks : pool.tasks = d.tasks.map Task.released := by
    refine Array.ext (by simp [h.size]) fun t ht ht' => ?_
    have hlt : t < d.tasks.size := h.size ▸ ht
    have hy := h.tasks t _ _ (Array.getElem?_eq_getElem hlt) (Array.getElem?_eq_getElem ht)
    obtain ⟨hstage, hstate⟩ := hy.done nofun
    have hregistered : pool.tasks[t].registered = false := hy.registered
    rw [Array.getElem_map]
    rcases hyt : pool.tasks[t] with ⟨state, stage, registered⟩
    rw [hyt] at hstage hstate hregistered
    simp only at hstage hstate hregistered
    rw [hstage, hstate, hregistered]
    rfl
  refine ⟨h.closed, htasks, fun y hy => ?_, ?_, h.injector, h.locals, h.queued, h.active, h.live, h.stats⟩
  · rw [htasks] at hy
    obtain ⟨x, -, rfl⟩ := Array.mem_map.1 hy
    exact x.isTerminal_released
  · refine List.eq_nil_iff_forall_not_mem.2 fun t ht => ?_
    obtain ⟨y, hy, hregistered⟩ := (Pool.mem_registry _).1 ht
    rw [htasks, Array.getElem?_map] at hy
    obtain ⟨x, -, rfl⟩ := Option.map_eq_some_iff.1 hy
    cases hregistered

/-- When the call returns, it has released everything: it dropped each continuation that the pool had when it was
stopped, once, and no cell knows a task of the pool. -/
theorem Machine.Shutting.returned {m : Machine V J} {p : PoolId} {i : Nat} {rest : List (Frame V J)}
    {tr : List (Taken V J)} (h : Shutting p i rest m tr) (hreturned : m.stackOf i = rest) :
    ∃ e ∈ tr, ∃ d pool, e.thread = i ∧ e.frame = .shutdown p .close ∧ e.store.pools[p]? = some d ∧ d.Quiet ∧
      m.store.pools[p]? = some pool ∧ d.Released pool ∧ (tr.filterMap (Taken.drops? p)).Perm d.continuations ∧
      (∀ k t, ¬ m.store.Enters k (.task p t)) ∧
      ∀ (j w : Nat) (stack : List (Frame V J)), m.threads[j]? = some ⟨some (p, w), stack⟩ → stack = [] := by
  have nothing : ∀ {worker} (frames : List (Frame V J)), m.threads[i]? = some ⟨worker, frames ++ rest⟩ →
      frames = [] := by
    intro worker frames hi
    rw [stackOf_eq hi] at hreturned
    exact List.append_left_eq_self.1 hreturned
  cases h with
  | asked hi _ _ => cases nothing [.shutdown p .check] hi
  | waiting hi _ _ => cases nothing [.waitIdle p, .shutdown p .close] hi
  | drained hi _ _ _ => cases nothing [.shutdown p .close] hi
  | @winding d g call hclosed hquiet h hdrops =>
    obtain ⟨worker, hi, -⟩ := h.thread
    obtain rfl := nothing call hi
    obtain ⟨pool, hpool, hwinds⟩ := h.pool
    obtain rfl := h.plan.eq_done
    obtain ⟨e, he, hthread, hframe, hd⟩ := hclosed
    refine ⟨e, he, d, pool, hthread, hframe, hd, hquiet, hpool, hwinds.released, ?_, fun k t henters => ?_,
      fun j w stack hj => (h.workers j w stack hj).2 nofun⟩
    · simpa [Progress.left] using hdrops
    · rcases h.entries k t henters with ⟨hleft, -⟩ | hwithdraw
      · cases hleft
      · cases hwithdraw

end Dataflow
