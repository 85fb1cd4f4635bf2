import Dataflow.Proofs.Crews

/-!
# Shutting down a pool that is without work

Where nobody but a program acts on a pool, and the pool is without work, the shutdown call of the program has nothing to
release. Then all that goes on is the call itself and the workers, which find the pool stopped (`Machine.Retires.after`);
nothing is said or written meanwhile, and nothing asked of the pool (`Machine.Unmoved`).
-/

namespace Dataflow

/-- The rest of a shutdown call that has nothing to release. -/
def Frame.Winds {V J : Type} : Frame V J → Prop
  | .shutdown p .join | .shutdown p (.drainOwn _) | .shutdown p .drainShared | .shutdown p .collect => p = 0
  | .shutdown p (.release tasks) => p = 0 ∧ tasks = []
  | .count p _ => p = 0
  | _ => False

namespace Frame

variable {V J : Type} {start : J → Except RuntimeError (Body V J)} {worker : Option (PoolId × Nat)} {choice : Nat}
  {s : Store V J} {f : Frame V J}

theorem Winds.step (h : f.Winds) (start : J → Except RuntimeError (Body V J)) (worker : Option (PoolId × Nat))
    (choice : Nat) (s : Store V J) : (f.step start worker choice s).1.notes = s.notes ∧
    (f.step start worker choice s).1.cells = s.cells ∧ ∀ g ∈ (f.step start worker choice s).2, g.Winds ∨ ∃ tasks, g = .shutdown 0 (.release tasks) := by
  cases f with
  | shutdown p phase =>
    cases phase with
    | check | close => exact h.elim
    | join =>
      obtain rfl : p = 0 := h
      simp only [Frame.step, stepShutdown]
      split
      · exact ⟨rfl, rfl, by simp⟩
      · refine ⟨rfl, rfl, fun g hg => .inl ?_⟩
        simp only [List.mem_append, List.mem_map, List.mem_cons, List.not_mem_nil, or_false] at hg
        rcases hg with ⟨w, -, rfl⟩ | rfl | rfl <;> exact rfl
    | drainOwn w => exact ⟨rfl, rfl, by simp [Frame.step, stepShutdown]⟩
    | drainShared =>
      obtain rfl : p = 0 := h
      simp only [Frame.step, stepShutdown]
      repeat' split
      all_goals exact ⟨rfl, rfl, by simp [Winds]⟩
    | collect =>
      obtain rfl : p = 0 := h
      simp only [Frame.step, stepShutdown]
      split
      · exact ⟨rfl, rfl, by simp⟩
      · exact ⟨rfl, rfl, by simp [Winds]⟩
    | release tasks =>
      obtain ⟨rfl, rfl⟩ := h
      exact ⟨rfl, rfl, by simp [Frame.step, stepShutdown]⟩
  | count p change => exact ⟨rfl, rfl, by simp [Frame.step]⟩
  | _ => exact h.elim

/-- It does not depend on a choice whether it has to wait. -/
theorem Winds.isBlocked_eq (h : f.Winds) (choice' : Nat) : f.isBlocked worker choice' s = f.isBlocked worker choice s := by
  cases f with
  | shutdown p phase => cases phase <;> rfl
  | count p change => rfl
  | _ => exact h.elim

theorem Winds.call?_eq_none (h : f.Winds) (i : Nat) : Taken.call? 0 ⟨i, worker, f, s⟩ = none := by
  cases f with
  | shutdown p phase => rfl
  | count p change => rfl
  | _ => exact h.elim

end Frame

/-- What a shutdown call is about to release is left. -/
theorem Plan.mem_left {V J : Type} {p : PoolId} {d : Pool V J} {g : Progress} {call : List (Frame V J)}
    {tasks : List TaskId} (hplan : Plan p d g call) (hmem : .shutdown p (.release tasks) ∈ call) :
    ∀ t ∈ tasks, t ∈ g.left := by
  intro t ht
  cases hplan with
  | join | count => cases List.mem_singleton.1 hmem
  | done => cases hmem
  | drain hfs =>
    rcases List.mem_append.1 hmem with hmem | hmem
    · exact (hfs _ hmem).elim
    · cases List.mem_singleton.1 hmem
  | release todo hfs =>
    rcases List.mem_append.1 hmem with hmem | hmem
    · exact (hfs _ hmem).elim
    · rcases List.mem_cons.1 hmem with heq | hmem
      · cases heq
        exact ht
      · cases List.mem_singleton.1 hmem
  | abandon u todo | discard u todo =>
    simp only [List.mem_cons, Frame.shutdown.injEq, ShutdownPhase.release.injEq, true_and, reduceCtorEq, List.not_mem_nil,
      or_false, false_or] at hmem
    exact List.mem_cons_of_mem _ (hmem ▸ ht)

/-- The tasks of a pool have all ended when each of them has. -/
theorem Store.completed_of_task? {V J : Type} {s : Store V J} {d : Pool V J} (hd : s.pools[0]? = some d)
    (h : ∀ t < d.tasks.size, ∃ y, s.task? 0 t = some y ∧ y.state = .completed) : ∀ y ∈ d.tasks, y.state = .completed := by
  intro y hy
  obtain ⟨t, ht⟩ := Array.mem_iff_getElem?.1 hy
  obtain ⟨z, hz, hstate⟩ := h t (Array.getElem?_eq_some_iff.1 ht).1
  rw [Store.task?_eq, hd, Option.bind_some, ht] at hz
  cases hz
  exact hstate

/-- A pool whose tasks have all ended has none in its registry. -/
theorem Pool.Quiet.registry_eq_nil {V J : Type} {d : Pool V J} (h : d.Quiet) (hended : ∀ y ∈ d.tasks, y.state = .completed) :
    d.registry = [] := by
  refine List.eq_nil_iff_forall_not_mem.2 fun t ht => ?_
  obtain ⟨y, hy, hregistered⟩ := (Pool.mem_registry _).1 ht
  have hparked := (h.registry t y hy).1 hregistered
  rw [hended y (Array.mem_of_getElem? hy)] at hparked
  cases hparked

namespace Machine

variable {V J : Type} {m m' : Machine V J} {D i choice : Nat} {worker : Option (PoolId × Nat)} {f : Frame V J}
  {rest below : List (Frame V J)} {d : Pool V J}

/-- The program on thread `D` is in the middle of the shutdown call that stopped the pool `d`, which was without work.
Nothing is left to release, and then the program goes on below. -/
structure Retires (D : Nat) (below : List (Frame V J)) (d : Pool V J) (m : Machine V J) : Prop where
  lawful : m.Lawful
  alive : m.store.aborted = false
  alone : m.Alone 0 D
  others : ∀ (j : Nat) (th : Thread V J), m.threads[j]? = some th → j ≠ D → ∃ w, th.worker = some (0, w)
  winding : ∃ g call, m.Winding 0 D below d g call ∧ g.left = [] ∧ ∀ f ∈ call, f.Winds
  quiet : d.Quiet

/-- A step, if it is one, changes neither what is said nor what the cells hold, and asks nothing of the pool. -/
structure Unmoved (m : Machine V J) (e : Option (Taken V J)) (m' : Machine V J) : Prop where
  notes : m'.store.notes = m.store.notes
  cells : m'.store.cells = m.store.cells
  call : e.bind (Taken.call? 0) = none

namespace Retires

/-- The program stops the workers of a pool that is without work. -/
theorem of_close (start : J → Except RuntimeError (Body V J)) (choice : Nat) (h : m.Crew D) (hdrained : m.Drained 0)
    (hD : m.threads[D]? = some ⟨none, .shutdown 0 .close :: below⟩) (hpool : m.store.pools[0]? = some d)
    (hregistry : d.registry = []) : Retires D below d (m.after start (.step D choice)) ∧
      Unmoved m (m.taken (.step D choice)) (m.after start (.step D choice)) := by
  obtain ⟨pool, hpool', hrunning, hquiet⟩ := hdrained.pool
  obtain rfl : pool = d := Option.some.inj (hpool'.symm.trans hpool)
  have hfree : (Frame.shutdown 0 .close : Frame V J).isBlocked none choice m.store = false := rfl
  have hlawful : (m.after start (.step D choice)).Lawful := h.lawful.after _
  obtain ⟨heq, htaken⟩ := h.after_eq start hD hfree
  have hwinding : (m.after start (.step D choice)).Winding 0 D below pool ⟨true, pool.live, [], pool.registry⟩
      [.shutdown 0 .join] := by
    rw [heq]
    exact hdrained.winding h.lawful hpool hD fun w => by simp
  refine ⟨⟨hlawful, ?_, fun j th hj hne => ?_, fun j th hj hne => ?_, ⟨_, _, hwinding, hregistry, fun f hf => ?_⟩, hquiet⟩,
    ?_, ?_, ?_⟩
  · rw [heq]
    exact h.alive
  · rw [heq, Array.getElem?_setIfInBounds_ne (Ne.symm hne)] at hj
    exact h.alone j th hj hne
  · rw [heq, Array.getElem?_setIfInBounds_ne (Ne.symm hne)] at hj
    exact h.others j th hj hne
  · rw [List.mem_singleton.1 hf]
    exact rfl
  · rw [heq]
    rfl
  · rw [heq]
    rfl
  · rw [htaken]
    rfl

variable (h : m.Retires D below d)

include h

/-- A worker only finds that the pool is stopped. -/
theorem after_other (start : J → Except RuntimeError (Body V J)) (hi : m.threads[i]? = some ⟨worker, f :: rest⟩)
    (hne : i ≠ D) : Concerns 0 D m i ∧ m.IsUrged i ∧ Retires D below d (m.after start (.step i choice)) ∧
      Unmoved m (m.taken (.step i choice)) (m.after start (.step i choice)) := by
  obtain ⟨g, call, hwinding, hleft, hcall⟩ := h.winding
  obtain ⟨w, rfl⟩ : ∃ w, worker = some (0, w) := h.others i _ hi hne
  obtain ⟨seek, rfl⟩ := ((hwinding.workers i w _ hi).1 f (List.mem_cons_self ..)).exists_seek
  have hcan : ∀ choice, m.canStep i choice = true := fun choice => canStep_iff.2 ⟨h.alive, _, _, rest, hi, rfl⟩
  obtain ⟨worker', f', rest', hi', -, heq⟩ := after_of_canStep start (hcan choice)
  rw [hi] at hi'
  cases hi'
  have htaken : m.taken (.step i choice) = some ⟨i, some (0, w), .work seek, m.store⟩ := by
    simp [taken, hcan choice, hi]
  have hother : ∀ e, m.taken (.step i choice) = some e → e.thread ≠ D := fun e he => by
    rw [htaken] at he
    cases he
    exact hne
  have hwinding' := hwinding.after_other start h.lawful.scheduled.framed h.alone (.step i choice) hother
  have hstore : (m.after start (.step i choice)).store.notes = m.store.notes ∧
      (m.after start (.step i choice)).store.cells = m.store.cells := by
    rw [heq]
    rcases Frame.stepWork_pools choice m.store 0 w seek with hstep | ⟨g, hstep, -⟩
    · rw [Frame.step, hstep]
      exact ⟨rfl, rfl⟩
    · rw [Frame.step, hstep]
      exact ⟨rfl, rfl⟩
  refine ⟨.inr ⟨w, _, hi⟩, ⟨hcan, ?_⟩, ⟨h.lawful.after _, ?_, ?_, fun j th hj hj' => ?_, ⟨g, call, hwinding', hleft, hcall⟩,
    h.quiet⟩, hstore.1, hstore.2, ?_⟩
  · rintro ⟨p, v, seek', below, hi', -, hrunning⟩
    rw [hi] at hi'
    cases hi'
    obtain ⟨pool, hpool, hwinds⟩ := hwinding.pool
    obtain ⟨pool', hpool', hopen⟩ := hrunning
    cases hpool.symm.trans hpool'
    cases hwinds.closed.symm.trans hopen
  · rw [heq]
    exact (Frame.aborted_step fun _ _ _ => by simp).trans h.alive
  · refine h.alone.of_workers (fun j v stack hj => (hwinding'.workers j v stack hj).1) fun j th hj hth => ?_
    rw [heq] at hj
    rcases thread_of_set hi hj with ⟨-, rfl⟩ | ⟨-, hj⟩
    · exact absurd rfl (hth w)
    · exact hj
  · rw [heq] at hj
    rcases thread_of_set hi hj with ⟨-, rfl⟩ | ⟨-, hj⟩
    · exact ⟨w, rfl⟩
    · exact h.others j th hj hj'
  · rw [htaken]
    rfl

/-- The shutdown call goes on. -/
theorem after_own (start : J → Except RuntimeError (Body V J)) (hgoing : m.stackOf D ≠ below)
    (hD : m.threads[D]? = some ⟨worker, f :: rest⟩) (hfree : f.isBlocked worker choice m.store = false) :
    m.IsUrged D ∧ Retires D below d (m.after start (.step D choice)) ∧
      Unmoved m (m.taken (.step D choice)) (m.after start (.step D choice)) := by
  obtain ⟨g, call, hwinding, hleft, hcall⟩ := h.winding
  obtain ⟨worker', hD', hworker⟩ := hwinding.thread
  rw [hD] at hD'
  obtain ⟨rfl, hstack⟩ := Thread.mk.inj (Option.some.inj hD')
  cases call with
  | nil => exact absurd ((stackOf_eq hD).trans hstack) hgoing
  | cons f' call =>
    obtain ⟨rfl, rfl⟩ := List.cons.inj hstack
    have hf := hcall f (List.mem_cons_self ..)
    have hcan : ∀ choice, m.canStep D choice = true := fun choice' =>
      canStep_iff.2 ⟨h.alive, _, _, _, hD, (hf.isBlocked_eq choice').trans hfree⟩
    obtain ⟨g', hwinding', hless⟩ := hwinding.after_own start h.quiet.live h.lawful.scheduled.framed h.lawful.staffed hD hfree
    have hleft' : g'.left = [] := by
      rcases hless with ⟨hperm, -⟩ | ⟨t, -, heq⟩
      · rw [hleft] at hperm
        exact List.perm_nil.1 hperm
      · rw [hleft] at heq
        cases heq
    obtain ⟨hnotes, hcells, hnext⟩ := hf.step start worker choice m.store
    have htaken : m.taken (.step D choice) = some ⟨D, worker, f, m.store⟩ := by simp [taken, hcan choice, hD]
    obtain ⟨worker', f', rest', hD'', -, heq⟩ := after_of_canStep start (hcan choice)
    rw [hD] at hD''
    cases hD''
    have hwinds : ∀ x ∈ (f.step start worker choice m.store).2 ++ call, x.Winds := by
      intro x hx
      rcases List.mem_append.1 hx with hnew | hold
      · rcases hnext x hnew with hwinds | ⟨tasks, rfl⟩
        · exact hwinds
        · have hnone := hwinding'.plan.mem_left hx
          rw [hleft'] at hnone
          exact ⟨rfl, List.eq_nil_iff_forall_not_mem.2 fun t ht => List.not_mem_nil (hnone t ht)⟩
      · exact hcall x (List.mem_cons_of_mem _ hold)
    refine ⟨⟨hcan, ?_⟩, ⟨h.lawful.after _, ?_, fun j th hj hne => ?_, fun j th hj hne => ?_, ?_, h.quiet⟩, ?_, ?_, ?_⟩
    · rintro ⟨p, w, seek, below, hD'', -⟩
      rw [hD] at hD''
      cases hD''
      exact hf
    · rw [heq]
      refine (Frame.aborted_step fun q t outcome hq => ?_).trans h.alive
      subst hq
      exact hf
    · rw [heq, Array.getElem?_setIfInBounds_ne (Ne.symm hne)] at hj
      exact h.alone j th hj hne
    · rw [heq, Array.getElem?_setIfInBounds_ne (Ne.symm hne)] at hj
      exact h.others j th hj hne
    · rw [heq]
      exact ⟨g', _, hwinding', hleft', hwinds⟩
    · rw [heq]
      exact hnotes
    · rw [heq]
      exact hcells
    · rw [htaken]
      exact hf.call?_eq_none D

/-- Only the workers and the program itself go on, and the shutdown call with them. -/
theorem after (start : J → Except RuntimeError (Body V J)) (hgoing : m.stackOf D ≠ below) (hcan : m.canStep i choice = true) :
    Concerns 0 D m i ∧ m.IsUrged i ∧ Retires D below d (m.after start (.step i choice)) ∧
      Unmoved m (m.taken (.step i choice)) (m.after start (.step i choice)) := by
  obtain ⟨worker, f, rest, hi, hfree, -⟩ := after_of_canStep start hcan
  by_cases hne : i = D
  · subst hne
    exact ⟨.inl rfl, h.after_own start hgoing hi hfree⟩
  · exact h.after_other start hi hne

/-- When the call returns, the pool has the tasks that it had. -/
theorem pool_of_returned (hreturned : m.stackOf D = below) :
    ∃ pool, m.store.pools[0]? = some pool ∧ pool.tasks = d.tasks.map Task.released := by
  obtain ⟨g, call, hwinding, -⟩ := h.winding
  obtain ⟨worker, hD, -⟩ := hwinding.thread
  rw [stackOf_eq hD] at hreturned
  obtain rfl := List.append_left_eq_self.1 hreturned
  obtain ⟨pool, hpool, hwinds⟩ := hwinding.pool
  obtain rfl := hwinding.plan.eq_done
  exact ⟨pool, hpool, hwinds.released.tasks⟩

/-- When it returns, all tasks have completed, if they had when the pool was stopped. -/
theorem completed (hended : ∀ y ∈ d.tasks, y.state = .completed) (hreturned : m.stackOf D = below) :
    ∃ pool, m.store.pools[0]? = some pool ∧ pool.tasks.size = d.tasks.size ∧ ∀ y ∈ pool.tasks, y.state = .completed := by
  obtain ⟨pool, hpool, htasks⟩ := h.pool_of_returned hreturned
  refine ⟨pool, hpool, by rw [htasks, Array.size_map], fun y hy => ?_⟩
  rw [htasks] at hy
  obtain ⟨x, hx, rfl⟩ := Array.mem_map.1 hy
  simp [Task.released, hended x hx, TaskState.isTerminal]

end Retires

end Machine
end Dataflow
