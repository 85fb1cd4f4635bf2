import Dataflow.Proofs.Scheduling

/-!
# What a frame makes of a task

The list of changes leaves open which step of a shutdown released a task. Here the step of every frame is given as
a function of the task (`Frame.alter`), the same for open pools and for closed ones: a task that is there becomes
what its function says (`Frame.task?_step`), and one that was not there is as a spawn call makes it.

What is known of a task is often that somebody is about to do something for it (`Machine.Pending`). A step of the
frame itself settles that, and no other step touches it.
-/

namespace Dataflow

variable {V J : Type}

/-- What the step of a worker, or of a call, makes of its task. -/
def TaskPhase.alter (phase : TaskPhase) (x : Task V J) : Task V J :=
  match phase with
  | .claim => if x.state = .queued then { x with state := .running } else x
  | .enter | .discard => { x with stage := .consumed }
  | .settle outcome => { x with state := Frame.finalState outcome }
  | .unregister => { x with registered := false }
  | .park => if x.state = .running then { x with state := .suspended } else x
  | .requeue => { x with state := .queued }
  | .register => { x with registered := true }
  | .abandon => { x with state := .failed }
  | .begin | .tally _ | .enqueue => x

namespace Frame

variable (p : PoolId) (t : TaskId)

/-- What the step of a frame makes of a task. -/
def alter (f : Frame V J) (x : Task V J) : Task V J :=
  match f with
  | .pause r => if r.party = .task p t then { x with stage := .started r.guards r.body } else x
  | .exchange q u seen target => if q = p ∧ u = t ∧ x.state = seen then { x with state := target } else x
  | .task q u phase => if q = p ∧ u = t then phase.alter x else x
  | .shutdown q .collect => if q = p then { x with registered := false } else x
  | _ => x

variable {p t} {start : J → Except RuntimeError (Body V J)} {worker : Option (PoolId × Nat)} {choice : Nat}
  {s : Store V J} {x : Task V J}

theorem task?_stepTask {q : PoolId} {u : TaskId} (phase : TaskPhase) (hx : s.task? p t = some x) :
    (stepTask start worker s q u phase).1.task? p t = some (alter p t (.task q u phase) x) := by
  have pools : ∀ {s' : Store V J} {g : Pool V J → Pool V J}, (∀ pool, (g pool).tasks = pool.tasks) →
      (s'.modifyPool q g).task? p t = s'.task? p t := Store.task?_modifyPool
  by_cases hq : q = p ∧ u = t
  · obtain ⟨rfl, rfl⟩ := hq
    have own : ∀ g : Task V J → Task V J, (s.modifyTask q u g).task? q u = some (g x) := fun g => by
      rw [Store.task?_modifyTask_self, hx]
      rfl
    rw [alter, if_pos ⟨rfl, rfl⟩]
    cases phase with
    | claim =>
      simp only [stepTask, hx, TaskPhase.alter, TaskState.exchange]
      by_cases hstate : x.state = .queued
      · simp only [hstate, if_true]
        exact own _
      · simp only [hstate, if_false]
        exact hx
    | park =>
      simp only [stepTask, hx, TaskPhase.alter, TaskState.exchange]
      by_cases hstate : x.state = .running
      · simp only [hstate, if_true]
        exact own _
      · simp only [hstate, if_false]
        exact hx
    | enter =>
      have taken : (s.setStage q u .consumed).task? q u = some { x with stage := .consumed } := own _
      have counted : ((s.setStage q u .consumed).modifyPool q fun pool =>
          { pool with queued := pool.queued - 1 }).task? q u = some { x with stage := .consumed } :=
        (pools fun _ => by rfl).trans taken
      simp only [stepTask, hx, TaskPhase.alter]
      split
      · split <;> exact counted
      · exact taken
      · exact taken
    | tally outcome =>
      have tallying : (s.modifyPool q (tallied outcome)).task? q u = some x := by
        rw [pools fun pool => by rw [tallied_eq], hx]
      rw [stepTask_tally]
      split
      · exact hx
      · split <;> exact tallying
    | begin => exact (pools fun _ => by rfl).trans hx
    | enqueue =>
      refine (pools fun pool => ?_).trans hx
      unfold enqueue
      split
      · split
        · split <;> rfl
        · rfl
      · rfl
    | discard =>
      simp only [stepTask, hx]
      exact own _
    | settle | unregister | requeue | register | abandon => exact own _
  · have other : ∀ {s' : Store V J} {g : Task V J → Task V J}, (s'.modifyTask q u g).task? p t = s'.task? p t :=
      Store.task?_modifyTask_of_ne hq
    rw [alter, if_neg hq, ← hx]
    cases phase with
    | enter =>
      have counted : ((s.setStage q u .consumed).modifyPool q fun pool =>
          { pool with queued := pool.queued - 1 }).task? p t = s.task? p t := (pools fun _ => by rfl).trans other
      simp only [stepTask]
      split
      · rfl
      · split
        · split <;> exact counted
        · exact other
        · exact other
    | tally outcome =>
      have tallying : (s.modifyPool q (tallied outcome)).task? p t = s.task? p t :=
        pools fun pool => by rw [tallied_eq]
      rw [stepTask_tally]
      split
      · rfl
      · split <;> exact tallying
    | begin => exact pools fun _ => by rfl
    | enqueue =>
      refine pools fun pool => ?_
      unfold enqueue
      split
      · split
        · split <;> rfl
        · rfl
      · rfl
    | claim | park | discard =>
      simp only [stepTask]
      repeat' split
      all_goals first | rfl | exact other
    | settle | unregister | requeue | register | abandon => exact other

/-- A task that is there becomes what the frame makes of it. -/
theorem task?_step (start : J → Except RuntimeError (Body V J)) (worker : Option (PoolId × Nat)) (choice : Nat)
    (f : Frame V J) (hx : s.task? p t = some x) :
    (f.step start worker choice s).1.task? p t = some (f.alter p t x) := by
  have pools : ∀ {q} {s' : Store V J} {g : Pool V J → Pool V J}, (∀ pool, (g pool).tasks = pool.tasks) →
      (s'.modifyPool q g).task? p t = s'.task? p t := Store.task?_modifyPool
  cases f with
  | run r =>
    rw [step, Store.task?_eq, stepRun_pools, ← Store.task?_eq, hx]
    rfl
  | pause r =>
    simp only [step, stepPause, alter]
    split
    · rename_i hparty
      simp [hparty, ← hx, Store.task?_eq, Store.say]
    · rename_i q u hparty
      rw [pools fun _ => by rfl, Store.setStage, Store.task?_modifyTask, hx, hparty]
      by_cases hq : q = p ∧ u = t
      · simp [hq]
      · simp [hq]
  | drop guards => cases guards <;> exact hx
  | fill c value => simp only [step]; split <;> exact hx
  | ended party outcome =>
    cases party with
    | outside => exact hx
    | task q u => exact (pools fun _ => by rfl).trans hx
  | blocked c timed next => simp only [step]; split <;> exact hx
  | spawn q job phase next =>
    cases phase with
    | check => simp only [step, stepSpawn]; split <;> exact hx
    | reserve =>
      simp only [step, stepSpawn]
      split
      · exact hx
      · split <;> exact (pools fun _ => by rfl).trans hx
    | number =>
      simp only [step, stepSpawn]
      split
      · exact hx
      · rename_i pool hp
        rw [Store.task?_eq, Store.pools_modifyPool]
        by_cases hq : q = p
        · subst hq
          rw [Store.task?_eq, hp] at hx
          have hlt : t < pool.tasks.size := (Array.getElem?_eq_some_iff.1 hx).1
          simpa [hp, Array.getElem?_push, Nat.ne_of_lt hlt, alter] using hx
        · rwa [if_neg hq, ← Store.task?_eq]
  | wake party =>
    cases party with
    | outside => exact hx
    | task q u => simp only [step, stepWake]; split <;> (try split) <;> exact hx
  | exchange q u seen target =>
    simp only [step, stepExchange, alter]
    by_cases hq : q = p ∧ u = t
    · obtain ⟨rfl, rfl⟩ := hq
      simp only [hx, TaskState.exchange]
      by_cases hseen : x.state = seen
      · simp [hseen, Store.setState, Store.task?_modifyTask_self, hx]
      · simp [hseen, hx]
    · have hno : ¬ (q = p ∧ u = t ∧ x.state = seen) := fun h => hq ⟨h.1, h.2.1⟩
      rw [if_neg hno]
      split
      · exact hx
      · split
        · exact hx
        · exact (Store.task?_modifyTask_of_ne hq).trans hx
  | reschedule q u => simp only [step, stepReschedule]; split <;> exact hx
  | task q u phase => exact task?_stepTask phase hx
  | count q change => exact (pools fun pool => by cases change <;> rfl).trans hx
  | work seek =>
    rcases worker with _ | ⟨q, w⟩
    · exact hx
    · rcases stepWork_pools choice s q w seek with heq | ⟨g, heq, hg⟩
      · rw [step, heq]
        exact hx
      · rw [step, heq]
        exact (pools hg).trans hx
  | shutdown q phase =>
    cases phase with
    | collect =>
      simp only [step, stepShutdown, alter]
      by_cases hq : q = p
      · subst hq
        obtain ⟨pool, hp, -⟩ := Store.exists_pool_of_task? hx
        simp [hp, Store.task?_clearRegistry, hx]
      · split
        · simpa [hq] using hx
        · simp [hq, Store.task?_modifyPool_of_ne, hx]
    | close | drainOwn => exact (pools fun _ => by rfl).trans hx
    | drainShared =>
      simp only [step, stepShutdown]
      split
      · exact hx
      · split
        · exact (pools fun _ => by rfl).trans hx
        · exact hx
    | check | join => simp only [step, stepShutdown]; split <;> exact hx
    | release tasks => cases tasks <;> exact hx
  | signal | withdraw | waitIdle => exact hx

/-- A task that is new is made by a spawn call, which enters it into the registry next. -/
theorem task?_step_of_none {f : Frame V J} (hf : f.Ok worker s) (hnone : f.holds worker p t = 0)
    (hx : s.task? p t = none) {y : Task V J} (hy : (f.step start worker choice s).1.task? p t = some y) :
    (∃ job, y = { stage := .unclaimed job }) ∧ .task p t .register ∈ (f.step start worker choice s).2 := by
  have hchanges : Changes start worker s f (f.step start worker choice s).1 (f.step start worker choice s).2 p t :=
    changes_step hf fun _ => hnone
  obtain ⟨d, e, rest, -, -, hc⟩ := hchanges
  rw [hx, hy] at hc
  cases hc with
  | @spawn job next pool hp ht => exact ⟨⟨job, rfl⟩, by simp [step, stepSpawn, hp, ht]⟩

end Frame

namespace Machine

variable {start : J → Except RuntimeError (Body V J)} {m : Machine V J} {P : Frame V J → Prop}

/-- Some thread is about to take such a step. -/
def Pending (P : Frame V J → Prop) (m : Machine V J) : Prop :=
  ∃ (i : Nat) (th : Thread V J), m.threads[i]? = some th ∧ ∃ f ∈ th.stack, P f

namespace Pending

section set

variable {i : Nat} {worker : Option (PoolId × Nat)} {f : Frame V J} {fs rest : List (Frame V J)} {s : Store V J}

/-- What a step leaves is pending. -/
theorem of_mem (hi : m.threads[i]? = some ⟨worker, f :: rest⟩) {g : Frame V J} (hg : g ∈ fs) (hP : P g) :
    Pending P ⟨s, m.threads.setIfInBounds i ⟨worker, fs ++ rest⟩⟩ :=
  ⟨i, _, getElem?_setIfInBounds_self hi, g, List.mem_append_left _ hg, hP⟩

/-- Only its own step settles what is pending. -/
theorem set (h : m.Pending P) (hi : m.threads[i]? = some ⟨worker, f :: rest⟩) :
    P f ∨ Pending P ⟨s, m.threads.setIfInBounds i ⟨worker, fs ++ rest⟩⟩ := by
  obtain ⟨j, th, hj, g, hg, hP⟩ := h
  by_cases hij : i = j
  · subst hij
    rw [hi] at hj
    cases hj
    rcases List.mem_cons.1 hg with rfl | hg
    · exact .inl hP
    · exact .inr ⟨i, _, getElem?_setIfInBounds_self hi, g, List.mem_append_right _ hg, hP⟩
  · exact .inr ⟨j, th, by rw [Array.getElem?_setIfInBounds_ne hij, hj], g, hg, hP⟩

end set

end Pending

namespace Arrival

variable {m' : Machine V J}

/-- Where nobody takes a step, nothing happens to a task. -/
theorem task? (h : Arrival m m') (p : PoolId) (t : TaskId) : m'.store.task? p t = m.store.task? p t := by
  cases h with
  | nobody => rfl
  | workers config => exact m.task?_addPool config
  | outsider hpools => rw [spawnThread, Store.task?_eq, Store.task?_eq, hpools]

/-- And no thread goes. -/
theorem thread (h : Arrival m m') {i : Nat} {th : Thread V J} (hi : m.threads[i]? = some th) :
    m'.threads[i]? = some th := by
  have hlt := (Array.getElem?_eq_some_iff.1 hi).1
  cases h with
  | nobody => exact hi
  | workers config => rw [addPool, Array.getElem?_append_left hlt, hi]
  | outsider => simpa [spawnThread, Array.getElem?_push, Nat.ne_of_lt hlt] using hi

theorem pending (h : Arrival m m') (hP : m.Pending P) : m'.Pending P := by
  obtain ⟨i, th, hi, hf⟩ := hP
  exact ⟨i, th, h.thread hi, hf⟩

/-- The threads that come are workers at their start, or do nothing to a task at first. -/
theorem allFrames {Q : Option (PoolId × Nat) → Frame V J → Prop} (h : Arrival m m') (hm : m'.Framed)
    (hQ : m.AllFrames Q) (hwork : ∀ worker, Q worker (.work .loop)) (hquiet : ∀ f : Frame V J, f.IsQuiet → Q none f)
    (hrun : ∀ r : Run V J, r.party = .outside → Q none (.run r)) : m'.AllFrames Q := by
  cases h with
  | nobody => exact hQ
  | workers config => exact hQ.addPool fun w _ => hwork _
  | @outsider s frames hpools hframes =>
    have hall : AllFrames Q ⟨s, m.threads⟩ := hQ
    refine hall.spawnThread fun f hf => ?_
    rcases hframes f hf with hquiet' | ⟨r, rfl⟩
    · exact hquiet f hquiet'
    · have hon : r.party.On none := hm.frames m.threads.size ⟨none, frames⟩ (by simp [spawnThread]) _ hf
      refine hrun r ?_
      cases hparty : r.party with
      | outside => rfl
      | task p t =>
        rw [hparty] at hon
        obtain ⟨w, hw⟩ := hon
        cases hw

end Arrival

/-- A move is a step of a thread, or nobody takes a step. -/
theorem after_cases (start : J → Except RuntimeError (Body V J)) (m : Machine V J) (mv : Move V J) :
    Arrival m (m.after start mv) ∧ (m.after start mv).store.cells = m.store.cells ∨
    ∃ i choice worker f rest, m.threads[i]? = some ⟨worker, f :: rest⟩ ∧ f.isBlocked worker choice m.store = false ∧
      m.after start mv = ⟨(f.step start worker choice m.store).1, m.threads.setIfInBounds i
        ⟨worker, (f.step start worker choice m.store).2 ++ rest⟩⟩ := by
  cases mv with
  | step i choice =>
    rcases m.after_step start i choice with ⟨heq, -⟩ | ⟨worker, f, rest, hi, -, hfree, -, heq⟩
    · rw [heq]
      exact .inl ⟨.nobody, rfl⟩
    · exact .inr ⟨i, choice, worker, f, rest, hi, hfree, heq⟩
  | startPool config =>
    refine .inl ⟨arrival_of_not_taken start rfl, ?_⟩
    rcases m.after_startPool start config with heq | heq <;> rw [heq]
    rfl
  | enter body => exact .inl ⟨arrival_of_not_taken start rfl, rfl⟩
  | poll | discard =>
    refine .inl ⟨arrival_of_not_taken start rfl, ?_⟩
    simp only [after]
    split <;> rfl

end Machine
end Dataflow
