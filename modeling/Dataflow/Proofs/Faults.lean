import Dataflow.Proofs.Touches

/-!
# Faults

A body that ends with an error or a panic, where another one would have returned, does to the cells and pools what that
one does, if it makes the same calls. So the two runs go side by side (`Machine.Abreast`): while the body is put away
they differ in what the task has left to do, during its polls in one frame of one thread, and when its end is counted
only in that it failed (`Machine.faults_contained`). A job that cannot be started is like a body without calls, but for
two steps that nobody sees.
-/

namespace Dataflow

variable {V J : Type}

/-- The bodies take the same instruction next, or the first one returns, and the second one fails. -/
inductive Body.Accords : Body V J → Body V J → Prop
  | fails (e : RuntimeError) : Accords (.done (.ok ())) (.done (.error e))
  | panics (message : Option String) : Accords (.done (.ok ())) (.panic message)
  | get (c : CellId) (key : Option Nat) (next next' : Except RuntimeError V → Body V J) :
      Accords (.get c key next) (.get c key next')
  | join (a b : Wait V) (second : Bool) (next next' : Except RuntimeError V → Except RuntimeError V → Body V J) :
      Accords (.join a b second next) (.join a b second next')
  | select (a b : CellId × Option Nat) (second : Bool) (next next' : Except RuntimeError V → Body V J) :
      Accords (.select a b second next) (.select a b second next')
  | yield (times : Nat) (next next' : Body V J) : Accords (.yield times next) (.yield times next')
  | stash (next next' : Body V J) : Accords (.stash next) (.stash next')
  | put (c : CellId) (value : V) (next next' : Except RuntimeError Unit → Body V J) :
      Accords (.put c value next) (.put c value next')
  | destroy (c : CellId) (next next' : Except RuntimeError Unit → Body V J) :
      Accords (.destroy c next) (.destroy c next')
  | tryGet (c : CellId) (next next' : Except RuntimeError (Option V) → Body V J) :
      Accords (.tryGet c next) (.tryGet c next')
  | look (c : CellId) (next next' : CellState → Nat → Body V J) : Accords (.look c next) (.look c next')
  | getBlocking (c : CellId) (next next' : Except RuntimeError V → Body V J) :
      Accords (.getBlocking c next) (.getBlocking c next')
  | getTimeout (c : CellId) (next next' : Except RuntimeError (Option V) → Body V J) :
      Accords (.getTimeout c next) (.getTimeout c next')
  | newCell (next next' : CellId → Body V J) : Accords (.newCell next) (.newCell next')
  | note (note : Note V) (next next' : Body V J) : Accords (.note note next) (.note note next')
  | guard (guard : Guard V) (next next' : Body V J) : Accords (.guard guard next) (.guard guard next')
  | spawn (p : Option PoolId) (job : J) (next next' : Except RuntimeError TaskId → Body V J) :
      Accords (.spawn p job next) (.spawn p job next')
  | submit (p : PoolId) (job : J) (next next' : Except RuntimeError TaskId → Body V J) :
      Accords (.submit p job next) (.submit p job next')
  | current (next next' : Bool → Body V J) : Accords (.current next) (.current next')
  | wakeStashed (index : Nat) (next next' : Body V J) : Accords (.wakeStashed index next) (.wakeStashed index next')
  | waitIdle (p : PoolId) (next next' : Body V J) : Accords (.waitIdle p next) (.waitIdle p next')
  | shutdown (p : PoolId) (next next' : Body V J) : Accords (.shutdown p next) (.shutdown p next')

/-- Two jobs that can be started, or two bodies with the same guards. -/
inductive Stage.Twin (start : J → Except RuntimeError (Body V J)) : Stage V J → Stage V J → Prop
  | unclaimed {job job' : J} {body body' : Body V J} (h : start job = .ok body) (h' : start job' = .ok body') :
      Twin start (.unclaimed job) (.unclaimed job')
  | started (guards : List (Guard V)) (body body' : Body V J) :
      Twin start (.started guards body) (.started guards body')

/-- How the task is put away on either side. If the bodies make no calls, the second one may be a job that cannot be
started, which takes two steps less. -/
inductive Stage.Parts (start : J → Except RuntimeError (Body V J)) (calls : Prop) : Nat → Stage V J → Stage V J → Prop
  | twin (hcalls : calls) {stage stage' : Stage V J} (h : stage.Twin start stage') : Parts start calls 0 stage stage'
  | entry {job job' : J} {e : RuntimeError} (h : start job = .ok (.done (.ok ()))) (h' : start job' = .error e) :
      Parts start calls 2 (.unclaimed job) (.unclaimed job')

theorem Stage.Parts.ne_consumed {start : J → Except RuntimeError (Body V J)} {calls : Prop} {late : Nat}
    {stage stage' : Stage V J} (h : stage.Parts start calls late stage') : stage ≠ .consumed := by
  rintro rfl
  cases h with
  | twin hcalls h => cases h

/-- Runs of two bodies for the same task, with the same guards. -/
def Run.Twin (calls : Prop) (p : PoolId) (t : TaskId) (r r' : Run V J) : Prop :=
  calls ∧ ∃ guards body body', r = ⟨.task p t, guards, body⟩ ∧ r' = ⟨.task p t, guards, body'⟩

namespace Frame

/-- How far the poll of the task has come on either side. -/
inductive Twin (calls : Prop) (p : PoolId) (t : TaskId) : Frame V J → Frame V J → Prop
  | run {r r' : Run V J} (h : r.Twin calls p t r') : Twin calls p t (.run r) (.run r')
  | pause {r r' : Run V J} (h : r.Twin calls p t r') : Twin calls p t (.pause r) (.pause r')
  | blocked (c : CellId) (timed : Bool) {next next' : Except RuntimeError (Option V) → Run V J}
      (h : ∀ answer, (next answer).Twin calls p t (next' answer)) :
      Twin calls p t (.blocked c timed next) (.blocked c timed next')
  | spawn (q : PoolId) (job : J) (phase : SpawnPhase) {next next' : Except RuntimeError TaskId → Run V J}
      (h : ∀ answer, (next answer).Twin calls p t (next' answer)) :
      Twin calls p t (.spawn q job phase next) (.spawn q job phase next')
  | ended {outcome : Outcome} (h : finalState outcome = .failed) :
      Twin calls p t (.ended (.task p t) (.returned (.ok ()))) (.ended (.task p t) outcome)
  | settle {outcome : Outcome} (h : finalState outcome = .failed) :
      Twin calls p t (.task p t (.settle (.returned (.ok ())))) (.task p t (.settle outcome))

/-- The poll is under way: two stacks, of which the first one may be so many steps behind. -/
inductive Polled (calls : Prop) (p : PoolId) (t : TaskId) : Nat → List (Frame V J) → List (Frame V J) → Prop
  | twin {f f' : Frame V J} (h : Twin calls p t f f') (rest : List (Frame V J)) :
      Polled calls p t 0 (f :: rest) (f' :: rest)
  | entry (e : RuntimeError) (rest : List (Frame V J)) :
      Polled calls p t 2 (.run ⟨.task p t, [], .done (.ok ())⟩ :: rest)
        (.ended (.task p t) (.returned (.error e)) :: rest)
  | leaving (e : RuntimeError) (rest : List (Frame V J)) :
      Polled calls p t 1 (.drop [] :: .ended (.task p t) (.returned (.ok ())) :: rest)
        (.ended (.task p t) (.returned (.error e)) :: rest)

/-- The end of the task is about to be counted. -/
inductive Tallied (p : PoolId) (t : TaskId) : List (Frame V J) → List (Frame V J) → Prop
  | mk {outcome : Outcome} (h : finalState outcome = .failed) (rest : List (Frame V J)) :
      Tallied p t (.task p t (.tally (.returned (.ok ()))) :: rest) (.task p t (.tally outcome) :: rest)

variable {calls : Prop} {p : PoolId} {t : TaskId} {r r' : Run V J} {start : J → Except RuntimeError (Body V J)}
  {worker : Option (PoolId × Nat)} {choice : Nat} {s : Store V J} {f f' : Frame V J}

theorem stepRun_twin (h : r.Twin calls p t r') (haccord : r.body.Accords r'.body) :
    ∃ s₁ above g g', stepRun worker s r = (s₁, above ++ [g]) ∧ stepRun worker s r' = (s₁, above ++ [g']) ∧
      Twin calls p t g g' := by
  obtain ⟨hcalls, guards, body, body', rfl, rfl⟩ := h
  have twin : ∀ b b' : Body V J, Run.Twin calls p t ⟨.task p t, guards, b⟩ ⟨.task p t, guards, b'⟩ := fun b b' =>
    ⟨hcalls, guards, b, b', rfl, rfl⟩
  dsimp only at haccord
  cases haccord with
  | fails e => exact ⟨_, [.drop guards], _, _, rfl, rfl, .ended rfl⟩
  | panics message => exact ⟨_, [.drop guards], _, _, rfl, rfl, .ended rfl⟩
  | get c key next next' =>
    simp only [stepRun]
    split
    · exact ⟨_, [], _, _, rfl, rfl, .run (twin _ _)⟩
    · exact ⟨_, [], _, _, rfl, rfl, .pause (twin _ _)⟩
  | join a b second next next' =>
    cases second with
    | false => exact ⟨_, [], _, _, rfl, rfl, .run (twin _ _)⟩
    | true =>
      simp only [stepRun]
      split
      · exact ⟨_, [], _, _, rfl, rfl, .run (twin _ _)⟩
      · exact ⟨_, [], _, _, rfl, rfl, .pause (twin _ _)⟩
  | select a b second next next' =>
    obtain ⟨a, ka⟩ := a
    obtain ⟨b, kb⟩ := b
    cases second with
    | false =>
      simp only [stepRun]
      split
      · exact ⟨_, _, _, _, rfl, rfl, .run (twin _ _)⟩
      · exact ⟨_, [], _, _, rfl, rfl, .run (twin _ _)⟩
    | true =>
      simp only [stepRun]
      split
      · exact ⟨_, _, _, _, rfl, rfl, .run (twin _ _)⟩
      · exact ⟨_, [], _, _, rfl, rfl, .pause (twin _ _)⟩
  | yield times next next' => exact ⟨_, _, _, _, rfl, rfl, .pause (twin _ _)⟩
  | stash next next' => exact ⟨_, [], _, _, rfl, rfl, .pause (twin _ _)⟩
  | put c value next next' =>
    simp only [stepRun]
    split
    · exact ⟨_, [], _, _, rfl, rfl, .run (twin _ _)⟩
    · exact ⟨_, _, _, _, rfl, rfl, .run (twin _ _)⟩
  | destroy c next next' =>
    simp only [stepRun]
    split
    · exact ⟨_, [], _, _, rfl, rfl, .run (twin _ _)⟩
    · exact ⟨_, [], _, _, rfl, rfl, .run (twin _ _)⟩
  | getBlocking c next next' =>
    simp only [stepRun]
    split
    · exact ⟨_, [], _, _, rfl, rfl, .run (twin _ _)⟩
    · refine ⟨_, [], _, _, rfl, rfl, .blocked _ _ fun answer => ?_⟩
      rcases answer with e | _ | value <;> exact twin _ _
  | getTimeout c next next' =>
    simp only [stepRun]
    split
    · exact ⟨_, [], _, _, rfl, rfl, .run (twin _ _)⟩
    · exact ⟨_, [], _, _, rfl, rfl, .blocked _ _ fun _ => twin _ _⟩
  | spawn q job next next' =>
    simp only [stepRun]
    split
    · exact ⟨_, [], _, _, rfl, rfl, .run (twin _ _)⟩
    · exact ⟨_, [], _, _, rfl, rfl, .spawn _ _ _ fun _ => twin _ _⟩
  | wakeStashed index next next' => exact ⟨_, _, _, _, rfl, rfl, .run (twin _ _)⟩
  | waitIdle q next next' => exact ⟨_, [.waitIdle q], _, _, rfl, rfl, .run (twin _ _)⟩
  | shutdown q next next' => exact ⟨_, [.shutdown q .check], _, _, rfl, rfl, .run (twin _ _)⟩
  | guard guard next next' => exact ⟨_, [], _, _, rfl, rfl, .run ⟨hcalls, _, _, _, rfl, rfl⟩⟩
  | tryGet | look | newCell | note | submit | current => exact ⟨_, [], _, _, rfl, rfl, .run (twin _ _)⟩

variable (start worker choice) in
/-- Both polls take the same step, or the body is put away, or its end is recorded. -/
theorem step_twin (h : Twin calls p t f f') (haccord : ∀ r r', f = .run r → f' = .run r' → r.body.Accords r'.body) :
    (∃ s₁ above g g', f.step start worker choice s = (s₁, above ++ [g]) ∧
      f'.step start worker choice s = (s₁, above ++ [g']) ∧ Twin calls p t g g') ∨
    (∃ r r', f = .pause r ∧ f' = .pause r' ∧ r.Twin calls p t r') ∨
    ∃ outcome, f = .task p t (.settle (.returned (.ok ()))) ∧ f' = .task p t (.settle outcome) ∧
      finalState outcome = .failed := by
  cases h with
  | run h => exact .inl (stepRun_twin h (haccord _ _ rfl rfl))
  | pause h => exact .inr (.inl ⟨_, _, rfl, rfl, h⟩)
  | settle h => exact .inr (.inr ⟨_, rfl, rfl, h⟩)
  | ended h => exact .inl ⟨_, [], _, _, rfl, rfl, .settle h⟩
  | blocked c timed h =>
    refine .inl ?_
    simp only [step]
    split
    · exact ⟨_, [], _, _, rfl, rfl, .run (h _)⟩
    · exact ⟨_, [], _, _, rfl, rfl, .blocked c timed h⟩
  | spawn q job phase h =>
    refine .inl ?_
    cases phase with
    | check =>
      simp only [step, stepSpawn]
      split
      · exact ⟨_, [], _, _, rfl, rfl, .spawn q job .reserve h⟩
      · exact ⟨_, [], _, _, rfl, rfl, .run (h _)⟩
    | reserve =>
      simp only [step, stepSpawn]
      split
      · exact ⟨_, [], _, _, rfl, rfl, .run (h _)⟩
      · split
        · exact ⟨_, [], _, _, rfl, rfl, .run (h _)⟩
        · exact ⟨_, [], _, _, rfl, rfl, .spawn q job .number h⟩
    | number =>
      simp only [step, stepSpawn]
      split
      · exact ⟨_, [], _, _, rfl, rfl, .run (h _)⟩
      · rename_i pool hpool
        exact ⟨_, [.count q .activeUp, .count q .liveUp, .task q pool.tasks.size .register, .count q .spawned,
          .task q pool.tasks.size .enqueue], _, _, rfl, rfl, .run (h _)⟩

theorem Twin.isBlocked (h : Twin calls p t f f') : f'.isBlocked worker choice s = f.isBlocked worker choice s := by
  cases h <;> rfl

theorem Polled.exists_works {late : Nat} {fs fs' : List (Frame V J)} (h : Polled calls p t late fs fs') :
    ∃ f ∈ fs, f.Works p t := by
  have hparty : ∀ {r r' : Run V J}, r.Twin calls p t r' → r.party = .task p t := by
    rintro _ _ ⟨-, guards, body, body', rfl, -⟩
    rfl
  cases h with
  | @twin f f' h rest =>
    refine ⟨f, List.mem_cons_self .., ?_⟩
    cases h with
    | run h | pause h => exact .inl (hparty h)
    | blocked c timed h | spawn q job phase h => exact .inl (hparty (h _))
    | ended h => exact .inl rfl
    | settle h => exact .inr (.inr (.inr (.inl ⟨_, rfl⟩)))
  | entry e rest => exact ⟨_, List.mem_cons_self .., .inl rfl⟩
  | leaving e rest => exact ⟨_, List.mem_cons_of_mem _ (List.mem_cons_self ..), .inl rfl⟩

variable (start worker choice) in
/-- The poll begins. -/
theorem enter_parts {k : Nat} {y : Task V J} {stage' : Stage V J} (hy : s.task? p t = some y)
    (h : y.stage.Parts start calls k stage') :
    ∃ s₁ top top', (task p t .enter).step start worker choice s = (s₁, top) ∧
      (task p t .enter).step start worker choice ((Touch.stage stage').on p t s) = (s₁, top') ∧
      ∀ rest, Polled calls p t k (top ++ rest) (top' ++ rest) := by
  have hy' : ((Touch.stage stage').on p t s).task? p t = some { y with stage := stage' } := by
    rw [Touch.task?_on_self, hy]
    rfl
  have htaken : ((Touch.stage stage').on p t s).setStage p t .consumed = s.setStage p t .consumed :=
    Store.modifyTask_modifyTask _
  simp only [step, stepTask, hy, hy', htaken]
  generalize y.stage = stage at h
  cases h with
  | twin hcalls h =>
    cases h with
    | unclaimed h h' =>
      simp only [h, h']
      exact ⟨_, _, _, rfl, rfl, fun rest => .twin (.run ⟨hcalls, _, _, _, rfl, rfl⟩) rest⟩
    | started guards body body' =>
      exact ⟨_, _, _, rfl, rfl, fun rest => .twin (.run ⟨hcalls, _, _, _, rfl, rfl⟩) rest⟩
  | entry h h' =>
    simp only [h, h']
    exact ⟨_, _, _, rfl, rfl, fun rest => .entry _ rest⟩

variable (start worker choice) in
theorem pause_twin {y : Task V J} (h : r.Twin calls p t r') (hy : s.task? p t = some y) : ∃ s₁ fs y₁ stage',
    (pause r).step start worker choice s = (s₁, fs) ∧
      (pause r').step start worker choice s = ((Touch.stage stage').on p t s₁, fs) ∧
      s₁.task? p t = some y₁ ∧ y₁.state = y.state ∧ y₁.stage.Parts start calls 0 stage' := by
  obtain ⟨hcalls, guards, body, body', rfl, rfl⟩ := h
  have hput : (Touch.stage (.started guards body')).on p t (s.setStage p t (.started guards body)) =
      s.setStage p t (.started guards body') := Store.modifyTask_modifyTask _
  refine ⟨_, _, { y with stage := .started guards body }, .started guards body', rfl, ?_, ?_, rfl,
    .twin hcalls (.started guards body body')⟩
  · simp only [step, stepPause]
    rw [← Touch.modifyPool_on, hput]
    exact fun _ _ _ => rfl
  · have hafter := task?_step start worker choice (pause ⟨.task p t, guards, body⟩) hy
    rwa [alter, if_pos rfl] at hafter

variable (start worker choice) in
theorem settle_twin {y : Task V J} (hy : s.task? p t = some y) {outcome : Outcome} (h : finalState outcome = .failed) :
    ∃ s₁ y₁, (task p t (.settle (.returned (.ok ())))).step start worker choice s =
        (s₁, [.task p t (.tally (.returned (.ok ())))]) ∧
      (task p t (.settle outcome)).step start worker choice s =
        ((Touch.fails 0).on p t s₁, [.task p t (.tally outcome)]) ∧
      s₁.task? p t = some y₁ ∧ y₁.state = .completed := by
  have hset : (Touch.fails 0).on p t (s.setState p t .completed) = s.setState p t .failed :=
    Store.modifyTask_modifyTask _
  refine ⟨s.setState p t .completed, { y with state := .completed }, rfl, ?_, ?_, rfl⟩
  · rw [hset]
    simp only [step, stepTask, h]
  · rw [Store.setState, Store.task?_modifyTask_self, hy]
    rfl

variable (start worker choice) in
/-- Where a fault ends the task only, its end is counted, and nothing else follows from it. -/
theorem tally_twin {pool : Pool V J} (hpool : s.pools[p]? = some pool)
    (hpolicy : pool.config.faultPolicy = .abortTask) {outcome : Outcome} (h : finalState outcome = .failed) :
    ∃ fs, (task p t (.tally (.returned (.ok ())))).step start worker choice s = ((Touch.completes 1).on p t s, fs) ∧
      (task p t (.tally outcome)).step start worker choice ((Touch.fails 0).on p t s) =
        ((Touch.fails 1).on p t s, fs) := by
  have hspared : isFatal pool.config outcome = false := by
    rcases outcome with (e | _) | message
    · simp [isFatal, hpolicy]
    · rfl
    · rfl
  have hpool' : ((Touch.fails 0).on p t s).pools[p]? = some ((Touch.fails 0).pool t pool) := by
    rw [Touch.on, Store.pools_modifyPool, if_pos rfl, hpool]
    rfl
  have hconfig : ((Touch.fails 0).pool t pool).config = pool.config := rfl
  refine ⟨[.task p t .unregister, .count p (.liveDown 1), .count p .activeDown], ?_, ?_⟩
  · have hcounted : (Touch.completes 1).on p t s = s.modifyPool p fun pool =>
        { pool with stats := { pool.stats with completed := pool.stats.completed + 1 } } := by
      have htouch : (Touch.completes 1 : Touch V J).pool t = fun pool =>
          { pool with stats := { pool.stats with completed := pool.stats.completed + 1 } } := funext fun x => by
        rw [Touch.pool, Touch.completes, modify_id]
        rfl
      rw [Touch.on, htouch]
    rw [hcounted]
    simp [step, stepTask, hpool, finalState, isFatal]
  · have hcounted : (Touch.fails 1).on p t s = ((Touch.fails 0).on p t s).modifyPool p fun pool =>
        { pool with stats := { pool.stats with failed := pool.stats.failed + 1 } } := by
      rw [Touch.on, Touch.on, Store.modifyPool_modifyPool]
      rfl
    rw [hcounted]
    simp [step, stepTask, hpool', h, hconfig, hspared]

end Frame
namespace Machine

variable {start : J → Except RuntimeError (Body V J)} {R : List (Frame V J) → List (Frame V J) → Prop}
  {threads threads' : Array (Thread V J)} {m m' : Machine V J} {p : PoolId} {t : TaskId} {i j choice : Nat}
  {worker : Option (PoolId × Nat)}

/-- The threads are the same but for one, whose stacks differ from some frame on. -/
def Differ (R : List (Frame V J) → List (Frame V J) → Prop) (threads threads' : Array (Thread V J)) : Prop :=
  ∃ i worker above rest rest', threads[i]? = some ⟨worker, above ++ rest⟩ ∧
    threads' = threads.setIfInBounds i ⟨worker, above ++ rest'⟩ ∧ R rest rest'

namespace Differ

theorem append (h : Differ R threads threads') (new : Array (Thread V J)) :
    Differ R (threads ++ new) (threads' ++ new) := by
  obtain ⟨i, worker, above, rest, rest', hi, rfl, hR⟩ := h
  have hlt : i < threads.size := (Array.getElem?_eq_some_iff.1 hi).1
  refine ⟨i, worker, above, rest, rest', by rw [Array.getElem?_append_left hlt, hi], ?_, hR⟩
  rw [Array.setIfInBounds_append_left hlt]

/-- A thread is about to take a step where the stacks differ, or the same step on both sides, or none. -/
theorem on_top (h : Differ R threads threads') (j : Nat) :
    (∃ worker rest rest', threads[j]? = some ⟨worker, rest⟩ ∧ threads' = threads.setIfInBounds j ⟨worker, rest'⟩ ∧
      R rest rest') ∨
    (∃ worker f rest rest', threads[j]? = some ⟨worker, f :: rest⟩ ∧ threads'[j]? = some ⟨worker, f :: rest'⟩ ∧
      ∀ fs, Differ R (threads.setIfInBounds j ⟨worker, fs ++ rest⟩) (threads'.setIfInBounds j ⟨worker, fs ++ rest'⟩)) ∨
    (∀ worker f rest, threads[j]? ≠ some ⟨worker, f :: rest⟩) ∧
      ∀ worker f rest, threads'[j]? ≠ some ⟨worker, f :: rest⟩ := by
  obtain ⟨i, worker, above, rest, rest', hi, rfl, hR⟩ := h
  by_cases hij : i = j
  · subst hij
    cases above with
    | nil => exact .inl ⟨worker, rest, rest', hi, rfl, hR⟩
    | cons f above =>
      refine .inr (.inl ⟨worker, f, above ++ rest, above ++ rest', hi, getElem?_setIfInBounds_self hi, fun fs => ?_⟩)
      refine ⟨i, worker, fs ++ above, rest, rest', ?_, ?_, hR⟩
      · rw [List.append_assoc]
        exact getElem?_setIfInBounds_self hi
      · rw [Array.setIfInBounds_setIfInBounds, Array.setIfInBounds_setIfInBounds, List.append_assoc]
  · have hsame : (threads.setIfInBounds i ⟨worker, above ++ rest'⟩)[j]? = threads[j]? :=
      Array.getElem?_setIfInBounds_ne hij
    rcases hj : threads[j]? with _ | ⟨home, _ | ⟨f, below⟩⟩
    · exact .inr (.inr ⟨by simp, by simp [hsame, hj]⟩)
    · exact .inr (.inr ⟨by simp, by simp [hsame, hj]⟩)
    · refine .inr (.inl ⟨home, f, below, below, rfl, by rw [hsame, hj], fun fs => ?_⟩)
      refine ⟨i, worker, above, rest, rest', ?_, ?_, hR⟩
      · rw [Array.getElem?_setIfInBounds_ne (Ne.symm hij), hi]
      · rw [Array.setIfInBounds_comm _ _ hij]

end Differ

/-- A thread that has nothing to do takes no step. -/
theorem after_of_idle (h : ∀ worker f rest, m.threads[j]? ≠ some ⟨worker, f :: rest⟩) :
    m.after start (.step j choice) = m := by
  rcases m.after_step start j choice with ⟨heq, -⟩ | ⟨worker, f, rest, hj, -⟩
  · exact heq
  · exact absurd hj (h worker f rest)

/-- Two threads step together, if the same keeps them from it. -/
theorem after_both (start : J → Except RuntimeError (Body V J)) (m m' : Machine V J) {f f' : Frame V J}
    {rest rest' : List (Frame V J)} (haborted : m'.store.aborted = m.store.aborted)
    (hj : m.threads[j]? = some ⟨worker, f :: rest⟩) (hj' : m'.threads[j]? = some ⟨worker, f' :: rest'⟩)
    (hblocked : f'.isBlocked worker choice m'.store = f.isBlocked worker choice m.store) :
    (m.after start (.step j choice) = m ∧ m'.after start (.step j choice) = m') ∨
      (m.after start (.step j choice) = ⟨(f.step start worker choice m.store).1, m.threads.setIfInBounds j
        ⟨worker, (f.step start worker choice m.store).2 ++ rest⟩⟩ ∧
      m'.after start (.step j choice) = ⟨(f'.step start worker choice m'.store).1, m'.threads.setIfInBounds j
        ⟨worker, (f'.step start worker choice m'.store).2 ++ rest'⟩⟩) := by
  have hcan : m'.canStep j choice = m.canStep j choice := by
    simp only [canStep, hj, hj', haborted, hblocked]
  by_cases h : m.canStep j choice = true
  · obtain ⟨worker₁, f₁, rest₁, h₁, -, heq⟩ := after_of_canStep start h
    obtain ⟨worker₂, f₂, rest₂, h₂, -, heq'⟩ := after_of_canStep start (hcan.trans h)
    rw [hj] at h₁
    rw [hj'] at h₂
    cases h₁
    cases h₂
    exact .inr ⟨heq, heq'⟩
  · exact .inl ⟨by simp [after, step, h], by simp [after, step, hcan, h]⟩

/-- What comes from the outside comes to both stores. -/
theorem after_outside_on {mv : Move V J} (hmv : ∀ j choice, mv ≠ .step j choice) {s : Store V J}
    (hp : p < s.pools.size) (t : TaskId) : ∃ s₁ new, s₁.task? p t = s.task? p t ∧
    ∀ (τ : Touch V J) (threads : Array (Thread V J)),
      (⟨τ.on p t s, threads⟩ : Machine V J).after start mv = ⟨τ.on p t s₁, threads ++ new⟩ := by
  cases mv with
  | step j choice => exact absurd rfl (hmv j choice)
  | startPool config =>
    cases herror : config.startError? with
    | some e => exact ⟨s, #[], rfl, fun τ threads => by simp [after, startPool, herror]⟩
    | none =>
      refine ⟨{ s with pools := s.pools.push (.new config) }, (workers s.pools.size config.numWorkers).toArray,
        (⟨s, #[]⟩ : Machine V J).task?_addPool config, fun τ threads => ?_⟩
      have hpools : (τ.on p t s).pools = s.pools.modify p (τ.pool t) := rfl
      simp only [after, startPool, herror]
      simp only [hpools, push_modify hp, Array.size_modify]
      rfl
  | enter body => exact ⟨s, #[_], rfl, fun τ threads => rfl⟩
  | poll =>
    have hshelf : ∀ τ : Touch V J, (τ.on p t s).shelf = s.shelf := fun _ => rfl
    cases hr : s.shelf with
    | none => exact ⟨s, #[], rfl, fun τ threads => by simp [after, hshelf, hr]⟩
    | some r =>
      refine ⟨{ s with shelf := none }, #[{ stack := [.run r] }], rfl, fun τ threads => ?_⟩
      simp only [after, hshelf, hr]
      rfl
  | discard =>
    have hshelf : ∀ τ : Touch V J, (τ.on p t s).shelf = s.shelf := fun _ => rfl
    cases hr : s.shelf with
    | none => exact ⟨s, #[], rfl, fun τ threads => by simp [after, hshelf, hr]⟩
    | some r =>
      refine ⟨{ s with shelf := none }, #[{ stack := Frame.dropPending r.guards r.body }], rfl, fun τ threads => ?_⟩
      simp only [after, hshelf, hr]
      rfl

theorem after_outside {mv : Move V J} (hmv : ∀ j choice, mv ≠ .step j choice) {s : Store V J} (hp : p < s.pools.size)
    (t : TaskId) : ∃ s₁ new, s₁.task? p t = s.task? p t ∧
      (∀ threads, (⟨s, threads⟩ : Machine V J).after start mv = ⟨s₁, threads ++ new⟩) ∧
      ∀ (τ : Touch V J) threads,
        (⟨τ.on p t s, threads⟩ : Machine V J).after start mv = ⟨τ.on p t s₁, threads ++ new⟩ := by
  obtain ⟨s₁, new, htask, hafter⟩ := after_outside_on hmv hp t
  refine ⟨s₁, new, htask, fun threads => ?_, hafter⟩
  simpa only [Touch.on_nothing] using hafter .nothing threads

/-- How far two machines have come of which one has another body for the task: the first one may be `late` steps
behind. -/
inductive Abreast (start : J → Except RuntimeError (Body V J)) (calls : Prop) (p : PoolId) (t : TaskId) :
    Nat → Machine V J → Machine V J → Prop
  | waiting {late : Nat} {s : Store V J} {threads : Array (Thread V J)} {y : Task V J} {stage' : Stage V J}
      (hy : s.task? p t = some y) (hstate : y.state ≠ .completed) (h : y.stage.Parts start calls late stage') :
      Abreast start calls p t late ⟨s, threads⟩ ⟨(Touch.stage stage').on p t s, threads⟩
  | polled {late : Nat} {s : Store V J} {threads threads' : Array (Thread V J)}
      (h : Differ (Frame.Polled calls p t late) threads threads') :
      Abreast start calls p t late ⟨s, threads⟩ ⟨s, threads'⟩
  | settled {s : Store V J} {threads threads' : Array (Thread V J)} {y : Task V J} (hy : s.task? p t = some y)
      (hstate : y.state = .completed) (h : Differ (Frame.Tallied p t) threads threads') :
      Abreast start calls p t 0 ⟨s, threads⟩ ⟨(Touch.fails 0).on p t s, threads'⟩
  | counted {s : Store V J} {threads : Array (Thread V J)} {y : Task V J} (hy : s.task? p t = some y)
      (hstate : y.state = .completed) :
      Abreast start calls p t 0 ⟨(Touch.completes 1).on p t s, threads⟩ ⟨(Touch.fails 1).on p t s, threads⟩
  /-- The pool is closed, and its workers have ended without completing the task. -/
  | deserted {late : Nat} {m m' : Machine V J} {y : Task V J} (hclosed : m.store.Closed p) (hdeserted : m.Deserted p)
      (hy : m.store.task? p t = some y) (hstate : y.state ≠ .completed) : Abreast start calls p t late m m'

/-- Where both machines are about to let the body of the task take an instruction, it is the same one. -/
def InAccord (p : PoolId) (t : TaskId) (m m' : Machine V J) : Prop :=
  ∀ (i : Nat) (worker worker' : Option (PoolId × Nat)) (r r' : Run V J) (rest rest' : List (Frame V J)),
    m.threads[i]? = some ⟨worker, .run r :: rest⟩ → m'.threads[i]? = some ⟨worker', .run r' :: rest'⟩ →
    r.party = .task p t → r.body.Accords r'.body

/-- What the step of a machine comes to beside another one: that steps too, or waits. -/
def Follows (start : J → Except RuntimeError (Body V J)) (calls : Prop) (p : PoolId) (t : TaskId) (late : Nat)
    (mv : Move V J) (m m' : Machine V J) : Prop :=
  Abreast start calls p t late (m.after start mv) (m'.after start mv) ∨
    ∃ later, late = later + 1 ∧ Abreast start calls p t later (m.after start mv) m'

section follows

variable {calls : Prop} {late : Nat} {s : Store V J} {y : Task V J} {mv : Move V J}

/-- Whatever comes from the outside, neither machine gets ahead. -/
theorem Abreast.after_outside (h : Abreast start calls p t late m m') (hmv : ∀ j choice, mv ≠ .step j choice)
    (hp : p < m.store.pools.size) : Abreast start calls p t late (m.after start mv) (m'.after start mv) := by
  cases h with
  | waiting hy hstate h =>
    obtain ⟨s₁, new, htask, hleft, hafter⟩ := Machine.after_outside hmv hp t
    rw [hleft, hafter]
    exact .waiting (htask.trans hy) hstate h
  | polled h =>
    obtain ⟨s₁, new, htask, hleft, -⟩ := Machine.after_outside hmv hp t
    rw [hleft, hleft]
    exact .polled (h.append new)
  | settled hy hstate h =>
    obtain ⟨s₁, new, htask, hleft, hafter⟩ := Machine.after_outside hmv hp t
    rw [hleft, hafter]
    exact .settled (htask.trans hy) hstate (h.append new)
  | @counted s threads y hy hstate =>
    have hsize : p < s.pools.size := by simpa [Touch.on, Store.modifyPool] using hp
    obtain ⟨s₁, new, htask, -, hafter⟩ := Machine.after_outside hmv hsize t
    rw [hafter, hafter]
    exact .counted (htask.trans hy) hstate
  | deserted hclosed hdeserted hy hstate =>
    have harrival : Arrival m (m.after start mv) := by
      refine arrival_of_not_taken start ?_
      cases mv with
      | step j choice => exact absurd rfl (hmv j choice)
      | _ => rfl
    exact .deserted (hclosed.mono (m.after_keeps start mv)) (hdeserted.arrival harrival hclosed)
      (by rw [harrival.task?, hy]) hstate

theorem Abreast.of_deserted (hm : m.Scheduled) (hclosed : m.store.Closed p) (hdeserted : m.Deserted p)
    (hy : m.store.task? p t = some y) (hstate : y.state ≠ .completed) {m' : Machine V J} :
    Abreast start calls p t late (m.after start (.step j choice)) m' := by
  have hclosed' := hclosed.mono (m.after_keeps start (.step j choice))
  rcases m.after_step start j choice with ⟨heq, -⟩ | ⟨worker, f, rest, hj, -, -, -, heq⟩
  · rw [heq]
    exact .deserted hclosed hdeserted hy hstate
  · rw [heq] at hclosed' ⊢
    have hf : f ∈ f :: rest := List.mem_cons_self ..
    have hok := hm.framed.frames j _ hj f hf
    refine .deserted hclosed' (hdeserted.set hj _) (Frame.task?_step start worker choice f hy) fun hend => ?_
    obtain ⟨outcome, rfl⟩ := Frame.eq_of_completed_alter hok hstate hend
    exact hdeserted.not_works hm.framed t j _ hj _ hf (by simp [Frame.Works])

/-- While the task is put away, the only step that shows the difference is its poll, unless it is released. -/
theorem abreast_waiting {threads : Array (Thread V J)} {stage' : Stage V J}
    (hm : (⟨s, threads⟩ : Machine V J).Scheduled) (htidy : (⟨s, threads⟩ : Machine V J).Tidy)
    (hy : s.task? p t = some y) (hstate : y.state ≠ .completed) (h : y.stage.Parts start calls late stage') :
    Abreast start calls p t late ((⟨s, threads⟩ : Machine V J).after start (.step j choice))
      ((⟨(Touch.stage stage').on p t s, threads⟩ : Machine V J).after start (.step j choice)) := by
  rcases hj : threads[j]? with _ | ⟨worker, _ | ⟨f, rest⟩⟩
  · rw [after_of_idle (by simp [hj]), after_of_idle (by simp [hj])]
    exact .waiting hy hstate h
  · rw [after_of_idle (by simp [hj]), after_of_idle (by simp [hj])]
    exact .waiting hy hstate h
  · have hf : f ∈ f :: rest := List.mem_cons_self ..
    have hok := hm.framed.frames j _ hj f hf
    -- The body is in its stage, so no frame has it in hand.
    have hbody : ∀ k ∈ f.holds worker p t, ¬ k.HasBody := fun k hk hbody =>
      h.ne_consumed ((hm.sound p t).body y hy k (mem_holds_of_mem hj hf hk) hbody)
    rcases after_both start ⟨s, threads⟩ ⟨(Touch.stage stage').on p t s, threads⟩ rfl hj hj
      (Frame.isBlocked_on (Touch.sparesEntry_stage stage') worker choice s f) with ⟨heq, heq'⟩ | ⟨heq, heq'⟩
    · rw [heq, heq']
      exact .waiting hy hstate h
    · by_cases henter : f = .task p t .enter
      · subst henter
        obtain ⟨s₁, top, top', hstep, hstep', hpolled⟩ := Frame.enter_parts start worker choice hy h
        rw [heq, heq', hstep, hstep']
        refine .polled ⟨j, worker, [], top ++ rest, top' ++ rest, getElem?_setIfInBounds_self hj, ?_, hpolled rest⟩
        rw [Array.setIfInBounds_setIfInBounds]
        rfl
      -- A release throws it away, but then the workers have ended, and the task is never completed.
      by_cases hdiscard : f = .task p t .discard
      · subst hdiscard
        exact .of_deserted hm hok (htidy.vacated j _ hj _ hf p rfl) hy hstate
      have hstage : ¬ f.HeedsStage p t := by
        intro hheeds
        cases f with
        | pause r =>
          have hparty : r.party = .task p t := hheeds
          exact hbody (.pausing r) (by simp [Frame.holds, hparty]) trivial
        | task q u phase =>
          cases phase with
          | enter => exact henter (by rw [hheeds.1, hheeds.2])
          | discard => exact hdiscard (by rw [hheeds.1, hheeds.2])
          | _ => exact hheeds
        | _ => exact hheeds
      have hcommutes : Frame.Commutes (Touch.stage stage') p t start worker choice s f :=
        Frame.commutes_step (Touch.sparesEntry_stage stage') hy (fun _ => Touch.sparesState_stage stage')
          fun h => absurd h hstage
      rw [heq, heq', hcommutes]
      refine .waiting (Frame.task?_step start worker choice f hy) (fun hend => ?_) ?_
      · obtain ⟨outcome, rfl⟩ := Frame.eq_of_completed_alter hok hstate hend
        exact hbody (.ending outcome) (by simp [Frame.holds]) trivial
      · rwa [Frame.stage_alter hstage]

/-- Both polls take their next step. -/
theorem abreast_twin {threads : Array (Thread V J)} {f f' : Frame V J} {below : List (Frame V J)}
    (htidy : (⟨s, threads⟩ : Machine V J).Tidy) (hj : threads[j]? = some ⟨worker, f :: below⟩)
    (hf : Frame.Twin calls p t f f') (haccord : ∀ r r', f = .run r → f' = .run r' → r.body.Accords r'.body) :
    Abreast start calls p t 0 ((⟨s, threads⟩ : Machine V J).after start (.step j choice))
      ((⟨s, threads.setIfInBounds j ⟨worker, f' :: below⟩⟩ : Machine V J).after start (.step j choice)) := by
  have hj' : (threads.setIfInBounds j ⟨worker, f' :: below⟩)[j]? = some ⟨worker, f' :: below⟩ :=
    getElem?_setIfInBounds_self hj
  have hset : ∀ stack stack' : List (Frame V J),
      (threads.setIfInBounds j ⟨worker, f' :: below⟩).setIfInBounds j ⟨worker, stack'⟩ =
        (threads.setIfInBounds j ⟨worker, stack⟩).setIfInBounds j ⟨worker, stack'⟩ := fun stack stack' => by
    rw [Array.setIfInBounds_setIfInBounds, Array.setIfInBounds_setIfInBounds]
  have hworks : f.Works p t → ∃ y, s.task? p t = some y ∧ y.state.isTerminal = false := fun hw =>
    htidy.unended j _ hj f (List.mem_cons_self ..) p t hw
  rcases after_both start ⟨s, threads⟩ ⟨s, threads.setIfInBounds j ⟨worker, f' :: below⟩⟩ rfl hj hj'
    hf.isBlocked with ⟨heq, heq'⟩ | ⟨heq, heq'⟩
  · rw [heq, heq']
    exact .polled ⟨j, worker, [], _, _, hj, rfl, .twin hf below⟩
  · rw [heq, heq']
    dsimp only
    rcases Frame.step_twin start worker choice (s := s) hf haccord with
      ⟨s₁, above, g, g', hstep, hstep', hg⟩ | ⟨r, r', rfl, rfl, hr⟩ | ⟨outcome, rfl, rfl, hfail⟩
    · simp only [hstep, hstep', List.append_assoc, List.singleton_append]
      rw [hset (above ++ g :: below)]
      exact .polled ⟨j, worker, above, _, _, getElem?_setIfInBounds_self hj, rfl, .twin hg below⟩
    · have hw : (Frame.pause r).Works p t := by
        obtain ⟨-, guards, body, body', rfl, -⟩ := hr
        exact .inl rfl
      obtain ⟨y, hy, hlive⟩ := hworks hw
      obtain ⟨s₁, fs, y₁, stage', hstep, hstep', hy₁, hstate, hparts⟩ := Frame.pause_twin start worker choice hr hy
      simp only [hstep, hstep', Array.setIfInBounds_setIfInBounds]
      refine .waiting hy₁ (fun hend => ?_) hparts
      rw [← hstate, hend] at hlive
      cases hlive
    · obtain ⟨y, hy, -⟩ := hworks (.inr (.inr (.inr (.inl ⟨_, rfl⟩))))
      obtain ⟨s₁, y₁, hstep, hstep', hy₁, hstate⟩ := Frame.settle_twin start worker choice hy hfail
      simp only [hstep, hstep', List.singleton_append]
      rw [hset (.task p t (.tally (.returned (.ok ()))) :: below)]
      exact .settled hy₁ hstate ⟨j, worker, [], _, _, getElem?_setIfInBounds_self hj, rfl, .mk hfail below⟩

/-- During the poll the stores are the same. -/
theorem follows_polled {threads threads' : Array (Thread V J)}
    (htidy : (⟨s, threads⟩ : Machine V J).Tidy) (h : Differ (Frame.Polled calls p t late) threads threads')
    (haccord : calls → InAccord p t (⟨s, threads⟩ : Machine V J) ⟨s, threads'⟩) :
    Follows start calls p t late (.step j choice) ⟨s, threads⟩ ⟨s, threads'⟩ := by
  rcases h.on_top j with ⟨worker, rest, rest', hj, rfl, hR⟩ | ⟨worker, f, rest, rest', hj, hj', hnext⟩ | ⟨hidle, hidle'⟩
  · have hj' : (threads.setIfInBounds j ⟨worker, rest'⟩)[j]? = some ⟨worker, rest'⟩ := getElem?_setIfInBounds_self hj
    cases hR with
    | @twin f f' hf below =>
      refine .inl (abreast_twin htidy hj hf ?_)
      rintro r r' rfl rfl
      cases hf with
      | run hr =>
        refine haccord hr.1 j worker worker r r' below below hj hj' ?_
        obtain ⟨-, guards, body, body', rfl, -⟩ := hr
        rfl
    | entry e below =>
      rcases after_both start ⟨s, threads⟩ ⟨s, threads.setIfInBounds j _⟩ rfl hj hj' rfl with ⟨heq, heq'⟩ | ⟨heq, -⟩
      · rw [Follows, heq, heq']
        exact .inl (.polled h)
      · refine .inr ⟨1, rfl, ?_⟩
        rw [heq]
        exact .polled ⟨j, worker, [], _, _, getElem?_setIfInBounds_self hj,
          (Array.setIfInBounds_setIfInBounds ..).symm, .leaving e below⟩
    | leaving e below =>
      rcases after_both start ⟨s, threads⟩ ⟨s, threads.setIfInBounds j _⟩ rfl hj hj' rfl with ⟨heq, heq'⟩ | ⟨heq, -⟩
      · rw [Follows, heq, heq']
        exact .inl (.polled h)
      · refine .inr ⟨0, rfl, ?_⟩
        rw [heq]
        exact .polled ⟨j, worker, [], _, _, getElem?_setIfInBounds_self hj,
          (Array.setIfInBounds_setIfInBounds ..).symm, .twin (.ended rfl) below⟩
  · refine .inl ?_
    rcases after_both start ⟨s, threads⟩ ⟨s, threads'⟩ rfl hj hj' rfl with ⟨heq, heq'⟩ | ⟨heq, heq'⟩
    · rw [heq, heq']
      exact .polled h
    · rw [heq, heq']
      exact .polled (hnext _)
  · rw [Follows, after_of_idle hidle, after_of_idle hidle']
    exact .inl (.polled h)

/-- Once the task is completed, only a release sees the difference. -/
theorem commutes_completed (start : J → Except RuntimeError (Body V J)) (choice : Nat) (hm : m.Scheduled)
    (htidy : m.Tidy) {f : Frame V J} {rest : List (Frame V J)} (hj : m.threads[j]? = some ⟨worker, f :: rest⟩)
    (htask : m.store.task? p t = some y) (hy : s.task? p t = some y) (hstate : y.state = .completed) :
    f = .task p t .abandon ∨ (∀ n, Frame.Commutes (Touch.fails n) p t start worker choice s f) ∧
      (f.alter p t y).state = .completed := by
  have hf : f ∈ f :: rest := List.mem_cons_self ..
  have hok := hm.framed.frames j _ hj f hf
  have hworks : ¬ f.Works p t := fun hw => by
    obtain ⟨z, hz, hlive⟩ := htidy.unended j _ hj f hf p t hw
    rw [htask] at hz
    cases hz
    rw [hstate] at hlive
    cases hlive
  by_cases habandon : f = .task p t .abandon
  · exact .inl habandon
  · exact .inr ⟨Frame.commutes_fails hy hstate hok hworks habandon, Frame.completed_alter hok hstate hworks habandon⟩

theorem abreast_of_abandon {rest : List (Frame V J)} (hm : m.Scheduled) (htidy : m.Tidy)
    (hj : m.threads[j]? = some ⟨worker, .task p t .abandon :: rest⟩) (hy : m.store.task? p t = some y)
    (heq : m.after start (.step j choice) = ⟨((Frame.task p t .abandon).step start worker choice m.store).1,
      m.threads.setIfInBounds j ⟨worker, ((Frame.task p t .abandon).step start worker choice m.store).2 ++ rest⟩⟩) :
    Abreast start calls p t late (m.after start (.step j choice)) m' := by
  have hf : (Frame.task p t .abandon : Frame V J) ∈ .task p t .abandon :: rest := List.mem_cons_self ..
  have hclosed : m.store.Closed p := hm.framed.frames j _ hj _ hf
  have hclosed' := hclosed.mono (m.after_keeps start (.step j choice))
  rw [heq] at hclosed' ⊢
  refine .deserted hclosed' ((htidy.vacated j _ hj _ hf p rfl).set hj _) (Frame.task?_step start worker choice _ hy) ?_
  rw [Frame.alter, if_pos ⟨rfl, rfl⟩]
  exact TaskState.noConfusion

theorem abreast_settled {threads threads' : Array (Thread V J)} (hm : (⟨s, threads⟩ : Machine V J).Scheduled)
    (htidy : (⟨s, threads⟩ : Machine V J).Tidy) {pool : Pool V J} (hpool : s.pools[p]? = some pool)
    (hpolicy : pool.config.faultPolicy = .abortTask) (hy : s.task? p t = some y) (hstate : y.state = .completed)
    (h : Differ (Frame.Tallied p t) threads threads') :
    Abreast start calls p t 0 ((⟨s, threads⟩ : Machine V J).after start (.step j choice))
      ((⟨(Touch.fails 0).on p t s, threads'⟩ : Machine V J).after start (.step j choice)) := by
  rcases h.on_top j with ⟨worker, rest, rest', hj, rfl, hR⟩ | ⟨worker, f, rest, rest', hj, hj', hnext⟩ | ⟨hidle, hidle'⟩
  · have hj' : (threads.setIfInBounds j ⟨worker, rest'⟩)[j]? = some ⟨worker, rest'⟩ := getElem?_setIfInBounds_self hj
    cases hR with
    | mk hfail below =>
      rcases after_both start ⟨s, threads⟩ ⟨(Touch.fails 0).on p t s, threads.setIfInBounds j _⟩ rfl hj hj' rfl with
        ⟨heq, heq'⟩ | ⟨heq, heq'⟩
      · rw [heq, heq']
        exact .settled hy hstate h
      · obtain ⟨fs, hstep, hstep'⟩ := Frame.tally_twin start worker choice (t := t) hpool hpolicy hfail
        rw [heq, heq']
        simp only [hstep, hstep', Array.setIfInBounds_setIfInBounds]
        exact .counted hy hstate
  · rcases after_both start ⟨s, threads⟩ ⟨(Touch.fails 0).on p t s, threads'⟩ rfl hj hj'
      (Frame.isBlocked_on (Touch.sparesEntry_fails 0) worker choice s f) with ⟨heq, heq'⟩ | ⟨heq, heq'⟩
    · rw [heq, heq']
      exact .settled hy hstate h
    · rcases commutes_completed start choice hm htidy hj hy hy hstate with rfl | ⟨hcommutes, hend⟩
      · exact abreast_of_abandon hm htidy hj hy heq
      · rw [heq, heq', hcommutes 0]
        exact .settled (Frame.task?_step start worker choice f hy) hend (hnext _)
  · rw [after_of_idle hidle, after_of_idle hidle']
    exact .settled hy hstate h

theorem abreast_counted {threads : Array (Thread V J)}
    (hm : (⟨(Touch.completes 1).on p t s, threads⟩ : Machine V J).Scheduled)
    (htidy : (⟨(Touch.completes 1).on p t s, threads⟩ : Machine V J).Tidy) (hy : s.task? p t = some y)
    (hstate : y.state = .completed) :
    Abreast start calls p t 0 ((⟨(Touch.completes 1).on p t s, threads⟩ : Machine V J).after start (.step j choice))
      ((⟨(Touch.fails 1).on p t s, threads⟩ : Machine V J).after start (.step j choice)) := by
  have htask : ((Touch.completes 1).on p t s).task? p t = some y := by
    rw [Touch.task?_on_self, hy]
    rfl
  rcases hj : threads[j]? with _ | ⟨worker, _ | ⟨f, rest⟩⟩
  · rw [after_of_idle (by simp [hj]), after_of_idle (by simp [hj])]
    exact .counted hy hstate
  · rw [after_of_idle (by simp [hj]), after_of_idle (by simp [hj])]
    exact .counted hy hstate
  · have hblocked : f.isBlocked worker choice ((Touch.fails 1).on p t s) =
        f.isBlocked worker choice ((Touch.completes 1).on p t s) := by
      rw [Frame.isBlocked_on (Touch.sparesEntry_fails 1), Frame.isBlocked_on (Touch.sparesEntry_completes 1)]
    rcases after_both start ⟨(Touch.completes 1).on p t s, threads⟩ ⟨(Touch.fails 1).on p t s, threads⟩ rfl hj hj
      hblocked with ⟨heq, heq'⟩ | ⟨heq, heq'⟩
    · rw [heq, heq']
      exact .counted hy hstate
    · rcases commutes_completed start choice hm htidy hj htask hy hstate with
        rfl | ⟨hcommutes, hend⟩
      · exact abreast_of_abandon hm htidy hj htask heq
      · have hleft : Frame.Commutes (Touch.completes 1) p t start worker choice s f :=
          Frame.commutes_step (Touch.sparesEntry_completes 1) hy (fun _ => Touch.sparesState_completes 1)
            fun _ => Touch.sparesStage_completes 1
        rw [heq, heq', hleft, hcommutes 1]
        exact .counted (Frame.task?_step start worker choice f hy) hend

/-- A machine beside another one takes its next step with it, unless it has to catch up. -/
theorem Abreast.follows (hm : m.Scheduled) (htidy : m.Tidy)
    (hpolicy : ∃ pool, m.store.pools[p]? = some pool ∧ pool.config.faultPolicy = .abortTask)
    (h : Abreast start calls p t late m m') (haccord : calls → InAccord p t m m') (mv : Move V J) :
    Follows start calls p t late mv m m' := by
  obtain ⟨pool, hpool, hpolicy⟩ := hpolicy
  by_cases hmv : ∀ j choice, mv ≠ .step j choice
  · exact .inl (h.after_outside hmv (Array.getElem?_eq_some_iff.1 hpool).1)
  · push Not at hmv
    obtain ⟨j, choice, rfl⟩ := hmv
    cases h with
    | waiting hy hstate h => exact .inl (abreast_waiting hm htidy hy hstate h)
    | polled h => exact follows_polled htidy h haccord
    | settled hy hstate h => exact .inl (abreast_settled hm htidy hpool hpolicy hy hstate h)
    | counted hy hstate => exact .inl (abreast_counted hm htidy hy hstate)
    | deserted hclosed hdeserted hy hstate => exact .inl (.of_deserted hm hclosed hdeserted hy hstate)

end follows

/-- The second machine is the first one but for the end of the task: there it has failed, and is counted so. -/
structure FailsInstead (p : PoolId) (t : TaskId) (m m' : Machine V J) : Prop where
  threads : m'.threads = m.threads
  counted : ∃ pool, m.store.pools[p]? = some pool ∧ 0 < pool.stats.completed
  store : m'.store = m.store.modifyPool p fun pool =>
    { pool with
      tasks := pool.tasks.modify t fun y => { y with state := .failed }
      stats := { pool.stats with completed := pool.stats.completed - 1, failed := pool.stats.failed + 1 } }

section run

variable {calls : Prop} {late : Nat} {mvs₀ mvs : List (Move V J)} {y : Task V J}

theorem Abreast.failsInstead (htidy : m.Tidy) (h : Abreast start calls p t late m m') (hy : m.store.task? p t = some y)
    (hcompleted : y.state = .completed) (hcounted : m.AllFrames fun _ f => ∀ outcome, f ≠ .task p t (.tally outcome)) :
    late = 0 ∧ FailsInstead p t m m' := by
  have hworks : ∀ (i : Nat) (th : Thread V J), m.threads[i]? = some th → ∀ f ∈ th.stack, ¬ f.Works p t := by
    intro i th hi f hf hw
    obtain ⟨z, hz, hlive⟩ := htidy.unended i th hi f hf p t hw
    rw [hy] at hz
    cases hz
    rw [hcompleted] at hlive
    cases hlive
  cases h with
  | @waiting _ _ _ z _ hz hstate h =>
    cases hy.symm.trans hz
    exact absurd hcompleted hstate
  | polled h =>
    obtain ⟨i, worker, above, rest, rest', hi, -, hR⟩ := h
    obtain ⟨f, hf, hw⟩ := hR.exists_works
    exact absurd hw (hworks i _ hi f (List.mem_append_right _ hf))
  | settled hz hstate h =>
    obtain ⟨i, worker, above, rest, rest', hi, -, hR⟩ := h
    cases hR with
    | mk hfail below =>
      exact absurd rfl (hcounted i _ hi (.task p t (.tally (.returned (.ok ())))) (by simp) (.returned (.ok ())))
  | @counted s threads z hz hstate =>
    obtain ⟨pool, hpool, -⟩ := Store.exists_pool_of_task? hz
    refine ⟨rfl, rfl, ⟨(Touch.completes 1).pool t pool, ?_, Nat.succ_pos _⟩, ?_⟩
    · rw [Touch.on, Store.pools_modifyPool, if_pos rfl, hpool]
      rfl
    · rw [Touch.on, Touch.on, Store.modifyPool_modifyPool]
      refine congrArg (s.modifyPool p) (funext fun x => ?_)
      simp only [Touch.pool, Touch.fails, Touch.completes, modify_id, Nat.add_sub_cancel, Nat.add_zero]
  | deserted hclosed hdeserted hz hstate =>
    cases hy.symm.trans hz
    exact absurd hcompleted hstate

theorem Abreast.follows_run (hm : m = ({} : Machine V J).run start mvs₀)
    (hpolicy : ∃ pool, m.store.pools[p]? = some pool ∧ pool.config.faultPolicy = .abortTask) (mv : Move V J)
    (h : Abreast start calls p t late m m') (haccord : calls → InAccord p t m m') :
    Follows start calls p t late mv m m' := by
  refine h.follows ?_ ?_ hpolicy haccord mv
  · exact hm ▸ scheduled_run start mvs₀
  · exact hm ▸ tidy_run start mvs₀

theorem eq_run_after (hm : m = ({} : Machine V J).run start mvs₀) (mv : Move V J) :
    m.after start mv = ({} : Machine V J).run start (mvs₀ ++ [mv]) := by
  rw [run_append, ← hm]
  rfl

theorem policy_after (hpolicy : ∃ pool, m.store.pools[p]? = some pool ∧ pool.config.faultPolicy = .abortTask)
    (mv : Move V J) :
    ∃ pool, (m.after start mv).store.pools[p]? = some pool ∧ pool.config.faultPolicy = .abortTask := by
  obtain ⟨pool, hpool, hpolicy⟩ := hpolicy
  obtain ⟨pool', hpool', -, hconfig, -⟩ := m.after_keeps start mv p pool hpool
  exact ⟨pool', hpool', hconfig ▸ hpolicy⟩

theorem Abreast.run (hm : m = ({} : Machine V J).run start mvs₀)
    (hpolicy : ∃ pool, m.store.pools[p]? = some pool ∧ pool.config.faultPolicy = .abortTask)
    (h : Abreast start True p t 0 m m')
    (haccord : ∀ before, before <+: mvs → InAccord p t (m.run start before) (m'.run start before)) :
    Abreast start True p t 0 (m.run start mvs) (m'.run start mvs) := by
  induction mvs generalizing m m' mvs₀ with
  | nil => exact h
  | cons mv mvs ih =>
    rcases h.follows_run hm hpolicy mv fun _ => haccord [] List.nil_prefix with hnext | ⟨later, hlater, -⟩
    · exact ih (eq_run_after hm mv) (policy_after hpolicy mv) hnext fun before hbefore =>
        haccord (mv :: before) (List.cons_prefix_cons.2 ⟨rfl, hbefore⟩)
    · cases hlater

theorem Abreast.exists_run (hm : m = ({} : Machine V J).run start mvs₀)
    (hpolicy : ∃ pool, m.store.pools[p]? = some pool ∧ pool.config.faultPolicy = .abortTask)
    (h : Abreast start False p t late m m') (mvs : List (Move V J)) :
    ∃ mvs' later, mvs'.Sublist mvs ∧ mvs.length + later = mvs'.length + late ∧
      Abreast start False p t later (m.run start mvs) (m'.run start mvs') := by
  induction mvs generalizing m m' mvs₀ late with
  | nil => exact ⟨[], late, List.Sublist.refl _, rfl, h⟩
  | cons mv mvs ih =>
    rcases h.follows_run hm hpolicy mv False.elim with hnext | ⟨later, rfl, hnext⟩
    · obtain ⟨mvs', later, hsub, hlength, h⟩ := ih (eq_run_after hm mv) (policy_after hpolicy mv) hnext
      refine ⟨mv :: mvs', later, hsub.cons_cons mv, ?_, h⟩
      rw [List.length_cons, List.length_cons]
      omega
    · -- the first machine catches up
      obtain ⟨mvs', last, hsub, hlength, h⟩ := ih (eq_run_after hm mv) (policy_after hpolicy mv) hnext
      refine ⟨mvs', last, hsub.cons mv, ?_, h⟩
      rw [List.length_cons]
      omega

/-- The machine with something else left to do for the task. -/
def withStage (m : Machine V J) (p : PoolId) (t : TaskId) (stage : Stage V J) : Machine V J :=
  ⟨m.store.setStage p t stage, m.threads⟩

/-- A worker has claimed a task of a pool that aborts tasks only. However the threads go on from there, if the body that
is left of the task returns, and another one would make the same calls and end with an error or a panic, the other run
leaves the same machine but for the state of the task and for how many tasks of the pool have completed and failed. A
job that cannot be started leaves the same as one that returns at once, with the moves of the run but for two. -/
theorem faults_contained (hm : ({} : Machine V J).run start mvs₀ = m) {pool : Pool V J}
    (hpool : m.store.pools[p]? = some pool) (hpolicy : pool.config.faultPolicy = .abortTask) {rest : List (Frame V J)}
    (hclaimed : m.threads[i]? = some ⟨worker, .task p t .begin :: rest⟩) (hy : m.store.task? p t = some y)
    {z : Task V J} (hz : (m.run start mvs).store.task? p t = some z) (hcompleted : z.state = .completed)
    (hcounted : (m.run start mvs).AllFrames fun _ f => ∀ outcome, f ≠ .task p t (.tally outcome)) :
    (∀ stage', y.stage.Twin start stage' →
      (∀ before, before <+: mvs → InAccord p t (m.run start before) ((m.withStage p t stage').run start before)) →
        FailsInstead p t (m.run start mvs) ((m.withStage p t stage').run start mvs)) ∧
    ∀ job job' e, y.stage = .unclaimed job → start job = .ok (.done (.ok ())) → start job' = .error e →
      ∃ mvs', mvs'.Sublist mvs ∧ mvs.length = mvs'.length + 2 ∧
        FailsInstead p t (m.run start mvs) ((m.withStage p t (.unclaimed job')).run start mvs') := by
  have hlive : y.state ≠ .completed := by
    intro hend
    obtain ⟨x, hx, hlive⟩ := (hm ▸ tidy_run start mvs₀ : m.Tidy).unended i _ hclaimed _ (List.mem_cons_self ..) p t
      (.inr (.inl rfl))
    rw [hy] at hx
    cases hx
    rw [hend] at hlive
    cases hlive
  have htidy : (m.run start mvs).Tidy := by
    rw [← hm, ← run_append]
    exact tidy_run start _
  have hpolicy' : ∃ pool, m.store.pools[p]? = some pool ∧ pool.config.faultPolicy = .abortTask := ⟨pool, hpool, hpolicy⟩
  refine ⟨fun stage' htwin haccord => ?_, fun job job' e hjob hstart hstart' => ?_⟩
  · have h : Abreast start True p t 0 m (m.withStage p t stage') := .waiting hy hlive (.twin trivial htwin)
    exact ((h.run hm.symm hpolicy' haccord).failsInstead htidy hz hcompleted hcounted).2
  · have h : Abreast start False p t 2 m (m.withStage p t (.unclaimed job')) :=
      .waiting hy hlive (hjob ▸ .entry hstart hstart')
    obtain ⟨mvs', later, hsub, hlength, h⟩ := h.exists_run hm.symm hpolicy' mvs
    obtain ⟨rfl, hfails⟩ := h.failsInstead htidy hz hcompleted hcounted
    exact ⟨mvs', hsub, hlength, hfails⟩

/-- The first job fills a cell and returns, the second one fills it and panics; the third one returns at once, and the
others cannot be started. -/
def faulty : Nat → Except RuntimeError (Body Nat Nat)
  | 0 => .ok (.newCell fun c => .put c 5 fun _ => .done (.ok ()))
  | 1 => .ok (.newCell fun c => .put c 5 fun _ => .panic none)
  | 2 => .ok (.done (.ok ()))
  | _ => .error (.arityMismatch 2 1)

/-- A pool starts, someone spawns a job, and the only worker claims the task. -/
def claimingMoves (job : Nat) : List (Move Nat Nat) :=
  .startPool {} :: .enter (.spawn (some 0) job fun _ => .done (.ok ())) ::
    (List.replicate 20 (.step 1 0) ++ List.replicate 4 (.step 0 0))

/-- The worker runs the task and seeks the next one. -/
def endingMoves : List (Move Nat Nat) := List.replicate 13 (.step 0 0)

/-- Whether the bodies of two such tasks take the same instruction next. -/
def sameNext : Body Nat Nat → Body Nat Nat → Bool
  | .newCell _, .newCell _ => true
  | .put c value _, .put c' value' _ => c = c' && value = value'
  | .done (.ok ()), .panic _ => true
  | _, _ => false

def allSameNext (m m' : Machine Nat Nat) : Bool :=
  (List.range m.threads.size).all fun i =>
    match m.threads[i]?, m'.threads[i]? with
    | some ⟨_, .run r :: _⟩, some ⟨_, .run r' :: _⟩ => sameNext r.body r'.body
    | _, _ => true

theorem accords_of_sameNext {body body' : Body Nat Nat} (h : sameNext body body' = true) : body.Accords body' := by
  unfold sameNext at h
  split at h
  · exact .newCell _ _
  · rw [Bool.and_eq_true, decide_eq_true_iff, decide_eq_true_iff] at h
    obtain ⟨rfl, rfl⟩ := h
    exact .put _ _ _ _
  · exact .panics _
  · cases h

theorem inAccord_of_allSameNext {m m' : Machine Nat Nat} (h : allSameNext m m' = true) : InAccord p t m m' := by
  intro i worker worker' r r' rest rest' hi hi' _
  have hsame := List.all_eq_true.1 h i (List.mem_range.2 (Array.getElem?_eq_some_iff.1 hi).1)
  rw [hi, hi'] at hsame
  exact accords_of_sameNext hsame

set_option maxRecDepth 8000 in
/-- The job that panics leaves what the one that returns would leave, and so does the job that cannot be started. -/
theorem faults_contained_put :
    let m := fun job => ({} : Machine Nat Nat).run faulty (claimingMoves job)
    FailsInstead 0 0 ((m 0).run faulty endingMoves) (((m 0).withStage 0 0 (.unclaimed 1)).run faulty endingMoves) ∧
      ∃ mvs', mvs'.Sublist endingMoves ∧ endingMoves.length = mvs'.length + 2 ∧
        FailsInstead 0 0 ((m 2).run faulty endingMoves) (((m 2).withStage 0 0 (.unclaimed 3)).run faulty mvs') := by
  intro m
  have hclaimed : ∀ job, job = 0 ∨ job = 2 → ∃ pool y, (m job).store.pools[0]? = some pool ∧
      pool.config.faultPolicy = .abortTask ∧
      (m job).threads[0]? = some ⟨some (0, 0), [.task 0 0 .begin, .work .loop]⟩ ∧
      (m job).store.task? 0 0 = some y ∧ y.stage = .unclaimed job := by
    rintro job (rfl | rfl)
    all_goals
      simp only [m]
      rw [claimingMoves, run_startPool startError?_default]
      exact ⟨_, _, rfl, rfl, rfl, rfl, rfl⟩
  have hended : ∀ job, job = 0 ∨ job = 2 → ∃ z seek, ((m job).run faulty endingMoves).store.task? 0 0 = some z ∧
      z.state = .completed ∧
      ((m job).run faulty endingMoves).threads = #[⟨some (0, 0), [.work seek]⟩, ⟨none, []⟩] := by
    rintro job (rfl | rfl)
    all_goals
      simp only [m]
      rw [claimingMoves, run_startPool startError?_default]
      exact ⟨_, _, rfl, rfl, rfl⟩
  have haccord : ∀ k < 14, allSameNext ((m 0).run faulty (endingMoves.take k))
      (((m 0).withStage 0 0 (.unclaimed 1)).run faulty (endingMoves.take k)) = true := by
    simp only [m]
    rw [claimingMoves, run_startPool startError?_default]
    decide +kernel
  have hcounted : ∀ job, job = 0 ∨ job = 2 →
      ((m job).run faulty endingMoves).AllFrames fun _ f => ∀ outcome, f ≠ .task 0 0 (.tally outcome) := by
    intro job hjob
    obtain ⟨-, seek, -, -, hthreads⟩ := hended job hjob
    simp [allFrames_iff, hthreads]
  obtain ⟨pool, y, hpool, hpolicy, hfirst, hy, hstage⟩ := hclaimed 0 (.inl rfl)
  obtain ⟨z, -, hz, hcompleted, -⟩ := hended 0 (.inl rfl)
  obtain ⟨pool', y', hpool', hpolicy', hfirst', hy', hstage'⟩ := hclaimed 2 (.inr rfl)
  obtain ⟨z', -, hz', hcompleted', -⟩ := hended 2 (.inr rfl)
  refine ⟨(faults_contained rfl hpool hpolicy hfirst hy hz hcompleted (hcounted 0 (.inl rfl))).1 _
      (hstage ▸ .unclaimed rfl rfl) fun before hbefore => inAccord_of_allSameNext ?_,
    (faults_contained rfl hpool' hpolicy' hfirst' hy' hz' hcompleted' (hcounted 2 (.inr rfl))).2 2 3 _ hstage' rfl rfl⟩
  rw [List.prefix_iff_eq_take.1 hbefore]
  exact haccord _ (Nat.lt_succ_of_le hbefore.length_le)

end run
end Machine
end Dataflow
