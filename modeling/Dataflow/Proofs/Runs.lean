import Dataflow.Pool.Machine

/-!
# Runs

A run is a list of moves: a thread takes a step, or the outside starts a pool, sends in a thread, or
polls or drops the body on the shelf. A move that is not possible does nothing, so every list of moves is
a run. `Machine.trace` lists the steps that were taken.

A property of a machine is carried along a run by `Machine.run_induction`; what one step does is said by
`Machine.after_step` alone.
-/

namespace Dataflow

/-- An entry of a list with one more entry. -/
theorem getElem?_concat_eq_some_iff {α : Type} {xs : List α} {a b : α} {k : Nat} :
    (xs ++ [a])[k]? = some b ↔ xs[k]? = some b ∨ (k = xs.length ∧ b = a) := by
  rcases Nat.lt_or_ge k xs.length with hlt | hge
  · rw [List.getElem?_append_left hlt]
    exact ⟨.inl, fun h => h.resolve_right fun h => absurd h.1 (Nat.ne_of_lt hlt)⟩
  · rw [List.getElem?_append_right hge, List.getElem?_singleton, List.getElem?_eq_none hge]
    split
    · simp only [Option.some.injEq, reduceCtorEq, false_or]
      exact ⟨fun h => ⟨by omega, h.symm⟩, fun h => h.2.symm⟩
    · simp only [reduceCtorEq, false_or, false_iff]
      exact fun h => by omega

/-- A step that was taken: by which thread, with which frame, and on which store. -/
structure Taken (V J : Type) where
  thread : Nat
  worker : Option (PoolId × Nat)
  frame : Frame V J
  store : Store V J

/-- The step makes the task, with that job. -/
def Taken.Spawns {V J : Type} (p : PoolId) (t : TaskId) (e : Taken V J) (job : J) : Prop :=
  ∃ next pool, e.frame = .spawn p job .number next ∧ e.store.pools[p]? = some pool ∧ pool.tasks.size = t

/-- What can happen to a machine. -/
inductive Move (V J : Type) where
  /-- A thread takes a step. -/
  | step (thread choice : Nat)
  | startPool (config : PoolConfig)
  /-- A thread outside all pools begins with a body. -/
  | enter (body : Body V J)
  /-- A thread outside all pools polls the body on the shelf. -/
  | poll
  /-- A thread outside all pools drops the body on the shelf. -/
  | discard

namespace Machine

variable {V J : Type} (start : J → Except RuntimeError (Body V J))

/-- A machine at its beginning: so many empty cells, no pools and no threads. -/
def withCells (n : Nat) : Machine V J := { store := { cells := .replicate n {} } }

/-- The machine with one more thread outside all pools. -/
def spawnThread (m : Machine V J) (frames : List (Frame V J)) : Machine V J :=
  { m with threads := m.threads.push { stack := frames } }

/-- The machine without the body on the shelf. -/
def clearShelf (m : Machine V J) : Machine V J := { m with store := { m.store with shelf := none } }

/-- The workers of a pool at their start. -/
def workers (p : PoolId) (count : Nat) : List (Thread V J) :=
  (List.range count).map fun w => { worker := some (p, w), stack := [.work .loop] }

/-- The machine with one more pool and its workers. -/
def addPool (m : Machine V J) (config : PoolConfig) : Machine V J :=
  { store := { m.store with pools := m.store.pools.push (.new config) }
    threads := m.threads ++ (workers m.store.pools.size config.numWorkers).toArray }

/-- The machine after a move; a move that is not possible does nothing. -/
def after (m : Machine V J) : Move V J → Machine V J
  | .step thread choice => (m.step start thread choice).getD m
  | .startPool config =>
    match m.startPool config with
    | .ok (_, m') => m'
    | .error _ => m
  | .enter body => m.spawnThread [.run { party := .outside, body }]
  | .poll =>
    match m.store.shelf with
    | some r => m.clearShelf.spawnThread [.run r]
    | none => m
  | .discard =>
    match m.store.shelf with
    | some r => m.clearShelf.spawnThread (Frame.dropPending r.guards r.body)
    | none => m

/-- The machine after a run. -/
def run (m : Machine V J) : List (Move V J) → Machine V J
  | [] => m
  | mv :: mvs => (m.after start mv).run mvs

/-- The step that a move takes. -/
def taken (m : Machine V J) : Move V J → Option (Taken V J)
  | .step thread choice =>
    if m.canStep thread choice then
      match m.threads[thread]? with
      | some ⟨worker, frame :: _⟩ => some ⟨thread, worker, frame, m.store⟩
      | _ => none
    else none
  | _ => none

/-- The steps that a run takes, in order. -/
def trace (m : Machine V J) : List (Move V J) → List (Taken V J)
  | [] => []
  | mv :: mvs => (m.taken mv).toList ++ (m.after start mv).trace mvs

/-- The frames that a thread has before it; none if there is no such thread. -/
def stackOf (m : Machine V J) (thread : Nat) : List (Frame V J) :=
  (m.threads[thread]?.map (·.stack)).getD []

/-- All frames of all threads satisfy `P`. -/
def AllFrames (P : Option (PoolId × Nat) → Frame V J → Prop) (m : Machine V J) : Prop :=
  ∀ (i : Nat) (th : Thread V J), m.threads[i]? = some th → ∀ f ∈ th.stack, P th.worker f

theorem allFrames_iff {P : Option (PoolId × Nat) → Frame V J → Prop} {m : Machine V J} :
    m.AllFrames P ↔ ∀ th ∈ m.threads.toList, ∀ f ∈ th.stack, P th.worker f := by
  refine ⟨fun h th hth => ?_, fun h i th hi => h th (Array.mem_toList_iff.2 (Array.mem_of_getElem? hi))⟩
  obtain ⟨i, hi⟩ := List.mem_iff_getElem?.1 hth
  exact h i th (by rw [← Array.getElem?_toList, hi])

variable {start}

theorem run_append (m : Machine V J) (mvs mvs' : List (Move V J)) :
    m.run start (mvs ++ mvs') = (m.run start mvs).run start mvs' := by
  induction mvs generalizing m with
  | nil => rfl
  | cons mv mvs ih => exact ih _

theorem trace_append (m : Machine V J) (mvs mvs' : List (Move V J)) :
    m.trace start (mvs ++ mvs') = m.trace start mvs ++ (m.run start mvs).trace start mvs' := by
  induction mvs generalizing m with
  | nil => rfl
  | cons mv mvs ih => simp [trace, run, ih]

/-- What is said of a machine and the steps that led to it, and is kept by every move of a run, holds after the
run. Each move is one of the run, and the steps that were taken up to it are the first of those of the run. -/
theorem trace_induction_of_mem (start : J → Except RuntimeError (Body V J))
    {P : Machine V J → List (Taken V J) → Prop} {m : Machine V J} {mvs : List (Move V J)}
    (hP : ∀ m' tr mv, mv ∈ mvs → tr ++ (m'.taken mv).toList <+: m.trace start mvs → P m' tr →
      P (m'.after start mv) (tr ++ (m'.taken mv).toList))
    (hm : P m []) : P (m.run start mvs) (m.trace start mvs) := by
  have extend : ∀ (mvs' : List (Move V J)) (m' : Machine V J) (tr : List (Taken V J)), (∀ mv ∈ mvs', mv ∈ mvs) →
      tr ++ m'.trace start mvs' = m.trace start mvs → P m' tr → P (m'.run start mvs') (m.trace start mvs) := by
    intro mvs'
    induction mvs' with
    | nil =>
      intro m' tr _ htr hm'
      rw [trace, List.append_nil] at htr
      exact htr ▸ hm'
    | cons mv mvs' ih =>
      intro m' tr hmvs htr hm'
      rw [trace, ← List.append_assoc] at htr
      refine ih _ _ (fun mv' h => hmvs mv' (List.mem_cons_of_mem _ h)) htr
        (hP m' tr mv (hmvs mv (List.mem_cons_self ..)) ?_ hm')
      exact ⟨_, htr⟩
  exact extend mvs m [] (fun _ => id) rfl hm

theorem mem_of_taken {m : Machine V J} {mv : Move V J} {e : Taken V J} {tr tr' : List (Taken V J)}
    (h : m.taken mv = some e) (hpre : tr ++ (m.taken mv).toList <+: tr') : e ∈ tr' :=
  hpre.subset (List.mem_append_right _ (by simp [h]))

/-- What every move of every machine keeps. -/
theorem trace_induction (start : J → Except RuntimeError (Body V J))
    {P : Machine V J → List (Taken V J) → Prop}
    (hP : ∀ m tr mv, P m tr → P (m.after start mv) (tr ++ (m.taken mv).toList)) {m : Machine V J}
    (hm : P m []) (mvs : List (Move V J)) : P (m.run start mvs) (m.trace start mvs) :=
  trace_induction_of_mem start (fun m' tr mv _ _ h => hP m' tr mv h) hm

/-- What holds of a machine and is kept by every move holds after every run. -/
theorem run_induction (start : J → Except RuntimeError (Body V J)) {P : Machine V J → Prop}
    (hP : ∀ m mv, P m → P (m.after start mv)) {m : Machine V J} (hm : P m) (mvs : List (Move V J)) :
    P (m.run start mvs) :=
  trace_induction start (P := fun m' _ => P m') (fun m' _ mv h => hP m' mv h) hm mvs

/-- What a step does: the frame on top of one stack is replaced, if the thread can take the step. -/
theorem after_step (start : J → Except RuntimeError (Body V J)) (m : Machine V J) (i choice : Nat) :
    (m.after start (.step i choice) = m ∧ m.taken (.step i choice) = none) ∨
    ∃ worker f rest, m.threads[i]? = some ⟨worker, f :: rest⟩ ∧ m.store.aborted = false ∧
      f.isBlocked worker choice m.store = false ∧
      m.taken (.step i choice) = some ⟨i, worker, f, m.store⟩ ∧
      m.after start (.step i choice) =
        ⟨(f.step start worker choice m.store).1, m.threads.setIfInBounds i
          ⟨worker, (f.step start worker choice m.store).2 ++ rest⟩⟩ := by
  by_cases hc : m.canStep i choice = true
  · refine .inr ?_
    have hc' := hc
    unfold canStep at hc'
    obtain ⟨store, threads⟩ := m
    rcases hth : threads[i]? with _ | ⟨worker, _ | ⟨f, rest⟩⟩
    · simp [hth] at hc'
    · simp [hth] at hc'
    · simp only [hth, Bool.and_eq_true, Bool.not_eq_eq_eq_not, Bool.not_true] at hc'
      refine ⟨worker, f, rest, rfl, hc'.1, hc'.2, by simp [taken, hc, hth], ?_⟩
      simp [after, step, hc, advance, hth]
  · exact .inl ⟨by simp [after, step, hc], by simp [taken, hc]⟩

/-- What is known of a move that takes a step. -/
theorem after_of_taken (start : J → Except RuntimeError (Body V J)) {m : Machine V J} {mv : Move V J}
    {e : Taken V J} (h : m.taken mv = some e) :
    ∃ choice rest, mv = .step e.thread choice ∧ e.store = m.store ∧
      m.threads[e.thread]? = some ⟨e.worker, e.frame :: rest⟩ ∧
      m.after start mv = ⟨(e.frame.step start e.worker choice m.store).1, m.threads.setIfInBounds e.thread
        ⟨e.worker, (e.frame.step start e.worker choice m.store).2 ++ rest⟩⟩ := by
  cases mv with
  | step i choice =>
    rcases m.after_step start i choice with ⟨-, hnone⟩ | ⟨worker, f, rest, hi, -, -, htaken, heq⟩
    · rw [hnone] at h
      cases h
    · rw [htaken] at h
      cases h
      exact ⟨choice, rest, rfl, rfl, hi, heq⟩
  | _ => cases h

theorem thread_of_taken {m : Machine V J} {mv : Move V J} {e : Taken V J} (h : m.taken mv = some e) :
    ∃ rest, m.threads[e.thread]? = some ⟨e.worker, e.frame :: rest⟩ := by
  obtain ⟨-, rest, -, -, hi, -⟩ := after_of_taken (fun _ => .error .poolShutDown) h
  exact ⟨rest, hi⟩

theorem canStep_iff {m : Machine V J} {i choice : Nat} : m.canStep i choice = true ↔ m.store.aborted = false ∧
    ∃ worker f rest, m.threads[i]? = some ⟨worker, f :: rest⟩ ∧ f.isBlocked worker choice m.store = false := by
  unfold canStep
  rcases hi : m.threads[i]? with _ | ⟨worker, _ | ⟨f, rest⟩⟩
  · simp
  · simp
  · simp only [Bool.and_eq_true, Bool.not_eq_true']
    refine and_congr_right fun _ => ⟨fun hfree => ⟨worker, f, rest, rfl, hfree⟩, ?_⟩
    rintro ⟨_, _, _, heq, hfree⟩
    cases heq
    exact hfree

theorem after_of_canStep (start : J → Except RuntimeError (Body V J)) {m : Machine V J} {i choice : Nat}
    (h : m.canStep i choice = true) : ∃ worker f rest, m.threads[i]? = some ⟨worker, f :: rest⟩ ∧
      f.isBlocked worker choice m.store = false ∧
      m.after start (.step i choice) = ⟨(f.step start worker choice m.store).1, m.threads.setIfInBounds i
        ⟨worker, (f.step start worker choice m.store).2 ++ rest⟩⟩ := by
  rcases m.after_step start i choice with ⟨-, hnone⟩ | ⟨worker, f, rest, hi, -, hfree, -, heq⟩
  · obtain ⟨-, worker, f, rest, hi, -⟩ := canStep_iff.1 h
    simp [taken, h, hi] at hnone
  · exact ⟨worker, f, rest, hi, hfree, heq⟩

/-- A pool starts, or nothing happens. -/
theorem after_startPool (start : J → Except RuntimeError (Body V J)) (m : Machine V J)
    (config : PoolConfig) :
    m.after start (.startPool config) = m ∨ m.after start (.startPool config) = m.addPool config := by
  simp only [after, startPool]
  cases config.startError? with
  | some e => exact .inl rfl
  | none => exact .inr rfl

/-- A pool that nothing keeps from starting starts. -/
theorem run_startPool {config : PoolConfig} (h : config.startError? = none) (m : Machine V J)
    (mvs : List (Move V J)) : m.run start (.startPool config :: mvs) = (m.addPool config).run start mvs := by
  have hafter : m.after start (.startPool config) = m.addPool config := by
    simp only [after, startPool, h]
    rfl
  rw [run, hafter]

theorem trace_startPool {config : PoolConfig} (h : config.startError? = none) (m : Machine V J)
    (mvs : List (Move V J)) : m.trace start (.startPool config :: mvs) = (m.addPool config).trace start mvs := by
  have hafter : m.after start (.startPool config) = m.addPool config := by
    simp only [after, startPool, h]
    rfl
  rw [trace, hafter]
  rfl

/-- A job that waits for the first cell. -/
def waitingJob (_ : Unit) : Except RuntimeError (Body Nat Unit) := .ok (.get 0 none fun _ => .done (.ok ()))

theorem startError?_default : ({} : PoolConfig).startError? = none := by cbv

theorem getElem?_setIfInBounds_self {th th' : Thread V J} {threads : Array (Thread V J)} {i : Nat}
    (h : threads[i]? = some th) : (threads.setIfInBounds i th')[i]? = some th' := by
  have hi : i < threads.size := (Array.getElem?_eq_some_iff.1 h).1
  simp [hi]

theorem thread_of_set {th th' x : Thread V J} {threads : Array (Thread V J)} {i j : Nat} (hi : threads[i]? = some th)
    (hj : (threads.setIfInBounds i th')[j]? = some x) : i = j ∧ x = th' ∨ i ≠ j ∧ threads[j]? = some x := by
  by_cases hij : i = j
  · subst hij
    rw [getElem?_setIfInBounds_self hi] at hj
    exact .inl ⟨rfl, (Option.some.inj hj).symm⟩
  · rw [Array.getElem?_setIfInBounds_ne hij] at hj
    exact .inr ⟨hij, hj⟩

/-- A step of a thread that is no worker of the pool leaves the workers of the pool where they are. -/
theorem worker_of_set {worker : Option (PoolId × Nat)} {stack stack' : List (Frame V J)} {threads : Array (Thread V J)}
    {th : Thread V J} {p : PoolId} {i j w : Nat} (hi : threads[i]? = some ⟨worker, stack⟩)
    (hworker : ∀ w, worker ≠ some (p, w)) (hj : (threads.setIfInBounds i ⟨worker, stack'⟩)[j]? = some th)
    (hth : th.worker = some (p, w)) : threads[j]? = some th := by
  rcases thread_of_set hi hj with ⟨-, rfl⟩ | ⟨-, hj⟩
  · exact absurd hth (hworker w)
  · exact hj

theorem stackOf_eq {m : Machine V J} {i : Nat} {th : Thread V J} (h : m.threads[i]? = some th) :
    m.stackOf i = th.stack := by
  simp [stackOf, h]

theorem exists_of_stackOf_ne_nil {m : Machine V J} {i : Nat} (h : m.stackOf i ≠ []) :
    ∃ th, m.threads[i]? = some th ∧ m.stackOf i = th.stack := by
  unfold stackOf at h ⊢
  cases hth : m.threads[i]? with
  | none => simp [hth] at h
  | some th => exact ⟨th, rfl, rfl⟩

/-- A thread that is there stays as it is, unless it takes a step itself. -/
theorem thread_after (start : J → Except RuntimeError (Body V J)) (m : Machine V J) (mv : Move V J) {i : Nat}
    {worker : Option (PoolId × Nat)} {stack : List (Frame V J)} (h : m.threads[i]? = some ⟨worker, stack⟩) :
    ((m.after start mv).threads[i]? = some ⟨worker, stack⟩ ∧ ∀ e, m.taken mv = some e → e.thread ≠ i) ∨
    ∃ choice f rest, mv = .step i choice ∧ stack = f :: rest ∧ m.store.aborted = false ∧
      f.isBlocked worker choice m.store = false ∧ m.taken mv = some ⟨i, worker, f, m.store⟩ ∧
      m.after start mv = ⟨(f.step start worker choice m.store).1, m.threads.setIfInBounds i
        ⟨worker, (f.step start worker choice m.store).2 ++ rest⟩⟩ := by
  have hlt : i < m.threads.size := (Array.getElem?_eq_some_iff.1 h).1
  cases mv with
  | step j choice =>
    rcases m.after_step start j choice with ⟨heq, htaken⟩ | ⟨worker', f, rest, hj, halive, hfree, htaken, heq⟩
    · exact .inl ⟨by rw [heq, h], by rw [htaken]; simp⟩
    · by_cases hij : j = i
      · subst hij
        rw [h] at hj
        cases hj
        exact .inr ⟨choice, f, rest, rfl, rfl, halive, hfree, htaken, heq⟩
      · refine .inl ⟨?_, by rw [htaken]; rintro e ⟨⟩; exact hij⟩
        rw [heq, Array.getElem?_setIfInBounds_ne hij, h]
  | startPool config =>
    refine .inl ⟨?_, by simp [taken]⟩
    rcases m.after_startPool start config with heq | heq
    · rw [heq, h]
    · simp [heq, addPool, Array.getElem?_append_left hlt, h]
  | enter body => exact .inl ⟨by simp [after, spawnThread, Array.getElem?_push, Nat.ne_of_lt hlt, h], by simp [taken]⟩
  | poll | discard =>
    refine .inl ⟨?_, by simp [taken]⟩
    simp only [after]
    split
    · simp [clearShelf, spawnThread, Array.getElem?_push, Nat.ne_of_lt hlt, h]
    · exact h

/-- Frames that are there stay where they are, unless the thread itself takes a step. -/
theorem stackOf_after (start : J → Except RuntimeError (Body V J)) (m : Machine V J) (mv : Move V J) {i : Nat}
    (h : m.stackOf i ≠ []) :
    ((m.after start mv).stackOf i = m.stackOf i ∧ ∀ e, m.taken mv = some e → e.thread ≠ i) ∨
    ∃ worker choice f rest, m.taken mv = some ⟨i, worker, f, m.store⟩ ∧ m.stackOf i = f :: rest ∧
      m.threads[i]? = some ⟨worker, f :: rest⟩ ∧
      (m.after start mv).store = (f.step start worker choice m.store).1 ∧
      (m.after start mv).stackOf i = (f.step start worker choice m.store).2 ++ rest := by
  obtain ⟨⟨worker, stack⟩, hth, hstack⟩ := exists_of_stackOf_ne_nil h
  rcases thread_after start m mv hth with ⟨hafter, hother⟩ | ⟨choice, f, rest, -, rfl, -, -, htaken, heq⟩
  · exact .inl ⟨by rw [stackOf_eq hafter, hstack], hother⟩
  · refine .inr ⟨worker, choice, f, rest, htaken, hstack, hth, by rw [heq], ?_⟩
    rw [heq, stackOf, getElem?_setIfInBounds_self hth]
    rfl

theorem pools_addPool {m : Machine V J} {config : PoolConfig} {pool : Pool V J} {p : PoolId}
    (hp : m.store.pools[p]? = some pool) : (m.addPool config).store.pools[p]? = some pool := by
  have hlt : p < m.store.pools.size := (Array.getElem?_eq_some_iff.1 hp).1
  simp [addPool, Array.getElem?_push, Nat.ne_of_lt hlt, hp]

/-- A thread that comes from outside is no worker. -/
theorem thread_of_spawnThread {m : Machine V J} {frames stack : List (Frame V J)} {home : PoolId × Nat} {j : Nat}
    (h : (m.spawnThread frames).threads[j]? = some ⟨some home, stack⟩) : m.threads[j]? = some ⟨some home, stack⟩ := by
  simp only [spawnThread, Array.getElem?_push] at h
  split at h
  · cases h
  · exact h

/-- The threads of a new pool are workers of no other pool. -/
theorem thread_of_addPool {m : Machine V J} {config : PoolConfig} {stack : List (Frame V J)} {p : PoolId} {j w : Nat}
    (hp : p < m.store.pools.size) (h : (m.addPool config).threads[j]? = some ⟨some (p, w), stack⟩) :
    m.threads[j]? = some ⟨some (p, w), stack⟩ := by
  simp only [addPool, Array.getElem?_append] at h
  split at h
  · exact h
  · simp only [workers, List.getElem?_toArray, List.getElem?_map, Option.map_eq_some_iff, Thread.mk.injEq,
      Option.some.injEq, Prod.mk.injEq] at h
    obtain ⟨v, -, ⟨heq, -⟩, -⟩ := h
    exact absurd heq (Nat.ne_of_gt hp)

namespace AllFrames

variable {P Q : Option (PoolId × Nat) → Frame V J → Prop} {m : Machine V J}

theorem mono (h : m.AllFrames P) (hPQ : ∀ worker f, P worker f → Q worker f) : m.AllFrames Q :=
  fun i th hi f hf => hPQ th.worker f (h i th hi f hf)

theorem set {i : Nat} {worker : Option (PoolId × Nat)} {f : Frame V J} {fs rest : List (Frame V J)}
    (h : m.AllFrames P) (hi : m.threads[i]? = some ⟨worker, f :: rest⟩) (hfs : ∀ g ∈ fs, P worker g)
    (s : Store V J) : AllFrames P ⟨s, m.threads.setIfInBounds i ⟨worker, fs ++ rest⟩⟩ := by
  intro j th hj g hg
  rcases thread_of_set hi hj with ⟨-, rfl⟩ | ⟨-, hj⟩
  · rcases List.mem_append.1 hg with hg | hg
    · exact hfs g hg
    · exact h i _ hi g (by simp [hg])
  · exact h j th hj g hg

theorem spawnThread {frames : List (Frame V J)} (h : m.AllFrames P) (hf : ∀ f ∈ frames, P none f) :
    (m.spawnThread frames).AllFrames P := by
  intro i th hi f hmem
  simp only [Machine.spawnThread, Array.getElem?_push] at hi
  split at hi
  · cases hi; exact hf f hmem
  · exact h i th hi f hmem

theorem clearShelf (h : m.AllFrames P) : m.clearShelf.AllFrames P := h

theorem addPool {config : PoolConfig} (h : m.AllFrames P)
    (hw : ∀ w < config.numWorkers, P (some (m.store.pools.size, w)) (.work .loop)) :
    (m.addPool config).AllFrames P := by
  intro i th hi f hf
  simp only [Machine.addPool, Array.getElem?_append] at hi
  split at hi
  · exact h i th hi f hf
  · simp only [Machine.workers, List.getElem?_toArray, List.getElem?_map, Option.map_eq_some_iff,
      List.getElem?_eq_some_iff, List.length_range, List.getElem_range] at hi
    obtain ⟨w, ⟨hlt, hwi⟩, rfl⟩ := hi
    simp only [List.mem_singleton] at hf
    subst hf
    exact hw w (hwi ▸ hlt)

end AllFrames

end Machine
end Dataflow
