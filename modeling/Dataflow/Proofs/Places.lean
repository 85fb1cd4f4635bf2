import Dataflow.Proofs.Runs
import Dataflow.Proofs.Stores

/-!
# Where a task is

Every place where a task can be met between its spawn and its end: the ready queues of its pool, a stolen
batch, the hands of a worker, a call that is about to enqueue it. `Machine.sites` lists these places for
one task, as often as it is met.

The same places, told apart by what may happen next instead of where they are, are the holds of a task:
`Machine.holds` is the multiset of them. A step of a frame replaces the holds of that frame and moves
holds between the queues and the frame (`Machine.holds_set`); all others stay.
-/

namespace Dataflow

/-- A place where a task is met. -/
inductive Site where
  /-- The queue of its pool. -/
  | injector
  /-- The queue of a worker. -/
  | localQueue (worker : Nat)
  /-- A stolen batch on its way. -/
  | batch (thief : Option (PoolId × Nat))
  /-- The hands of a thread that took it out of a queue and has not recorded what came of it. -/
  | hand (holder : Option (PoolId × Nat))
  /-- A call that is about to put it into a queue. -/
  | call
  deriving DecidableEq, Repr

/-- The place belongs to the pool: its queues, its workers, or a call of anyone. -/
def Site.IsOf (p : PoolId) : Site → Prop
  | .batch worker | .hand worker => ∃ w, worker = some (p, w)
  | _ => True

/-- How a task is held. -/
inductive Hold (V J : Type) where
  /-- It waits for its claim, or is about to. -/
  | ready
  /-- A wake call took it out of its parking place and hands it back. -/
  | rescheduling
  /-- It is claimed, and its poll begins. -/
  | claimed
  /-- Its body runs. -/
  | polling (r : Run V J)
  /-- Its body is inside a call that blocks or spawns. -/
  | asking
  /-- Its body has to wait. -/
  | pausing (r : Run V J)
  /-- Its body has ended. -/
  | ending (outcome : Outcome)
  /-- Its poll was left pending. -/
  | parking
  /-- It was woken during the poll. -/
  | requeue

namespace Hold

variable {V J : Type}

/-- Whoever holds the task so has its body. -/
def HasBody : Hold V J → Prop
  | .polling _ | .asking | .pausing _ | .ending _ => True
  | _ => False

/-- The body has ended. -/
def IsEnding : Hold V J → Prop
  | .ending _ => True
  | _ => False

/-- It is on its way to a claim. -/
def IsReady : Hold V J → Prop
  | .ready | .rescheduling => True
  | _ => False

end Hold

/-- Nothing is left to do but to end. -/
def Body.IsEnd {V J : Type} : Body V J → Prop
  | .done _ | .panic _ => True
  | _ => False

namespace Frame

variable {V J : Type} (worker : Option (PoolId × Nat)) (p : PoolId) (t : TaskId)

/-- The places of a task in one frame of a thread. -/
def sites : Frame V J → List Site
  | .run r | .pause r => if r.party = .task p t then [.hand worker] else []
  | .ended party _ => if party = .task p t then [.hand worker] else []
  | .blocked _ _ next => if (next (.ok none)).party = .task p t then [.hand worker] else []
  | .spawn _ _ _ next =>
    if (next (.error .poolShutDown)).party = .task p t then [.hand worker] else []
  | .reschedule q u => if q = p ∧ u = t then [.call] else []
  | .task q u phase =>
    if q = p ∧ u = t then
      match phase with
      | .claim | .begin | .enter | .settle _ | .park | .requeue => [.hand worker]
      | .enqueue => [.call]
      | _ => []
    else []
  | .work (.keep first rest) =>
    if worker.map (·.1) = some p then List.replicate ((first :: rest).count t) (.batch worker) else []
  | _ => []

/-- The holds that one frame of a thread has of a task. -/
def holds : Frame V J → Multiset (Hold V J)
  | .run r => if r.party = .task p t then {.polling r} else 0
  | .pause r => if r.party = .task p t then {.pausing r} else 0
  | .ended party outcome => if party = .task p t then {.ending outcome} else 0
  | .blocked _ _ next => if (next (.ok none)).party = .task p t then {.asking} else 0
  | .spawn _ _ _ next => if (next (.error .poolShutDown)).party = .task p t then {.asking} else 0
  | .reschedule q u => if q = p ∧ u = t then {.rescheduling} else 0
  | .task q u phase =>
    if q = p ∧ u = t then
      match phase with
      | .claim | .enqueue => {.ready}
      | .begin | .enter => {.claimed}
      | .settle outcome => {.ending outcome}
      | .park => {.parking}
      | .requeue => {.requeue}
      | _ => 0
    else 0
  | .work (.keep first rest) =>
    if worker.map (·.1) = some p then Multiset.replicate ((first :: rest).count t) .ready else 0
  | _ => 0

/-- The holds that frames have of a task together. -/
def holdsAll (frames : List (Frame V J)) : Multiset (Hold V J) :=
  (frames.map (holds worker p t)).sum

variable {worker p t}

@[simp] theorem holdsAll_nil : holdsAll worker p t ([] : List (Frame V J)) = 0 := rfl

@[simp] theorem holdsAll_cons (f : Frame V J) (fs : List (Frame V J)) :
    holdsAll worker p t (f :: fs) = f.holds worker p t + holdsAll worker p t fs := by
  simp [holdsAll]

@[simp] theorem holdsAll_append (fs gs : List (Frame V J)) :
    holdsAll worker p t (fs ++ gs) = holdsAll worker p t fs + holdsAll worker p t gs := by
  simp [holdsAll]

theorem holdsAll_eq_zero {fs : List (Frame V J)} (h : ∀ f ∈ fs, f.holds worker p t = 0) :
    holdsAll worker p t fs = 0 := by
  induction fs with
  | nil => rfl
  | cons f fs ih => simp [h f (by simp), ih fun g hg => h g (by simp [hg])]

@[simp] theorem holdsAll_map_wake (parties : List Party) :
    holdsAll worker p t (parties.map (.wake : Party → Frame V J)) = 0 :=
  holdsAll_eq_zero fun f hf => by
    obtain ⟨party, -, rfl⟩ := List.mem_map.1 hf
    rfl

@[simp] theorem holdsAll_afterPut (c : CellId) (before : Cell V Party) :
    holdsAll worker p t (afterPut c before : List (Frame V J)) = 0 := by
  unfold afterPut
  rw [holdsAll_append, holdsAll_map_wake]
  split <;> simp [holds]

@[simp] theorem holdsAll_dropPending (guards : List (Guard V)) (body : Body V J) :
    holdsAll worker p t (dropPending guards body) = 0 := by
  refine holdsAll_eq_zero fun f hf => ?_
  simp only [dropPending, List.mem_append, List.mem_map, List.mem_singleton] at hf
  rcases hf with ⟨_, -, rfl⟩ | rfl <;> rfl

/-- A frame is a place of a task as often as it holds it. -/
theorem length_sites (f : Frame V J) : (f.sites worker p t).length = Multiset.card (f.holds worker p t) := by
  unfold sites holds
  split <;> (try split) <;> (try split) <;> simp_all

end Frame

/-- The holds that a thread has of a task. -/
def Thread.holds {V J : Type} (p : PoolId) (t : TaskId) (th : Thread V J) : Multiset (Hold V J) :=
  Frame.holdsAll th.worker p t th.stack

/-- A task that waits in the queues of its pool is held ready, as often as it is there. -/
def Store.holds {V J : Type} (s : Store V J) (p : PoolId) (t : TaskId) : Multiset (Hold V J) :=
  Multiset.replicate (s.waiting p t) .ready

/-- The places of a task in the queues of its pool. -/
def Store.sites {V J : Type} (s : Store V J) (p : PoolId) (t : TaskId) : List Site :=
  match s.pools[p]? with
  | none => []
  | some pool =>
    List.replicate (pool.injector.items.count t) .injector ++
      pool.locals.queues.zipIdx.flatMap fun (q, w) => List.replicate (q.items.count t) (.localQueue w)

theorem Store.length_sites {V J : Type} (s : Store V J) (p : PoolId) (t : TaskId) :
    (s.sites p t).length = s.waiting p t := by
  unfold sites waiting
  cases s.pools[p]? with
  | none => rfl
  | some pool =>
    have hsum : ∀ (qs : List (Queue TaskId)) (k : Nat),
        ((qs.zipIdx k).map fun x => x.1.items.count t).sum = (qs.map fun q => q.items.count t).sum := by
      intro qs
      induction qs with
      | nil => intro k; rfl
      | cons q qs ih => intro k; simp [List.zipIdx_cons, ih]
    simp [Pool.waiting, LocalQueues.count, List.length_flatMap, hsum]

namespace Machine

variable {V J : Type} (m : Machine V J) (p : PoolId) (t : TaskId)

/-- The places of a task. -/
def sites : List Site :=
  m.store.sites p t ++ m.threads.toList.flatMap fun th => th.stack.flatMap (Frame.sites th.worker p t)

/-- Something added up over all frames of all threads. -/
def frameSum {M : Type} [AddCommMonoid M] (g : Option (PoolId × Nat) → Frame V J → M) (m : Machine V J) : M :=
  (m.threads.toList.map fun th => (th.stack.map (g th.worker)).sum).sum

/-- Replacing the top frame of one stack replaces its part of a sum. -/
theorem frameSum_set {M : Type} [AddCommMonoid M] (g : Option (PoolId × Nat) → Frame V J → M)
    {m : Machine V J} {i : Nat} {worker : Option (PoolId × Nat)} {f : Frame V J} {rest : List (Frame V J)}
    (hi : m.threads[i]? = some ⟨worker, f :: rest⟩) :
    ∃ others, m.frameSum g = g worker f + others ∧
      ∀ s fs, frameSum g ⟨s, m.threads.setIfInBounds i ⟨worker, fs ++ rest⟩⟩ =
        (fs.map (g worker)).sum + others := by
  obtain ⟨others, h1, h2⟩ := exists_sum_set (fun th : Thread V J => (th.stack.map (g th.worker)).sum)
    (show m.threads.toList[i]? = some ⟨worker, f :: rest⟩ by rw [Array.getElem?_toList]; exact hi)
  refine ⟨(rest.map (g worker)).sum + others, ?_, fun s fs => ?_⟩
  · rw [frameSum, h1, List.map_cons, List.sum_cons, add_assoc]
  · rw [frameSum, Array.toList_setIfInBounds, h2, List.map_append, List.sum_append, add_assoc]

theorem frameSum_eq_zero {M : Type} [AddCommMonoid M] {g : Option (PoolId × Nat) → Frame V J → M} {m : Machine V J}
    (h : m.AllFrames fun worker f => g worker f = 0) : m.frameSum g = 0 := by
  refine List.sum_eq_zero fun c hc => ?_
  obtain ⟨th, hth, rfl⟩ := List.mem_map.1 hc
  obtain ⟨i, hi⟩ := List.mem_iff_getElem?.1 hth
  refine List.sum_eq_zero fun c hc => ?_
  obtain ⟨f, hf, rfl⟩ := List.mem_map.1 hc
  exact h i th (by rw [← Array.getElem?_toList, hi]) f hf

/-- What is in a sum over all frames is in one of them. -/
theorem mem_frameSum {α : Type} {m : Machine V J} {g : Option (PoolId × Nat) → Frame V J → Multiset α} {a : α} :
    a ∈ m.frameSum g ↔ ∃ th ∈ m.threads.toList, ∃ f ∈ th.stack, a ∈ g th.worker f := by
  have mem_sum : ∀ Ts : List (Multiset α), a ∈ Ts.sum ↔ ∃ T ∈ Ts, a ∈ T := by
    intro Ts
    induction Ts with
    | nil => simp
    | cons T Ts ih => simp [ih]
  simp [frameSum, mem_sum]

/-- How a task is held. -/
def holds : Multiset (Hold V J) := m.store.holds p t + (m.threads.toList.map (Thread.holds p t)).sum

theorem length_sites : (m.sites p t).length = Multiset.card (m.holds p t) := by
  have hframes : ∀ worker (fs : List (Frame V J)),
      (fs.flatMap (Frame.sites worker p t)).length = Multiset.card (Frame.holdsAll worker p t fs) := by
    intro worker fs
    induction fs with
    | nil => rfl
    | cons f fs ih => simp [ih, Frame.length_sites]
  have hthreads : ∀ ths : List (Thread V J),
      (ths.flatMap fun th => th.stack.flatMap (Frame.sites th.worker p t)).length =
        Multiset.card (ths.map (Thread.holds p t)).sum := by
    intro ths
    induction ths with
    | nil => rfl
    | cons th ths ih => simp only [List.flatMap_cons, List.length_append, ih, hframes, Thread.holds,
        List.map_cons, List.sum_cons, Multiset.card_add]
  simp [sites, holds, Store.holds, Store.length_sites, hthreads]

variable {m p t}

/-- Replacing the top frame of one stack replaces its holds and leaves all those of other frames. -/
theorem holds_set {i : Nat} {worker : Option (PoolId × Nat)} {f : Frame V J} {rest : List (Frame V J)}
    (hi : m.threads[i]? = some ⟨worker, f :: rest⟩) (p : PoolId) (t : TaskId) :
    ∃ others, m.holds p t = m.store.holds p t + f.holds worker p t + others ∧
      ∀ s fs, Machine.holds ⟨s, m.threads.setIfInBounds i ⟨worker, fs ++ rest⟩⟩ p t =
        s.holds p t + Frame.holdsAll worker p t fs + others := by
  obtain ⟨others, h1, h2⟩ := frameSum_set (fun worker f => Frame.holds worker p t f) hi
  exact ⟨others, by rw [add_assoc, ← h1]; rfl, fun s fs => by rw [add_assoc]; exact congrArg _ (h2 s fs)⟩

/-- What a frame of a thread holds is held. -/
theorem mem_holds_of_mem {i : Nat} {th : Thread V J} {f : Frame V J} {k : Hold V J} (hi : m.threads[i]? = some th)
    (hf : f ∈ th.stack) (hk : k ∈ f.holds th.worker p t) : k ∈ m.holds p t := by
  have hmem : k ∈ m.frameSum fun worker f => f.holds worker p t :=
    mem_frameSum.2 ⟨th, List.mem_iff_getElem?.2 ⟨i, by rw [Array.getElem?_toList, hi]⟩, f, hf, hk⟩
  exact Multiset.mem_add.2 (.inr hmem)

end Machine
end Dataflow
