import Dataflow.Proofs.Labour

/-!
# Programs that submit tasks

A program asks its pool to take one task after the other. When the pool refuses one the program waits until the pool is
idle and asks again; then nothing is queued, so it is not refused a second time (`Submits`). A submission is followed
from frame to frame up to the answer of its spawn call (`Submission.Asks.step`). What the answer does to the pool is
known then: a refused call books nothing but that it was refused (`Submission.Answers.step_reserve`), and an accepted
one makes the next task, once (`Submission.Answers.step_number`).
-/

namespace Dataflow

variable {V J : Type}

/-- The calls that submit so many tasks, of which task `k` has the job `job k`: each is accepted, at the second time if
it is refused at the first. -/
inductive Submits (job : TaskId → J) : Nat → List (Call J) → Prop where
  | nil : Submits job 0 []
  | accepted {k calls} (h : Submits job k calls) : Submits job (k + 1) (calls ++ [.accepted (job k)])
  | retried {k calls} (h : Submits job k calls) :
    Submits job (k + 1) (calls ++ [.refused (job k), .idled, .accepted (job k)])

namespace Frame

variable {start : J → Except RuntimeError (Body V J)} {worker : Option (PoolId × Nat)} {choice : Nat} {s : Store V J}
  {f g : Frame V J} {body : Body V J}

/-- A program that is in no task, before this body. -/
def program (body : Body V J) : Frame V J := .run { party := .outside, body }

theorem isOutside_of_mem_program (h : g ∈ [program body]) : g.IsOutside := by
  rw [List.mem_singleton.1 h]
  exact rfl

/-- What is left to book for a task when its spawn call has returned. -/
def IsBookkeeping : Frame V J → Prop
  | .count p _ | .task p _ .register | .task p _ .enqueue => p = 0
  | _ => False

theorem IsBookkeeping.step (h : f.IsBookkeeping) : (f.step start worker choice s).2 = [] := by
  cases f with
  | count => rfl
  | task p t phase =>
    cases phase with
    | register | enqueue => rfl
    | _ => exact h.elim
  | _ => exact h.elim

theorem IsBookkeeping.isLabour (h : f.IsBookkeeping) : f.IsLabour := by
  cases f with
  | count => exact h
  | task p t phase =>
    cases phase with
    | register | enqueue => exact ⟨h, trivial⟩
    | _ => exact h.elim
  | _ => exact h.elim

/-- A program that looks into an empty cell is blocked there. -/
theorem step_getBlocking_of_empty (start : J → Except RuntimeError (Body V J)) (choice : Nat) {c : CellId}
    (next : Except RuntimeError V → Body V J) (value : V) (hempty : (s.cell c).payload = .empty) :
    ∃ answer, (program (.getBlocking c next)).step start none choice s =
        (s.setCell c { s.cell c with blocked := (s.cell c).blocked + 1 }, [.blocked c false answer]) ∧
      answer (.ok (some value)) = { party := .outside, body := next (.ok value) } ∧
      ∀ result, (answer result).party = .outside := by
  have harrive : (s.cell c).arrive = .waiting { s.cell c with blocked := (s.cell c).blocked + 1 } := by
    simp [Cell.arrive, hempty]
  simp only [program, step, stepRun, harrive]
  refine ⟨_, rfl, rfl, ?_⟩
  rintro (e | _ | value) <;> rfl

/-- If the cell is full it goes on. -/
theorem step_getBlocking_of_full {c : CellId} (next : Except RuntimeError V → Body V J) {value : V}
    (hfull : (s.cell c).payload = .full value) : (program (.getBlocking c next)).step start none choice s =
      (s, [program (next (.ok value))]) := by
  have harrive : (s.cell c).arrive = .returned (.ok value) := by
    simp [Cell.arrive, hfull]
  simp only [program, step, stepRun, harrive, Run.goOn]

/-- Who was blocked on a cell goes on when it is full. -/
theorem step_blocked_of_full {c : CellId} {answer : Except RuntimeError (Option V) → Run V J} {value : V}
    (hfull : (s.cell c).payload = .full value) : (Frame.blocked c false answer).step start worker choice s =
      (s.setCell c { s.cell c with blocked := (s.cell c).blocked - 1 }, [.run (answer (.ok (some value)))]) := by
  have hrecheck : ∀ timeOver, (s.cell c).recheck timeOver =
      (some (.ok (some value)), { s.cell c with blocked := (s.cell c).blocked - 1 }) := fun timeOver => by
    simp [Cell.recheck, hfull]
  simp only [step, hrecheck]

end Frame

namespace Submission

section ask

variable (job : J) (next : Except RuntimeError TaskId → Body V J)

/-- What the spawn call of a submission comes to. -/
structure Answers (answer : Except RuntimeError TaskId → Run V J) : Prop where
  made : ∀ t, answer (.ok t) = { party := .outside, body := next (.ok t) }
  full : ∀ n, answer (.error (.spawnBackpressure n)) =
    { party := .outside, body := .waitIdle 0 (.submit 0 job next) }
  outside : ∀ result, (answer result).party = .outside

/-- The frames of a submission up to the answer of its spawn call, with so many steps before the last of them. -/
inductive Asks : Nat → Frame V J → Prop where
  | submit : Asks 3 (.program (.submit 0 job next))
  | spawn {answer} (h : Answers job next fun result => { party := .outside, body := answer result }) :
    Asks 2 (.program (.spawn (some 0) job answer))
  | check {answer} (h : Answers job next answer) : Asks 1 (.spawn 0 job .check answer)
  | reserve {answer} (h : Answers job next answer) : Asks 0 (.spawn 0 job .reserve answer)

end ask

variable {q k n : Nat} {s : Store V J} {f : Frame V J} {job : J} {next : Except RuntimeError TaskId → Body V J}
  {answer : Except RuntimeError TaskId → Run V J}

theorem Asks.isOutside (h : Asks job next n f) : f.IsOutside := by
  cases h with
  | submit | spawn => exact rfl
  | check h | reserve h => exact h.outside

/-- A submission goes on without touching anything up to its spawn call. -/
theorem Asks.step (h : Asks job next n f) (hrunning : s.Running 0) (start : J → Except RuntimeError (Body V J))
    (choice i : Nat) :
    (∃ l g, n = l + 1 ∧ f.step start none choice s = (s, [g]) ∧ Asks job next l g ∧
      Taken.call? 0 ⟨i, none, f, s⟩ = none) ∨
    n = 0 ∧ ∃ answer, f = .spawn 0 job .reserve answer ∧ Answers job next answer := by
  cases h with
  | submit => exact .inl ⟨2, _, rfl, rfl, .spawn ⟨fun _ => rfl, fun _ => rfl, fun _ => rfl⟩, rfl⟩
  | spawn h => exact .inl ⟨1, _, rfl, rfl, .check h, rfl⟩
  | check h => exact .inl ⟨0, _, rfl, Frame.step_check hrunning, .reserve h, rfl⟩
  | reserve h => exact .inr ⟨rfl, _, rfl, h⟩

/-- What a step of a submission leaves alone. -/
structure Booked (s s' : Store V J) (q k : Nat) : Prop where
  charge : s'.charge 0 = some (q, k)
  cells : s'.cells = s.cells
  notes : s'.notes = s.notes

/-- The spawn call takes a place, or it is refused; then something is queued, and it will be asked again. -/
theorem Answers.step_reserve (h : Answers job next answer) (hcharge : s.charge 0 = some (q, k))
    (start : J → Except RuntimeError (Body V J)) (choice i : Nat) :
    (∃ s', (Frame.spawn 0 job .reserve answer).step start none choice s = (s', [.spawn 0 job .number answer]) ∧
      Taken.call? 0 ⟨i, none, .spawn 0 job .reserve answer, s⟩ = some (.accepted job) ∧ Booked s s' (q + 1) k) ∨
    ∃ s', (Frame.spawn 0 job .reserve answer).step start none choice s =
        (s', [.program (.waitIdle 0 (.submit 0 job next))]) ∧
      Taken.call? 0 ⟨i, none, .spawn 0 job .reserve answer, s⟩ = some (.refused job) ∧ Booked s s' q k ∧ 0 < q := by
  obtain ⟨pool, hpool, heq⟩ := Option.map_eq_some_iff.1 hcharge
  obtain ⟨rfl, rfl⟩ := Prod.mk.inj heq
  by_cases hfree : pool.config.maxQueueSize = 0 ∨ pool.queued < pool.config.maxQueueSize
  · refine .inl ⟨_, Frame.step_reserve hpool hfree, ?_, Store.charge_modifyPool_self hpool, rfl, rfl⟩
    simp [Taken.call?, (Taken.accepts_reserve hpool).2 hfree]
  · have hpos : 0 < pool.config.maxQueueSize := Nat.pos_of_ne_zero fun hzero => hfree (.inl hzero)
    have hfull : pool.config.maxQueueSize ≤ pool.queued := Nat.le_of_not_lt fun hlt => hfree (.inr hlt)
    have hrefused : Taken.accepts 0 ⟨i, none, .spawn 0 job .reserve answer, s⟩ = false :=
      Bool.eq_false_iff.2 fun haccepts => hfree ((Taken.accepts_reserve hpool).1 haccepts)
    have hstep : (Frame.spawn 0 job .reserve answer).step start none choice s = _ :=
      Frame.step_reserve_of_full hpool hpos hfull
    rw [h.full] at hstep
    refine .inr ⟨_, hstep, ?_, ⟨Store.charge_modifyPool_self hpool, rfl, rfl⟩, Nat.lt_of_lt_of_le hpos hfull⟩
    simp [Taken.call?, hrefused]

/-- An accepted call makes the next task. -/
theorem Answers.step_number (h : Answers job next answer) (hcharge : s.charge 0 = some (q, k))
    (start : J → Except RuntimeError (Body V J)) (choice : Nat) :
    ∃ s' bookings, (Frame.spawn 0 job .number answer).step start none choice s =
        (s', bookings ++ [.program (next (.ok k))]) ∧
      (∀ g ∈ bookings, g.IsBookkeeping) ∧ bookings.length = 5 ∧ Booked s s' q (k + 1) ∧
      s.task? 0 k = none ∧ s'.task? 0 k = some { stage := .unclaimed job } := by
  obtain ⟨pool, hpool, heq⟩ := Option.map_eq_some_iff.1 hcharge
  obtain ⟨rfl, rfl⟩ := Prod.mk.inj heq
  have hstep : (Frame.spawn 0 job .number answer).step start none choice s = _ := Frame.step_number hpool
  rw [h.made] at hstep
  refine ⟨_, [.count 0 .activeUp, .count 0 .liveUp, .task 0 pool.tasks.size .register, .count 0 .spawned,
    .task 0 pool.tasks.size .enqueue], hstep, fun g hg => ?_, rfl, ⟨?_, rfl, rfl⟩, ?_, ?_⟩
  · simp only [List.mem_cons, List.not_mem_nil, or_false] at hg
    rcases hg with rfl | rfl | rfl | rfl | rfl <;> exact rfl
  · rw [Store.charge_modifyPool_self hpool, Array.size_push]
  · simp [Store.task?_eq, hpool]
  · rw [Store.task?_eq, Store.pools_modifyPool, if_pos rfl, hpool]
    simp

/-- Task `k` is asked for, for the first time, or, when it has been refused once, while nothing is queued. So many more
steps may be before the program than if it were accepted now. -/
inductive Tries (job : TaskId → J) (s : Store V J) (k : Nat) : Nat → List (Call J) → Prop where
  | first {calls} (h : Submits job k calls) : Tries job s k 6 calls
  | again {calls} (h : Submits job k calls) (hidle : s.charge 0 = some (0, k)) :
    Tries job s k 0 (calls ++ [.refused (job k), .idled])

/-- The task counts as submitted when it is accepted. -/
theorem Tries.accepted {job : TaskId → J} {calls : List (Call J)} (h : Tries job s k n calls) :
    Submits job (k + 1) (calls ++ [.accepted (job k)]) := by
  cases h with
  | first h => exact h.accepted
  | again h =>
    rw [List.append_assoc]
    exact h.retried

/-- Nobody is refused twice. -/
theorem Tries.refused {job : TaskId → J} {calls : List (Call J)} (h : Tries job s k n calls)
    (hcharge : s.charge 0 = some (q, k)) (hq : 0 < q) : n = 6 ∧ Submits job k calls := by
  cases h with
  | first h => exact ⟨rfl, h⟩
  | again h hidle =>
    cases hcharge.symm.trans hidle
    exact absurd hq (Nat.lt_irrefl 0)

end Submission

end Dataflow
