import Dataflow.Proofs.Alterations
import Dataflow.Proofs.Charges
import Dataflow.Proofs.Finishing
import Dataflow.Proofs.Payloads
import Dataflow.Proofs.Schedules
import Dataflow.Work.Graph

/-!
# The labour of workers

What a program outside does with a pool are calls on it (`Call`). What the workers do for tasks that neither block nor
spawn nor go wrong is labour (`Frame.IsLabour`): it never has to wait.

How far tasks have come is measured twice: by the turns that each has before it (`Machine.ranks`), and by the small
steps in between that are before the threads (`Frame.load`). A step to which nothing happens but the second
(`Machine.Still`) leaves the first as it was.
-/

namespace Dataflow

/-! ### Calls on a pool -/

/-- What is asked of a pool. -/
inductive Call (J : Type) where
  /-- A place for the task of a job, which the pool gives. -/
  | accepted (job : J)
  /-- One which it does not give. -/
  | refused (job : J)
  /-- To wait until it is idle. -/
  | idled

/-- The call on the pool that the step answers. -/
def Taken.call? {V J : Type} (p : PoolId) (e : Taken V J) : Option (Call J) :=
  match e.frame with
  | .spawn q job .reserve _ => if q = p then some (if e.accepts p then .accepted job else .refused job) else none
  | .waitIdle q => if q = p then some .idled else none
  | _ => none

/-- There are at most so many tasks. -/
theorem Store.lt_of_charge {V J : Type} {s : Store V J} {p : PoolId} {q k : Nat} {t : TaskId} {y : Task V J}
    (hcharge : s.charge p = some (q, k)) (hy : s.task? p t = some y) : t < k := by
  obtain ⟨pool, hpool, heq⟩ := Option.map_eq_some_iff.1 hcharge
  have hsize : pool.tasks.size = k := congrArg Prod.snd heq
  rw [Store.task?_eq, hpool] at hy
  exact hsize ▸ (Array.getElem?_eq_some_iff.1 hy).1

/-- And all of them are there. -/
theorem Store.exists_task?_of_charge {V J : Type} {s : Store V J} {p : PoolId} {q k : Nat} {t : TaskId}
    (hcharge : s.charge p = some (q, k)) (ht : t < k) : ∃ y, s.task? p t = some y := by
  obtain ⟨pool, hpool, heq⟩ := Option.map_eq_some_iff.1 hcharge
  have hsize : pool.tasks.size = k := congrArg Prod.snd heq
  rw [Store.task?_eq, hpool]
  exact ⟨_, Array.getElem?_eq_getElem (hsize ▸ ht)⟩

/-! ### Inside and outside -/

namespace Frame

variable {V J : Type} {start : J → Except RuntimeError (Body V J)} {worker : Option (PoolId × Nat)} {choice : Nat}
  {s : Store V J} {f : Frame V J} {below : List (Frame V J)}

/-- The frame belongs to a program that is in no task. -/
def IsOutside : Frame V J → Prop
  | .run r => r.party = .outside
  | .blocked _ _ next => ∀ answer, (next answer).party = .outside
  | .spawn _ _ _ next => ∀ answer, (next answer).party = .outside
  | .waitIdle _ | .shutdown _ _ => True
  | _ => False

/-- The frame belongs to a task of the first pool that neither blocks nor spawns nor goes wrong, or to a call that
wakes one. -/
def IsLabour : Frame V J → Prop
  | .run r | .pause r => ∃ t, r.party = .task 0 t
  | .drop guards => guards = []
  | .ended party outcome => ∃ t, party = .task 0 t ∧ outcome = .returned (.ok ())
  | .wake party => ∃ t, party = .task 0 t
  | .signal _ | .work _ => True
  | .exchange p _ _ _ | .reschedule p _ | .count p _ => p = 0
  | .task p _ phase => p = 0 ∧
    match phase with
    | .settle outcome | .tally outcome => outcome = .returned (.ok ())
    | .abandon | .discard => False
    | _ => True
  | _ => False

theorem IsLabour.not_isOutside (h : f.IsLabour) : ¬ f.IsOutside := by
  intro hout
  cases f with
  | run r =>
    obtain ⟨t, hr⟩ := h
    cases hr.symm.trans hout
  | blocked | spawn | waitIdle | shutdown => exact h
  | _ => exact hout

/-- It never has to wait, if it is no worker that looks for tasks. -/
theorem IsLabour.isBlocked_eq_false (h : f.IsLabour) (hwork : ∀ seek, f = .work seek → worker ≠ none) (choice : Nat) :
    f.isBlocked worker choice s = false := by
  cases f with
  | work seek =>
    obtain ⟨home, rfl⟩ := Option.ne_none_iff_exists'.1 (hwork seek rfl)
    rfl
  | blocked | waitIdle | shutdown => exact h.elim
  | _ => rfl

theorem IsLabour.call?_eq_none {e : Taken V J} (h : e.frame.IsLabour) : e.call? 0 = none := by
  obtain ⟨i, worker, f, s'⟩ := e
  cases f with
  | spawn | waitIdle => exact h.elim
  | _ => rfl

theorem aborted_of_isLabour (h : f.IsLabour ∨ f.IsOutside) : (f.step start worker choice s).1.aborted = s.aborted := by
  by_cases htally : ∃ q t outcome, f = .task q t (.tally outcome)
  · obtain ⟨q, t, outcome, rfl⟩ := htally
    obtain ⟨-, rfl⟩ := h.resolve_right id
    simp only [step]
    rw [stepTask_tally]
    split
    · rfl
    · rw [if_neg (by simp [isFatal])]
      rfl
  · exact aborted_step fun q t outcome h => htally ⟨q, t, outcome, h⟩

/-- Unless it runs a body, it changes no cell, and what it says nobody hears. -/
theorem IsLabour.still (h : f.IsLabour) (hrun : ∀ r, f ≠ .run r) (start : J → Except RuntimeError (Body V J))
    (worker : Option (PoolId × Nat)) (choice : Nat) (s : Store V J) :
    (f.step start worker choice s).1.cells = s.cells ∧ (f.step start worker choice s).1.notes = s.notes ∧
      ∀ c ∈ s.signalled, c ∈ (f.step start worker choice s).1.signalled := by
  have same : s.cells = s.cells ∧ s.notes = s.notes ∧ ∀ c ∈ s.signalled, c ∈ s.signalled := ⟨rfl, rfl, fun _ => id⟩
  cases f with
  | run r => exact absurd rfl (hrun r)
  | pause r =>
    obtain ⟨t, hr⟩ := h
    simp only [step, stepPause, hr]
    exact same
  | drop guards =>
    obtain rfl : guards = [] := h
    exact same
  | ended party outcome =>
    obtain ⟨t, rfl, -⟩ := h
    exact same
  | signal c => exact ⟨rfl, rfl, fun _ => List.mem_cons_of_mem _⟩
  | wake party =>
    obtain ⟨t, rfl⟩ := h
    simp only [step, stepWake]
    repeat' split
    all_goals exact same
  | exchange p t seen target =>
    simp only [step, stepExchange]
    repeat' split
    all_goals exact same
  | reschedule p t =>
    simp only [step, stepReschedule]
    split <;> exact same
  | task p t phase =>
    cases phase with
    | abandon | discard => exact h.2.elim
    | _ =>
      simp only [step, stepTask]
      repeat' split
      all_goals exact same
  | count p change => exact same
  | work seek =>
    rcases worker with _ | ⟨p, w⟩
    · exact same
    · rcases stepWork_pools choice s p w seek with heq | ⟨g, heq, -⟩ <;> rw [step, heq] <;> exact same
  | _ => exact h.elim

/-- It gives back places, and makes no tasks. -/
theorem IsLabour.charge (h : f.IsLabour) {q k : Nat} (hcharge : s.charge 0 = some (q, k)) :
    ∃ q' ≤ q, (f.step start worker choice s).1.charge 0 = some (q', k) := by
  by_cases hcharges : f.Charges 0
  · cases f with
    | task p t phase =>
      cases phase with
      | enter =>
        obtain rfl : p = 0 := hcharges
        obtain ⟨pool, hpool, heq⟩ := Option.map_eq_some_iff.1 hcharge
        cases heq
        exact ⟨_, Nat.sub_le .., Taken.charge_step_enter (i := 0) hpool rfl⟩
      | _ => exact hcharges.elim
    | spawn => exact h.elim
    | _ => exact hcharges.elim
  · exact ⟨q, Nat.le_refl q, (charge_step hcharges).trans hcharge⟩

/-- What is outside has no task in hand. -/
theorem IsOutside.holds_eq_zero (h : f.IsOutside) (p : PoolId) (t : TaskId) : f.holds worker p t = 0 := by
  cases f with
  | run r => exact if_neg fun hr => by rw [h] at hr; cases hr
  | blocked c timed next | spawn q job phase next => exact if_neg fun hr => by rw [h _] at hr; cases hr
  | shutdown | waitIdle => rfl
  | _ => exact h.elim

theorem IsLooking.holds_eq_zero (h : f.IsLooking) (p : PoolId) (t : TaskId) : f.holds worker p t = 0 := by
  obtain ⟨seek, rfl⟩ := h.exists_seek
  cases seek <;> first | rfl | exact h.elim

/-- A worker with stolen tasks in hand puts them away before anything else. -/
theorem keep_notMem_tail_step {first : TaskId} {rest : List TaskId} (h : .work (.keep first rest) ∉ below) :
    .work (.keep first rest) ∉ ((f.step start worker choice s).2 ++ below).tail := by
  have hnew : (.work (.keep first rest) : Frame V J) ∉ (f.step start worker choice s).2.tail := by
    have hgives := gives_step start worker choice s f
    generalize (f.step start worker choice s).2 = fs at hgives ⊢
    cases hgives with
    | @run r =>
      obtain ⟨quiet, g, hfs, hquiet, hg⟩ := stepRun_frames worker s r
      rw [hfs]
      intro hmem
      rcases List.mem_append.1 (List.mem_of_mem_tail hmem) with hmem | hmem
      · exact hquiet _ hmem
      · rw [← List.mem_singleton.1 hmem] at hg
        exact hg
    | drop hfs =>
      intro hmem
      rcases hfs _ (List.mem_of_mem_tail hmem) with ⟨c, value, hg⟩ | ⟨guards, hg⟩ <;> cases hg
    | @fill c value => exact fun hmem => isQuiet_afterPut (List.mem_of_mem_tail hmem)
    | discarded guards body => exact fun hmem => isQuiet_dropPending (List.mem_of_mem_tail hmem)
    | joined n => exact fun hmem => by simpa using List.mem_of_mem_tail hmem
    | _ => simp
  intro hmem
  cases hfs : (f.step start worker choice s).2 with
  | nil =>
    rw [hfs] at hmem
    exact h (List.mem_of_mem_tail hmem)
  | cons g fs =>
    rw [hfs] at hmem hnew
    rcases List.mem_append.1 hmem with hmem | hmem
    · exact hnew hmem
    · exact h hmem

/-- A worker that looks for tasks of a running pool finds one, or a batch, or goes on looking. -/
inductive Looks (s : Store V J) (p : PoolId) : Store V J × List (Frame V J) → Prop where
  | finds {s' t} : Looks s p (s', [.task p t .claim, .work .loop])
  | steals {s' first rest} : Looks s p (s', [.work (.keep first rest)])
  | goesOn {seek} (h : (.work seek : Frame V J).IsLooking) : Looks s p (s, [.work seek])
  | givesUp {seek} (h : (.work seek : Frame V J).IsLooking) : Looks s p (s.modifyPool p fun pool =>
      { pool with locals.stats := pool.locals.stats.recordFailure }, [.work seek])

theorem looks_stepWork {p : PoolId} (hp : s.Running p) (choice w : Nat) (seek : Seek) :
    Looks s p (stepWork choice s p w seek) := by
  obtain ⟨pool, hpool, hrunning⟩ := hp
  cases seek with
  | loop =>
    simp only [stepWork, hpool, Option.map_some, hrunning, Option.getD_some, if_true]
    exact .goesOn trivial
  | own =>
    simp only [stepWork, hpool]
    split
    · exact .finds
    · exact .goesOn trivial
  | shared =>
    simp only [stepWork, hpool]
    split
    · exact .finds
    · split
      · exact .goesOn trivial
      · exact .goesOn trivial
  | theft victims =>
    cases victims with
    | nil => exact .givesUp trivial
    | cons victim victims =>
      simp only [stepWork, hpool]
      split
      · exact .goesOn trivial
      · exact .steals
  | keep first rest => exact .finds
  | idle => exact .goesOn trivial

end Frame

/-! ### How far tasks have come -/

/-- How far a task is from its end that has not been claimed yet, from one that has. -/
def Stage.distance {V J : Type} : Stage V J → Nat
  | .unclaimed _ => 7
  | _ => 0

/-- How far a task is from its end that is held so. -/
def Hold.distance {V J : Type} (stage : Stage V J) : Hold V J → Nat
  | .ready => 6 + stage.distance
  | .rescheduling => 7 + stage.distance
  | .claimed => 5 + stage.distance
  | .polling ⟨_, _, .get _ none _⟩ => 11
  | .polling ⟨_, _, .get _ (some _) _⟩ => 4
  | .polling ⟨_, _, .put ..⟩ => 3
  | .polling _ => 2
  | .asking => 0
  | .pausing _ => 10
  | .parking => 9
  | .requeue => 7
  | .ending _ => 1

/-- How far a link is from its end, where a wake call that reaches it during its poll counts as half a turn. -/
def Link.rank (x : Option (Task Datum Job)) (T : Multiset (Hold Datum Job)) : Nat :=
  match x with
  | none => 29
  | some y => 2 * ((T.map (Hold.distance y.stage)).sum + if y.state = .suspended then 8 else 0) +
      if y.state = .notified then 0 else 1

/-- What a frame weighs. -/
def Frame.load (s : Store Datum Job) : Frame Datum Job → ℤ
  | .run ⟨.task .., _, _⟩ => 0
  | .run ⟨.outside, _, body⟩ =>
    match body with
    | .waitIdle .. => 11
    | .submit .. => 9
    | .spawn .. | .getBlocking .. => 8
    | .note .. => 5
    | .shutdown .. => 4
    | _ => 1
  | .spawn _ _ .check _ => 7
  | .spawn _ _ .reserve _ => 6
  | .blocked .. => 7
  | .shutdown _ .check => 2
  | .waitIdle _ | .drop _ | .signal _ | .count .. => 1
  | .ended .. => 2
  | .wake _ => 3
  | .exchange p t seen _ => if (s.task? p t).map (·.state) = some seen then 2 else 4
  | .task _ _ phase =>
    match phase with
    | .claim => -2
    | .tally _ => 4
    | .begin | .settle _ | .unregister | .register | .enqueue => 1
    | _ => 0
  | .work (.keep ..) => -1
  | _ => 0

namespace Machine

section sum

variable {V J : Type} {m : Machine V J}

theorem frameSum_sum (S : Finset ℕ) (g : ℕ → Option (PoolId × Nat) → Frame V J → ℤ) :
    (m.frameSum fun worker f => ∑ t ∈ S, g t worker f) = ∑ t ∈ S, m.frameSum (g t) := by
  induction S using Finset.induction_on with
  | empty => simpa using frameSum_eq_zero (m := m) (g := fun _ _ => (0 : ℤ)) fun _ _ _ _ _ => rfl
  | @insert t S ht ih =>
    rw [Finset.sum_insert ht, ← ih, ← frameSum_add]
    simp only [Finset.sum_insert ht]

theorem frameSum_congr {M : Type} [AddCommMonoid M] {g g' : Option (PoolId × Nat) → Frame V J → M}
    (h : m.AllFrames fun worker f => g worker f = g' worker f) : m.frameSum g = m.frameSum g' := by
  refine congrArg List.sum (List.map_congr_left fun th hth => ?_)
  obtain ⟨i, hi⟩ := List.mem_iff_getElem?.1 hth
  rw [Array.getElem?_toList] at hi
  exact congrArg List.sum (List.map_congr_left fun f hf => h i th hi f hf)

theorem frameSum_nonneg {g : Option (PoolId × Nat) → Frame V J → ℤ} (h : m.AllFrames fun worker f => 0 ≤ g worker f) :
    0 ≤ m.frameSum g := by
  refine List.sum_nonneg fun c hc => ?_
  obtain ⟨th, hth, rfl⟩ := List.mem_map.1 hc
  obtain ⟨i, hi⟩ := List.mem_iff_getElem?.1 hth
  rw [Array.getElem?_toList] at hi
  refine List.sum_nonneg fun c hc => ?_
  obtain ⟨f, hf, rfl⟩ := List.mem_map.1 hc
  exact h i th hi f hf

end sum

variable {m m' : Machine Datum Job}

/-- How far the first tasks are from their ends together. -/
def ranks (m : Machine Datum Job) (N : Nat) : Nat :=
  ∑ t ∈ Finset.range N, Link.rank (m.store.task? 0 t) (m.holds 0 t)

/-- What all that is before the threads weighs. -/
def loads (m : Machine Datum Job) : ℤ := m.frameSum fun _ f => f.load m.store

/-- Nothing has happened to any task, but that it may have entered or left the registry. -/
def Still (m m' : Machine Datum Job) : Prop := ∀ t,
  (m.store.task? 0 t = none ∧ m'.store.task? 0 t = none) ∨
  ∃ y z, m.store.task? 0 t = some y ∧ m'.store.task? 0 t = some z ∧ z.state = y.state ∧ z.stage = y.stage ∧
    m'.holds 0 t = m.holds 0 t

theorem Still.ranks_eq (h : m.Still m') (N : Nat) : m'.ranks N = m.ranks N := by
  refine Finset.sum_congr rfl fun t _ => ?_
  rcases h t with ⟨hx, hz⟩ | ⟨y, z, hy, hz, hstate, hstage, hT⟩
  · rw [hx, hz]
    rfl
  · rw [hy, hz, hT]
    simp only [Link.rank, hstate, hstage]

theorem Still.load_eq {f : Frame Datum Job} (h : m.Still m') (hf : f.IsLabour ∨ f.IsOutside) :
    f.load m'.store = f.load m.store := by
  cases f with
  | exchange p t seen target =>
    obtain rfl : p = 0 := hf.resolve_right id
    rcases h t with ⟨hx, hz⟩ | ⟨y, z, hy, hz, hstate, -⟩
    · simp only [Frame.load, hx, hz]
    · simp only [Frame.load, hy, hz, Option.map_some, hstate]
  | run r =>
    obtain ⟨party, guards, body⟩ := r
    cases party <;> rfl
  | spawn q job phase next => cases phase <;> rfl
  | shutdown q phase => cases phase <;> rfl
  | work seek => cases seek <;> rfl
  | _ => rfl

/-- A step brings a task nearer to its end, or nothing happens to any. -/
theorem still_or_lt {N : Nat} (hN : ∀ t y, m'.store.task? 0 t = some y → t < N)
    (hmade : ∀ t z, m.store.task? 0 t = none → m'.store.task? 0 t = some z →
      Link.rank (some z) (m'.holds 0 t) < 29)
    (hturns : ∀ t y, m.store.task? 0 t = some y → ∃ z, m'.store.task? 0 t = some z ∧
      ((z.state = y.state ∧ z.stage = y.stage ∧ m'.holds 0 t = m.holds 0 t) ∨
        Link.rank (some z) (m'.holds 0 t) < Link.rank (some y) (m.holds 0 t))) :
    m.Still m' ∨ m'.ranks N < m.ranks N := by
  have each : ∀ t, ((m.store.task? 0 t = none ∧ m'.store.task? 0 t = none) ∨
      ∃ y z, m.store.task? 0 t = some y ∧ m'.store.task? 0 t = some z ∧
        z.state = y.state ∧ z.stage = y.stage ∧ m'.holds 0 t = m.holds 0 t) ∨
      t < N ∧ Link.rank (m'.store.task? 0 t)
        (m'.holds 0 t) < Link.rank (m.store.task? 0 t) (m.holds 0 t) := by
    intro t
    cases hx : m.store.task? 0 t with
    | none =>
      cases hz : m'.store.task? 0 t with
      | none => exact .inl (.inl ⟨rfl, rfl⟩)
      | some z => exact .inr ⟨hN t _ hz, hmade t z hx hz⟩
    | some y =>
      obtain ⟨z, hz, hturn⟩ := hturns t y hx
      rw [hz]
      rcases hturn with ⟨hstate, hstage, hT⟩ | hlt
      · exact .inl (.inr ⟨y, z, rfl, rfl, hstate, hstage, hT⟩)
      · exact .inr ⟨hN t z hz, hlt⟩
  by_cases hstill : m.Still m'
  · exact .inl hstill
  obtain ⟨t, ht⟩ := not_forall.1 hstill
  obtain ⟨htN, hlt⟩ := (each t).resolve_left ht
  refine .inr (Finset.sum_lt_sum (fun u _ => ?_) ⟨t, Finset.mem_range.2 htN, hlt⟩)
  rcases each u with (⟨hx, hz⟩ | ⟨y, z, hy, hz, hstate, hstage, hT⟩) | ⟨-, hlt⟩
  · rw [hx, hz]
    exact Nat.le_refl _
  · rw [hy, hz, hT]
    simp only [Link.rank, hstate, hstage, Nat.le_refl]
  · exact Nat.le_of_lt hlt

section holds

variable {V J : Type} {m : Machine V J} {i : Nat} {th : Thread V J} {f : Frame V J} {p : PoolId} {t : TaskId} {k : Hold V J}

/-- What a thread has in hand after its turn. -/
theorem mem_holds_of_set {s : Store V J} {worker : Option (PoolId × Nat)} {stack : List (Frame V J)}
    (hi : m.threads[i]? = some th) (hf : f ∈ stack) (hk : k ∈ f.holds worker p t) :
    k ∈ (⟨s, m.threads.setIfInBounds i ⟨worker, stack⟩⟩ : Machine V J).holds p t :=
  mem_holds_of_mem (getElem?_setIfInBounds_self hi) hf hk

end holds

end Machine
end Dataflow
