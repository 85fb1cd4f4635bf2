import Dataflow.Proofs.Finishing

/-!
# Schedules

A schedule says for every moment whose turn it is, and goes on forever. Under a fair one (`Machine.Fair`) whoever can
take a step has a turn again, but for workers that look for tasks: of them it is only asked that every queued task is
taken up at some time.

Along a fair schedule a goal is reached if every step is a step towards it, but for those of workers that look for
tasks and find none, and if somebody is busy as long as it is not reached (`Machine.Fair.exists_goal`). So is one that
is inevitable in whatever order those go on who lead to it (`Machine.Fair.exists_of_inevitable`).
-/

namespace Dataflow

variable {V J : Type}

/-- Whose turn it is at every moment, and what is chosen where the program leaves that open. -/
def Schedule := Nat → Nat × Nat

/-- The moves of the first `n` moments. -/
def Schedule.moves (σ : Schedule) (n : Nat) : List (Move V J) := (List.range n).map fun k => .step (σ k).1 (σ k).2

theorem Schedule.moves_succ (σ : Schedule) (n : Nat) :
    (σ.moves (n + 1) : List (Move V J)) = σ.moves n ++ [.step (σ n).1 (σ n).2] := by
  simp [moves, List.range_succ]

/-- Whether a frame has to wait depends on little of a pool. -/
theorem Frame.isBlocked_modifyPool {s : Store V J} {q : PoolId} {g : Pool V J → Pool V J}
    (hactive : ∀ pool, (g pool).active = pool.active) (hstopped : ∀ pool, (g pool).stopped = pool.stopped)
    (hconfig : ∀ pool, (g pool).config = pool.config) (worker : Option (PoolId × Nat)) (choice : Nat) (f : Frame V J) :
    f.isBlocked worker choice (s.modifyPool q g) = f.isBlocked worker choice s := by
  cases f with
  | waitIdle p =>
    simp only [isBlocked, Store.pools_modifyPool]
    split
    · cases s.pools[p]? <;> simp [hactive]
    · rfl
  | shutdown p phase =>
    cases phase with
    | join =>
      simp only [isBlocked, Store.pools_modifyPool]
      by_cases hq : q = p
      · rw [if_pos hq]
        cases s.pools[p]? <;> simp [hstopped, hconfig]
      · rw [if_neg hq]
    | _ => rfl
  | _ => rfl

namespace Machine

variable {start : J → Except RuntimeError (Body V J)} {m m' m'' : Machine V J} {σ : Schedule} {n : Nat}

theorem run_moves_succ (start : J → Except RuntimeError (Body V J)) (m : Machine V J) (σ : Schedule) (n : Nat) :
    m.run start (σ.moves (n + 1)) = (m.run start (σ.moves n)).after start (.step (σ n).1 (σ n).2) := by
  rw [Schedule.moves_succ, run_append]
  rfl

theorem trace_moves_succ (start : J → Except RuntimeError (Body V J)) (m : Machine V J) (σ : Schedule) (n : Nat) :
    m.trace start (σ.moves (n + 1)) =
      m.trace start (σ.moves n) ++ ((m.run start (σ.moves n)).taken (.step (σ n).1 (σ n).2)).toList := by
  rw [Schedule.moves_succ, trace_append]
  simp [trace]

/-- The thread is a worker that looks for tasks, and its pool is open. -/
def Idles (m : Machine V J) (i : Nat) : Prop :=
  ∃ p w seek rest, m.threads[i]? = some ⟨some (p, w), .work seek :: rest⟩ ∧ (.work seek : Frame V J).IsLooking ∧
    m.store.Running p

/-- The task is queued. -/
def IsQueued (m : Machine V J) (p : PoolId) (t : TaskId) : Prop := ∃ y, m.store.task? p t = some y ∧ y.state = .queued

/-- The thread can take a step, whatever is chosen, and does not merely look for tasks. -/
def IsUrged (m : Machine V J) (i : Nat) : Prop := (∀ choice, m.canStep i choice = true) ∧ ¬ m.Idles i

/-- Somebody has something to do. -/
def IsBusy (m : Machine V J) : Prop := (∃ i, m.IsUrged i) ∨ ∃ p t, m.IsQueued p t

/-- Nobody is left out for good who has something to do. -/
structure Fair (start : J → Except RuntimeError (Body V J)) (m : Machine V J) (σ : Schedule) : Prop where
  /-- Whoever can take a step and does not merely look for tasks has a turn. -/
  proceeds : ∀ n i, (m.run start (σ.moves n)).IsUrged i → ∃ k ≥ n, (σ k).1 = i
  /-- Every queued task is taken up. -/
  serves : ∀ n p t, (m.run start (σ.moves n)).IsQueued p t → ∃ k ≥ n, ¬ (m.run start (σ.moves k)).IsQueued p t

/-- Whoever has something to do still has it. -/
structure Defers (m m' : Machine V J) : Prop where
  urged : ∀ i, m.IsUrged i → m'.IsUrged i
  queued : ∀ p t, m.IsQueued p t → m'.IsQueued p t

theorem Defers.refl (m : Machine V J) : m.Defers m := ⟨fun _ => id, fun _ _ => id⟩

theorem Defers.trans (h : m.Defers m') (h' : m'.Defers m'') : m.Defers m'' :=
  ⟨fun i hi => h'.urged i (h.urged i hi), fun p t ht => h'.queued p t (h.queued p t ht)⟩

/-- If a worker that looks for tasks changes nothing that others wait for, they still have to do what they had. -/
theorem Idles.defers {i : Nat} (hidles : m.Idles i) {s : Store V J} {th : Thread V J} (halive : s.aborted = m.store.aborted)
    (hblocked : ∀ worker choice (f : Frame V J), f.isBlocked worker choice s = f.isBlocked worker choice m.store)
    (hrunning : ∀ p, s.Running p ↔ m.store.Running p) (htask : ∀ p t, s.task? p t = m.store.task? p t) :
    m.Defers ⟨s, m.threads.setIfInBounds i th⟩ := by
  constructor
  case queued =>
    rintro p t ⟨y, hy, hstate⟩
    exact ⟨y, (htask p t).trans hy, hstate⟩
  intro j hj
  have hne : i ≠ j := fun heq => hj.2 (heq ▸ hidles)
  have hsame : (m.threads.setIfInBounds i th)[j]? = m.threads[j]? := Array.getElem?_setIfInBounds_ne hne
  refine ⟨fun choice => ?_, ?_⟩
  · obtain ⟨hstore, worker, f, rest, hjth, hfree⟩ := canStep_iff.1 (hj.1 choice)
    exact canStep_iff.2 ⟨halive.trans hstore, worker, f, rest, hsame.trans hjth, (hblocked worker choice f).trans hfree⟩
  · rintro ⟨p, w, seek, rest, hj', hlook, hrun⟩
    exact hj.2 ⟨p, w, seek, rest, hsame.symm.trans hj', hlook, (hrunning p).1 hrun⟩

theorem Idles.defers_modifyPool {i : Nat} (hidles : m.Idles i) {q : PoolId} {g : Pool V J → Pool V J} {th : Thread V J}
    (hactive : ∀ pool, (g pool).active = pool.active) (hstopped : ∀ pool, (g pool).stopped = pool.stopped)
    (hconfig : ∀ pool, (g pool).config = pool.config) (hrunning : ∀ pool, (g pool).running = pool.running)
    (htasks : ∀ pool, (g pool).tasks = pool.tasks) :
    m.Defers ⟨m.store.modifyPool q g, m.threads.setIfInBounds i th⟩ :=
  hidles.defers rfl (Frame.isBlocked_modifyPool hactive hstopped hconfig) (fun _ => Store.running_modifyPool hrunning)
    fun _ _ => Store.task?_modifyPool htasks

/-- What is said of the machine and the steps that led to it, at a moment of a schedule. -/
def At {α : Sort*} (start : J → Except RuntimeError (Body V J)) (m : Machine V J) (σ : Schedule)
    (P : Machine V J → List (Taken V J) → α) (n : Nat) : α :=
  P (m.run start (σ.moves n)) (m.trace start (σ.moves n))

/-- A step towards the goal `Q`, measured by `μ`, or one of a worker that looks for tasks and finds none. -/
def Advances {M : Type} [LT M] (P Q : Machine V J → List (Taken V J) → Prop) (μ : Machine V J → List (Taken V J) → M)
    (m : Machine V J) (tr : List (Taken V J)) (i : Nat) (m' : Machine V J) (tr' : List (Taken V J)) : Prop :=
  Q m' tr' ∨ P m' tr' ∧ (μ m' tr' < μ m tr ∨ μ m' tr' = μ m tr ∧ m.Idles i ∧ m.Defers m')

/-- Whose turn it is cannot take a step. -/
theorem run_succ_of_not_canStep
    (h : ¬ (m.run start (σ.moves n)).canStep (σ n).1 (σ n).2 = true) :
    m.run start (σ.moves (n + 1)) = m.run start (σ.moves n) ∧
      m.trace start (σ.moves (n + 1)) = m.trace start (σ.moves n) := by
  have hrun : m.run start (σ.moves (n + 1)) = m.run start (σ.moves n) := by
    rw [run_moves_succ, after, step, if_neg h]
    rfl
  refine ⟨hrun, ?_⟩
  rw [trace_moves_succ, taken, if_neg h]
  simp

section goal

variable {M : Type} [Preorder M] {P Q : Machine V J → List (Taken V J) → Prop}
  {μ : Machine V J → List (Taken V J) → M}
  (hstep : ∀ m tr i choice, P m tr → ¬ Q m tr → m.canStep i choice = true →
    Advances P Q μ m tr i (m.after start (.step i choice)) (tr ++ (m.taken (.step i choice)).toList))

include hstep

/-- Within `d` moments the goal comes nearer, or nobody has a turn who can take a step, but workers that look for
tasks. -/
theorem nearer_or_defers (hn : At start m σ P n) (hgoal : ¬ At start m σ Q n) (d : Nat) :
    (∃ k > n, (∀ l, n ≤ l → l < k → At start m σ P l) ∧ (At start m σ Q k ∨
      At start m σ P k ∧ At start m σ μ k < At start m σ μ n)) ∨
    (∀ l, n ≤ l → l ≤ n + d → At start m σ P l ∧ (m.run start (σ.moves n)).Defers (m.run start (σ.moves l))) ∧
      (∀ l, n ≤ l → l < n + d → ¬ (m.run start (σ.moves l)).IsUrged (σ l).1) ∧
      ¬ At start m σ Q (n + d) ∧ At start m σ μ (n + d) = At start m σ μ n := by
  induction d with
  | zero =>
    refine .inr ⟨fun l hl hl' => ?_, fun l hl hl' => absurd hl' (Nat.not_lt.2 hl), hgoal, rfl⟩
    obtain rfl : l = n := Nat.le_antisymm hl' hl
    exact ⟨hn, .refl _⟩
  | succ d ih =>
    rcases ih with hnear | ⟨hkept, hidle, hQ, hμ⟩
    · exact .inl hnear
    obtain ⟨hP, hdefers⟩ := hkept (n + d) (Nat.le_add_right n d) (Nat.le_refl _)
    -- the next moment is one more of the same kind
    have extend : At start m σ P (n + d + 1) → (m.run start (σ.moves n)).Defers (m.run start (σ.moves (n + d + 1))) →
        ¬ (m.run start (σ.moves (n + d))).IsUrged (σ (n + d)).1 →
        (∀ l, n ≤ l → l ≤ n + d + 1 →
          At start m σ P l ∧ (m.run start (σ.moves n)).Defers (m.run start (σ.moves l))) ∧
        (∀ l, n ≤ l → l < n + d + 1 → ¬ (m.run start (σ.moves l)).IsUrged (σ l).1) := by
      refine fun hP' hdefers' hnot => ⟨fun l hl hl' => ?_, fun l hl hl' => ?_⟩
      · rcases Nat.lt_or_ge l (n + d + 1) with hlt | hge
        · exact hkept l hl (Nat.le_of_lt_succ hlt)
        · obtain rfl : l = n + d + 1 := Nat.le_antisymm hl' hge
          exact ⟨hP', hdefers'⟩
      · rcases Nat.lt_or_ge l (n + d) with hlt | hge
        · exact hidle l hl hlt
        · obtain rfl : l = n + d := Nat.le_antisymm (Nat.le_of_lt_succ hl') hge
          exact hnot
    by_cases hcan : (m.run start (σ.moves (n + d))).canStep (σ (n + d)).1 (σ (n + d)).2 = true
    · have hadv := hstep _ _ _ _ hP hQ hcan
      rw [← run_moves_succ, ← trace_moves_succ] at hadv
      have hbefore : ∀ l, n ≤ l → l < n + d + 1 → At start m σ P l := fun l hl hl' =>
        (hkept l hl (Nat.le_of_lt_succ hl')).1
      by_cases hgoal' : At start m σ Q (n + d + 1)
      · exact .inl ⟨n + d + 1, by omega, hbefore, .inl hgoal'⟩
      · obtain ⟨hP', hless | ⟨hsame, hidles, hdefers'⟩⟩ := hadv.resolve_left hgoal'
        · exact .inl ⟨n + d + 1, by omega, hbefore, .inr ⟨hP', hless.trans_eq hμ⟩⟩
        · obtain ⟨hkept', hidle'⟩ := extend hP' (hdefers.trans hdefers') fun hurged => hurged.2 hidles
          exact .inr ⟨hkept', hidle', hgoal', hsame.trans hμ⟩
    · obtain ⟨hrun, htrace⟩ := run_succ_of_not_canStep hcan
      have hP' : At start m σ P (n + d + 1) := by rwa [At, hrun, htrace]
      obtain ⟨hkept', hidle'⟩ := extend hP' (hrun ▸ hdefers) fun hurged => hcan (hurged.1 _)
      exact .inr ⟨hkept', hidle', by rwa [← Nat.add_assoc, At, hrun, htrace],
        by rwa [← Nat.add_assoc, At, hrun, htrace]⟩

/-- If every step leads on and somebody is always busy, a fair schedule leads to the goal, and up to there what leads
to it is kept. -/
theorem Fair.exists_goal [WellFoundedLT M] (hfair : Fair start m σ) (hbusy : ∀ m tr, P m tr → ¬ Q m tr → m.IsBusy)
    (n : Nat) (hn : At start m σ P n) :
    ∃ k ≥ n, At start m σ Q k ∧ ∀ l, n ≤ l → l < k → At start m σ P l := by
  induction hμ : At start m σ μ n using WellFoundedLT.induction generalizing n with
  | _ a ih =>
  subst hμ
  by_cases hgoal : At start m σ Q n
  · exact ⟨n, Nat.le_refl _, hgoal, fun l hl hl' => absurd hl' (Nat.not_lt.2 hl)⟩
  have hnearer : ∃ k > n, (∀ l, n ≤ l → l < k → At start m σ P l) ∧ (At start m σ Q k ∨
      At start m σ P k ∧ At start m σ μ k < At start m σ μ n) := by
    rcases hbusy _ _ hn hgoal with ⟨i, hi⟩ | ⟨p, t, ht⟩
    · obtain ⟨k, hk, rfl⟩ := hfair.proceeds n i hi
      obtain ⟨d, rfl⟩ := Nat.exists_eq_add_of_le hk
      refine (nearer_or_defers hstep hn hgoal (d + 1)).resolve_right ?_
      rintro ⟨hkept, hidle, -⟩
      exact hidle (n + d) hk (Nat.lt_succ_self _) ((hkept (n + d) hk (Nat.le_succ _)).2.urged _ hi)
    · obtain ⟨k, hk, hclaimed⟩ := hfair.serves n p t ht
      obtain ⟨d, rfl⟩ := Nat.exists_eq_add_of_le hk
      refine (nearer_or_defers hstep hn hgoal d).resolve_right ?_
      rintro ⟨hkept, -⟩
      exact hclaimed ((hkept (n + d) hk (Nat.le_refl _)).2.queued p t ht)
  obtain ⟨k, hk, hbefore, hQ | ⟨hP, hless⟩⟩ := hnearer
  · exact ⟨k, Nat.le_of_lt hk, hQ, hbefore⟩
  · obtain ⟨k', hk', hQ, hbetween⟩ := ih _ hless k hP rfl
    refine ⟨k', Nat.le_trans (Nat.le_of_lt hk) hk', hQ, fun l hl hl' => ?_⟩
    rcases Nat.lt_or_ge l k with hlt | hge
    · exact hbefore l hl hlt
    · exact hbetween l hge hl'

end goal

/-- Somebody who can step has a turn before anything else happens. -/
theorem Fair.exists_step (hfair : Fair start m σ) {i : Nat} (hi : (m.run start (σ.moves n)).IsUrged i) :
    ∃ k ≥ n, (m.run start (σ.moves n)).canStep (σ k).1 (σ k).2 = true ∧
      ∀ l, n ≤ l → l ≤ k → m.run start (σ.moves l) = m.run start (σ.moves n) ∧
        m.trace start (σ.moves l) = m.trace start (σ.moves n) := by
  have wait : ∀ d, (∃ k ≥ n, (m.run start (σ.moves n)).canStep (σ k).1 (σ k).2 = true ∧
      ∀ l, n ≤ l → l ≤ k → m.run start (σ.moves l) = m.run start (σ.moves n) ∧
        m.trace start (σ.moves l) = m.trace start (σ.moves n)) ∨
      ∀ l, n ≤ l → l ≤ n + d → m.run start (σ.moves l) = m.run start (σ.moves n) ∧
        m.trace start (σ.moves l) = m.trace start (σ.moves n) := by
    intro d
    induction d with
    | zero =>
      refine .inr fun l hl hl' => ?_
      obtain rfl : l = n := Nat.le_antisymm hl' hl
      exact ⟨rfl, rfl⟩
    | succ d ih =>
      rcases ih with hfound | hsame
      · exact .inl hfound
      by_cases hcan : (m.run start (σ.moves n)).canStep (σ (n + d)).1 (σ (n + d)).2 = true
      · exact .inl ⟨n + d, Nat.le_add_right n d, hcan, hsame⟩
      · obtain ⟨hrun, htrace⟩ := hsame (n + d) (Nat.le_add_right n d) (Nat.le_refl _)
        have hcannot : ¬ (m.run start (σ.moves (n + d))).canStep (σ (n + d)).1 (σ (n + d)).2 = true := by rwa [hrun]
        obtain ⟨hrun', htrace'⟩ := run_succ_of_not_canStep hcannot
        refine .inr fun l hl hl' => ?_
        rcases Nat.lt_or_ge l (n + d + 1) with hlt | hge
        · exact hsame l hl (Nat.le_of_lt_succ hlt)
        · obtain rfl : l = n + d + 1 := Nat.le_antisymm hl' hge
          exact ⟨hrun'.trans hrun, htrace'.trans htrace⟩
  obtain ⟨k, hk, rfl⟩ := hfair.proceeds n i hi
  obtain ⟨d, rfl⟩ := Nat.exists_eq_add_of_le hk
  exact (wait d).elim id fun hsame => ⟨n + d, hk, hi.1 _, hsame⟩

/-- What is inevitable happens, if all that goes on is of those whose steps lead there. -/
theorem Fair.exists_of_inevitable (hfair : Fair start m σ) {who : Machine V J → Nat → Prop}
    {goal : Machine V J → Prop} {P : Machine V J → List (Taken V J) → Prop}
    (hstep : ∀ m tr i choice, P m tr → ¬ goal m → m.canStep i choice = true → who m i ∧ m.IsUrged i ∧
      P (m.after start (.step i choice)) (tr ++ (m.taken (.step i choice)).toList))
    (h : Inevitable start who goal m') (n : Nat) (hn : m.run start (σ.moves n) = m') (hP : At start m σ P n) :
    ∃ k ≥ n, goal (m.run start (σ.moves k)) ∧ At start m σ P k ∧
      ∀ l, n ≤ l → l < k → ¬ goal (m.run start (σ.moves l)) := by
  induction h generalizing n with
  | now hgoal => exact ⟨n, Nat.le_refl _, hn ▸ hgoal, hP, fun l hl hl' => absurd hl' (Nat.not_lt.2 hl)⟩
  | @later m' hcan _ ih =>
    subst hn
    by_cases hgoal : goal (m.run start (σ.moves n))
    · exact ⟨n, Nat.le_refl _, hgoal, hP, fun l hl hl' => absurd hl' (Nat.not_lt.2 hl)⟩
    obtain ⟨j, choice, -, hj⟩ := hcan
    obtain ⟨k, hk, hcan, hsame⟩ := hfair.exists_step (hstep _ _ j choice hP hgoal hj).2.1
    obtain ⟨hrun, htrace⟩ := hsame k hk (Nat.le_refl _)
    obtain ⟨hwho, -, hP'⟩ := hstep _ _ _ _ hP hgoal hcan
    obtain ⟨k', hk', hgoal', hP'', hbetween⟩ := ih _ _ hwho hcan (k + 1)
      (by rw [run_moves_succ, hrun]) (by rwa [At, run_moves_succ, trace_moves_succ, hrun, htrace])
    refine ⟨k', by omega, hgoal', hP'', fun l hl hl' => ?_⟩
    rcases Nat.lt_or_ge k l with hlt | hge
    · exact hbetween l hlt hl'
    · rwa [(hsame l hl hge).1]

/-- So many threads take turns. -/
def turns (k : Nat) : Schedule := fun n => (n % k, 0)

/-- A step starts no thread. -/
theorem size_threads_step (start : J → Except RuntimeError (Body V J)) (m : Machine V J) (i choice : Nat) :
    (m.after start (.step i choice)).threads.size = m.threads.size := by
  rcases m.after_step start i choice with ⟨heq, -⟩ | ⟨worker, f, rest, -, -, -, -, heq⟩
  · rw [heq]
  · rw [heq, Array.size_setIfInBounds]

/-- To take turns is fair, if the threads come to the end of all that they have to do. -/
theorem fair_turns {k : Nat} (K : Nat) (hk : m.threads.size = k) (hsize : 0 < k)
    (hended : ∀ i choice, ¬ (m.run start ((turns k).moves K)).canStep i choice = true)
    (hserved : ∀ p t, ¬ (m.run start ((turns k).moves K)).IsQueued p t) : Fair start m (turns k) := by
  subst hk
  have hthreads : ∀ n, (m.run start ((turns m.threads.size).moves n)).threads.size = m.threads.size := by
    intro n
    induction n with
    | zero => rfl
    | succ n ih => rw [run_moves_succ, size_threads_step, ih]
  have hstays : ∀ d, m.run start ((turns m.threads.size).moves (K + d)) = m.run start ((turns m.threads.size).moves K) := by
    intro d
    induction d with
    | zero => rfl
    | succ d ih =>
      have hcannot : ¬ (m.run start ((turns m.threads.size).moves (K + d))).canStep (turns m.threads.size (K + d)).1
          (turns m.threads.size (K + d)).2 = true := by
        rw [ih]
        exact hended _ _
      rw [← Nat.add_assoc, (run_succ_of_not_canStep hcannot).1, ih]
  refine ⟨fun n i hi => ?_, fun n p t _ => ⟨K + n, Nat.le_add_left n K, ?_⟩⟩
  · obtain ⟨-, worker, f, rest, hth, -⟩ := canStep_iff.1 (hi.1 0)
    have hlt : i < m.threads.size := by
      rw [← hthreads n]
      exact (Array.getElem?_eq_some_iff.1 hth).1
    refine ⟨m.threads.size * n + i, ?_, ?_⟩
    · exact Nat.le_trans (Nat.le_mul_of_pos_left n hsize) (Nat.le_add_right ..)
    · simp [turns, Nat.mod_eq_of_lt hlt]
  · rw [hstays]
    exact hserved p t

/-- So it is fair if in the end nothing is left before the threads, and no task is queued. -/
theorem fair_turns_of_ended {k : Nat} (K : Nat) (hk : m.threads.size = k) (hsize : 0 < k)
    (hended : (∀ th ∈ (m.run start ((turns k).moves K)).threads.toList, th.stack.isEmpty = true) ∧
      ∀ pool ∈ (m.run start ((turns k).moves K)).store.pools.toList, ∀ y ∈ pool.tasks.toList, y.state ≠ .queued) :
    Fair start m (turns k) := by
  obtain ⟨hstacks, htasks⟩ := hended
  refine fair_turns K hk hsize (fun i choice hcan => ?_) fun p t hqueued => ?_
  · obtain ⟨-, worker, f, rest, hi, -⟩ := canStep_iff.1 hcan
    have hmem := hstacks _ (Array.mem_toList_iff.2 (Array.mem_of_getElem? hi))
    cases hmem
  · obtain ⟨y, hy, hstate⟩ := hqueued
    rw [Store.task?_eq] at hy
    obtain ⟨pool, hpool, hy⟩ := Option.bind_eq_some_iff.1 hy
    exact htasks pool (Array.mem_toList_iff.2 (Array.mem_of_getElem? hpool)) y
      (Array.mem_toList_iff.2 (Array.mem_of_getElem? hy)) hstate

end Machine
end Dataflow
