import Dataflow.Proofs.Labour

/-!
# A program and the workers of its pool

A program on a thread of its own puts tasks on a pool, and the workers of that pool run them (`Machine.Crew`). Whoever
takes a step for a task either brings it nearer to its end (`Machine.ranks`), or makes lighter what is before the
threads (`Machine.loads`), if he is no worker that looks for tasks and finds none (`Machine.Crew.advances`).

A task that is taken out of a queue weighs less than nothing, and one that is put into a queue weighs nothing. As no
more tasks are on their way than there are, what is before the threads does not become lighter and lighter without a
task coming nearer to its end (`Machine.Crew.le_loads`).

Once nobody has anything to do but to look for tasks, and none is queued, all tasks are parked or have ended, and the
pool counts none as active (`Machine.Crew.at_rest`).
-/

namespace Dataflow

namespace Machine

/-- A program on thread `D`, and the workers of its pool, which is running, on all others. -/
structure Crew {V J : Type} (D : Nat) (m : Machine V J) : Prop where
  lawful : m.Lawful
  alive : m.store.aborted = false
  running : m.store.Running 0
  frames : m.AllFrames fun worker f => f.IsLabour ∨ worker = none ∧ f.IsOutside
  homes : ∀ (i : Nat) (th : Thread V J), m.threads[i]? = some th → ∀ p w, th.worker = some (p, w) → p = 0
  others : ∀ (j : Nat) (th : Thread V J), m.threads[j]? = some th → j ≠ D → ∃ w, th.worker = some (0, w)
  handy : m.AllStacks fun _ stack => ∀ first rest, .work (.keep first rest) ∉ stack.tail

/-- Whoever can take a step and is no worker is urged to. -/
theorem isUrged_of_outside {V J : Type} {m : Machine V J} {i : Nat} {f : Frame V J} {rest : List (Frame V J)}
    (halive : m.store.aborted = false) (hi : m.threads[i]? = some ⟨none, f :: rest⟩)
    (hfree : ∀ choice, f.isBlocked none choice m.store = false) : m.IsUrged i := by
  refine ⟨fun choice => canStep_iff.2 ⟨halive, none, f, rest, hi, hfree choice⟩, ?_⟩
  rintro ⟨p, w, seek, below, hi', -⟩
  rw [hi] at hi'
  cases hi'

namespace Crew

section crew

variable {V J : Type} {start : J → Except RuntimeError (Body V J)} {m : Machine V J} {D i choice : Nat}
  {worker : Option (PoolId × Nat)} {th : Thread V J} {f : Frame V J} {rest : List (Frame V J)} {t : TaskId} {y : Task V J}
  (h : m.Crew D)

include h

/-- All frames of the workers are labour. -/
theorem isLabour (hi : m.threads[i]? = some th) (hne : i ≠ D) (hf : f ∈ th.stack) : f.IsLabour := by
  obtain ⟨w, hw⟩ := h.others i th hi hne
  refine (h.frames i th hi f hf).resolve_right fun hout => ?_
  rw [hw] at hout
  cases hout.1

theorem alone : m.Alone 0 D := by
  intro j th hj hne f hf _
  refine ⟨h.others j th hj hne, fun phase hshutdown => ?_⟩
  have hlabour := h.isLabour hj hne hf
  rw [hshutdown] at hlabour
  exact hlabour

theorem after_eq (start : J → Except RuntimeError (Body V J)) (hi : m.threads[i]? = some ⟨worker, f :: rest⟩) (hfree : f.isBlocked worker choice m.store = false) :
    m.after start (.step i choice) = ⟨(f.step start worker choice m.store).1,
      m.threads.setIfInBounds i ⟨worker, (f.step start worker choice m.store).2 ++ rest⟩⟩ ∧
    m.taken (.step i choice) = some ⟨i, worker, f, m.store⟩ := by
  have hcan : m.canStep i choice = true := canStep_iff.2 ⟨h.alive, worker, f, rest, hi, hfree⟩
  rcases m.after_step start i choice with ⟨-, hnone⟩ | ⟨worker', f', rest', hi', -, -, htaken, heq⟩
  · simp [taken, hcan, hi] at hnone
  · rw [hi] at hi'
    cases hi'
    exact ⟨heq, htaken⟩

/-- It stays together as long as the pool is not closed and nobody does what is neither labour nor outside. -/
theorem after (hi : m.threads[i]? = some ⟨worker, f :: rest⟩) (hfree : f.isBlocked worker choice m.store = false)
    (hclose : f ≠ .shutdown 0 .close)
    (hnext : ∀ g ∈ (f.step start worker choice m.store).2, g.IsLabour ∨ worker = none ∧ g.IsOutside) :
    (m.after start (.step i choice)).Crew D := by
  have hlaw : (m.after start (.step i choice)).Lawful := h.lawful.after _
  have hhandy : (m.after start (.step i choice)).AllStacks fun _ stack => ∀ first rest, .work (.keep first rest) ∉ stack.tail := by
    refine AllStacks.after h.lawful.scheduled.framed h.handy (fun j worker f below choice _ _ hstack first rest => ?_)
      (fun _ _ _ => List.not_mem_nil) (fun _ _ _ => List.not_mem_nil) (fun guards body first rest hmem => ?_) _
    · refine Frame.keep_notMem_tail_step fun hmem => ?_
      exact hstack first rest hmem
    · exact Frame.isQuiet_dropPending (List.mem_of_mem_tail hmem)
  obtain ⟨heq, -⟩ := h.after_eq start hi hfree
  rw [heq] at hlaw hhandy ⊢
  refine ⟨hlaw, ?_, Frame.running_step hclose h.running, h.frames.set hi hnext _, fun j th hj p w hw => ?_, fun j th hj hne => ?_, hhandy⟩
  · have hf := h.frames i _ hi f (List.mem_cons_self ..)
    exact (Frame.aborted_of_isLabour (hf.imp_right And.right)).trans h.alive
  · rcases thread_of_set hi hj with ⟨-, rfl⟩ | ⟨-, hj⟩
    · exact h.homes i _ hi p w hw
    · exact h.homes j th hj p w hw
  · rcases thread_of_set hi hj with ⟨rfl, rfl⟩ | ⟨-, hj⟩
    · exact h.others i ⟨worker, f :: rest⟩ hi hne
    · exact h.others j th hj hne

/-- Whoever has a task in hand finds it as it should be. -/
theorem fits (hi : m.threads[i]? = some ⟨worker, f :: rest⟩) {k : Hold V J} (hk : k ∈ f.holds worker 0 t) :
    ∃ y, m.store.task? 0 t = some y ∧ k.Fits y := by
  obtain ⟨y, hy, -, hfit⟩ := h.lawful.scheduled.holds_eq h.running hi (List.mem_cons_self ..) hk
  exact ⟨y, hy, hfit⟩

end crew

/-! ### Steps that lead on -/

section after

variable {m : Machine Datum Job} {D i choice N : Nat} {worker : Option (PoolId × Nat)} {f : Frame Datum Job}
  {rest : List (Frame Datum Job)} {t : TaskId} {y : Task Datum Job} (h : m.Crew D)

include h

/-- Whoever weighs less than nothing has a task in hand. -/
theorem load_nonneg (hN : ∀ t y, m.store.task? 0 t = some y → t < N) :
    m.AllFrames fun worker f => 0 ≤ f.load m.store +
      ∑ t ∈ Finset.range N, 2 * (Multiset.card (f.holds worker 0 t) : ℤ) := by
  intro i th hi f hf
  have hrest : ∀ t, 0 ≤ 2 * (Multiset.card (f.holds th.worker 0 t) : ℤ) := fun t => by omega
  -- a hold of a task that is in hand makes up for it
  have held : ∀ {t k}, k ∈ f.holds th.worker 0 t → -2 ≤ f.load m.store → 0 ≤ f.load m.store +
      ∑ t ∈ Finset.range N, 2 * (Multiset.card (f.holds th.worker 0 t) : ℤ) := by
    intro t k hk hload
    obtain ⟨y, hy, -⟩ := h.lawful.scheduled.holds_eq h.running hi hf hk
    have hle : 2 * (Multiset.card (f.holds th.worker 0 t) : ℤ) ≤
        ∑ t ∈ Finset.range N, 2 * (Multiset.card (f.holds th.worker 0 t) : ℤ) :=
      Finset.single_le_sum (fun u _ => hrest u) (Finset.mem_range.2 (hN t y hy))
    have hpos := Multiset.card_pos_iff_exists_mem.2 ⟨k, hk⟩
    omega
  have free : 0 ≤ f.load m.store → 0 ≤ f.load m.store +
      ∑ t ∈ Finset.range N, 2 * (Multiset.card (f.holds th.worker 0 t) : ℤ) := fun hload =>
    add_nonneg hload (Finset.sum_nonneg fun t _ => hrest t)
  cases f with
  | task p t phase =>
    cases phase with
    | claim =>
      obtain rfl : p = 0 := ((h.frames i th hi _ hf).resolve_right And.right).1
      exact held (t := t) (k := .ready) (by simp [Frame.holds]) (by simp [Frame.load])
    | _ => exact free (by simp [Frame.load])
  | work seek =>
    cases seek with
    | keep first rest =>
      obtain ⟨p, w, pool, hworker, -⟩ := h.lawful.scheduled.framed.frames i th hi _ hf
      obtain rfl := h.homes i th hi _ _ hworker
      exact held (t := first) (k := .ready) (by simp [Frame.holds, hworker]) (by simp [Frame.load])
    | _ => exact free (by simp [Frame.load])
  | run r =>
    obtain ⟨party, guards, body⟩ := r
    refine free ?_
    cases party with
    | task => simp [Frame.load]
    | outside => cases body <;> simp [Frame.load]
  | exchange p t seen target =>
    refine free ?_
    simp only [Frame.load]
    split <;> simp
  | spawn p job phase next => cases phase <;> exact free (by simp [Frame.load])
  | shutdown p phase => cases phase <;> exact free (by simp [Frame.load])
  | _ => exact free (by simp [Frame.load])

theorem le_loads (hN : ∀ t y, m.store.task? 0 t = some y → t < N) : -2 * (N : ℤ) ≤ m.loads := by
  have hsum := frameSum_nonneg (h.load_nonneg hN)
  rw [frameSum_add, frameSum_sum] at hsum
  have honce : ∀ t ∈ Finset.range N, (m.frameSum fun worker f => 2 * (Multiset.card (f.holds worker 0 t) : ℤ)) ≤ 2 := by
    intro t _
    have hdouble : (m.frameSum fun worker f => 2 * (Multiset.card (f.holds worker 0 t) : ℤ)) =
        2 * (Multiset.card (m.frameSum fun worker f => f.holds worker 0 t) : ℤ) :=
      (map_frameSum (((AddMonoidHom.mulLeft (2 : ℤ)).comp (Nat.castAddMonoidHom ℤ)).comp Multiset.cardHom) _ m).symm
    have hle : (m.frameSum fun worker f => f.holds worker 0 t) ≤ m.holds 0 t := Multiset.le_add_left _ _
    have hcard := (Multiset.card_le_card hle).trans (h.lawful.scheduled.sound 0 t).once
    omega
  have htotal := Finset.sum_le_card_nsmul _ _ _ honce
  simp only [Finset.card_range, nsmul_eq_mul] at htotal
  simp only [loads]
  linarith

variable (hi : m.threads[i]? = some ⟨worker, f :: rest⟩) (hfree : f.isBlocked worker choice m.store = false)

include hi hfree

/-- If nothing happens to a task, only what is before the thread changes its weight. -/
theorem loads_after (hstill : m.Still (m.after Job.start (.step i choice))) :
    (m.after Job.start (.step i choice)).loads + f.load m.store =
      m.loads + ((f.step Job.start worker choice m.store).2.map (Frame.load (m.after Job.start (.step i choice)).store)).sum := by
  have hsame : m.frameSum (fun _ f => f.load (m.after Job.start (.step i choice)).store) = m.loads :=
    frameSum_congr (h.frames.mono fun _ f hf => hstill.load_eq (hf.imp_right And.right))
  have hload : f.load (m.after Job.start (.step i choice)).store = f.load m.store :=
    hstill.load_eq ((h.frames i _ hi f (List.mem_cons_self ..)).imp_right And.right)
  obtain ⟨heq, -⟩ := h.after_eq Job.start hi hfree
  obtain ⟨others, h1, h2⟩ := frameSum_set (fun _ f => f.load (m.after Job.start (.step i choice)).store) hi
  rw [hsame, hload] at h1
  have hafter : (m.after Job.start (.step i choice)).loads =
      ((f.step Job.start worker choice m.store).2.map (Frame.load (m.after Job.start (.step i choice)).store)).sum + others := by
    rw [← h2, ← heq]
    rfl
  rw [hafter, h1]
  ring

/-- And whoever has one in hand holds it as before. -/
theorem hold_eq_of_still (hstill : m.Still (m.after Job.start (.step i choice))) {k l : Hold Datum Job}
    {g : Frame Datum Job} (hk : k ∈ f.holds worker 0 t) (hg : g ∈ (f.step Job.start worker choice m.store).2)
    (hk' : l ∈ g.holds worker 0 t) : l = k := by
  obtain ⟨y, hy, hT, -⟩ := h.lawful.scheduled.holds_eq h.running hi (List.mem_cons_self ..) hk
  rcases hstill t with ⟨hnone, -⟩ | ⟨_, _, -, -, -, -, hsame⟩
  · cases hy.symm.trans hnone
  · obtain ⟨heq, -⟩ := h.after_eq Job.start hi hfree
    have hmem : l ∈ (m.after Job.start (.step i choice)).holds 0 t := by
      rw [heq]
      exact mem_holds_of_set hi (List.mem_append_left _ hg) hk'
    rw [hsame, hT] at hmem
    exact Multiset.mem_singleton.1 hmem

/-- Nor does the frame do anything to its state and its stage. -/
theorem alter_eq_of_still (hstill : m.Still (m.after Job.start (.step i choice))) (hy : m.store.task? 0 t = some y) :
    (f.alter 0 t y).state = y.state ∧ (f.alter 0 t y).stage = y.stage := by
  obtain ⟨heq, -⟩ := h.after_eq Job.start hi hfree
  rcases hstill t with ⟨hnone, -⟩ | ⟨y', z, hy', hz, hstate, hstage, -⟩
  · cases hy.symm.trans hnone
  · cases hy.symm.trans hy'
    rw [heq] at hz
    cases (Frame.task?_step Job.start worker choice f hy).symm.trans hz
    exact ⟨hstate, hstage⟩

/-- A step of a worker with a task in hand brings the task nearer if it is not one of bookkeeping. -/
theorem not_still_of_task {phase : TaskPhase} (hf : f = .task 0 t phase)
    (hphase : phase = .claim ∨ phase = .enter ∨ (∃ outcome, phase = .settle outcome) ∨ phase = .park ∨ phase = .requeue) :
    ¬ m.Still (m.after Job.start (.step i choice)) := by
  subst hf
  intro hstill
  have same : ∀ y, m.store.task? 0 t = some y → (phase.alter y).state = y.state ∧ (phase.alter y).stage = y.stage := by
    intro y hy
    have halter := h.alter_eq_of_still hi hfree hstill hy
    rwa [Frame.alter, if_pos ⟨rfl, rfl⟩] at halter
  rcases hphase with rfl | rfl | ⟨outcome, rfl⟩ | rfl | rfl
  · obtain ⟨y, hy, hstate, -⟩ := h.fits hi (t := t) (k := .ready) (by simp [Frame.holds])
    simpa [TaskPhase.alter, hstate] using (same y hy).1
  · obtain ⟨y, hy, -, hstage⟩ := h.fits hi (t := t) (k := .claimed) (by simp [Frame.holds])
    exact hstage (same y hy).2.symm
  · obtain ⟨y, hy, hstate, -⟩ := h.fits hi (t := t) (k := .ending outcome) (by simp [Frame.holds])
    have hsame : Frame.finalState outcome = y.state := (same y hy).1
    rcases Frame.finalState_eq outcome with hfinal | hfinal <;> rcases hstate with hstate | hstate <;>
      rw [hfinal, hstate] at hsame <;> cases hsame
  · obtain ⟨y, hy, hstate, hstage⟩ := h.fits hi (t := t) (k := .parking) (by simp [Frame.holds])
    rcases hstate with hstate | hstate
    · simpa [TaskPhase.alter, hstate] using (same y hy).1
    -- it was woken meanwhile
    · have hnext := h.hold_eq_of_still hi hfree hstill (t := t) (k := .parking) (l := .requeue) (g := .task 0 t .requeue)
        (by simp [Frame.holds]) (by simp [Frame.step, Frame.stepTask, hy, TaskState.exchange, hstate]) (by simp [Frame.holds])
      cases hnext
  · obtain ⟨y, hy, hstate, -⟩ := h.fits hi (t := t) (k := .requeue) (by simp [Frame.holds])
    simpa [TaskPhase.alter, hstate] using (same y hy).1

/-- Labour that brings no task nearer to its end makes lighter what is before the threads, if it is not that of a worker
that looks for tasks and finds none. -/
theorem lighter (hlabour : f.IsLabour)
    (hrun : ∀ r, f = .run r → ¬ m.Still (m.after Job.start (.step i choice)))
    (hstill : m.Still (m.after Job.start (.step i choice))) :
    ((f.step Job.start worker choice m.store).2.map (Frame.load (f.step Job.start worker choice m.store).1)).sum <
        f.load m.store ∨
      ∃ seek w seek', f = .work seek ∧ (.work seek : Frame Datum Job).IsLooking ∧ worker = some (0, w) ∧
        (.work seek' : Frame Datum Job).IsLooking ∧
        (f.step Job.start worker choice m.store = (m.store, [.work seek']) ∨
          f.step Job.start worker choice m.store = (m.store.modifyPool 0 fun pool =>
            { pool with locals.stats := pool.locals.stats.recordFailure }, [.work seek'])) := by
  cases f with
  | run r => exact absurd hstill (hrun r rfl)
  | pause r =>
    obtain ⟨t, hr⟩ := hlabour
    have hnext := h.hold_eq_of_still hi hfree hstill (t := t) (k := .pausing r) (l := .parking)
      (g := .task 0 t .park) (by simp [Frame.holds, hr]) (by simp [Frame.step, Frame.stepPause, hr])
      (by simp [Frame.holds])
    cases hnext
  | drop guards =>
    obtain rfl : guards = [] := hlabour
    exact .inl (by simp [Frame.step, Frame.load])
  | ended party outcome =>
    obtain ⟨t, rfl, -⟩ := hlabour
    exact .inl (by simp [Frame.step, Frame.stepEnded, Frame.load])
  | signal c => exact .inl (by simp [Frame.step, Frame.load])
  | wake party =>
    obtain ⟨t, rfl⟩ := hlabour
    refine .inl ?_
    simp only [Frame.step, Frame.stepWake]
    cases hy : m.store.task? 0 t with
    | none => simp [Frame.load]
    | some y => cases htarget : y.state.wakeTarget? <;> simp [Frame.load, hy, htarget]
  | exchange p t seen target =>
    refine .inl ?_
    simp only [Frame.step, Frame.stepExchange, TaskState.exchange, Frame.load]
    cases hy : m.store.task? p t with
    | none => simp
    | some y =>
      by_cases hseen : y.state = seen
      · simp only [hseen, Option.map_some, if_true]
        split <;> simp [Frame.load]
      · simp [hseen, Frame.load]
  | reschedule p t =>
    obtain rfl : p = 0 := hlabour
    obtain ⟨pool, hpool, hrunning⟩ := h.running
    have hnext := h.hold_eq_of_still hi hfree hstill (t := t) (k := .rescheduling) (l := .ready) (g := .task 0 t .enqueue)
      (by simp [Frame.holds]) (by simp [Frame.step, Frame.stepReschedule, hpool, hrunning]) (by simp [Frame.holds])
    cases hnext
  | task p t phase =>
    obtain ⟨rfl, hphase⟩ := hlabour
    have turning := h.not_still_of_task hi hfree (rfl : Frame.task 0 t phase = .task 0 t phase)
    cases phase with
    | claim => exact absurd hstill (turning (.inl rfl))
    | enter => exact absurd hstill (turning (.inr (.inl rfl)))
    | settle outcome => exact absurd hstill (turning (.inr (.inr (.inl ⟨outcome, rfl⟩))))
    | park => exact absurd hstill (turning (.inr (.inr (.inr (.inl rfl)))))
    | requeue => exact absurd hstill (turning (.inr (.inr (.inr (.inr rfl)))))
    | tally outcome =>
      obtain rfl : outcome = .returned (.ok ()) := hphase
      obtain ⟨pool, hpool, -⟩ := h.running
      exact .inl (by simp [Frame.step, Frame.stepTask, hpool, Frame.isFatal, Frame.load])
    | abandon | discard => exact hphase.elim
    | _ => exact .inl (by simp [Frame.step, Frame.stepTask, Frame.load])
  | count p change => exact .inl (by simp [Frame.step, Frame.load])
  | work seek =>
    cases worker with
    | none => simp [Frame.isBlocked] at hfree
    | some home =>
      obtain ⟨p, w⟩ := home
      obtain rfl := h.homes i _ hi p w rfl
      change ((Frame.stepWork choice m.store 0 w seek).2.map (Frame.load (Frame.stepWork choice m.store 0 w seek).1)).sum <
          (Frame.work seek : Frame Datum Job).load m.store ∨ ∃ seek₁ w₁ seek', _ = _ ∧ _ ∧ _ ∧ _ ∧
          (Frame.stepWork choice m.store 0 w seek = _ ∨ Frame.stepWork choice m.store 0 w seek = _)
      by_cases hlook : (.work seek : Frame Datum Job).IsLooking
      · have hlooks := Frame.looks_stepWork h.running choice w seek
        have hload : (Frame.work seek : Frame Datum Job).load m.store = 0 := by cases seek <;> first | rfl | exact hlook.elim
        generalize hnext : Frame.stepWork choice m.store 0 w seek = next at hlooks ⊢
        rw [hload]
        cases hlooks with
        | finds => exact .inl (by simp [Frame.load])
        | steals => exact .inl (by simp [Frame.load])
        | @goesOn seek' hlook' => exact .inr ⟨seek, w, seek', rfl, hlook, rfl, hlook', .inl rfl⟩
        | @givesUp seek' hlook' => exact .inr ⟨seek, w, seek', rfl, hlook, rfl, hlook', .inr rfl⟩
      · cases seek with
        | keep first rest => exact .inl (by simp [Frame.stepWork, Frame.load])
        | _ => exact (hlook trivial).elim
  | _ => exact hlabour.elim

/-- Labour leads on, or it is that of a worker that looks for tasks and finds none. -/
theorem advances (hlabour : f.IsLabour)
    (hrun : ∀ r, f = .run r → ¬ m.Still (m.after Job.start (.step i choice)))
    (hnear : m.Still (m.after Job.start (.step i choice)) ∨ (m.after Job.start (.step i choice)).ranks N < m.ranks N) :
    (m.after Job.start (.step i choice)).ranks N < m.ranks N ∨
      (m.after Job.start (.step i choice)).ranks N = m.ranks N ∧
        ((m.after Job.start (.step i choice)).loads < m.loads ∨
          (m.after Job.start (.step i choice)).loads = m.loads ∧ m.Idles i ∧
            m.Defers (m.after Job.start (.step i choice))) := by
  rcases hnear with hstill | hlt
  · refine .inr ⟨hstill.ranks_eq N, ?_⟩
    have hloads := h.loads_after hi hfree hstill
    have hlighter := h.lighter hi hfree hlabour hrun hstill
    obtain ⟨heq, -⟩ := h.after_eq Job.start hi hfree
    rw [heq] at hloads ⊢
    change _ = m.loads + ((Frame.step Job.start worker choice m.store f).2.map
      (Frame.load (Frame.step Job.start worker choice m.store f).1)).sum at hloads
    rcases hlighter with hless | ⟨seek, w, seek', rfl, hlook, rfl, hlook', hnext⟩
    · exact .inl (by omega)
    have weightless : ∀ {seek : Seek} (s : Store Datum Job), (.work seek : Frame Datum Job).IsLooking →
        (Frame.work seek : Frame Datum Job).load s = 0 := fun {seek} s hlook => by
      cases seek <;> first | rfl | exact hlook.elim
    have hidles : m.Idles i := ⟨0, w, seek, rest, hi, hlook, h.running⟩
    refine .inr ⟨?_, hidles, ?_⟩
    · rcases hnext with hnext | hnext <;> rw [hnext] at hloads ⊢ <;>
        simpa [weightless _ hlook, weightless _ hlook'] using hloads
    · rcases hnext with hnext | hnext <;> rw [hnext]
      · exact hidles.defers rfl (fun _ _ _ => rfl) (fun _ => Iff.rfl) fun _ _ => rfl
      · exact hidles.defers_modifyPool (fun _ => rfl) (fun _ => rfl) (fun _ => rfl) (fun _ => rfl) fun _ => rfl
  · exact .inl hlt

end after

/-! ### Nobody left who has something to do -/

section rest

variable {V J : Type} {m : Machine V J} {D i : Nat} {f : Frame V J} {rest : List (Frame V J)} {th : Thread V J}
  (h : m.Crew D)

include h

/-- If all workers look for tasks and none is queued, every task is parked or has ended. -/
theorem rests (hidle : m.AllFrames fun _ f => f.IsLooking ∨ f.IsOutside ∧ ¬ f.Books 0)
    (hqueued : ∀ t y, m.store.task? 0 t = some y → y.state ≠ .queued) {t : TaskId} {y : Task V J}
    (hy : m.store.task? 0 t = some y) : y.Rests := by
  have hx := h.lawful.scheduled.exact 0 t h.running
  rw [hy] at hx
  rcases hx with ⟨-, hrests⟩ | ⟨k, hT, hfit⟩
  · exact hrests
  have hframes : (m.frameSum fun worker f => f.holds worker 0 t) = 0 := by
    refine frameSum_eq_zero fun i th hi f hf => ?_
    exact (hidle i th hi f hf).elim (fun hlook => hlook.holds_eq_zero 0 t) fun hout => hout.1.holds_eq_zero 0 t
  -- so it is in a queue
  have hstore : k ∈ m.store.holds 0 t := by
    have hk : k ∈ m.store.holds 0 t + m.frameSum fun worker f => f.holds worker 0 t := by
      change k ∈ m.holds 0 t
      rw [hT]
      exact Multiset.mem_singleton_self k
    rwa [hframes, add_zero] at hk
  rw [Multiset.eq_of_mem_replicate hstore] at hfit
  exact absurd hfit.1 (hqueued t y hy)

/-- And none is counted as active. -/
theorem active_eq_zero (hidle : m.AllFrames fun _ f => f.IsLooking ∨ f.IsOutside ∧ ¬ f.Books 0)
    (hrests : ∀ t y, m.store.task? 0 t = some y → y.Rests) {pool : Pool V J}
    (hpool : m.store.pools[0]? = some pool) : pool.active = 0 := by
  have hopen : ¬ m.store.Closed 0 := fun hc => hc.not_running h.running
  have hdue : ∀ a, (m.frameSum fun _ f => f.due 0 a) = 0 := fun a =>
    frameSum_eq_zero (hidle.mono fun _ f hf => Frame.due_of_not_books (hf.elim (fun hlook => by
      obtain ⟨seek, rfl⟩ := hlook.exists_seek
      exact id) And.right))
  have hshares := h.lawful.balanced.balance_eq_shares h.alive hopen hpool hdue .active
  rw [Pool.shares_active] at hshares
  have hnone : (pool.tasks.toList.countP fun y => y.state.isActive) = 0 := by
    refine List.countP_eq_zero.2 fun y hy => ?_
    obtain ⟨t, ht⟩ := List.mem_iff_getElem?.1 hy
    have hrest := hrests t y (by rwa [Store.task?_eq, hpool, Option.bind_some, ← Array.getElem?_toList])
    rcases hrest with ⟨hstate, -⟩ | ⟨hend, -⟩
    · simp [hstate, TaskState.isActive]
    · cases hstate : y.state <;> simp_all [TaskState.isActive, TaskState.isTerminal]
  simp only [Pool.balance, hnone] at hshares
  omega

/-- If nobody is urged to, all workers look for tasks. -/
theorem looks (hcalm : ¬ m.IsBusy) (hi : m.threads[i]? = some th) (hne : i ≠ D) (hf : f ∈ th.stack) : f.IsLooking := by
  obtain ⟨w, hw⟩ := h.others i th hi hne
  obtain ⟨home, stack⟩ := th
  obtain rfl : home = some (0, w) := hw
  cases stack with
  | nil => cases hf
  | cons g below =>
    have hfree : ∀ choice, g.isBlocked (some (0, w)) choice m.store = false :=
      (h.isLabour hi hne (List.mem_cons_self ..)).isBlocked_eq_false fun _ _ => Option.some_ne_none _
    have hidles : m.Idles i := by
      by_contra hidles
      exact hcalm (.inl ⟨i, fun choice => canStep_iff.2 ⟨h.alive, _, g, below, hi, hfree choice⟩, hidles⟩)
    obtain ⟨p, v, seek, below', hi', hlook, -⟩ := hidles
    rw [hi] at hi'
    cases hi'
    rcases List.mem_cons.1 hf with rfl | hmem
    · exact hlook
    -- below it there is nothing but what looks for tasks, and nothing in hand
    · obtain ⟨seek', rfl⟩ := (h.lawful.stacked.rooted i _ hi).1 f hmem
      cases seek' with
      | keep first batch => exact absurd hmem (h.handy i _ hi first batch)
      | _ => trivial

/-- And if the program does not book anything, every task is parked or has ended. -/
theorem at_rest (hcalm : ¬ m.IsBusy) (hD : m.threads[D]? = some ⟨none, rest⟩)
    (hout : ∀ g ∈ rest, g.IsOutside ∧ ¬ g.Books 0) :
    (m.AllFrames fun _ f => f.IsLooking ∨ f.IsOutside ∧ ¬ f.Books 0) ∧
      ∀ t y, m.store.task? 0 t = some y → y.Rests := by
  have hrest : m.AllFrames fun _ f => f.IsLooking ∨ f.IsOutside ∧ ¬ f.Books 0 := by
    intro j th hj g hg
    by_cases hne : j = D
    · subst hne
      rw [hD] at hj
      cases hj
      exact .inr (hout g hg)
    · exact .inl (h.looks hcalm hj hne hg)
  exact ⟨hrest, fun t y => h.rests hrest fun u z hz hstate => hcalm (.inr ⟨0, u, z, hz, hstate⟩)⟩

/-- Then the pool is idle. -/
theorem waitIdle_free (hcalm : ¬ m.IsBusy) (hD : m.threads[D]? = some ⟨none, .waitIdle 0 :: rest⟩)
    (hout : ∀ g ∈ rest, g.IsOutside ∧ ¬ g.Books 0) (choice : Nat) :
    (Frame.waitIdle 0 : Frame V J).isBlocked none choice m.store = false := by
  obtain ⟨hrest, hrests⟩ := h.at_rest hcalm hD fun g hg => by
    rcases List.mem_cons.1 hg with rfl | hg
    · exact ⟨trivial, id⟩
    · exact hout g hg
  obtain ⟨pool, hpool, -⟩ := h.running
  simp [Frame.isBlocked, hpool, h.active_eq_zero hrest hrests hpool]

/-- When the program finds the pool idle, it is without work. -/
theorem drained (hD : m.threads[D]? = some ⟨none, .waitIdle 0 :: rest⟩) {choice : Nat}
    (hfree : (Frame.waitIdle 0 : Frame V J).isBlocked none choice m.store = false) : m.Drained 0 := by
  obtain ⟨pool, hpool, hrunning⟩ := h.running
  have hactive : pool.active = 0 := by simpa [Frame.isBlocked, hpool] using hfree
  exact h.lawful.drained h.alive hpool hrunning hactive h.alone (stackOf_eq hD)

/-- And nothing is queued on it. -/
theorem queued_eq_zero (hD : m.threads[D]? = some ⟨none, f :: rest⟩) {choice : Nat}
    (hfree : f.isBlocked none choice m.store = false) (hf : f = .waitIdle 0) (q k : Nat)
    (hcharge : m.store.charge 0 = some (q, k)) : q = 0 := by
  subst hf
  obtain ⟨pool, hpool, -, hquiet⟩ := (h.drained hD hfree).pool
  have hqueued : pool.queued = q := congrArg Prod.fst (Option.some.inj ((Store.charge_of_pool hpool).symm.trans hcharge))
  exact hqueued.symm.trans hquiet.queued

end rest

end Crew

/-! ### At the beginning -/

section begin

variable {V J : Type} {start : J → Except RuntimeError (Body V J)} {config : PoolConfig} {body : Body V J} {i : Nat}
  {th : Thread V J}

/-- A pool with its workers, and a program on the thread after them that is before this body. -/
def begun (start : J → Except RuntimeError (Body V J)) (config : PoolConfig) (body : Body V J) : Machine V J :=
  ({} : Machine V J).run start [.startPool config, .enter body]

variable (hconfig : config.startError? = none)

include hconfig

theorem begun_eq : begun start config body =
    (({} : Machine V J).addPool config).spawnThread [.run { party := .outside, body }] := by
  rw [begun, run_startPool hconfig]
  rfl

theorem threads_begun : (begun start config body).threads =
    (workers 0 config.numWorkers).toArray.push { stack := [.run { party := .outside, body }] } := by
  rw [begun_eq hconfig]
  simp [spawnThread, addPool]

theorem thread_begun (hi : (begun start config body).threads[i]? = some th) :
    i < config.numWorkers ∧ th = ⟨some (0, i), [.work .loop]⟩ ∨
      i = config.numWorkers ∧ th = ⟨none, [.run { party := .outside, body }]⟩ := by
  rw [threads_begun hconfig, Array.getElem?_push] at hi
  split at hi
  · rename_i hlast
    cases hi
    exact .inr ⟨by simpa [workers] using hlast, rfl⟩
  · simp only [workers, List.getElem?_toArray, List.getElem?_map, Option.map_eq_some_iff,
      List.getElem?_eq_some_iff, List.length_range, List.getElem_range] at hi
    obtain ⟨w, ⟨hlt, rfl⟩, rfl⟩ := hi
    exact .inl ⟨hlt, rfl⟩

theorem program_begun : (begun start config body).threads[config.numWorkers]? =
    some ⟨none, [.run { party := .outside, body }]⟩ := by
  rw [threads_begun hconfig, Array.getElem?_push, if_pos (by simp [workers])]

theorem store_begun : (begun start config body).store = { pools := #[.new config] } := by
  rw [begun_eq hconfig]
  rfl

theorem pool_begun : (begun start config body).store.pools[0]? = some (.new config) := by
  rw [store_begun hconfig]
  rfl

theorem cell_begun (c : CellId) : (begun start config body).store.cell c = {} := by
  rw [store_begun hconfig]
  rfl

theorem task?_begun (t : TaskId) : (begun start config body).store.task? 0 t = none := by
  rw [Store.task?_eq, pool_begun hconfig]
  rfl

theorem crew_begun : (begun start config body).Crew config.numWorkers := by
  constructor
  case lawful => exact lawful_run start _
  case alive =>
    rw [store_begun hconfig]
  case running => exact ⟨_, pool_begun hconfig, rfl⟩
  case frames =>
    intro i th hi f hf
    rcases thread_begun hconfig hi with ⟨-, rfl⟩ | ⟨-, rfl⟩
    · rw [List.mem_singleton.1 hf]
      exact .inl trivial
    · rw [List.mem_singleton.1 hf]
      exact .inr ⟨rfl, rfl⟩
  case homes =>
    intro i th hi p w hw
    rcases thread_begun hconfig hi with ⟨-, rfl⟩ | ⟨-, rfl⟩ <;> cases hw
    rfl
  case others =>
    intro j th hj hne
    rcases thread_begun hconfig hj with ⟨-, rfl⟩ | ⟨heq, -⟩
    · exact ⟨j, rfl⟩
    · exact absurd heq hne
  case handy =>
    intro i th hi first rest hmem
    rcases thread_begun hconfig hi with ⟨-, rfl⟩ | ⟨-, rfl⟩ <;> cases hmem

end begin

end Machine
end Dataflow
