import Dataflow.Proofs.Fanning

/-!
# A program and its fan-out

The program on one thread and the tasks on the workers of its pool lead each other on. No task depends on another, and
the steps of the program are counted, so every step brings the program or a task nearer to its end
(`Fanout.Fanned.advances`), but for those of workers that look for tasks and find none. As long as the pool is not
stopped somebody has something to do (`Fanout.Fanned.isBusy`): when all workers look for tasks, the cell that the program
is blocked on is full, and it has been told.
-/

namespace Dataflow

/-- The frame that the thread was before when it took the step, if it did. -/
def Taken.of? {V J : Type} (D : Nat) (e : Taken V J) : Option (Frame V J) := if e.thread = D then some e.frame else none

namespace Fanout

open Machine

variable {m : Machine Datum Job} {tr : List (Taken Datum Job)} {N D i choice : Nat} {worker : Option (PoolId × Nat)}
  {f : Frame Datum Job} {rest : List (Frame Datum Job)}

/-- The program stands somewhere, perhaps with something to book before it, and comes to its end in so many steps. -/
structure Fanned (N D : Nat) (m : Machine Datum Job) (tr : List (Taken Datum Job)) : Prop where
  squared : m.Squared D
  program : ∃ bookings tail left, m.threads[D]? = some ⟨none, bookings ++ tail⟩ ∧ (∀ g ∈ bookings, g.IsBookkeeping) ∧
    (tr.filterMap (Taken.of? D)).length + bookings.length + left ≤ 22 * N + 5 ∧
    Stands N m.store (tr.filterMap (Taken.call? 0)) (tr.filterMap (Taken.of? D)) left tail

/-- All tasks have ended, the sum is said, and the program is about to stop the workers. -/
structure Closes (N D : Nat) (m : Machine Datum Job) (tr : List (Taken Datum Job)) : Prop where
  squared : m.Squared D
  thread : m.threads[D]? = some ⟨none, [.shutdown 0 .close, returned]⟩
  drained : m.Drained 0
  ended : ∀ t < N, ∃ y, m.store.task? 0 t = some y ∧ y.state = .completed
  added : ∃ calls, tr.filterMap (Taken.call? 0) = calls ++ [.idled] ∧
    Added N 0 m.store calls (tr.filterMap (Taken.of? D)) [.line (toString (sum 0 N))]

/-- What the tasks and the program still have to do. -/
def todo (N D : Nat) (m : Machine Datum Job) (tr : List (Taken Datum Job)) : ℕ ×ₗ ℕ :=
  toLex (m.ranks N + (22 * N + 5 - (tr.filterMap (Taken.of? D)).length), (m.loads + 2 * N).toNat)

section labour

variable (h : m.Squared D) (hi : m.threads[i]? = some ⟨worker, f :: rest⟩)
  (hfree : f.isBlocked worker choice m.store = false)

include h hi hfree

theorem of?_after (hne : i ≠ D) : (tr ++ (m.taken (.step i choice)).toList).filterMap (Taken.of? D) =
    tr.filterMap (Taken.of? D) := by
  rw [filterMap_taken, (h.crew.after_eq Job.start hi hfree).2, Option.bind_some, Taken.of?, if_neg hne, Option.toList_none,
    List.append_nil]

theorem of?_after_self (hD : i = D) : (tr ++ (m.taken (.step i choice)).toList).filterMap (Taken.of? D) =
    tr.filterMap (Taken.of? D) ++ [f] := by
  rw [filterMap_taken, (h.crew.after_eq Job.start hi hfree).2, Option.bind_some, Taken.of?, if_pos hD]
  rfl

variable (hsquare : f.OfSquare)

include hsquare

/-- A step of a task leaves the program alone. -/
theorem labour (tr : List (Taken Datum Job)) : (m.after Job.start (.step i choice)).Squared D ∧
    m.store.Respects (m.after Job.start (.step i choice)).store ∧
    (tr ++ (m.taken (.step i choice)).toList).filterMap (Taken.call? 0) = tr.filterMap (Taken.call? 0) := by
  have hsquared := h.after hi hfree (.inl hsquare) fun hmodest => absurd hmodest.outside hsquare.isLabour.not_isOutside
  obtain ⟨heq, htaken⟩ := h.crew.after_eq Job.start hi hfree
  refine ⟨hsquared, ?_, ?_⟩
  · rw [heq]
    exact hsquare.respects worker choice
  · have hnone : Taken.call? 0 ⟨i, worker, f, m.store⟩ = none := hsquare.isLabour.call?_eq_none
    rw [filterMap_taken, htaken, Option.bind_some, hnone, Option.toList_none, List.append_nil]

/-- It leads on, or it is one of a worker that looks for tasks and finds none. -/
theorem todo_labour (hne : i ≠ D) {q k : Nat} (hcharge : m.store.charge 0 = some (q, k)) (hk : k ≤ N) :
    todo N D (m.after Job.start (.step i choice)) (tr ++ (m.taken (.step i choice)).toList) < todo N D m tr ∨
    todo N D (m.after Job.start (.step i choice)) (tr ++ (m.taken (.step i choice)).toList) = todo N D m tr ∧
      m.Idles i ∧ m.Defers (m.after Job.start (.step i choice)) := by
  obtain ⟨hsquared, hrespects, -⟩ := labour h hi hfree hsquare tr
  obtain ⟨q', -, hcharge'⟩ := hrespects.charge q k hcharge
  have hN : ∀ t y, (m.after Job.start (.step i choice)).store.task? 0 t = some y → t < N := fun t y hy =>
    Nat.lt_of_lt_of_le (Store.lt_of_charge hcharge' hy) hk
  have hleast := hsquared.crew.le_loads hN
  rw [todo, todo, of?_after h hi hfree hne, Prod.Lex.toLex_lt_toLex]
  dsimp only
  rcases h.advances hi hfree hsquare hN with hranks | ⟨hranks, hless | ⟨hsame, hidles, hdefers⟩⟩
  · exact .inl (.inl (by omega))
  · exact .inl (.inr ⟨by rw [hranks], by omega⟩)
  · exact .inr ⟨by rw [hranks, hsame], hidles, hdefers⟩

end labour

/-- Every step of the program is one of those that it has before it. -/
theorem todo_own (h : m.Squared D) (hD : m.threads[D]? = some ⟨worker, f :: rest⟩)
    (hfree : f.isBlocked worker choice m.store = false) (hf : f.OfSquare ∨ f.Modest m.store) {q k : Nat}
    (hcharge : (m.after Job.start (.step D choice)).store.charge 0 = some (q, k)) (hk : k ≤ N)
    (hless : (tr.filterMap (Taken.of? D)).length < 22 * N + 5) :
    todo N D (m.after Job.start (.step D choice)) (tr ++ (m.taken (.step D choice)).toList) < todo N D m tr := by
  have hN : ∀ t y, (m.after Job.start (.step D choice)).store.task? 0 t = some y → t < N := fun t y hy =>
    Nat.lt_of_lt_of_le (Store.lt_of_charge hcharge hy) hk
  have hranks : (m.after Job.start (.step D choice)).ranks N ≤ m.ranks N :=
    (h.still_or_lt hD hfree hf hN).elim (fun hstill => (hstill.ranks_eq N).le) Nat.le_of_lt
  rw [todo, todo, of?_after_self h hD hfree rfl, Prod.Lex.toLex_lt_toLex, List.length_append, List.length_singleton]
  exact .inl (by dsimp only; omega)

/-- A step of a task leaves the program where it stands. -/
theorem Fanned.after_other (h : Fanned N D m tr) (hi : m.threads[i]? = some ⟨worker, f :: rest⟩)
    (hfree : f.isBlocked worker choice m.store = false) (hsquare : f.OfSquare) (hne : i ≠ D) :
    Fanned N D (m.after Job.start (.step i choice)) (tr ++ (m.taken (.step i choice)).toList) := by
  obtain ⟨hsquared, hrespects, hcalls⟩ := labour h.squared hi hfree hsquare tr
  obtain ⟨bookings, tail, left, hD, hbookings, hcount, hstands⟩ := h.program
  have hown : (tr ++ (m.taken (.step i choice)).toList).filterMap (Taken.of? D) = tr.filterMap (Taken.of? D) :=
    of?_after h.squared hi hfree hne
  refine ⟨hsquared, bookings, tail, left, ?_, hbookings, ?_, ?_⟩
  · rw [(h.squared.crew.after_eq Job.start hi hfree).1, Array.getElem?_setIfInBounds_ne hne, hD]
  · rwa [hown]
  · rw [hown, hcalls]
    exact hstands.respects hrespects (List.Subset.refl _)

/-- Something is booked. -/
theorem Fanned.after_booking (h : Fanned N D m tr) {bookings tail : List (Frame Datum Job)} {left : Nat}
    (hD : m.threads[D]? = some ⟨none, f :: (bookings ++ tail)⟩) (hfree : f.isBlocked none choice m.store = false)
    (hf : f.IsBookkeeping) (hbookings : ∀ g ∈ bookings, g.IsBookkeeping)
    (hcount : (tr.filterMap (Taken.of? D)).length + (bookings.length + 1) + left ≤ 22 * N + 5)
    (hstands : Stands N m.store (tr.filterMap (Taken.call? 0)) (tr.filterMap (Taken.of? D)) left tail) :
    Fanned N D (m.after Job.start (.step D choice)) (tr ++ (m.taken (.step D choice)).toList) ∧
    todo N D (m.after Job.start (.step D choice)) (tr ++ (m.taken (.step D choice)).toList) < todo N D m tr := by
  obtain ⟨hsquared, hrespects, hcalls⟩ := labour h.squared hD hfree hf.ofSquare tr
  have hown : (tr ++ (m.taken (.step D choice)).toList).filterMap (Taken.of? D) = tr.filterMap (Taken.of? D) ++ [f] :=
    of?_after_self h.squared hD hfree rfl
  have hstands' := hstands.respects hrespects (List.subset_append_left _ [f])
  obtain ⟨q, k, hcharge, hk⟩ := hstands'.charge
  refine ⟨⟨hsquared, bookings, tail, left, ?_, hbookings, ?_, ?_⟩,
    todo_own h.squared hD hfree (.inl hf.ofSquare) hcharge hk (by omega)⟩
  · rw [(h.squared.crew.after_eq Job.start hD hfree).1, getElem?_setIfInBounds_self hD, hf.step]
    rfl
  · rw [hown, List.length_append, List.length_singleton]
    omega
  · rwa [hown, hcalls]

/-- When the pool is without work all tasks have ended. -/
theorem ended_of_drained (h : m.Squared D) (hdrained : m.Drained 0) {q : Nat} (hcharge : m.store.charge 0 = some (q, N)) :
    ∀ t < N, ∃ y, m.store.task? 0 t = some y ∧ y.state = .completed := by
  intro t ht
  obtain ⟨y, hy⟩ := Store.exists_task?_of_charge hcharge ht
  obtain ⟨pool, hpool, -, hquiet⟩ := hdrained.pool
  have hrests : y.Rests := by
    rw [Store.task?_eq, hpool] at hy
    exact hquiet.rests t y hy
  exact ⟨y, hy, (h.completed_of_rests hy hrests).1⟩

/-- The program goes on, or it is about to stop the workers. -/
theorem Fanned.after_own (hN : sum 0 N < 2 ^ 64) (h : Fanned N D m tr) {left : Nat}
    (hD : m.threads[D]? = some ⟨none, f :: rest⟩) (hfree : f.isBlocked none choice m.store = false)
    (hcount : (tr.filterMap (Taken.of? D)).length + left ≤ 22 * N + 5)
    (hstands : Stands N m.store (tr.filterMap (Taken.call? 0)) (tr.filterMap (Taken.of? D)) left (f :: rest)) :
    (Fanned N D (m.after Job.start (.step D choice)) (tr ++ (m.taken (.step D choice)).toList) ∨
      Closes N D (m.after Job.start (.step D choice)) (tr ++ (m.taken (.step D choice)).toList)) ∧
    todo N D (m.after Job.start (.step D choice)) (tr ++ (m.taken (.step D choice)).toList) < todo N D m tr := by
  have hleads := hstands.leads hN h.squared.crew.running h.squared.filling.cells h.squared.filling.signalled hfree
    (h.squared.crew.queued_eq_zero hD hfree)
  have hsquared := h.squared.after hD hfree (.inr hleads.modest) fun _ g hg =>
    (hleads.frames g hg).imp_right fun hout => ⟨rfl, hout⟩
  have hless : (tr.filterMap (Taken.of? D)).length < 22 * N + 5 := by
    have hpos := hstands.pos
    omega
  have htodo := fun q k hcharge hk => todo_own (q := q) (k := k) h.squared hD hfree (.inr hleads.modest) hcharge hk hless
  have hown : (tr ++ (m.taken (.step D choice)).toList).filterMap (Taken.of? D) = tr.filterMap (Taken.of? D) ++ [f] :=
    of?_after_self h.squared hD hfree rfl
  obtain ⟨heq, htaken⟩ := h.squared.crew.after_eq Job.start hD hfree
  have hcalls : (tr ++ (m.taken (.step D choice)).toList).filterMap (Taken.call? 0) =
      tr.filterMap (Taken.call? 0) ++ (Taken.call? 0 ⟨0, none, f, m.store⟩).toList := by
    rw [filterMap_taken, htaken]
    rfl
  rcases hleads.stands with ⟨bookings, tail, left', hstack, hbookings, hcount', hstands'⟩ | ⟨rfl, -, rfl, hadded⟩
  · rw [← hcalls, ← hown] at hstands'
    obtain ⟨q, k, hcharge, hk⟩ := hstands'.charge
    have hthread : (m.after Job.start (.step D choice)).threads[D]? = some ⟨none, bookings ++ tail⟩ := by
      rw [heq, getElem?_setIfInBounds_self hD, hstack]
    have hstore : (m.after Job.start (.step D choice)).store = (f.step Job.start none choice m.store).1 := by rw [heq]
    rw [← hstore] at hstands' hcharge
    refine ⟨.inl ⟨hsquared, bookings, tail, left', hthread, hbookings, ?_, hstands'⟩, htodo q k hcharge hk⟩
    rw [hown, List.length_append, List.length_singleton]
    omega
  · have hdrained := h.squared.crew.drained hD hfree
    obtain ⟨q, hcharge⟩ := hadded.has.made
    have hended := ended_of_drained h.squared hdrained hcharge
    rw [heq] at hsquared htodo ⊢
    refine ⟨.inr ⟨hsquared, ?_, ⟨hdrained.pool, fun j w stack hj =>
      hdrained.workers j w stack (worker_of_set hD (fun w => by simp) hj rfl)⟩, hended, _, hcalls,
      hadded.has, hadded.calls, fun c hge hle => ?_⟩, htodo q N hcharge (Nat.le_refl N)⟩
    · rw [getElem?_setIfInBounds_self hD]
      rfl
    · rw [hown]
      exact List.mem_append_left _ (hadded.past c hge hle)

/-- A step of a task leaves the program about to stop the workers. -/
theorem Closes.after_other (h : Closes N D m tr) (hi : m.threads[i]? = some ⟨worker, f :: rest⟩)
    (hfree : f.isBlocked worker choice m.store = false) (hsquare : f.OfSquare) (hne : i ≠ D) :
    Closes N D (m.after Job.start (.step i choice)) (tr ++ (m.taken (.step i choice)).toList) := by
  obtain ⟨hsquared, hrespects, hcalls⟩ := labour h.squared hi hfree hsquare tr
  obtain ⟨heq, htaken⟩ := h.squared.crew.after_eq Job.start hi hfree
  obtain ⟨calls, hcalls', hadded⟩ := h.added
  have hown : (tr ++ (m.taken (.step i choice)).toList).filterMap (Taken.of? D) = tr.filterMap (Taken.of? D) :=
    of?_after h.squared hi hfree hne
  have hdrained : (m.after Job.start (.step i choice)).Drained 0 := by
    refine h.drained.after h.squared.crew.lawful.scheduled.framed h.squared.crew.alone _ fun e he => ?_
    rw [htaken] at he
    cases he
    exact hne
  have hadded' := hadded.respects hrespects (List.Subset.refl _)
  obtain ⟨q, hcharge⟩ := hadded'.has.made
  refine ⟨hsquared, ?_, hdrained, ended_of_drained hsquared hdrained hcharge, calls, hcalls.trans hcalls', ?_⟩
  · rw [heq, Array.getElem?_setIfInBounds_ne hne, h.thread]
  · rwa [hown]

/-- All others are at work on tasks. -/
theorem ofSquare (h : m.Squared D) {th : Thread Datum Job} (hi : m.threads[i]? = some th) (hne : i ≠ D) (hf : f ∈ th.stack) :
    f.OfSquare := by
  obtain ⟨w, hw⟩ := h.crew.others i th hi hne
  refine (h.frames i th hi f hf).resolve_right fun hout => ?_
  rw [hw] at hout
  cases hout.1

/-- Until the workers are stopped, every step leads on, or it is one of a worker that looks for tasks and finds none. -/
theorem Fanned.advances (hN : sum 0 N < 2 ^ 64) (h : Fanned N D m tr) (hcan : m.canStep i choice = true) :
    (Fanned N D (m.after Job.start (.step i choice)) (tr ++ (m.taken (.step i choice)).toList) ∨
      Closes N D (m.after Job.start (.step i choice)) (tr ++ (m.taken (.step i choice)).toList)) ∧
    (todo N D (m.after Job.start (.step i choice)) (tr ++ (m.taken (.step i choice)).toList) < todo N D m tr ∨
      todo N D (m.after Job.start (.step i choice)) (tr ++ (m.taken (.step i choice)).toList) = todo N D m tr ∧
        m.Idles i ∧ m.Defers (m.after Job.start (.step i choice))) := by
  obtain ⟨worker, f, rest, hi, hfree, -⟩ := after_of_canStep Job.start hcan
  obtain ⟨bookings, tail, left, hD, hbookings, hcount, hstands⟩ := h.program
  by_cases hne : i = D
  · subst hne
    rw [hi] at hD
    obtain ⟨rfl, hstack⟩ := Thread.mk.inj (Option.some.inj hD)
    cases bookings with
    | cons g bookings =>
      obtain ⟨rfl, rfl⟩ := List.cons.inj hstack
      obtain ⟨hnext, hless⟩ := h.after_booking hi hfree (hbookings f (List.mem_cons_self ..))
        (fun g hg => hbookings g (List.mem_cons_of_mem _ hg)) hcount hstands
      exact ⟨.inl hnext, .inl hless⟩
    | nil =>
      obtain rfl : f :: rest = tail := hstack
      obtain ⟨hnext, hless⟩ := h.after_own hN hi hfree hcount hstands
      exact ⟨hnext, .inl hless⟩
  · have hsquare := ofSquare h.squared hi hne (List.mem_cons_self ..)
    obtain ⟨q, k, hcharge, hk⟩ := hstands.charge
    exact ⟨.inl (h.after_other hi hfree hsquare hne), todo_labour h.squared hi hfree hsquare hne hcharge hk⟩

section busy

variable (h : m.Squared D)

include h

/-- A program that is blocked on a cell while nobody has anything to do has been told that the cell is full. -/
theorem blocked_free {c : CellId} {answer : Except RuntimeError (Option Datum) → Run Datum Job}
    (hcalm : ¬ m.IsBusy) (hD : m.threads[D]? = some ⟨none, [.blocked c false answer]⟩) {q : Nat}
    (hcharge : m.store.charge 0 = some (q, N)) (hc : c < N) (hblocked : 0 < (m.store.cell c).blocked)
    (hout : ∀ result, (answer result).party = .outside) (choice : Nat) :
    (Frame.blocked c false answer).isBlocked none choice m.store = false := by
  obtain ⟨hrest, hrests⟩ := h.crew.at_rest hcalm hD fun g hg => by
    rw [List.mem_singleton.1 hg]
    exact ⟨hout, id⟩
  obtain ⟨y, hy⟩ := Store.exists_task?_of_charge hcharge hc
  have hfull := (h.completed_of_rests hy (hrests c y hy)).2
  have htold : c ∈ m.store.signalled := by
    refine (h.filling.told c hfull hblocked).resolve_right ?_
    rintro ⟨i, th, hi, f, hf, rfl⟩
    rcases hrest i th hi _ hf with hlook | ⟨hout, -⟩
    · exact hlook
    · exact hout
  simp [Frame.isBlocked, htold]

/-- So the program is not held up. -/
theorem not_held {calls : List (Call Job)} {past : List (Frame Datum Job)} {left : Nat} (hcalm : ¬ m.IsBusy)
    (hD : m.threads[D]? = some ⟨none, f :: rest⟩) (hstands : Stands N m.store calls past left (f :: rest)) (choice : Nat) :
    f.isBlocked none choice m.store = false := by
  cases hstands with
  | asks _ _ _ hf => cases hf <;> rfl
  | idles =>
    refine h.crew.waitIdle_free hcalm hD (fun g hg => ⟨Frame.isOutside_of_mem_program hg, ?_⟩) choice
    rw [List.mem_singleton.1 hg]
    exact id
  | waits =>
    refine h.crew.waitIdle_free hcalm hD (fun g hg => ?_) choice
    simp only [List.mem_cons, List.not_mem_nil, or_false] at hg
    rcases hg with rfl | rfl
    · exact ⟨trivial, id⟩
    · exact ⟨rfl, id⟩
  | blocks hc hadded hblocked _ hout =>
    obtain ⟨q, hcharge⟩ := hadded.has.made
    exact blocked_free h hcalm hD hcharge hc hblocked hout choice
  | _ => rfl

end busy

/-- As long as the pool is not stopped somebody has something to do. -/
theorem Fanned.isBusy (h : Fanned N D m tr) : m.IsBusy := by
  by_contra hcalm
  obtain ⟨bookings, tail, left, hD, hbookings, -, hstands⟩ := h.program
  have halive := h.squared.crew.alive
  cases bookings with
  | cons f bookings =>
    have hf : f.IsBookkeeping := hbookings f (List.mem_cons_self ..)
    have hfree : ∀ choice, f.isBlocked none choice m.store = false := hf.isLabour.isBlocked_eq_false fun seek hseek _ => by
      subst hseek
      exact hf
    exact hcalm (.inl ⟨D, isUrged_of_outside halive hD hfree⟩)
  | nil =>
    cases tail with
    | nil => exact absurd rfl hstands.ne_nil
    | cons f below => exact hcalm (.inl ⟨D, isUrged_of_outside halive hD (not_held h.squared hcalm hD hstands)⟩)

theorem Closes.isBusy (h : Closes N D m tr) : m.IsBusy :=
  .inl ⟨D, isUrged_of_outside h.squared.crew.alive h.thread fun _ => rfl⟩

end Fanout
end Dataflow
