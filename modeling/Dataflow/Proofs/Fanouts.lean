import Dataflow.Proofs.Chains
import Dataflow.Proofs.Fanned

/-!
# Fan-outs of any width

Under every fair schedule a program that fans out comes to its end (`Machine.fanned_run`): each task is accepted, at the
second time if the pool refuses it at the first, each fills its cell with the square of its number, and the program says
the sum of all squares, without a sum on the way that does not fit into 64 bits. When the pool is shut down all tasks
have ended.
-/

namespace Dataflow

namespace Fanout

open Machine

variable {m : Machine Datum Job} {tr : List (Taken Datum Job)} {N D i choice : Nat} {d : Pool Datum Job}

/-- The program is in the middle of the shutdown call that stopped the pool `d`. -/
structure Shuts (N D : Nat) (d : Pool Datum Job) (m : Machine Datum Job) (tr : List (Taken Datum Job)) : Prop where
  retires : m.Retires D [returned] d
  size : d.tasks.size = N
  ended : ∀ y ∈ d.tasks, y.state = .completed
  filled : ∀ t < N, m.store.Filled Square.value t
  notes : m.store.notes = [.line (toString (sum 0 N))]
  calls : ∃ calls, tr.filterMap (Taken.call? 0) = calls ++ [.idled] ∧ Submits Square.job N calls
  past : ∀ c ≤ N, adds c (IntKind.unsigned64.wrap (sum c N)) ∈ tr.filterMap (Taken.of? D)

/-- The program stops the workers. -/
theorem Closes.after_own (h : Closes N D m tr) : ∃ d,
    Shuts N D d (m.after Job.start (.step D choice)) (tr ++ (m.taken (.step D choice)).toList) := by
  obtain ⟨d, hd, -, hquiet⟩ := h.drained.pool
  obtain ⟨calls, hcalls, hadded⟩ := h.added
  have hsize : d.tasks.size = N := by
    obtain ⟨q, hcharge⟩ := hadded.has.made
    exact congrArg Prod.snd (Option.some.inj ((Store.charge_of_pool hd).symm.trans hcharge))
  have hended : ∀ y ∈ d.tasks, y.state = .completed := Store.completed_of_task? hd fun t ht => h.ended t (hsize ▸ ht)
  have hfilled : ∀ t < N, m.store.Filled Square.value t := by
    intro t ht
    obtain ⟨y, hy, hstate⟩ := h.ended t ht
    exact (h.squared.knows t y hy).filled.2 (.inl hstate)
  obtain ⟨hretires, hkeeps⟩ := Retires.of_close Job.start choice h.squared.crew h.drained h.thread hd
    (hquiet.registry_eq_nil hended)
  refine ⟨d, hretires, hsize, hended, fun t ht => ?_, hkeeps.notes.trans hadded.has.notes, ⟨calls, ?_, hadded.calls⟩,
    fun c hc => ?_⟩
  · rw [Store.Filled, Store.cell, hkeeps.cells]
    exact hfilled t ht
  · rw [filterMap_taken, hkeeps.call, hcalls]
    exact List.append_nil _
  · rw [filterMap_taken]
    exact List.mem_append_left _ (hadded.past c (Nat.zero_le c) hc)

namespace Shuts

/-- Only the workers and the program itself go on, and the shutdown call with them. -/
theorem after (h : Shuts N D d m tr) (hgoing : m.stackOf D ≠ [returned]) (hcan : m.canStep i choice = true) :
    Concerns 0 D m i ∧ m.IsUrged i ∧
      Shuts N D d (m.after Job.start (.step i choice)) (tr ++ (m.taken (.step i choice)).toList) := by
  obtain ⟨hconcerns, hurged, hretires, hkeeps⟩ := h.retires.after Job.start hgoing hcan
  obtain ⟨calls, hcalls, hsubmits⟩ := h.calls
  refine ⟨hconcerns, hurged, hretires, h.size, h.ended, fun t ht => ?_, hkeeps.notes.trans h.notes, ⟨calls, ?_, hsubmits⟩,
    fun c hc => ?_⟩
  · rw [Store.Filled, Store.cell, hkeeps.cells]
    exact h.filled t ht
  · rw [filterMap_taken, hkeeps.call, hcalls]
    exact List.append_nil _
  · rw [filterMap_taken]
    exact List.mem_append_left _ (h.past c hc)

/-- When it returns, all tasks have completed. -/
theorem completed (h : Shuts N D d m tr) (hreturned : m.stackOf D = [returned]) :
    ∃ pool, m.store.pools[0]? = some pool ∧ pool.tasks.size = N ∧ ∀ y ∈ pool.tasks, y.state = .completed := by
  rw [← h.size]
  exact h.retires.completed h.ended hreturned

/-- The cells have the squares themselves. -/
theorem squares (h : Shuts N D d m tr) (hN : N ≤ Command.Flag.maxTasks) {t : TaskId} (ht : t < N) :
    ∃ v : Core.u64.Value, (m.store.cell t).payload = .full ⟨Core.u64, v⟩ ∧ Subtype.val v = (t * t : Nat) := by
  have hle : t * t ≤ Command.Flag.maxTasks * Command.Flag.maxTasks :=
    Nat.mul_self_le_mul_self (ht.le.trans hN)
  have hlt : t * t < 2 ^ 64 := Nat.lt_of_le_of_lt hle (by decide)
  exact ⟨_, h.filled t ht, Share.val_wrap_of_lt hlt⟩

/-- And the sums on the way were those of the squares. -/
theorem sums (h : Shuts N D d m tr) (hN : N ≤ Command.Flag.maxTasks) {c : Nat} (hc : c ≤ N) : ∃ e ∈ tr, e.thread = D ∧
    ∃ v : Core.u64.Value, e.frame = adds c v ∧ Subtype.val v = (∑ i ∈ Finset.Ico c N, i * i : Nat) := by
  obtain ⟨e, he, hof⟩ := List.mem_filterMap.1 (h.past c hc)
  rw [Taken.of?] at hof
  split at hof
  · rename_i hthread
    exact ⟨e, he, hthread, _, Option.some.inj hof, Share.val_wrap_of_lt (sum_lt hN c)⟩
  · cases hof

end Shuts

/-- A pool, and the program that fans out so many tasks on it. -/
def machine (config : PoolConfig) (N : Nat) : Machine Datum Job := begun Job.start config (Graph.fanout 0 N)

section start

variable {config : PoolConfig} (hconfig : config.startError? = none)

include hconfig

theorem squared_machine (N : Nat) : (machine config N).Squared config.numWorkers := by
  have hcell : ∀ c, (machine config N).store.cell c = {} := cell_begun hconfig
  have hnone : ∀ t, (machine config N).store.task? 0 t = none := task?_begun hconfig
  have hstore : (machine config N).store = { pools := #[.new config] } := store_begun hconfig
  have hempty : ∀ c, ¬ (machine config N).store.Filled Square.value c := fun c hfull => by
    rw [Store.Filled, hcell] at hfull
    cases hfull
  have hquiet : ∀ c, ¬ (machine config N).Pending (· = .signal c) := by
    rintro c ⟨i, th, hi, f, hf, rfl⟩
    rcases thread_begun hconfig hi with ⟨-, rfl⟩ | ⟨-, rfl⟩ <;> cases List.mem_singleton.1 hf
  constructor
  case crew => exact crew_begun hconfig
  case frames =>
    intro i th hi f hf
    rcases thread_begun hconfig hi with ⟨-, rfl⟩ | ⟨-, rfl⟩
    · rw [List.mem_singleton.1 hf]
      exact .inl trivial
    · rw [List.mem_singleton.1 hf]
      exact .inr ⟨rfl, rfl⟩
  case filling =>
    refine ⟨fun c => .inl ?_, fun c hfull => absurd hfull (hempty c), fun c hpending => absurd hpending (hquiet c),
      fun c hc => ?_⟩
    · rw [hcell]
    · rw [hstore] at hc
      cases hc
  case wakers =>
    intro k party henters
    rw [Store.Enters, hcell] at henters
    cases henters
  case room => exact fun t y hy => by cases (hnone t).symm.trans hy
  case written => exact fun t hfull => absurd hfull (hempty _)
  case knows => exact fun t y hy => by cases (hnone t).symm.trans hy

theorem fanned_machine (N : Nat) : Fanned N config.numWorkers (machine config N) [] := by
  have hstore : (machine config N).store = { pools := #[.new config] } := store_begun hconfig
  refine ⟨squared_machine hconfig N, [], _, 20 * N + 2 * N + 5, program_begun hconfig,
    fun g hg => absurd hg List.not_mem_nil, ?_, stands_next (Nat.zero_add N) ⟨⟨0, ?_⟩, ?_, ?_⟩ .nil⟩
  · simp only [List.filterMap_nil, List.length_nil]
    omega
  · rw [hstore]
    rfl
  · rw [hstore]
    rfl
  · rw [hstore]

end start

/-- The program has not come so far that the shutdown call returns. -/
theorem Stands.ne_returned {s : Store Datum Job} {calls : List (Call Job)} {past stack : List (Frame Datum Job)} {left : Nat}
    (h : Stands N s calls past left stack) : stack ≠ [returned] := by
  intro hstack
  cases h with
  | asks _ _ _ hf => cases hf <;> cases hstack
  | @adds c => cases c <;> cases hstack
  | _ => cases hstack

theorem stackOf_ne_returned (h : Fanned N D m tr ∨ Closes N D m tr) : m.stackOf D ≠ [returned] := by
  rcases h with h | h
  · obtain ⟨bookings, tail, left, hD, -, -, hstands⟩ := h.program
    rw [stackOf_eq hD]
    intro hstack
    rcases List.append_eq_singleton_iff.1 hstack with ⟨-, htail⟩ | ⟨-, htail⟩
    · exact hstands.ne_returned htail
    · exact hstands.ne_nil htail
  · rw [stackOf_eq h.thread]
    exact fun hstack => by cases hstack

/-- Until the workers are stopped, every step leads on, or it is one of a worker that looks for tasks and finds none. -/
theorem advances (hN : sum 0 N < 2 ^ 64) (h : Fanned N D m tr ∨ Closes N D m tr) (hcan : m.canStep i choice = true) :
    Advances (fun m tr => Fanned N D m tr ∨ Closes N D m tr) (fun m tr => ∃ d, Shuts N D d m tr) (todo N D) m tr i
      (m.after Job.start (.step i choice)) (tr ++ (m.taken (.step i choice)).toList) := by
  rcases h with h | h
  · exact .inr (h.advances hN hcan)
  · obtain ⟨worker, f, rest, hi, hfree, -⟩ := after_of_canStep Job.start hcan
    by_cases hne : i = D
    · subst hne
      exact .inl h.after_own
    · have hsquare := ofSquare h.squared hi hne (List.mem_cons_self ..)
      obtain ⟨calls, -, hadded⟩ := h.added
      obtain ⟨q, hcharge⟩ := hadded.has.made
      exact .inr ⟨.inr (h.after_other hi hfree hsquare hne),
        todo_labour h.squared hi hfree hsquare hne hcharge (Nat.le_refl N)⟩

end Fanout

namespace Machine

open Fanout (returned)

/-- Under every fair schedule the program that fans out `N` tasks comes to its end: each task is accepted, at the second
time if the pool refuses it at the first, and when the shutdown call returns the sum of all squares has been said, all
tasks have completed and each cell has its square. The sums on the way, down to each cell, were exact. -/
theorem fanned_run {config : PoolConfig} (hconfig : config.startError? = none) {N : Nat} (hN : N ≤ Command.Flag.maxTasks)
    {σ : Schedule} (hfair : Fair Job.start (Fanout.machine config N) σ) :
    ∃ n calls pool,
      (∀ l < n, ((Fanout.machine config N).run Job.start (σ.moves l)).stackOf config.numWorkers ≠ [returned]) ∧
      ((Fanout.machine config N).run Job.start (σ.moves n)).stackOf config.numWorkers = [returned] ∧
      ((Fanout.machine config N).trace Job.start (σ.moves n)).filterMap (Taken.call? 0) = calls ++ [.idled] ∧
      Submits Square.job N calls ∧
      ((Fanout.machine config N).run Job.start (σ.moves n)).store.notes =
        [.line (toString (∑ i ∈ Finset.range N, i * i))] ∧
      ((Fanout.machine config N).run Job.start (σ.moves n)).store.pools[0]? = some pool ∧ pool.tasks.size = N ∧
      (∀ y ∈ pool.tasks, y.state = .completed) ∧
      (∀ t < N, ∃ v : Core.u64.Value, (((Fanout.machine config N).run Job.start (σ.moves n)).store.cell t).payload =
        .full ⟨Core.u64, v⟩ ∧ Subtype.val v = (t * t : Nat)) ∧
      ∀ c ≤ N, ∃ e ∈ (Fanout.machine config N).trace Job.start (σ.moves n), e.thread = config.numWorkers ∧
        ∃ v : Core.u64.Value, e.frame = Fanout.adds c v ∧ Subtype.val v = (∑ i ∈ Finset.Ico c N, i * i : Nat) := by
  obtain ⟨k, -, ⟨d, hshuts⟩, hbefore⟩ := hfair.exists_goal (fun _ _ _ _ h _ hcan => Fanout.advances (Fanout.sum_lt hN 0) h hcan)
    (fun _ _ h _ => h.elim Fanout.Fanned.isBusy Fanout.Closes.isBusy) 0 (.inl (Fanout.fanned_machine hconfig N))
  obtain ⟨g, call, hwinding, -⟩ := hshuts.retires.winding
  have hreturns : Inevitable Job.start (Concerns 0 config.numWorkers) (fun m => m.stackOf config.numWorkers = [returned])
      ((Fanout.machine config N).run Job.start (σ.moves k)) :=
    hwinding.inevitable hshuts.retires.lawful hshuts.retires.alone hshuts.retires.alive hshuts.retires.quiet.live
  obtain ⟨n, hn, hreturned, hend, hbetween⟩ := hfair.exists_of_inevitable (fun _ _ _ _ h hgoing hcan => h.after hgoing hcan)
    hreturns k rfl hshuts
  obtain ⟨pool, hpool, hsize, hcompleted⟩ := hend.completed hreturned
  obtain ⟨calls, hcalls, hsubmits⟩ := hend.calls
  refine ⟨n, calls, pool, fun l hl => ?_, hreturned, hcalls, hsubmits, ?_, hpool, hsize, hcompleted,
    fun t ht => hend.squares hN ht, fun c hc => hend.sums hN hc⟩
  · rcases Nat.lt_or_ge l k with hlt | hge
    · exact Fanout.stackOf_ne_returned (hbefore l (Nat.zero_le l) hlt)
    · exact hbetween l hge hl
  · rw [← Fanout.sum_zero]
    exact hend.notes

set_option maxRecDepth 8000 in
/-- The worker and the program come to their ends when they take turns. -/
theorem fair_fanout_narrow : Fair Job.start (Fanout.machine narrow 2) (turns 2) := by
  have hsize : (Fanout.machine narrow 2).threads.size = 2 := by
    rw [Fanout.machine, threads_begun startError?_narrow]
    rfl
  refine fair_turns_of_ended 200 hsize Nat.zero_lt_two ?_
  rw [Fanout.machine, begun_eq startError?_narrow]
  decide +kernel

theorem fanned_narrow :
    narrow.startError? = none ∧ 2 ≤ Command.Flag.maxTasks ∧ Fair Job.start (Fanout.machine narrow 2) (turns 2) ∧
    ∃ n calls pool,
      (∀ l < n, ((Fanout.machine narrow 2).run Job.start ((turns 2).moves l)).stackOf 1 ≠ [returned]) ∧
      ((Fanout.machine narrow 2).run Job.start ((turns 2).moves n)).stackOf 1 = [returned] ∧
      ((Fanout.machine narrow 2).trace Job.start ((turns 2).moves n)).filterMap (Taken.call? 0) = calls ++ [.idled] ∧
      Submits Square.job 2 calls ∧
      ((Fanout.machine narrow 2).run Job.start ((turns 2).moves n)).store.notes =
        [.line (toString (∑ i ∈ Finset.range 2, i * i))] ∧
      ((Fanout.machine narrow 2).run Job.start ((turns 2).moves n)).store.pools[0]? = some pool ∧ pool.tasks.size = 2 ∧
      (∀ y ∈ pool.tasks, y.state = .completed) ∧
      (∀ t < 2, ∃ v : Core.u64.Value, (((Fanout.machine narrow 2).run Job.start ((turns 2).moves n)).store.cell t).payload =
        .full ⟨Core.u64, v⟩ ∧ Subtype.val v = (t * t : Nat)) ∧
      ∀ c ≤ 2, ∃ e ∈ (Fanout.machine narrow 2).trace Job.start ((turns 2).moves n), e.thread = 1 ∧
        ∃ v : Core.u64.Value, e.frame = Fanout.adds c v ∧ Subtype.val v = (∑ i ∈ Finset.Ico c 2, i * i : Nat) :=
  ⟨startError?_narrow, by decide, fair_fanout_narrow, fanned_run startError?_narrow (by decide) fair_fanout_narrow⟩

end Machine
end Dataflow
