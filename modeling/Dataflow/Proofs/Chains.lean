import Dataflow.Proofs.Chained
import Dataflow.Proofs.Retiring

/-!
# Chains of any depth

Under every fair schedule a chain of links comes to its end (`Machine.chained_run`): each link is accepted, at the
second time if the pool refuses it at the first, the number of the links is said, and when the pool is shut down all
links have ended.
-/

namespace Dataflow

namespace Chain

open Machine

variable {m : Machine Datum Job} {tr : List (Taken Datum Job)} {N D i choice : Nat} {worker : Option (PoolId × Nat)}
  {f : Frame Datum Job} {rest : List (Frame Datum Job)}

/-- What the program does when the shutdown call returns. -/
def returned : Frame Datum Job := frame (.done (.ok ()))

/-- The program is in the middle of the shutdown call that stopped the pool `d`. -/
structure Shuts (N D : Nat) (d : Pool Datum Job) (m : Machine Datum Job) (tr : List (Taken Datum Job)) : Prop where
  lawful : m.Lawful
  alive : m.store.aborted = false
  alone : m.Alone 0 D
  others : ∀ (j : Nat) (th : Thread Datum Job), m.threads[j]? = some th → j ≠ D → ∃ w, th.worker = some (0, w)
  winding : ∃ g call, m.Winding 0 D [returned] d g call ∧ g.left = [] ∧ ∀ f ∈ call, f.Winds
  quiet : d.Quiet
  size : d.tasks.size = N
  ended : ∀ y ∈ d.tasks, y.state = .completed
  notes : m.store.notes = [.line (toString N)]
  calls : ∃ calls, tr.filterMap (Taken.call? 0) = calls ++ [.idled] ∧ LinkCalls N calls

/-- The program stops the workers. -/
theorem Closes.after_own (h : Closes N D m tr) : ∃ d,
    Shuts N D d (m.after Job.start (.step D choice)) (tr ++ (m.taken (.step D choice)).toList) := by
  obtain ⟨d, hd, -, hquiet⟩ := h.drained.pool
  have hsize : d.tasks.size = N := by
    obtain ⟨q, hcharge⟩ := h.made.made
    exact congrArg Prod.snd (Option.some.inj ((Store.charge_of_pool hd).symm.trans hcharge))
  have hended : ∀ y ∈ d.tasks, y.state = .completed := Store.completed_of_task? hd fun t ht => h.ended t (hsize ▸ ht)
  obtain ⟨hretires, hkeeps⟩ := Retires.of_close Job.start choice h.base.crew h.drained h.thread hd
    (hquiet.registry_eq_nil hended)
  have hcalls : (tr ++ (m.taken (.step D choice)).toList).filterMap (Taken.call? 0) = tr.filterMap (Taken.call? 0) := by
    rw [filterMap_taken, hkeeps.call]
    exact List.append_nil _
  exact ⟨d, hretires.lawful, hretires.alive, hretires.alone, hretires.others, hretires.winding, hquiet, hsize, hended,
    hkeeps.notes.trans h.made.notes, hcalls ▸ h.calls⟩

namespace Shuts

variable {d : Pool Datum Job}

theorem retires (h : Shuts N D d m tr) : m.Retires D [returned] d :=
  ⟨h.lawful, h.alive, h.alone, h.others, h.winding, h.quiet⟩

/-- Only the workers and the program itself go on, and the shutdown call with them. -/
theorem after (h : Shuts N D d m tr) (hgoing : m.stackOf D ≠ [returned]) (hcan : m.canStep i choice = true) :
    Concerns 0 D m i ∧ m.IsUrged i ∧
      Shuts N D d (m.after Job.start (.step i choice)) (tr ++ (m.taken (.step i choice)).toList) := by
  obtain ⟨hconcerns, hurged, hretires, hkeeps⟩ := h.retires.after Job.start hgoing hcan
  have hcalls : (tr ++ (m.taken (.step i choice)).toList).filterMap (Taken.call? 0) = tr.filterMap (Taken.call? 0) := by
    rw [filterMap_taken, hkeeps.call]
    exact List.append_nil _
  exact ⟨hconcerns, hurged, hretires.lawful, hretires.alive, hretires.alone, hretires.others, hretires.winding, h.quiet,
    h.size, h.ended, hkeeps.notes.trans h.notes, hcalls ▸ h.calls⟩

/-- When it returns, all tasks have completed. -/
theorem completed (h : Shuts N D d m tr) (hreturned : m.stackOf D = [returned]) :
    ∃ pool, m.store.pools[0]? = some pool ∧ pool.tasks.size = N ∧ ∀ y ∈ pool.tasks, y.state = .completed := by
  rw [← h.size]
  exact h.retires.completed h.ended hreturned

end Shuts

/-- A pool, and the program that makes a chain of so many links on it. -/
def machine (config : PoolConfig) (N : Nat) : Machine Datum Job :=
  ({} : Machine Datum Job).run Job.start [.startPool config, .enter (Graph.chain 0 N)]

section start

variable {config : PoolConfig} (hconfig : config.startError? = none)

include hconfig

theorem machine_eq (N : Nat) : machine config N = (({} : Machine Datum Job).addPool config).spawnThread [frame (Graph.chain 0 N)] :=
  begun_eq hconfig

/-- The workers of the pool, and the program after them. -/
theorem threads_machine (N : Nat) : (machine config N).threads =
    (workers 0 config.numWorkers).toArray.push { stack := [frame (Graph.chain 0 N)] } :=
  threads_begun hconfig

theorem linked_machine (N : Nat) : (machine config N).Linked := by
  have hcrew : (machine config N).Crew config.numWorkers := crew_begun hconfig
  have hcell : ∀ c, (machine config N).store.cell c = {} := cell_begun hconfig
  have hnone : ∀ t, (machine config N).store.task? 0 t = none := task?_begun hconfig
  have hempty : ∀ c, ¬ (machine config N).store.Full c := fun c hfull => by
    rw [Store.Full, hcell] at hfull
    cases hfull
  constructor
  case lawful => exact hcrew.lawful
  case alive => exact hcrew.alive
  case running => exact hcrew.running
  case frames =>
    intro i th hi f hf
    rcases thread_begun hconfig hi with ⟨-, rfl⟩ | ⟨-, rfl⟩
    · rw [List.mem_singleton.1 hf]
      exact .inl trivial
    · exact .inr ⟨rfl, isOutside_frame hf⟩
  case homes => exact hcrew.homes
  case cells =>
    intro c
    rw [hcell]
    exact .inl rfl
  case wakers =>
    intro k party henters
    rw [Store.Enters, hcell] at henters
    cases henters
  case room => exact fun t y hy => by cases (hnone t).symm.trans hy
  case written => exact fun t hfull => absurd hfull (hempty _)
  case knows => exact fun t y hy => by cases (hnone t).symm.trans hy
  case heard => exact fun t y hy => by cases (hnone t).symm.trans hy
  case told => exact fun c hfull => absurd hfull (hempty _)
  case signalled =>
    have hstore : (machine config N).store = { pools := #[.new config] } := store_begun hconfig
    rw [hstore]
    exact fun c hc => by cases hc

theorem chained_machine (N : Nat) : Chained N config.numWorkers (machine config N) [] := by
  have hcrew : (machine config N).Crew config.numWorkers := crew_begun hconfig
  have hstore : (machine config N).store = { pools := #[.new config] } := store_begun hconfig
  refine ⟨⟨linked_machine hconfig N, hcrew.others, hcrew.handy⟩, [], _, program_begun hconfig,
    fun g hg => absurd hg List.not_mem_nil, .begins ⟨⟨0, ?_⟩, ?_, ?_, ?_⟩⟩
  · rw [hstore]
    rfl
  · rw [hstore]
    rfl
  · rw [hstore]
    exact fun hfull => by cases hfull
  · rw [hstore]

end start

/-- The program has not come so far that the shutdown call returns. -/
theorem Stands.ne_returned {s : Store Datum Job} {calls : List (Call Job)} {stack : List (Frame Datum Job)}
    (h : Stands N s calls stack) : stack ≠ [returned] := by
  intro hstack
  cases h with
  | @loops k d => cases d <;> simp [returned, frame, Graph.chainFrom, Core.write] at hstack
  | asks _ _ _ hf => cases hf <;> cases hstack
  | _ => cases hstack

theorem stackOf_ne_returned (h : Chained N D m tr ∨ Closes N D m tr) : m.stackOf D ≠ [returned] := by
  rcases h with h | h
  · obtain ⟨errands, tail, hD, -, hstands⟩ := h.program
    rw [stackOf_eq hD]
    intro hstack
    rcases List.append_eq_singleton_iff.1 hstack with ⟨-, htail⟩ | ⟨-, htail⟩
    · exact hstands.ne_returned htail
    · exact hstands.ne_nil htail
  · rw [stackOf_eq h.thread]
    exact fun hstack => by cases hstack

/-- Until the workers are stopped, every step leads on, or it is one of a worker that looks for tasks and finds none. -/
theorem advances (hN : N < 2 ^ 64) (h : Chained N D m tr ∨ Closes N D m tr) (hcan : m.canStep i choice = true) :
    Advances (fun m tr => Chained N D m tr ∨ Closes N D m tr) (fun m tr => ∃ d, Shuts N D d m tr) (todo N) m tr i
      (m.after Job.start (.step i choice)) (tr ++ (m.taken (.step i choice)).toList) := by
  obtain ⟨worker, f, rest, hi, hfree, -⟩ := after_of_canStep Job.start hcan
  rcases h with h | h
  · obtain ⟨errands, tail, hD, herrands, hstands⟩ := h.program
    by_cases hlink : f.OfLink m.store
    · obtain ⟨q, k, hcharge, hk⟩ := hstands.charge
      exact .inr ⟨.inl (h.after_link hi hfree hlink), h.base.todo_link hi hfree hlink hcharge hk⟩
    · -- only the program has other steps than those of links
      obtain rfl : i = D := by
        by_contra hne
        exact hlink (h.base.ofLink hi hne (List.mem_cons_self ..))
      rw [hi] at hD
      obtain ⟨rfl, hstack⟩ := Thread.mk.inj (Option.some.inj hD)
      cases errands with
      | cons g errands => exact absurd ((List.cons.inj hstack).1 ▸ herrands g (List.mem_cons_self ..)) hlink
      | nil =>
        obtain rfl : f :: rest = tail := hstack
        obtain ⟨hnext, hless⟩ := h.base.after_own hi hfree hN hstands
        exact .inr ⟨hnext, .inl hless⟩
  · by_cases hne : i = D
    · subst hne
      exact .inl h.after_own
    · have hlink := h.base.ofLink hi hne (List.mem_cons_self ..)
      obtain ⟨q, hcharge⟩ := h.made.made
      exact .inr ⟨.inr (h.after_link hi hne hfree hlink), h.base.todo_link hi hfree hlink hcharge (Nat.le_refl N)⟩

end Chain

namespace Machine

open Chain (returned)

/-- Under every fair schedule a chain of `N` links comes to its end: each link is accepted, at the second time if the
pool refuses it at the first, and when the shutdown call returns the number of the links has been said and all tasks
have completed. -/
theorem chained_run {config : PoolConfig} (hconfig : config.startError? = none) {N : Nat} (hN : N < 2 ^ 64) {σ : Schedule}
    (hfair : Fair Job.start (Chain.machine config N) σ) :
    ∃ n calls pool,
      (∀ l < n, ((Chain.machine config N).run Job.start (σ.moves l)).stackOf config.numWorkers ≠ [returned]) ∧
      ((Chain.machine config N).run Job.start (σ.moves n)).stackOf config.numWorkers = [returned] ∧
      ((Chain.machine config N).trace Job.start (σ.moves n)).filterMap (Taken.call? 0) = calls ++ [.idled] ∧
      LinkCalls N calls ∧
      ((Chain.machine config N).run Job.start (σ.moves n)).store.notes = [.line (toString N)] ∧
      ((Chain.machine config N).run Job.start (σ.moves n)).store.pools[0]? = some pool ∧ pool.tasks.size = N ∧
      ∀ y ∈ pool.tasks, y.state = .completed := by
  obtain ⟨k, -, ⟨d, hshuts⟩, hbefore⟩ := hfair.exists_goal (fun _ _ _ _ h _ hcan => Chain.advances hN h hcan)
    (fun _ _ h _ => h.elim Chain.Chained.isBusy Chain.Closes.isBusy) 0 (.inl (Chain.chained_machine hconfig N))
  obtain ⟨g, call, hwinding, -⟩ := hshuts.winding
  have hreturns : Inevitable Job.start (Concerns 0 config.numWorkers) (fun m => m.stackOf config.numWorkers = [returned])
      ((Chain.machine config N).run Job.start (σ.moves k)) := hwinding.inevitable hshuts.lawful hshuts.alone hshuts.alive hshuts.quiet.live
  obtain ⟨n, hn, hreturned, hend, hbetween⟩ := hfair.exists_of_inevitable (fun _ _ _ _ h hgoing hcan => h.after hgoing hcan)
    hreturns k rfl hshuts
  obtain ⟨pool, hpool, hsize, hcompleted⟩ := hend.completed hreturned
  obtain ⟨calls, hcalls, hlinks⟩ := hend.calls
  refine ⟨n, calls, pool, fun l hl => ?_, hreturned, hcalls, hlinks, hend.notes, hpool, hsize, hcompleted⟩
  rcases Nat.lt_or_ge l k with hlt | hge
  · exact Chain.stackOf_ne_returned (hbefore l (Nat.zero_le l) hlt)
  · exact hbetween l hge hl

/-- One worker, and room for one task that is not begun. -/
def narrow : PoolConfig := { numWorkers := 1, maxQueueSize := 1 }

theorem startError?_narrow : narrow.startError? = none := by cbv

set_option maxRecDepth 8000 in
/-- The worker and the program come to their ends when they take turns. -/
theorem ended_narrow :
    (∀ th ∈ ((Chain.machine narrow 2).run Job.start ((turns 2).moves 200)).threads.toList, th.stack.isEmpty = true) ∧
    ∀ pool ∈ ((Chain.machine narrow 2).run Job.start ((turns 2).moves 200)).store.pools.toList,
      ∀ y ∈ pool.tasks.toList, y.state ≠ .queued := by
  rw [Chain.machine_eq startError?_narrow]
  decide +kernel

theorem fair_narrow : Fair Job.start (Chain.machine narrow 2) (turns 2) := by
  have hsize : (Chain.machine narrow 2).threads.size = 2 := by
    rw [Chain.threads_machine startError?_narrow]
    rfl
  exact fair_turns_of_ended 200 hsize Nat.zero_lt_two ended_narrow

theorem chained_narrow :
    narrow.startError? = none ∧ 2 < 2 ^ 64 ∧ Fair Job.start (Chain.machine narrow 2) (turns 2) ∧
    ∃ n calls pool,
      (∀ l < n, ((Chain.machine narrow 2).run Job.start ((turns 2).moves l)).stackOf 1 ≠ [returned]) ∧
      ((Chain.machine narrow 2).run Job.start ((turns 2).moves n)).stackOf 1 = [returned] ∧
      ((Chain.machine narrow 2).trace Job.start ((turns 2).moves n)).filterMap (Taken.call? 0) = calls ++ [.idled] ∧
      LinkCalls 2 calls ∧
      ((Chain.machine narrow 2).run Job.start ((turns 2).moves n)).store.notes = [.line (toString 2)] ∧
      ((Chain.machine narrow 2).run Job.start ((turns 2).moves n)).store.pools[0]? = some pool ∧ pool.tasks.size = 2 ∧
      ∀ y ∈ pool.tasks, y.state = .completed :=
  ⟨startError?_narrow, by decide, fair_narrow, chained_run startError?_narrow (by decide) fair_narrow⟩

end Machine
end Dataflow
