import Dataflow.Proofs.Counters
import Dataflow.Proofs.Drained

/-!
# What the counter of active tasks tells

A thread that waits for a pool looks at one counter, which others change before or after they touch the queues and the
states of the tasks. In between the counter may be too high, but it is never too low: a task that is in a ready queue,
in a stolen batch or in the hands of a worker has been counted (`Machine.occupancy_run`), and so has one that a call is
about to put into a queue, unless the very next thing the call does is to count it (`Frame.late`).

What a stack has still to count down makes the counter too high, and a task that is late makes it too low by one. The
late tasks are active as their states tell, and they are others than those that were counted.
-/

namespace Dataflow

variable {V J : Type}

namespace Frame

/-- The tasks that the call on top of a stack hands back to the pool, or puts into a queue, and has not counted. -/
def late (p : PoolId) : List (Frame V J) → Multiset TaskId
  | .reschedule q t :: _ => if q = p then {t} else 0
  | .count q .activeUp :: below => if q = p then (below.map (rising p)).sum else 0
  | _ => 0

variable {p : PoolId} {s : Store V J} {stack : List (Frame V J)}

theorem late_le (p : PoolId) (stack : List (Frame V J)) : late p stack ≤ (stack.map (rising p)).sum := by
  unfold late
  split
  · rw [List.map_cons, List.sum_cons]
    exact Multiset.le_add_right ..
  · split
    · rw [List.map_cons, List.sum_cons]
      exact Multiset.le_add_left ..
    · exact Multiset.zero_le _
  · exact Multiset.zero_le _

theorem sum_rising_of_not_books {later : List (Frame V J)} (h : ∀ f ∈ later, ¬ f.Books p) :
    (later.map (rising p)).sum = 0 := by
  refine List.sum_eq_zero fun T hT => ?_
  obtain ⟨f, hf, rfl⟩ := List.mem_map.1 hT
  exact rising_of_not_books (h f hf)

/-- Only a call that is late makes the counter too low. -/
theorem BooksFirst.due_active_nonneg (h : BooksFirst p s stack) :
    0 ≤ dues p .active stack + Multiset.card (late p stack) := by
  obtain ⟨now, later, rfl, hnow, hlater⟩ := h
  have hdues : dues p .active (now ++ later) = dues p .active now := by
    have hzero := dues_of_not_books (a := .active) hlater
    simp only [dues] at hzero ⊢
    rw [List.map_append, List.sum_append, hzero, add_zero]
  have hrising := sum_rising_of_not_books hlater
  have enough : 0 ≤ dues p .active now →
      0 ≤ dues p .active now + Multiset.card (late p (now ++ later)) := fun hnonneg => by omega
  rw [hdues]
  -- one call at most is booking, and it owes the counter at most one: what its topmost frame is to count up
  cases hnow with
  | reserved | ended => exact enough (by simp [due, TaskPhase.due])
  | woken t => simp [due, late]
  | made t h =>
    simp only [List.suffix_cons_iff, List.suffix_nil] at h
    rcases h with rfl | rfl | rfl | rfl | rfl | rfl
    · simp [due, Count.due, TaskPhase.due, late, rising, hrising]
    all_goals exact enough (by simp [due, Count.due, TaskPhase.due])
  | resumed t h =>
    simp only [List.suffix_cons_iff, List.suffix_nil] at h
    rcases h with rfl | rfl | rfl | rfl
    · simp [due, Count.due, TaskPhase.due, late, rising, hrising]
    all_goals exact enough (by simp [due, Count.due, TaskPhase.due])
  | parked hp h =>
    simp only [List.suffix_cons_iff, List.suffix_nil] at h
    rcases h with rfl | rfl | rfl <;> exact enough (by simp [due, Count.due])
  | finished t ht h =>
    simp only [List.suffix_cons_iff, List.suffix_nil] at h
    rcases h with rfl | rfl | rfl | rfl <;> exact enough (by simp [due, Count.due, TaskPhase.due])

end Frame

namespace Machine

variable {start : J → Except RuntimeError (Body V J)} {m : Machine V J} {p : PoolId} {t : TaskId} {pool : Pool V J}

/-- The tasks that calls are about to count. -/
def late (m : Machine V J) (p : PoolId) : Multiset TaskId := (m.threads.toList.map fun th => Frame.late p th.stack).sum

/-- The task is in a ready queue, in a stolen batch or in the hands of a worker, or in a call that has counted it. -/
def Placed (m : Machine V J) (p : PoolId) (t : TaskId) : Prop := ∃ site ∈ m.sites p t, site = .call → t ∉ m.late p

theorem late_le_rising (m : Machine V J) (p : PoolId) : m.late p ≤ m.rising p :=
  List.sum_le_sum fun _ _ => Frame.late_le ..

theorem late_nodup (h : m.Scheduled) (p : PoolId) : (m.late p).Nodup :=
  Multiset.nodup_of_le (m.late_le_rising p) (h.rising_nodup p)

/-- A task that is late is in a call. -/
theorem call_mem_sites (ht : t ∈ m.late p) : .call ∈ m.sites p t := by
  obtain ⟨th, hth, f, hf, hrising⟩ := mem_frameSum.1 (Multiset.mem_of_le (m.late_le_rising p) ht)
  refine List.mem_append_right _ (List.mem_flatMap.2 ⟨th, hth, List.mem_flatMap.2 ⟨f, hf, ?_⟩⟩)
  rcases Frame.mem_rising_iff.1 hrising with rfl | rfl <;> simp [Frame.sites]

namespace Scheduled

/-- A task that is placed is not late: it is in one place only. -/
theorem not_mem_late (h : m.Scheduled) (ht : m.Placed p t) : t ∉ m.late p := by
  obtain ⟨site, hsite, hcall⟩ := ht
  intro hlate
  -- the place and the call would be two places of one task
  have hone : (m.sites p t).length ≤ 1 := by
    rw [length_sites]
    exact (h.sound p t).once
  obtain ⟨only, honly⟩ := List.length_eq_one_iff.1 (Nat.le_antisymm hone (List.length_pos_of_mem hsite))
  have hthere := call_mem_sites hlate
  rw [honly, List.mem_singleton] at hsite hthere
  exact hcall (hsite.trans hthere.symm) hlate

/-- A task that is met somewhere is active. -/
theorem isActive_of_mem_sites (h : m.Scheduled) (hp : ¬ m.store.Closed p) (hpool : m.store.pools[p]? = some pool)
    {site : Site} (hsite : site ∈ m.sites p t) : ∃ y, pool.tasks[t]? = some y ∧ y.state.isActive = true := by
  have hpos : 0 < Multiset.card (m.holds p t) := by
    rw [← length_sites]
    exact List.length_pos_of_mem hsite
  have hexact := h.exact p t (Store.running_of_not_closed hp hpool)
  cases hy : m.store.task? p t with
  | none =>
    rw [(h.sound p t).made hy] at hpos
    cases hpos
  | some y =>
    rw [hy] at hexact
    refine ⟨y, ?_, ?_⟩
    · rw [Store.task?_eq, hpool] at hy
      exact hy
    · rcases hexact with ⟨hzero, -⟩ | ⟨k, -, hfits⟩
      · rw [hzero] at hpos
        cases hpos
      · rcases hfits.state with hstate | hstate | hstate <;> rw [hstate] <;> rfl

end Scheduled

section counter

variable (h : m.Lawful) (halive : m.store.aborted = false) (hp : ¬ m.store.Closed p)
  (hpool : m.store.pools[p]? = some pool)

include h halive hp hpool

/-- What is missing in the counter is late. -/
theorem countP_active_le_add_late :
    (pool.tasks.toList.countP fun y => y.state.isActive) ≤ pool.active + Multiset.card (m.late p) := by
  have hlate : (Multiset.card (m.late p) : ℤ) =
      (m.threads.toList.map fun th => (Multiset.card (Frame.late p th.stack) : ℤ)).sum := by
    refine (map_list_sum ((Nat.castAddMonoidHom ℤ).comp Multiset.cardHom) _).trans ?_
    rw [List.map_map]
    rfl
  have hdues : (m.frameSum fun _ f => f.due p .active) =
      (m.threads.toList.map fun th => Frame.dues p .active th.stack).sum := rfl
  have hsum : 0 ≤ (m.threads.toList.map fun th => Frame.dues p .active th.stack +
      (Multiset.card (Frame.late p th.stack) : ℤ)).sum := by
    refine List.sum_nonneg fun c hc => ?_
    obtain ⟨th, hth, rfl⟩ := List.mem_map.1 hc
    obtain ⟨i, hi⟩ := List.mem_iff_getElem?.1 hth
    exact (h.booked p hp i th (by rw [← Array.getElem?_toList, hi])).due_active_nonneg
  rw [List.sum_map_add, ← hdues, ← hlate] at hsum
  have hbalance := h.balanced.balance_eq halive hp hpool .active
  rw [Pool.shares_active] at hbalance
  simp only [Pool.balance] at hbalance
  omega

/-- The counter is at least the number of tasks that are placed. -/
theorem card_le_active (R : Finset TaskId) (hR : ∀ t ∈ R, m.Placed p t) : R.card ≤ pool.active := by
  have hnodup : (R.val + m.late p).Nodup := by
    refine Multiset.nodup_add.2 ⟨R.nodup, late_nodup h.scheduled p, ?_⟩
    exact Multiset.disjoint_left.2 fun ht => h.scheduled.not_mem_late (hR _ ht)
  have hactive : ∀ t ∈ R.val + m.late p, ∃ y, pool.tasks.toList[t]? = some y ∧ y.state.isActive = true := by
    intro t ht
    rw [Array.getElem?_toList]
    rcases Multiset.mem_add.1 ht with ht | ht
    · obtain ⟨site, hsite, -⟩ := hR t ht
      exact h.scheduled.isActive_of_mem_sites hp hpool hsite
    · exact h.scheduled.isActive_of_mem_sites hp hpool (call_mem_sites ht)
  have hcard := card_le_countP hnodup hactive
  rw [Multiset.card_add, Finset.card_val] at hcard
  have hcounter := countP_active_le_add_late h halive hp hpool
  omega

theorem not_placed_of_inactive (hactive : pool.active = 0) (t : TaskId) : ¬ m.Placed p t := by
  intro ht
  have hcard := card_le_active h halive hp hpool {t} fun u hu => by rwa [Finset.mem_singleton.1 hu]
  rw [Finset.card_singleton] at hcard
  omega

end counter

end Machine

/-- What the counters of a running pool tell at any moment of a run, whoever is in the middle of whatever. -/
structure Occupancy (p : PoolId) (pool : Pool V J) (m : Machine V J) : Prop where
  /-- A task that is placed is queued or being polled. -/
  states : ∀ t, m.Placed p t → ∃ y, pool.tasks[t]? = some y ∧
    (y.state = .queued ∨ y.state = .running ∨ y.state = .notified)
  /-- Of those there are at most as many as are counted as active. -/
  covered : ∀ R : Finset TaskId, (∀ t ∈ R, m.Placed p t) → R.card ≤ pool.active
  /-- Whoever waits for the pool goes on only when there is none. -/
  idle : ∀ i choice worker rest, m.threads[i]? = some ⟨worker, .waitIdle p :: rest⟩ → m.canStep i choice = true →
    ∀ t, ¬ m.Placed p t
  /-- If none is counted, no worker of the pool is late with one. -/
  attended : pool.active = 0 → ∀ th ∈ m.threads.toList, ∀ w, th.worker = some (p, w) → Frame.late p th.stack = 0
  /-- No counter is counted down below zero. -/
  activeDown : ∀ mv e, m.taken mv = some e → e.frame = .count p .activeDown → 0 < pool.active
  liveDown : ∀ mv e n, m.taken mv = some e → e.frame = .count p (.liveDown n) → n ≤ pool.live
  queuedDown : ∀ mv e t y, m.taken mv = some e → e.frame = .task p t .enter → pool.tasks[t]? = some y →
    y.stage.isUnclaimed = true → 0 < pool.queued

namespace Machine

variable {start : J → Except RuntimeError (Body V J)}

/-- After any run, the counters of a running pool cover what the pool has to do. -/
theorem occupancy_run (mvs : List (Move V J)) {p : PoolId} {pool : Pool V J}
    (hpool : (({} : Machine V J).run start mvs).store.pools[p]? = some pool) (hrunning : pool.running = true)
    (halive : (({} : Machine V J).run start mvs).store.aborted = false) :
    Occupancy p pool (({} : Machine V J).run start mvs) := by
  have h := lawful_run start mvs
  generalize ({} : Machine V J).run start mvs = m at *
  have hp : ¬ m.store.Closed p := fun hc => hc.not_running ⟨pool, hpool, hrunning⟩
  have hcovered : ∀ {mv e}, m.taken mv = some e → e.frame.Covered e.worker p m.store := by
    intro mv e htaken
    obtain ⟨rest, hi⟩ := thread_of_taken htaken
    exact Balanced.covered h.scheduled h.booked h.balanced halive hp hi
  constructor
  case states =>
    rintro t ⟨site, hsite, -⟩
    obtain ⟨y, hy, hactive⟩ := h.scheduled.isActive_of_mem_sites hp hpool hsite
    rw [TaskState.isActive_eq, decide_eq_true_iff] at hactive
    exact ⟨y, hy, hactive⟩
  case covered => exact card_le_active h halive hp hpool
  case idle =>
    intro i choice worker rest hi hcan
    obtain ⟨-, worker', f, rest', hi', hfree⟩ := canStep_iff.1 hcan
    rw [hi] at hi'
    cases hi'
    refine not_placed_of_inactive h halive hp hpool ?_
    simpa [Frame.isBlocked, hpool] using hfree
  case attended =>
    intro hactive th hth w hworker
    obtain ⟨i, hi⟩ := List.mem_iff_getElem?.1 hth
    rw [Array.getElem?_toList] at hi
    have hnone : (th.stack.map (Frame.rising p)).sum = 0 := Frame.sum_rising_of_not_books fun f hf =>
      h.not_books_of_worker halive hp hpool hactive hi hworker hf
    exact Multiset.le_zero.1 (hnone ▸ Frame.late_le p th.stack)
  case activeDown =>
    intro mv e htaken hframe
    obtain ⟨pool', hpool', hdown, -⟩ := (hcovered htaken).counts _ hframe
    rw [hpool] at hpool'
    cases hpool'
    exact hdown rfl
  case liveDown =>
    intro mv e n htaken hframe
    obtain ⟨pool', hpool', -, hdown⟩ := (hcovered htaken).counts _ hframe
    rw [hpool] at hpool'
    cases hpool'
    exact hdown n rfl
  case queuedDown =>
    intro mv e t y htaken hframe hy hstage
    have htask : m.store.task? p t = some y := by
      rw [Store.task?_eq, hpool]
      exact hy
    exact (hcovered htaken).claims t y hframe htask hstage pool hpool

/-- A worker parks a task, and before it counts it down someone puts the value that the task waits for, and another
worker goes on with it. -/
def overtakingMoves : List (Move Nat Bool) :=
  .startPool { numWorkers := 2 } :: .enter (.newCell fun c => .spawn (some 0) true fun _ => .put c 7 fun _ =>
      .done (.ok ())) ::
    (List.replicate 10 (.step 2 0) ++ List.replicate 10 (.step 0 0) ++ List.replicate 9 (.step 2 0) ++
      List.replicate 6 (.step 1 0))

set_option maxRecDepth 8000 in
theorem occupancy_overtaking : ∃ pool, (({} : Machine Nat Bool).run waitOrEnd overtakingMoves).store.pools[0]? = some pool ∧
    pool.running = true ∧ (({} : Machine Nat Bool).run waitOrEnd overtakingMoves).store.aborted = false ∧
    pool.active = 2 ∧ (({} : Machine Nat Bool).run waitOrEnd overtakingMoves).Placed 0 0 ∧
    (({} : Machine Nat Bool).run waitOrEnd overtakingMoves).threads[0]? =
      some ⟨some (0, 0), [.count 0 .activeDown, .work .loop]⟩ ∧
    Occupancy 0 pool (({} : Machine Nat Bool).run waitOrEnd overtakingMoves) := by
  have hstart : ({ numWorkers := 2 } : PoolConfig).startError? = none := by cbv
  have hsites : (({} : Machine Nat Bool).run waitOrEnd overtakingMoves).sites 0 0 = [.hand (some (0, 1))] := by
    rw [overtakingMoves, run_startPool hstart]
    rfl
  have hpool : ∃ pool, (({} : Machine Nat Bool).run waitOrEnd overtakingMoves).store.pools[0]? = some pool ∧
      pool.running = true ∧ (({} : Machine Nat Bool).run waitOrEnd overtakingMoves).store.aborted = false ∧
      pool.active = 2 ∧ (({} : Machine Nat Bool).run waitOrEnd overtakingMoves).threads[0]? =
        some ⟨some (0, 0), [.count 0 .activeDown, .work .loop]⟩ := by
    rw [overtakingMoves, run_startPool hstart]
    exact ⟨_, rfl, rfl, rfl, rfl, rfl⟩
  obtain ⟨pool, hpool, hrunning, halive, hactive, hparker⟩ := hpool
  have hplaced : (({} : Machine Nat Bool).run waitOrEnd overtakingMoves).Placed 0 0 :=
    ⟨.hand (some (0, 1)), by rw [hsites]; exact List.mem_singleton_self _, by simp⟩
  exact ⟨pool, hpool, hrunning, halive, hactive, hplaced, hparker, occupancy_run overtakingMoves hpool hrunning halive⟩

end Machine
end Dataflow
