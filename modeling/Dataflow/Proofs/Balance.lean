import Dataflow.Proofs.Accounts

/-!
# The balance of a pool

In every machine that can be reached, what a pool that is not closed has counted, less what its tasks say, is what
its frames have still to book (`Machine.Balanced`). No counter is ever counted down below zero: whoever counts up only
later holds a task that counts already (`Machine.Scheduled.card_rising_le`).
-/

namespace Dataflow

variable {V J : Type}

section list

variable {α : Type}

theorem length_filter_range (P : α → Bool) (xs : List α) :
    ((List.range xs.length).filter fun t => (xs[t]?.map P).getD false).length = xs.countP P := by
  induction xs using List.reverseRecOn with
  | nil => rfl
  | append_singleton xs x ih =>
    have hsame : (List.range xs.length).filter (fun t => ((xs ++ [x])[t]?.map P).getD false) =
        (List.range xs.length).filter fun t => (xs[t]?.map P).getD false :=
      List.filter_congr fun t ht => by rw [List.getElem?_append_left (List.mem_range.1 ht)]
    rw [List.length_append, List.length_singleton, List.range_succ, List.filter_append, List.length_append, hsame, ih,
      List.countP_append]
    cases hP : P x <;> simp [hP]

/-- Of the entries that are so there are at least as many as one can name. -/
theorem card_le_countP {P : α → Bool} {xs : List α} {R : Multiset Nat} (hR : R.Nodup)
    (h : ∀ t ∈ R, ∃ y, xs[t]? = some y ∧ P y = true) :
    Multiset.card R ≤ xs.countP P := by
  rw [← length_filter_range, ← Multiset.coe_card]
  refine Multiset.card_le_card ((Multiset.le_iff_subset hR).2 fun t ht => ?_)
  obtain ⟨y, hy, hP⟩ := h t ht
  simp only [Multiset.mem_coe, List.mem_filter, List.mem_range]
  exact ⟨(List.getElem?_eq_some_iff.1 hy).1, by simp [hy, hP]⟩

theorem sum_mapIdx_eq_countP (P : α → Bool) (xs : List α) {g : Nat → α → ℤ} (hg : ∀ t y, g t y = if P y then 1 else 0) :
    (xs.mapIdx g).sum = xs.countP P := by
  induction xs generalizing g with
  | nil => rfl
  | cons x xs ih =>
    rw [List.mapIdx_cons, List.sum_cons, ih fun t y => hg (t + 1) y, hg, List.countP_cons]
    split <;> simp [add_comm]

theorem sum_mapIdx_eq_getD (g : α → ℤ) (xs : List α) (t : Nat) :
    (xs.mapIdx fun u y => if u = t then g y else 0).sum = (xs[t]?.map g).getD 0 := by
  induction xs generalizing t with
  | nil => rfl
  | cons x xs ih =>
    rw [List.mapIdx_cons, List.sum_cons]
    cases t with
    | zero =>
      have hrest := sum_mapIdx_eq_countP (fun _ => false) xs (g := fun _ _ => 0) fun _ _ => rfl
      simpa using hrest
    | succ t => simpa using ih t

end list

namespace Pool

variable (pool : Pool V J)

theorem shares_queued : pool.shares .queued = pool.tasks.toList.countP fun y => y.stage.isUnclaimed :=
  sum_mapIdx_eq_countP _ _ fun _ _ => rfl

theorem shares_active : pool.shares .active = pool.tasks.toList.countP fun y => y.state.isActive :=
  sum_mapIdx_eq_countP _ _ fun _ _ => rfl

theorem shares_live : pool.shares .live = pool.tasks.toList.countP fun y => !y.state.isTerminal :=
  sum_mapIdx_eq_countP _ _ fun _ y => by cases h : y.state.isTerminal <;> simp [Task.share, h]

theorem shares_spawned : pool.shares .spawned = pool.tasks.size := by
  refine (sum_mapIdx_eq_countP (fun _ => true) _ fun _ _ => rfl).trans ?_
  simp

theorem shares_completed : pool.shares .completed = pool.tasks.toList.countP fun y => y.state = .completed :=
  sum_mapIdx_eq_countP _ _ fun _ y => by by_cases h : y.state = .completed <;> simp [Task.share, h]

theorem shares_failed : pool.shares .failed = pool.tasks.toList.countP fun y => y.state = .failed :=
  sum_mapIdx_eq_countP _ _ fun _ y => by by_cases h : y.state = .failed <;> simp [Task.share, h]

theorem shares_parked : pool.shares .parked = pool.tasks.toList.countP fun y => y.state = .suspended :=
  sum_mapIdx_eq_countP _ _ fun _ y => by by_cases h : y.state = .suspended <;> simp [Task.share, h]

theorem shares_entry {t : TaskId} {y : Task V J} (hy : pool.tasks[t]? = some y) :
    pool.shares (.entry t) = (if y.state.isTerminal then 0 else 1) - (if y.registered then 1 else 0) := by
  have hsum := sum_mapIdx_eq_getD (fun y : Task V J =>
    (if y.state.isTerminal then 0 else 1) - (if y.registered then 1 else 0)) pool.tasks.toList t
  rw [Array.getElem?_toList, hy] at hsum
  exact hsum

theorem countP_active_le : (pool.tasks.toList.countP fun y => y.state.isActive) ≤
    pool.tasks.toList.countP fun y => !y.state.isTerminal :=
  List.countP_mono_left fun y _ h => by cases hy : y.state <;> simp_all [TaskState.isActive, TaskState.isTerminal]

theorem mem_registry {t : TaskId} : t ∈ pool.registry ↔ ∃ y, pool.tasks[t]? = some y ∧ y.registered = true := by
  rw [registry, List.mem_filter, List.mem_range]
  cases hy : pool.tasks[t]? with
  | none => simp
  | some y =>
    have hlt : t < pool.tasks.size := (Array.getElem?_eq_some_iff.1 hy).1
    simp [hlt]

theorem registry_length : pool.registry.length = pool.tasks.toList.countP fun y => y.registered := by
  rw [← length_filter_range]
  simp [registry]

end Pool

namespace Frame

/-- The tasks that a frame hands back, or is about to put into a queue. -/
def rising (p : PoolId) : Frame V J → Multiset TaskId
  | .reschedule q t | .task q t .enqueue => if q = p then {t} else 0
  | _ => 0

/-- What a frame has to count down, and the tasks that stand for what others have to count up. -/
def cover (p : PoolId) (a : Account) (f : Frame V J) : ℤ := f.due p a + Multiset.card (f.rising p)

variable {p : PoolId} {a : Account} {s : Store V J} {f : Frame V J} {fs below : List (Frame V J)} {t : TaskId}

theorem rising_of_not_books (h : ¬ f.Books p) : f.rising p = 0 := by
  cases f with
  | reschedule q t => exact if_neg h
  | task q t phase =>
    cases phase with
    | enqueue => exact if_neg h
    | _ => rfl
  | _ => rfl

theorem mem_rising_iff : t ∈ f.rising p ↔ f = .reschedule p t ∨ f = .task p t .enqueue := by
  have hmem : ∀ {q : PoolId} {u : TaskId}, t ∈ (if q = p then {u} else 0 : Multiset TaskId) ↔ q = p ∧ u = t := by
    intro q u
    split <;> simp_all [eq_comm]
  cases f with
  | reschedule q u => simpa [rising] using hmem
  | task q u phase => cases phase <;> simp [rising, hmem]
  | _ => simp [rising]

/-- These tasks are held. -/
theorem exists_hold_of_mem_rising (h : t ∈ f.rising p) (worker : Option (PoolId × Nat)) :
    ∃ k : Hold V J, k.IsReady ∧ f.holds worker p t = {k} := by
  rcases mem_rising_iff.1 h with rfl | rfl
  · exact ⟨.rescheduling, trivial, if_pos ⟨rfl, rfl⟩⟩
  · exact ⟨.ready, trivial, if_pos ⟨rfl, rfl⟩⟩

theorem count_rising_le (worker : Option (PoolId × Nat)) (t : TaskId) :
    (f.rising p).count t ≤ Multiset.card (f.holds worker p t) := by
  by_cases ht : t ∈ f.rising p
  · obtain ⟨k, -, hk⟩ := exists_hold_of_mem_rising ht worker
    have hcard : Multiset.card (f.rising p) ≤ 1 := by
      unfold rising
      split <;> (try split) <;> simp
    rw [hk, Multiset.card_singleton]
    exact (Multiset.count_le_card ..).trans hcard
  · rw [Multiset.count_eq_zero_of_notMem ht]
    exact Nat.zero_le _

theorem cover_of_not_books (h : ¬ f.Books p) : f.cover p a = 0 := by
  rw [cover, due_of_not_books h, rising_of_not_books h]
  rfl

/-- A booking that has to count up goes on to put a task into a queue. -/
theorem Booking.cover_nonneg (h : Booking p s fs) (ha : a = .active ∨ a = .live) : 0 ≤ (fs.map (cover p a)).sum := by
  cases h with
  | reserved | woken | ended => rcases ha with rfl | rfl <;> simp [cover, due, TaskPhase.due, rising]
  | made t h =>
    simp only [List.suffix_cons_iff, List.suffix_nil] at h
    rcases h with rfl | rfl | rfl | rfl | rfl | rfl <;> rcases ha with rfl | rfl <;>
      simp [cover, due, Count.due, TaskPhase.due, rising]
  | resumed t h =>
    simp only [List.suffix_cons_iff, List.suffix_nil] at h
    rcases h with rfl | rfl | rfl | rfl <;> rcases ha with rfl | rfl <;>
      simp [cover, due, Count.due, TaskPhase.due, rising]
  | parked hp h =>
    simp only [List.suffix_cons_iff, List.suffix_nil] at h
    rcases h with rfl | rfl | rfl <;> rcases ha with rfl | rfl <;> simp [cover, due, Count.due, rising]
  | finished t ht h =>
    simp only [List.suffix_cons_iff, List.suffix_nil] at h
    rcases h with rfl | rfl | rfl | rfl <;> rcases ha with rfl | rfl <;>
      simp [cover, due, Count.due, TaskPhase.due, rising]

theorem BooksFirst.cover_nonneg (h : BooksFirst p s fs) (ha : a = .active ∨ a = .live) :
    0 ≤ (fs.map (cover p a)).sum := by
  obtain ⟨now, later, rfl, hnow, hlater⟩ := h
  have hzero : (later.map (cover p a)).sum = 0 := List.sum_eq_zero fun c hc => by
    obtain ⟨f, hf, rfl⟩ := List.mem_map.1 hc
    exact cover_of_not_books (hlater f hf)
  rw [List.map_append, List.sum_append, hzero, add_zero]
  exact hnow.cover_nonneg ha

theorem due_queued_nonneg (f : Frame V J) : 0 ≤ f.due p .queued := by
  cases f with
  | spawn q job phase next => cases phase <;> simp only [due] <;> (try split) <;> decide
  | count q change => cases change <;> simp [due, Count.due]
  | reschedule q t => simp [due]
  | task q t phase => cases phase <;> simp [due, TaskPhase.due]
  | _ => exact le_rfl

/-- The frame ends the entry of a task in the registry. -/
def EndsEntry (p : PoolId) (t : TaskId) (f : Frame V J) : Prop :=
  (∃ outcome, f = .task p t (.tally outcome)) ∨ f = .task p t .unregister

theorem due_entry (p : PoolId) (t : TaskId) (f : Frame V J) : f.due p (.entry t) = 0 ∨
    (f = .task p t .register ∧ f.due p (.entry t) = -1) ∨ (f.EndsEntry p t ∧ f.due p (.entry t) = 1) := by
  cases f with
  | spawn q job phase next => cases phase <;> simp [due]
  | count q change => cases change <;> simp [due, Count.due]
  | reschedule q u => simp [due]
  | task q u phase =>
    by_cases hq : q = p
    · by_cases hu : u = t
      · cases phase <;> simp [due, TaskPhase.due, EndsEntry, hq, hu]
      · cases phase <;> simp [due, TaskPhase.due, hq, hu]
    · simp [due, hq]
  | _ => exact .inl rfl

/-- A pool that has something booked has been started. -/
theorem Booking.hasPool (h : Booking p s (f :: fs)) (hrising : ∀ g ∈ f :: fs, ∀ t ∈ g.rising p, s.HasPool p) :
    s.HasPool p := by
  have ended : ∀ t, s.HasEnded p t → s.HasPool p := fun t ⟨y, hy, _⟩ => by
    obtain ⟨pool, hpool, -⟩ := Store.exists_pool_of_task? hy
    exact ⟨pool, hpool⟩
  cases h with
  | reserved job next hp | parked hp h => exact hp
  | woken t => exact hrising (.reschedule p t) (List.mem_cons_self ..) t (by simp [rising])
  | ended t outcome ht | finished t ht h => exact ended t ht
  | made t h =>
    refine hrising (.task p t .enqueue) ?_ t (by simp [rising])
    simp only [List.suffix_cons_iff, List.suffix_nil] at h
    rcases h with h | h | h | h | h | h <;> simp_all
  | resumed t h =>
    refine hrising (.task p t .enqueue) ?_ t (by simp [rising])
    simp only [List.suffix_cons_iff, List.suffix_nil] at h
    rcases h with h | h | h | h <;> simp_all

/-- Only the entry of a task that is finished is ended. -/
theorem BooksFirst.hasEnded (h : BooksFirst p s fs) (hf : f ∈ fs) (hend : f.EndsEntry p t) : s.HasEnded p t := by
  have hbooks : f.Books p := by
    rcases hend with ⟨outcome, rfl⟩ | rfl <;> exact rfl
  obtain ⟨now, later, rfl, hnow, hlater⟩ := h
  rcases List.mem_append.1 hf with hf | hf
  · cases hnow with
    | reserved | woken =>
      rcases hend with ⟨outcome, rfl⟩ | rfl <;> simp at hf
    | ended u outcome' ht =>
      rcases hend with ⟨outcome, rfl⟩ | rfl
      · simp at hf
        exact hf.1 ▸ ht
      · simp at hf
    | made u h | resumed u h | parked hp h =>
      have := h.subset hf
      rcases hend with ⟨outcome, rfl⟩ | rfl <;> simp at this
    | finished u ht h =>
      have := h.subset hf
      rcases hend with ⟨outcome, rfl⟩ | rfl <;> simp at this
      exact this ▸ ht
  · exact absurd hbooks (hlater f hf)

/-- A task that is about to enter the registry is about to enter a queue. -/
theorem BooksFirst.mem_enqueue (h : BooksFirst p s fs) (hf : .task p t .register ∈ fs) : .task p t .enqueue ∈ fs := by
  obtain ⟨now, later, rfl, hnow, hlater⟩ := h
  refine List.mem_append_left _ ?_
  rcases List.mem_append.1 hf with hf | hf
  · cases hnow with
    | reserved | woken | ended => simp at hf
    | made u h =>
      simp only [List.suffix_cons_iff, List.suffix_nil] at h
      rcases h with rfl | rfl | rfl | rfl | rfl | rfl <;> simp_all
    | resumed u h | parked hp h | finished u ht h =>
      have := h.subset hf
      simp at this
  · exact absurd rfl (hlater _ hf)

end Frame

namespace Machine

variable {start : J → Except RuntimeError (Body V J)} {m : Machine V J} {p : PoolId} {t : TaskId}

section frameSum

variable {M N : Type} [AddCommMonoid M] [AddCommMonoid N]

theorem map_frameSum (φ : M →+ N) (g : Option (PoolId × Nat) → Frame V J → M) (m : Machine V J) :
    φ (m.frameSum g) = m.frameSum fun worker f => φ (g worker f) := by
  simp [frameSum, map_list_sum, Function.comp_def]

theorem frameSum_add (g h : Option (PoolId × Nat) → Frame V J → M) (m : Machine V J) :
    m.frameSum (fun worker f => g worker f + h worker f) = m.frameSum g + m.frameSum h := by
  simp [frameSum, List.sum_map_add]

theorem frameSum_le {g h : Option (PoolId × Nat) → Frame V J → Nat} (hle : ∀ worker f, g worker f ≤ h worker f)
    (m : Machine V J) : m.frameSum g ≤ m.frameSum h :=
  List.sum_le_sum fun _ _ => List.sum_le_sum fun _ _ => hle _ _

/-- One thread's part of a sum, if no thread takes away from it. -/
theorem le_frameSum {g : Option (PoolId × Nat) → Frame V J → ℤ}
    (hg : ∀ (i : Nat) (th : Thread V J), m.threads[i]? = some th → 0 ≤ (th.stack.map (g th.worker)).sum)
    {i : Nat} {th : Thread V J} (hi : m.threads[i]? = some th) :
    (th.stack.map (g th.worker)).sum ≤ m.frameSum g := by
  refine List.single_le_sum (fun c hc => ?_) _ (List.mem_map.2 ⟨th, ?_, rfl⟩)
  · obtain ⟨th', hth', rfl⟩ := List.mem_map.1 hc
    obtain ⟨j, hj⟩ := List.mem_iff_getElem?.1 hth'
    exact hg j th' (by rw [← Array.getElem?_toList, hj])
  · exact List.mem_iff_getElem?.2 ⟨i, by rw [Array.getElem?_toList, hi]⟩

end frameSum

/-- The tasks of a pool that are handed back, or about to be put into a queue. -/
def rising (m : Machine V J) (p : PoolId) : Multiset TaskId := m.frameSum fun _ f => f.rising p

theorem frameSum_cover (m : Machine V J) (p : PoolId) (a : Account) :
    m.frameSum (fun _ f => f.cover p a) = (m.frameSum fun _ f => f.due p a) + Multiset.card (m.rising p) := by
  refine (frameSum_add _ _ m).trans (congrArg _ ?_)
  exact (map_frameSum ((Nat.castAddMonoidHom ℤ).comp Multiset.cardHom) _ m).symm

theorem Scheduled.rising_nodup (hm : m.Scheduled) (p : PoolId) : (m.rising p).Nodup := by
  refine Multiset.nodup_iff_count_le_one.2 fun t => ?_
  have hcount : (m.rising p).count t = m.frameSum fun _ f => (f.rising p).count t :=
    map_frameSum (Multiset.countAddMonoidHom t) _ m
  have hcard : (m.frameSum fun worker f => Multiset.card (f.holds worker p t)) =
      Multiset.card (m.frameSum fun worker f => f.holds worker p t) :=
    (map_frameSum Multiset.cardHom _ m).symm
  have hle : Multiset.card (m.frameSum fun worker f => f.holds worker p t) ≤ Multiset.card (m.holds p t) :=
    Multiset.card_le_card (Multiset.le_add_left _ _)
  rw [hcount]
  refine (frameSum_le (fun worker f => f.count_rising_le worker t) m).trans ?_
  rw [hcard]
  exact hle.trans (hm.sound p t).once

/-- What a frame of a thread holds, it holds as it should. -/
theorem Scheduled.fits (hm : m.Scheduled) (hp : ¬ m.store.Closed p) {i : Nat} {th : Thread V J}
    (hi : m.threads[i]? = some th) {f : Frame V J} (hf : f ∈ th.stack) {k : Hold V J}
    (hk : f.holds th.worker p t = {k}) : ∃ y, m.store.task? p t = some y ∧ k.Fits y := by
  have hmem : k ∈ m.frameSum fun worker f => f.holds worker p t :=
    mem_frameSum.2 ⟨th, List.mem_iff_getElem?.2 ⟨i, by rw [Array.getElem?_toList, hi]⟩, f, hf, by simp [hk]⟩
  replace hmem : k ∈ m.holds p t := Multiset.mem_add.2 (.inr hmem)
  cases hy : m.store.task? p t with
  | none => simp [(hm.sound p t).made hy] at hmem
  | some y =>
    obtain ⟨pool, hpool, -⟩ := Store.exists_pool_of_task? hy
    have hx := hm.exact p t (Store.running_of_not_closed hp hpool)
    rw [hy] at hx
    rcases hx with ⟨hT, -⟩ | ⟨k', hT, hfit⟩
    · simp [hT] at hmem
    · rw [hT, Multiset.mem_singleton] at hmem
      exact ⟨y, rfl, hmem ▸ hfit⟩

/-- A task that is about to be queued is active already. -/
theorem Scheduled.isActive_of_mem_rising (hm : m.Scheduled) {pool : Pool V J} (hpool : m.store.pools[p]? = some pool)
    (hp : ¬ m.store.Closed p) (ht : t ∈ m.rising p) :
    ∃ y, pool.tasks.toList[t]? = some y ∧ y.state.isActive = true := by
  obtain ⟨th, hth, f, hf, hmem⟩ := mem_frameSum.1 ht
  obtain ⟨i, hi⟩ := List.mem_iff_getElem?.1 hth
  rw [Array.getElem?_toList] at hi
  obtain ⟨k, hready, hk⟩ := Frame.exists_hold_of_mem_rising hmem th.worker
  obtain ⟨y, hy, hfit⟩ := hm.fits hp hi hf hk
  refine ⟨y, ?_, ?_⟩
  · rw [Store.task?_eq, hpool] at hy
    rw [Array.getElem?_toList]
    exact hy
  · cases k <;> first | exact hready.elim | rw [hfit.1]; rfl

theorem Scheduled.card_rising_le (hm : m.Scheduled) {pool : Pool V J} (hpool : m.store.pools[p]? = some pool)
    (hp : ¬ m.store.Closed p) :
    Multiset.card (m.rising p) ≤ pool.tasks.toList.countP fun y => y.state.isActive :=
  card_le_countP (hm.rising_nodup p) fun _ ht => hm.isActive_of_mem_rising hpool hp ht

/-- What the pools that are not closed have counted, less what their tasks say, is what the frames have to book. -/
def Balanced (m : Machine V J) : Prop :=
  m.store.aborted = false → ∀ p, ¬ m.store.Closed p → ∀ a, m.store.surplus p a = m.frameSum fun _ f => f.due p a

theorem Scheduled.due_le (hm : m.Scheduled) (hb : m.BooksFirst) {pool : Pool V J}
    (hpool : m.store.pools[p]? = some pool) (hp : ¬ m.store.Closed p) {i : Nat} {worker : Option (PoolId × Nat)}
    {f : Frame V J} {rest : List (Frame V J)} (hi : m.threads[i]? = some ⟨worker, f :: rest⟩) {a : Account}
    (ha : a = .active ∨ a = .live) :
    f.due p a ≤ (m.frameSum fun _ f => f.due p a) + (pool.tasks.toList.countP fun y => y.state.isActive : Nat) := by
  have hthread := le_frameSum (g := fun _ f => f.cover p a)
    (fun j th hj => (hb p hp j th hj).cover_nonneg ha) hi
  have hrest := (hb p hp i _ hi).tail.cover_nonneg ha
  have hrising := hm.card_rising_le hpool hp
  change (Frame.cover p a f :: rest.map (Frame.cover p a)).sum ≤ _ at hthread
  rw [List.sum_cons, frameSum_cover] at hthread
  have hf : f.cover p a = f.due p a + Multiset.card (f.rising p) := rfl
  omega

/-- One frame's part of a sum, if no frame takes away from it. -/
theorem le_frameSum_of_mem {g : Option (PoolId × Nat) → Frame V J → ℤ}
    (hg : ∀ (j : Nat) (th : Thread V J), m.threads[j]? = some th → ∀ f ∈ th.stack, 0 ≤ g th.worker f) {i : Nat}
    {th : Thread V J} (hi : m.threads[i]? = some th) {f : Frame V J} (hf : f ∈ th.stack) :
    g th.worker f ≤ m.frameSum g := by
  have hsum : ∀ (j : Nat) (th : Thread V J), m.threads[j]? = some th → 0 ≤ (th.stack.map (g th.worker)).sum :=
    fun j th hj => List.sum_nonneg fun c hc => by
      obtain ⟨f', hf', rfl⟩ := List.mem_map.1 hc
      exact hg j th hj f' hf'
  have hthread : g th.worker f ≤ (th.stack.map (g th.worker)).sum := by
    refine List.single_le_sum (fun c hc => ?_) _ (List.mem_map_of_mem hf)
    obtain ⟨f', hf', rfl⟩ := List.mem_map.1 hc
    exact hg i th hi f' hf'
  exact hthread.trans (le_frameSum hsum hi)

/-- A pool that has something booked has been started. -/
theorem Scheduled.hasPool (hm : m.Scheduled) (hb : m.BooksFirst) (hp : ¬ m.store.Closed p) {i : Nat}
    {worker : Option (PoolId × Nat)} {f : Frame V J} {rest : List (Frame V J)}
    (hi : m.threads[i]? = some ⟨worker, f :: rest⟩) (hf : f.Books p) : m.store.HasPool p := by
  obtain ⟨now, later, heq, hnow, hlater⟩ := hb p hp i _ hi
  cases now with
  | nil =>
    rw [List.nil_append] at heq
    exact absurd hf (hlater f (heq ▸ List.mem_cons_self ..))
  | cons f' now =>
    refine hnow.hasPool fun g hg t ht => ?_
    obtain ⟨k, -, hk⟩ := Frame.exists_hold_of_mem_rising ht worker
    have hmem : g ∈ (⟨worker, f :: rest⟩ : Thread V J).stack := heq ▸ List.mem_append_left later hg
    obtain ⟨y, hy, -⟩ := hm.fits hp hi hmem hk
    obtain ⟨pool, hpool, -⟩ := Store.exists_pool_of_task? hy
    exact ⟨pool, hpool⟩

/-- A task that is about to enter the registry is queued. -/
theorem Scheduled.queued_of_register (hm : m.Scheduled) (hb : m.BooksFirst) (hp : ¬ m.store.Closed p) {j : Nat}
    {th : Thread V J} (hj : m.threads[j]? = some th) (hf : .task p t .register ∈ th.stack) :
    ∃ y, m.store.task? p t = some y ∧ y.state = .queued := by
  obtain ⟨y, hy, hfit⟩ := hm.fits (t := t) (k := .ready) hp hj ((hb p hp j th hj).mem_enqueue hf) (by simp [Frame.holds])
  exact ⟨y, hy, hfit.1⟩

namespace Balanced

variable {pool : Pool V J}

/-- What a pool has counted is what its tasks say and what is still to be booked. -/
theorem balance_eq (h : m.Balanced) (halive : m.store.aborted = false) (hp : ¬ m.store.Closed p)
    (hpool : m.store.pools[p]? = some pool) (a : Account) :
    pool.balance a = pool.shares a + m.frameSum fun _ f => f.due p a := by
  have := h halive p hp a
  rw [Store.surplus_of_pool hpool, Pool.surplus] at this
  omega

/-- Whether a task is in the registry. -/
theorem registered_eq (h : m.Balanced) (halive : m.store.aborted = false) (hp : ¬ m.store.Closed p) {y : Task V J}
    (hy : m.store.task? p t = some y) : (if y.registered then 1 else 0) =
      (if y.state.isTerminal then 0 else 1) + m.frameSum fun _ f => f.due p (.entry t) := by
  obtain ⟨pool, hpool, hget⟩ := Store.exists_pool_of_task? hy
  have hbalance := h.balance_eq halive hp hpool (.entry t)
  rw [Pool.shares_entry pool hget] at hbalance
  simp only [Pool.balance] at hbalance
  omega

variable {i : Nat} {worker : Option (PoolId × Nat)} {f : Frame V J} {rest : List (Frame V J)}

theorem queued_pos (h : m.Balanced) (halive : m.store.aborted = false) (hp : ¬ m.store.Closed p) {y : Task V J}
    (hy : m.store.task? p t = some y) (hstage : y.stage.isUnclaimed = true) (hpool : m.store.pools[p]? = some pool)
    (hi : m.threads[i]? = some ⟨worker, f :: rest⟩) : 0 < pool.queued := by
  obtain ⟨pool', hpool', hget⟩ := Store.exists_pool_of_task? hy
  rw [hpool] at hpool'
  cases hpool'
  have hdue := le_frameSum_of_mem (g := fun _ f => f.due p .queued) (fun _ _ _ f _ => f.due_queued_nonneg) hi
    (List.mem_cons_self ..)
  have hshare : 0 < pool.tasks.toList.countP fun y => y.stage.isUnclaimed :=
    List.countP_pos_iff.2 ⟨y, List.mem_iff_getElem?.2 ⟨t, by rw [Array.getElem?_toList, hget]⟩, hstage⟩
  have hbalance := h.balance_eq halive hp hpool .queued
  rw [Pool.shares_queued] at hbalance
  have hf := f.due_queued_nonneg (p := p)
  simp only [Pool.balance] at hbalance
  omega

theorem active_pos (hm : m.Scheduled) (hb : m.BooksFirst) (h : m.Balanced) (halive : m.store.aborted = false)
    (hp : ¬ m.store.Closed p) (hpool : m.store.pools[p]? = some pool)
    (hi : m.threads[i]? = some ⟨worker, .count p .activeDown :: rest⟩) : 0 < pool.active := by
  have hdue := hm.due_le hb hpool hp hi (.inl rfl)
  rw [show (Frame.count p .activeDown : Frame V J).due p .active = 1 from if_pos rfl] at hdue
  have hbalance := h.balance_eq halive hp hpool .active
  rw [Pool.shares_active] at hbalance
  simp only [Pool.balance] at hbalance
  omega

theorem le_live (hm : m.Scheduled) (hb : m.BooksFirst) (h : m.Balanced) (halive : m.store.aborted = false)
    (hp : ¬ m.store.Closed p) (hpool : m.store.pools[p]? = some pool) {n : Nat}
    (hi : m.threads[i]? = some ⟨worker, .count p (.liveDown n) :: rest⟩) : n ≤ pool.live := by
  have hdue := hm.due_le hb hpool hp hi (.inr rfl)
  rw [show (Frame.count p (.liveDown n) : Frame V J).due p .live = n from if_pos rfl] at hdue
  have hbalance := h.balance_eq halive hp hpool .live
  rw [Pool.shares_live] at hbalance
  have hle := pool.countP_active_le
  simp only [Pool.balance] at hbalance
  omega

theorem registered_eq_false (hm : m.Scheduled) (hb : m.BooksFirst) (h : m.Balanced)
    (halive : m.store.aborted = false) (hp : ¬ m.store.Closed p)
    (hi : m.threads[i]? = some ⟨worker, .task p t .register :: rest⟩) :
    ∃ y, m.store.task? p t = some y ∧ y.registered = false := by
  obtain ⟨y, hy, hstate⟩ := hm.queued_of_register hb hp hi (List.mem_cons_self ..)
  refine ⟨y, hy, ?_⟩
  have hdue := le_frameSum_of_mem (g := fun _ f => -f.due p (.entry t)) (fun j th hj f hf => by
    rcases Frame.due_entry p t f with h | ⟨-, h⟩ | ⟨hend, -⟩
    · omega
    · omega
    · obtain ⟨z, hz, hterminal⟩ := (hb p hp j th hj).hasEnded hf hend
      rw [hy] at hz
      cases hz
      rw [hstate] at hterminal
      cases hterminal) hi (List.mem_cons_self ..)
  have hneg : (m.frameSum fun _ f => -f.due p (.entry t)) = -m.frameSum fun _ f => f.due p (.entry t) :=
    (map_frameSum (negAddMonoidHom : ℤ →+ ℤ) _ m).symm
  have hentry := h.registered_eq halive hp hy
  rw [hneg, show (Frame.task p t .register : Frame V J).due p (.entry t) = -1 by simp [Frame.due, TaskPhase.due]] at hdue
  rw [hstate] at hentry
  cases hreg : y.registered
  · rfl
  · simp [hreg, TaskState.isTerminal] at hentry
    omega

theorem registered_eq_true (hm : m.Scheduled) (hb : m.BooksFirst) (h : m.Balanced)
    (halive : m.store.aborted = false) (hp : ¬ m.store.Closed p)
    (hi : m.threads[i]? = some ⟨worker, .task p t .unregister :: rest⟩) :
    ∃ y, m.store.task? p t = some y ∧ y.registered = true := by
  obtain ⟨y, hy, hterminal⟩ := (hb p hp i _ hi).hasEnded (List.mem_cons_self ..) (.inr rfl)
  refine ⟨y, hy, ?_⟩
  have hdue := le_frameSum_of_mem (g := fun _ f => f.due p (.entry t)) (fun j th hj f hf => by
    rcases Frame.due_entry p t f with h | ⟨rfl, -⟩ | ⟨-, h⟩
    · omega
    · obtain ⟨z, hz, hstate⟩ := hm.queued_of_register hb hp hj hf
      rw [hy] at hz
      cases hz
      rw [hstate] at hterminal
      cases hterminal
    · omega) hi (List.mem_cons_self ..)
  have hentry := h.registered_eq halive hp hy
  rw [show (Frame.task p t .unregister : Frame V J).due p (.entry t) = 1 by simp [Frame.due, TaskPhase.due]] at hdue
  rw [hterminal] at hentry
  cases hreg : y.registered
  · simp [hreg] at hentry
    omega
  · rfl

/-- Whatever is counted down was counted up before. -/
theorem covered (hm : m.Scheduled) (hb : m.BooksFirst) (h : m.Balanced) (halive : m.store.aborted = false)
    (hp : ¬ m.store.Closed p) (hi : m.threads[i]? = some ⟨worker, f :: rest⟩) : f.Covered worker p m.store := by
  refine ⟨fun t k hk => hm.fits hp hi (List.mem_cons_self ..) hk, ?_, ?_, ?_, ?_, ?_, ?_⟩
  · rintro t y rfl hy hstage pool hpool
    exact h.queued_pos halive hp hy hstage hpool hi
  · rintro job next rfl
    exact hm.hasPool hb hp hi rfl
  · rintro change rfl
    obtain ⟨pool, hpool⟩ := hm.hasPool hb hp hi rfl
    refine ⟨pool, hpool, ?_, ?_⟩
    · rintro rfl
      exact active_pos hm hb h halive hp hpool hi
    · rintro n rfl
      exact le_live hm hb h halive hp hpool hi
  · rintro t outcome rfl
    exact hm.hasPool hb hp hi rfl
  · rintro t rfl
    exact registered_eq_false hm hb h halive hp hi
  · rintro t rfl
    exact registered_eq_true hm hb h halive hp hi

section settled

variable (h : m.Balanced) (halive : m.store.aborted = false) (hp : ¬ m.store.Closed p)
  (hpool : m.store.pools[p]? = some pool) (hdue : ∀ a, (m.frameSum fun _ f => f.due p a) = 0)

include h halive hp hpool hdue

/-- Where nothing is left to be booked, the accounts are what the tasks say. -/
theorem balance_eq_shares (a : Account) : pool.balance a = pool.shares a := by
  rw [h.balance_eq halive hp hpool a, hdue, add_zero]

theorem registered_eq_not_isTerminal {y : Task V J} (hy : pool.tasks[t]? = some y) :
    y.registered = !y.state.isTerminal := by
  have htask : m.store.task? p t = some y := by
    rw [Store.task?_eq, hpool]
    exact hy
  have hentry := h.registered_eq halive hp htask
  rw [hdue] at hentry
  cases hreg : y.registered <;> cases hend : y.state.isTerminal <;> simp [hreg, hend] at hentry ⊢

theorem registry_length_eq : pool.registry.length = pool.tasks.toList.countP fun y => !y.state.isTerminal := by
  rw [Pool.registry_length]
  refine List.countP_congr fun y hy => ?_
  obtain ⟨t, ht⟩ := List.mem_iff_getElem?.1 hy
  rw [h.registered_eq_not_isTerminal halive hp hpool hdue (by rwa [Array.getElem?_toList] at ht)]

end settled

end Balanced

/-- Every move keeps the accounts. -/
theorem Balanced.after (hm : m.Scheduled) (hb : m.BooksFirst) (h : m.Balanced) (mv : Move V J) :
    (m.after start mv).Balanced := by
  intro halive p hclosed a
  have hp : ¬ m.store.Closed p := fun hc => hclosed (hc.mono (m.after_keeps start mv))
  clear hclosed
  have outside : ∀ {s : Store V J} {frames : List (Frame V J)}, m.store.aborted = false → s.pools = m.store.pools →
      (∀ f ∈ frames, ¬ f.Books p) →
      (spawnThread ⟨s, m.threads⟩ frames).store.surplus p a =
        (spawnThread ⟨s, m.threads⟩ frames).frameSum fun _ f => f.due p a := by
    intro s frames halive hs hframes
    have hsum := frameSum_spawnThread (fun _ f => f.due p a) ⟨s, m.threads⟩ frames
    have hdues : (frames.map (Frame.due p a)).sum = 0 := Frame.dues_of_not_books hframes
    rw [hsum, hdues, add_zero]
    exact (Store.surplus_of_pools_eq hs).trans (h halive p hp a)
  cases mv with
  | step i choice =>
    rcases m.after_step start i choice with ⟨heq, -⟩ | ⟨worker, f, rest, hi, hbefore, -, -, heq⟩
    · rw [heq] at halive ⊢
      exact h halive p hp a
    · rw [heq] at halive ⊢
      have hbal : f.Balances p m.store (f.step start worker choice m.store).1 (f.step start worker choice m.store).2 :=
        Frame.balances_step (hm.framed.frames i _ hi f (by simp)) hp (Balanced.covered hm hb h hbefore hp hi) halive
      obtain ⟨others, h1, h2⟩ := frameSum_set (fun _ f => f.due p a) hi
      have hsurplus := h hbefore p hp a
      rw [h1] at hsurplus
      rw [h2]
      have hstep := hbal a
      change (f.step start worker choice m.store).1.surplus p a = Frame.dues p a _ + others
      omega
  | startPool config =>
    rcases m.after_startPool start config with heq | heq
    · rw [heq] at halive ⊢
      exact h halive p hp a
    · rw [heq] at halive ⊢
      have hsurplus : (m.addPool config).store.surplus p a = m.store.surplus p a := by
        unfold Store.surplus
        simp only [addPool, Array.getElem?_push]
        split
        · rename_i hnew
          rw [hnew, Array.getElem?_eq_none le_rfl]
          cases a <;> simp [Pool.surplus, Pool.balance, Pool.shares, Pool.new]
        · rfl
      rw [frameSum_addPool fun _ => rfl, hsurplus]
      exact h halive p hp a
  | enter body => exact outside halive rfl (by simp [Frame.Books])
  | poll =>
    simp only [Machine.after] at halive ⊢
    split at halive
    · exact outside halive rfl (by simp [Frame.Books])
    · exact h halive p hp a
  | discard =>
    simp only [Machine.after] at halive ⊢
    split at halive
    · exact outside halive rfl fun f hf => (Frame.isQuiet_dropPending hf).not_books
    · exact h halive p hp a

theorem balanced_run (start : J → Except RuntimeError (Body V J)) (mvs : List (Move V J)) :
    (({} : Machine V J).run start mvs).BooksFirst ∧ (({} : Machine V J).run start mvs).Balanced := by
  have hinitial : ({} : Machine V J).Balanced := by
    intro _ p _ a
    simp [Store.surplus, frameSum]
  refine (run_induction start (P := fun m => m.Scheduled ∧ m.BooksFirst ∧ m.Balanced) ?_
    ⟨.initial 0, .initial 0, hinitial⟩ mvs).2
  rintro m mv ⟨hm, hb, h⟩
  exact ⟨hm.after mv, hb.after hm mv, h.after hm hb mv⟩

end Machine

end Dataflow
