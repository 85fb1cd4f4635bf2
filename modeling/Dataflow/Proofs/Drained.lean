import Dataflow.Proofs.Balance
import Dataflow.Proofs.Entries
import Dataflow.Proofs.Stacks
import Dataflow.Proofs.Staffing

/-!
# Pools without work

A shutdown call goes on when the pool has no active task. That is a look at one counter, but if nobody else is in
the middle of a call on the pool it tells everything (`Machine.Lawful.drained`): all tasks are parked or finished,
the ready queues are empty, the other counters say so too, and every worker is on its way to the next task, which
there is not.

A task that is about to be queued has been counted as active, or the same stack still has to count it: that is why
the counter cannot be zero while a task is on its way (`Machine.Lawful.cover_eq_zero`), unless a call that is going
on has yet to count it. Of the workers such a call needs a body in hand, and a body in hand is counted.
-/

namespace Dataflow

variable {V J : Type}

namespace Frame

variable {p : PoolId} {s : Store V J} {f : Frame V J} {fs below : List (Frame V J)}

theorem Booking.books (h : Booking p s fs) (hf : f ∈ fs) : f.Books p := by
  cases h with
  | reserved | woken | ended => exact List.mem_singleton.1 hf ▸ rfl
  | made t h | resumed t h | parked hp h | finished t ht h =>
    have := h.subset hf
    simp only [List.mem_cons, List.not_mem_nil, or_false] at this
    rcases this with rfl | rfl | rfl | rfl | rfl <;> exact rfl

/-- If the next step books nothing, no later one of the stack does. -/
theorem BooksFirst.not_books (h : BooksFirst p s (f :: below)) (hf : ¬ f.Books p) : ∀ g ∈ f :: below, ¬ g.Books p := by
  obtain ⟨now, later, heq, hnow, hlater⟩ := h
  cases now with
  | nil => exact heq ▸ hlater
  | cons f' now =>
    obtain rfl : f = f' := (List.cons.inj heq).1
    exact absurd (hnow.books (List.mem_cons_self ..)) hf

theorem Books.actsOn (h : f.Books p) : f.ActsOn p := by
  cases f with
  | spawn q job phase next => cases phase <;> first | exact h | exact h.elim
  | task q t phase => cases phase <;> first | exact h | exact h.elim
  | _ => first | exact h | exact h.elim

/-- A booking that leaves the counter of active tasks as it is, or has yet to count its task. -/
theorem Booking.of_cover_eq_zero (h : Booking p s fs) (hcover : (fs.map (cover p .active)).sum = 0) (hf : f ∈ fs) :
    (∃ job next, f = .spawn p job .number next) ∨ (∃ t, f = .reschedule p t) ∨ .count p .activeUp ∈ fs := by
  cases h with
  | reserved job next => exact .inl ⟨job, next, List.mem_singleton.1 hf⟩
  | woken t => exact .inr (.inl ⟨t, List.mem_singleton.1 hf⟩)
  | ended t outcome => simp [cover, due, TaskPhase.due, rising] at hcover
  | made t h =>
    simp only [List.suffix_cons_iff, List.suffix_nil] at h
    rcases h with rfl | rfl | rfl | rfl | rfl | rfl
    · exact .inr (.inr (List.mem_cons_self ..))
    all_goals simp [cover, due, Count.due, TaskPhase.due, rising] at hcover hf
  | resumed t h =>
    simp only [List.suffix_cons_iff, List.suffix_nil] at h
    rcases h with rfl | rfl | rfl | rfl
    · exact .inr (.inr (List.mem_cons_self ..))
    all_goals simp [cover, due, Count.due, TaskPhase.due, rising] at hcover hf
  | parked hp h =>
    simp only [List.suffix_cons_iff, List.suffix_nil] at h
    rcases h with rfl | rfl | rfl <;> simp [cover, due, Count.due, rising] at hcover hf
  | finished t ht h =>
    simp only [List.suffix_cons_iff, List.suffix_nil] at h
    rcases h with rfl | rfl | rfl | rfl <;> simp [cover, due, Count.due, TaskPhase.due, rising] at hcover hf

/-- The worker is on its way to the next task and has none. -/
def IsLooking : Frame V J → Prop
  | .work (.keep ..) => False
  | .work _ => True
  | _ => False

theorem IsLooking.exists_seek (h : f.IsLooking) : ∃ seek, f = .work seek := by
  cases f with
  | work seek => exact ⟨seek, rfl⟩
  | _ => exact h.elim

end Frame

namespace Machine

variable {start : J → Except RuntimeError (Body V J)} {m : Machine V J}

/-- What holds of every machine that a run leads to. -/
structure Lawful (m : Machine V J) : Prop where
  scheduled : m.Scheduled
  booked : m.BooksFirst
  balanced : m.Balanced
  manned : m.Manned
  stacked : m.Stacked
  staffed : m.Staffed
  minded : m.Minded

theorem lawful_run (start : J → Except RuntimeError (Body V J)) (mvs : List (Move V J)) :
    (({} : Machine V J).run start mvs).Lawful :=
  ⟨scheduled_run start mvs, (balanced_run start mvs).1, (balanced_run start mvs).2, manned_run start mvs,
    stacked_run start mvs, staffed_run start mvs, minded_run start mvs⟩

theorem Lawful.after (h : m.Lawful) (mv : Move V J) : (m.after start mv).Lawful :=
  ⟨h.scheduled.after mv, h.booked.after h.scheduled mv, h.balanced.after h.scheduled h.booked mv,
    h.manned.after h.scheduled.framed mv, h.stacked.after h.scheduled.framed h.manned mv,
    h.staffed.after h.scheduled.framed mv, h.minded.after h.scheduled mv⟩

/-- Nobody but the thread itself and the workers of the pool is in the middle of a call on the pool, and nobody but
the thread in the middle of shutting it down. -/
def Alone (m : Machine V J) (p : PoolId) (i : Nat) : Prop :=
  ∀ (j : Nat) (th : Thread V J), m.threads[j]? = some th → j ≠ i → ∀ f ∈ th.stack, f.ActsOn p →
    (∃ w, th.worker = some (p, w)) ∧ ∀ phase, f ≠ .shutdown p phase

namespace Lawful

variable {p : PoolId} {t : TaskId} {pool : Pool V J} {i j w : Nat} {th : Thread V J} {f : Frame V J}

section inactive

variable (h : m.Lawful) (halive : m.store.aborted = false) (hp : ¬ m.store.Closed p)
  (hpool : m.store.pools[p]? = some pool) (hactive : pool.active = 0)

include h halive hp hpool hactive

/-- If no task is counted as active, those that are active are about to be queued, and every stack still has to count
as many tasks as it is about to queue. -/
theorem cover_eq_zero : Multiset.card (m.rising p) = (pool.tasks.toList.countP fun y => y.state.isActive) ∧
    ∀ (j : Nat) (th : Thread V J), m.threads[j]? = some th → (th.stack.map (Frame.cover p .active)).sum = 0 := by
  have hbalance := h.balanced.balance_eq halive hp hpool .active
  rw [Pool.shares_active] at hbalance
  simp only [Pool.balance, hactive] at hbalance
  have hcover := frameSum_cover m p .active
  have hrising := h.scheduled.card_rising_le hpool hp
  have hthread : ∀ (j : Nat) (th : Thread V J), m.threads[j]? = some th →
      0 ≤ (th.stack.map (Frame.cover p .active)).sum := fun j th hj => (h.booked p hp j th hj).cover_nonneg (.inl rfl)
  have htotal : 0 ≤ m.frameSum fun _ f => f.cover p .active := List.sum_nonneg fun c hc => by
    obtain ⟨th, hth, rfl⟩ := List.mem_map.1 hc
    obtain ⟨j, hj⟩ := List.mem_iff_getElem?.1 hth
    exact hthread j th (by rw [← Array.getElem?_toList, hj])
  refine ⟨by omega, fun j th hj => ?_⟩
  have hle : (th.stack.map (Frame.cover p .active)).sum ≤ m.frameSum fun _ f => f.cover p .active :=
    le_frameSum hthread hj
  have hnonneg := hthread j th hj
  omega

theorem mem_rising {y : Task V J} (hy : m.store.task? p t = some y) (hstate : y.state.isActive = true) :
    t ∈ m.rising p := by
  by_contra hnot
  obtain ⟨hcard, -⟩ := h.cover_eq_zero halive hp hpool hactive
  have hle : Multiset.card (t ::ₘ m.rising p) ≤ pool.tasks.toList.countP fun y => y.state.isActive := by
    refine card_le_countP (Multiset.nodup_cons.2 ⟨hnot, h.scheduled.rising_nodup p⟩) fun u hu => ?_
    rcases Multiset.mem_cons.1 hu with rfl | hu
    · rw [Store.task?_eq, hpool] at hy
      exact ⟨y, by rw [Array.getElem?_toList]; exact hy, hstate⟩
    · exact h.scheduled.isActive_of_mem_rising hpool hp hu
  rw [Multiset.card_cons] at hle
  omega

/-- Whatever has a task in hand is about to queue it. -/
theorem rising_ne_zero (hj : m.threads[j]? = some th) (hf : f ∈ th.stack) (hholds : f.holds th.worker p t ≠ 0) :
    f.rising p ≠ 0 := by
  intro hzero
  -- the task is held by one frame only, so it is held by this one
  have hcards : (m.frameSum fun worker f => (Multiset.card (f.holds worker p t) : ℤ)) ≤ 1 := by
    have hsum : (m.frameSum fun worker f => (Multiset.card (f.holds worker p t) : ℤ)) =
        (Multiset.card (m.frameSum fun worker f => f.holds worker p t) : ℤ) :=
      (map_frameSum ((Nat.castAddMonoidHom ℤ).comp Multiset.cardHom) _ m).symm
    have hle : (m.frameSum fun worker f => f.holds worker p t) ≤ m.holds p t := Multiset.le_add_left _ _
    have honce := (Multiset.card_le_card hle).trans (h.scheduled.sound p t).once
    omega
  have hone : Multiset.card (f.holds th.worker p t) = 1 := by
    have hle := le_frameSum_of_mem (g := fun worker f => (Multiset.card (f.holds worker p t) : ℤ))
      (fun _ _ _ _ _ => Int.natCast_nonneg _) hj hf
    have hpos := Multiset.card_pos.2 hholds
    omega
  obtain ⟨k, hk⟩ := Multiset.card_eq_one.1 hone
  obtain ⟨y, hy, hfits⟩ := h.scheduled.fits hp hj hf hk
  have hstate : y.state.isActive = true := by
    rcases hfits.state with hstate | hstate | hstate <;> rw [hstate] <;> rfl
  -- but some frame is about to queue it
  have hcount : (1 : ℤ) ≤ m.frameSum fun _ f => ((f.rising p).count t : ℤ) := by
    have hsum : (m.frameSum fun _ f => ((f.rising p).count t : ℤ)) = ((m.rising p).count t : ℤ) :=
      (map_frameSum ((Nat.castAddMonoidHom ℤ).comp (Multiset.countAddMonoidHom t)) _ m).symm
    have hpos := Multiset.one_le_count_iff_mem.2 (h.mem_rising halive hp hpool hactive hy hstate)
    omega
  have hsplit := frameSum_add (fun worker f => (Multiset.card (f.holds worker p t) : ℤ) - (f.rising p).count t)
    (fun _ f => ((f.rising p).count t : ℤ)) m
  simp only [sub_add_cancel] at hsplit
  have hmine := le_frameSum_of_mem (g := fun worker f => (Multiset.card (f.holds worker p t) : ℤ) - (f.rising p).count t)
    (fun _ th' _ f' _ => by have := f'.count_rising_le (p := p) th'.worker t; omega) hj hf
  simp only [hzero, hone, Multiset.count_zero] at hmine
  omega

/-- No worker of the pool has a body. -/
theorem not_polls (hj : m.threads[j]? = some th) (hworker : th.worker = some (p, w)) (hf : f ∈ th.stack) {q : PoolId}
    (hpolls : f.Polls q t) : False := by
  have hq : q = p := by
    have hok := h.scheduled.framed.frames j th hj f hf
    have hon : Party.On th.worker (.task q t) := by
      cases f with
      | run r | pause r => exact (show r.party = _ from hpolls) ▸ (hok : r.party.On _)
      | ended party outcome => exact (show party = _ from hpolls) ▸ (hok : party.On _)
      | blocked c timed next | spawn pool job phase next =>
        obtain ⟨party, hon, hnext⟩ := hok
        exact ((hnext _).symm.trans hpolls) ▸ hon
      | _ => exact hpolls.elim
    obtain ⟨w', hw'⟩ := hon
    rw [hworker] at hw'
    exact (Prod.mk.inj (Option.some.inj hw')).1.symm
  subst hq
  obtain ⟨k, -, hk⟩ := hpolls.holds_eq th.worker
  refine h.rising_ne_zero halive hp hpool hactive hj hf (t := t) (by rw [hk]; exact Multiset.singleton_ne_zero k) ?_
  cases f <;> first | rfl | exact hpolls.elim

/-- Nor is any of them on an errand, or busy with another pool. -/
theorem not_isErrand (hj : m.threads[j]? = some th) (hworker : th.worker = some (p, w)) (hf : f ∈ th.stack) :
    ¬ f.IsErrand ∧ ¬ f.Leans p := by
  constructor
  · intro herrand
    have habove := h.manned j th hj (by rw [hworker]; exact nofun)
    obtain ⟨g, hg, q, t, hpolls⟩ := habove.exists_polls hf herrand
    exact h.not_polls halive hp hpool hactive hj hworker hg hpolls
  · intro hleans
    obtain ⟨g, hg, q, t, hpolls⟩ := (h.stacked.leans j th hj p w hworker).exists_polls hf hleans
    exact h.not_polls halive hp hpool hactive hj hworker hg hpolls

/-- Nor has any of them something to book. -/
theorem not_books_of_worker (hj : m.threads[j]? = some th) (hworker : th.worker = some (p, w)) (hf : f ∈ th.stack) :
    ¬ f.Books p := by
  intro hbooks
  obtain ⟨-, hcover⟩ := h.cover_eq_zero halive hp hpool hactive
  obtain ⟨now, later, hstack, hnow, hlater⟩ := h.booked p hp j th hj
  have hzero : (later.map (Frame.cover p .active)).sum = 0 := List.sum_eq_zero fun c hc => by
    obtain ⟨g, hg, rfl⟩ := List.mem_map.1 hc
    exact Frame.cover_of_not_books (hlater g hg)
  have hsum := hcover j th hj
  rw [hstack, List.map_append, List.sum_append, hzero, add_zero] at hsum
  have hmem : f ∈ now := by
    rw [hstack] at hf
    exact (List.mem_append.1 hf).resolve_right fun hf => hlater f hf hbooks
  have hbelow : ∀ g ∈ now, g ∈ th.stack := fun g hg => hstack ▸ List.mem_append_left _ hg
  rcases hnow.of_cover_eq_zero hsum hmem with ⟨job, next, rfl⟩ | ⟨t, rfl⟩ | hup
  · have hok := h.scheduled.framed.frames j th hj _ hf
    obtain ⟨party, hon, hnext⟩ := hok
    cases party with
    | outside =>
      have hnone : th.worker = none := hon
      rw [hworker] at hnone
      cases hnone
    | task q t => exact h.not_polls halive hp hpool hactive hj hworker hf (show Frame.Polls q t _ from hnext _)
  · exact (h.not_isErrand halive hp hpool hactive hj hworker hf).1 trivial
  · exact (h.not_isErrand halive hp hpool hactive hj hworker (hbelow _ hup)).2 (.inl rfl)

variable (halone : m.Alone p i) {rest : List (Frame V J)} (hi : m.stackOf i = .waitIdle p :: rest)

include halone hi

/-- Nobody has anything to book. -/
theorem not_books : m.AllFrames fun _ f => ¬ f.Books p := by
  intro j th hj f hf hbooks
  by_cases hij : j = i
  · subst hij
    have hstack : th.stack = .waitIdle p :: rest := by rw [← hi, stackOf_eq hj]
    have hfirst := h.booked p hp j th hj
    rw [hstack] at hfirst hf
    exact hfirst.not_books id f hf hbooks
  · obtain ⟨⟨w, hw⟩, -⟩ := halone j th hj hij f hf hbooks.actsOn
    exact h.not_books_of_worker halive hp hpool hactive hj hw hf hbooks

theorem holds_eq_zero (t : TaskId) : m.holds p t = 0 := by
  have hrising : m.rising p = 0 := frameSum_eq_zero
    ((h.not_books halive hp hpool hactive halone hi).mono fun _ _ hf => Frame.rising_of_not_books hf)
  cases hy : m.store.task? p t with
  | none => exact (h.scheduled.sound p t).made hy
  | some y =>
    have hx := h.scheduled.exact p t (Store.running_of_not_closed hp hpool)
    rw [hy] at hx
    rcases hx with ⟨hzero, -⟩ | ⟨k, -, hfits⟩
    · exact hzero
    · have hstate : y.state.isActive = true := by
        rcases hfits.state with hstate | hstate | hstate <;> rw [hstate] <;> rfl
      have hmem := h.mem_rising halive hp hpool hactive hy hstate
      simp [hrising] at hmem

/-- Every worker of the pool is on its way to the next task, and the thread that waits is none. -/
theorem isLooking (hj : m.threads[j]? = some th) (hworker : th.worker = some (p, w)) (hf : f ∈ th.stack) :
    f.IsLooking := by
  have hok := h.scheduled.framed.frames j th hj f hf
  have hnone : ∀ t, f.holds th.worker p t = 0 := fun t => Multiset.eq_zero_of_forall_notMem fun k hk => by
    have hmem : k ∈ m.frameSum fun worker f => f.holds worker p t :=
      mem_frameSum.2 ⟨th, List.mem_iff_getElem?.2 ⟨j, by rw [Array.getElem?_toList, hj]⟩, f, hf, hk⟩
    have hall : k ∈ m.holds p t := Multiset.mem_add.2 (.inr hmem)
    rw [h.holds_eq_zero halive hp hpool hactive halone hi t] at hall
    exact Multiset.notMem_zero _ hall
  obtain ⟨herrand, hleans⟩ := h.not_isErrand halive hp hpool hactive hj hworker hf
  have hbooks := h.not_books_of_worker halive hp hpool hactive hj hworker hf
  have body : ∀ {party : Party}, party.On th.worker → (∀ q t, party = .task q t → f.Polls q t) → False := by
    intro party hon hpolls
    cases party with
    | outside =>
      have hout : th.worker = none := hon
      rw [hworker] at hout
      cases hout
    | task q t => exact h.not_polls halive hp hpool hactive hj hworker hf (hpolls q t rfl)
  cases f with
  | run r | pause r =>
    have hparty : r.party.On th.worker := hok
    exact (body hparty fun _ _ => id).elim
  | ended party outcome => exact (body hok fun _ _ => id).elim
  | blocked c timed next | spawn q job phase next =>
    obtain ⟨party, hon, hnext⟩ := hok
    exact (body hon fun q t hparty => (hnext _).trans hparty).elim
  | task q t phase =>
    obtain rfl : q = p := not_not.1 hleans
    have hzero := hnone t
    cases phase with
    | abandon | discard => exact absurd trivial herrand
    | tally | unregister | register | enqueue => exact absurd rfl hbooks
    | _ => simp [Frame.holds] at hzero
  | count q change =>
    obtain rfl : q = p := not_not.1 fun hq => hleans (.inr hq)
    exact absurd rfl hbooks
  | work seek =>
    cases seek with
    | keep first rest =>
      have hzero := hnone first
      simp [Frame.holds, hworker] at hzero
    | _ => trivial
  | _ => exact absurd trivial herrand

end inactive

end Lawful

end Machine

/-- A pool without work: all tasks are parked or finished, the queues are empty, and the counters say so. -/
structure Pool.Quiet (pool : Pool V J) : Prop where
  rests : ∀ (t : TaskId) (y : Task V J), pool.tasks[t]? = some y → y.Rests
  injector : pool.injector.items = []
  locals : ∀ q ∈ pool.locals.queues, q.items = []
  queued : pool.queued = 0
  active : pool.active = 0
  live : pool.live = pool.registry.length
  /-- The registry has the parked tasks. -/
  registry : ∀ (t : TaskId) (y : Task V J), pool.tasks[t]? = some y → (y.registered = true ↔ y.state = .suspended)

theorem Pool.eq_nil_of_waiting_eq_zero {pool : Pool V J} (h : ∀ t, pool.waiting t = 0) :
    pool.injector.items = [] ∧ ∀ q ∈ pool.locals.queues, q.items = [] := by
  have hsplit : ∀ t, pool.injector.items.count t = 0 ∧ pool.locals.count t = 0 := fun t => by
    have := h t
    unfold Pool.waiting at this
    omega
  refine ⟨List.eq_nil_iff_forall_not_mem.2 fun t => List.count_eq_zero.1 (hsplit t).1, fun q hq => ?_⟩
  refine List.eq_nil_iff_forall_not_mem.2 fun t => List.count_eq_zero.1 ?_
  exact List.sum_eq_zero_iff.1 (hsplit t).2 _ (List.mem_map_of_mem hq)

namespace Machine

variable {m : Machine V J} {p : PoolId} {i : Nat}

/-- The pool is open and without work, and its workers are on their way to the next task. -/
structure Drained (p : PoolId) (m : Machine V J) : Prop where
  pool : ∃ pool, m.store.pools[p]? = some pool ∧ pool.running = true ∧ pool.Quiet
  workers : ∀ (j w : Nat) (stack : List (Frame V J)), m.threads[j]? = some ⟨some (p, w), stack⟩ →
    ∀ f ∈ stack, f.IsLooking

/-- If nobody else acts on the pool, a shutdown call that finds no active task finds a pool without work. -/
theorem Lawful.drained (h : m.Lawful) (halive : m.store.aborted = false) {pool : Pool V J}
    (hpool : m.store.pools[p]? = some pool) (hrunning : pool.running = true) (hactive : pool.active = 0)
    (halone : m.Alone p i) {rest : List (Frame V J)} (hi : m.stackOf i = .waitIdle p :: rest) : m.Drained p := by
  have hp : ¬ m.store.Closed p := fun hc => hc.not_running ⟨pool, hpool, hrunning⟩
  have hzero := h.holds_eq_zero halive hp hpool hactive halone hi
  have hbooks := h.not_books halive hp hpool hactive halone hi
  have hdue : ∀ a, (m.frameSum fun _ f => f.due p a) = 0 := fun a =>
    frameSum_eq_zero (hbooks.mono fun _ _ hf => Frame.due_of_not_books hf)
  have hexact := h.balanced.balance_eq_shares halive hp hpool hdue
  have hregistered : ∀ {t : TaskId} {y : Task V J}, pool.tasks[t]? = some y → y.registered = !y.state.isTerminal :=
    h.balanced.registered_eq_not_isTerminal halive hp hpool hdue
  have htask : ∀ {t : TaskId} {y : Task V J}, pool.tasks[t]? = some y → m.store.task? p t = some y := fun hy => by
    rw [Store.task?_eq, hpool]
    exact hy
  have hrests : ∀ (t : TaskId) (y : Task V J), pool.tasks[t]? = some y → y.Rests := by
    intro t y hy
    have hx := h.scheduled.exact p t ⟨pool, hpool, hrunning⟩
    rw [htask hy] at hx
    rcases hx with ⟨-, hrests⟩ | ⟨k, hk, -⟩
    · exact hrests
    · rw [hzero t] at hk
      exact absurd hk.symm (Multiset.singleton_ne_zero k)
  have hwaiting : ∀ t, pool.waiting t = 0 := fun t => by
    have hready : m.store.holds p t ≤ 0 := (Multiset.le_add_right _ _).trans (hzero t).le
    rw [← Store.waiting_of_pool hpool]
    simpa [Store.holds] using Multiset.card_le_card hready
  obtain ⟨hinjector, hlocals⟩ := Pool.eq_nil_of_waiting_eq_zero hwaiting
  have hqueued := hexact .queued
  have hlive := hexact .live
  rw [Pool.shares_queued] at hqueued
  rw [Pool.shares_live] at hlive
  simp only [Pool.balance] at hqueued hlive
  have hunclaimed : (pool.tasks.toList.countP fun y => y.stage.isUnclaimed) = 0 := by
    refine List.countP_eq_zero.2 fun y hy hstage => ?_
    obtain ⟨t, ht⟩ := List.mem_iff_getElem?.1 hy
    rw [Array.getElem?_toList] at ht
    rcases hrests t y ht with ⟨-, hstarted⟩ | ⟨-, hconsumed⟩
    · cases hy : y.stage <;> simp_all [Stage.IsStarted, Stage.isUnclaimed]
    · simp [hconsumed] at hstage
  refine ⟨⟨pool, hpool, hrunning, hrests, hinjector, hlocals, by omega, hactive, ?_, fun t y hy => ?_⟩, ?_⟩
  · rw [h.balanced.registry_length_eq halive hp hpool hdue]
    omega
  · rw [hregistered hy]
    rcases hrests t y hy with ⟨hstate, -⟩ | ⟨hterminal, -⟩
    · simp [hstate, TaskState.isTerminal]
    · cases hy : y.state <;> simp_all [TaskState.isTerminal]
  · exact fun j w stack hj f hf => h.isLooking halive hp hpool hactive halone hi hj rfl hf

/-- The thread that waits is no worker of the pool. -/
theorem Lawful.worker_ne (h : m.Lawful) (halive : m.store.aborted = false) {pool : Pool V J}
    (hpool : m.store.pools[p]? = some pool) (hrunning : pool.running = true) (hactive : pool.active = 0)
    {rest : List (Frame V J)} {worker : Option (PoolId × Nat)}
    (hi : m.threads[i]? = some ⟨worker, .waitIdle p :: rest⟩) (w : Nat) : worker ≠ some (p, w) := by
  rintro rfl
  have hp : ¬ m.store.Closed p := fun hc => hc.not_running ⟨pool, hpool, hrunning⟩
  exact (h.not_isErrand halive hp hpool hactive hi rfl (List.mem_cons_self ..)).1 trivial

end Machine

/-- The same pool, but for the workers that have ended and the statistics of theft. -/
def Pool.Like (pool pool' : Pool V J) : Prop :=
  pool' = { pool with stopped := pool'.stopped, locals := { pool.locals with stats := pool'.locals.stats } }

theorem Pool.Like.refl (pool : Pool V J) : pool.Like pool := rfl

theorem Pool.Like.quiet {pool pool' : Pool V J} (h : pool.Like pool') (hquiet : pool.Quiet) : pool'.Quiet := by
  rw [h]
  exact { hquiet with }

namespace Frame

variable {start : J → Except RuntimeError (Body V J)} {worker : Option (PoolId × Nat)} {choice : Nat}
  {s : Store V J} {p : PoolId} {pool : Pool V J}

theorem like_modifyPool {g : Pool V J → Pool V J} (hpool : s.pools[p]? = some pool) (hg : pool.Like (g pool)) :
    ∃ pool', (s.modifyPool p g).pools[p]? = some pool' ∧ pool.Like pool' :=
  ⟨g pool, by rw [Store.pools_modifyPool, if_pos rfl, hpool]; rfl, hg⟩

/-- A worker that finds nothing in any queue goes on looking, or ends. -/
theorem stepWork_of_empty (choice w : Nat) {seek : Seek} (hlook : (.work seek : Frame V J).IsLooking)
    (hpool : s.pools[p]? = some pool) (hinjector : pool.injector.items = [])
    (hlocals : ∀ q ∈ pool.locals.queues, q.items = []) :
    (∃ pool', (stepWork choice s p w seek).1.pools[p]? = some pool' ∧ pool.Like pool') ∧
      ∀ g ∈ (stepWork choice s p w seek).2, g.IsLooking := by
  have same : ∃ pool', s.pools[p]? = some pool' ∧ pool.Like pool' := ⟨pool, hpool, .refl pool⟩
  have one : ∀ {seek : Seek}, (.work seek : Frame V J).IsLooking → ∀ g ∈ [(.work seek : Frame V J)], g.IsLooking :=
    fun h g hg => List.mem_singleton.1 hg ▸ h
  cases seek with
  | loop =>
    simp only [stepWork]
    split
    · exact ⟨same, one trivial⟩
    · exact ⟨like_modifyPool hpool rfl, by simp⟩
  | own =>
    have hpop := LocalQueues.popLocal_of_empty hlocals w
    simp only [stepWork, hpool]
    split
    · rename_i heq
      rw [heq] at hpop
      cases hpop
    · exact ⟨same, one trivial⟩
  | shared =>
    simp only [stepWork, hpool]
    split
    · rename_i heq
      cases (Queue.items_of_popFront heq).symm.trans hinjector
    · split
      · exact ⟨same, one trivial⟩
      · exact ⟨same, one trivial⟩
  | theft victims =>
    cases victims with
    | nil => exact ⟨like_modifyPool hpool rfl, one trivial⟩
    | cons victim victims =>
      have hsteal := LocalQueues.stealFrom_of_empty hlocals victim pool.config.stealBatch
      simp only [stepWork, hpool]
      split
      · exact ⟨same, one trivial⟩
      · rename_i heq
        rw [heq] at hsteal
        cases hsteal
  | keep first rest => exact hlook.elim
  | idle => exact ⟨same, one trivial⟩

end Frame

namespace Machine

variable {start : J → Except RuntimeError (Body V J)} {m : Machine V J} {p : PoolId} {i : Nat} {pool : Pool V J}

/-- The pool, its workers and the registrations of its tasks are as before, but that workers without work go on
looking or end. -/
structure Beside (p : PoolId) (pool : Pool V J) (m m' : Machine V J) : Prop where
  pool : ∃ pool', m'.store.pools[p]? = some pool' ∧ pool.Like pool'
  workers : ∀ (j w : Nat) (stack' : List (Frame V J)), m'.threads[j]? = some ⟨some (p, w), stack'⟩ →
    (∀ f ∈ stack', f.IsLooking) ∧ ∃ stack, m.threads[j]? = some ⟨some (p, w), stack⟩ ∧ (stack = [] → stack' = [])
  entries : ∀ k t, m'.store.Enters k (.task p t) → m.store.Enters k (.task p t)

/-- What anybody else does to a pool without work. -/
theorem beside_after (start : J → Except RuntimeError (Body V J)) (hm : m.Framed) (halone : m.Alone p i)
    (hlook : ∀ (j w : Nat) (stack : List (Frame V J)), m.threads[j]? = some ⟨some (p, w), stack⟩ →
      ∀ f ∈ stack, f.IsLooking)
    (hpool : m.store.pools[p]? = some pool) (hinjector : pool.injector.items = [])
    (hlocals : ∀ q ∈ pool.locals.queues, q.items = []) (mv : Move V J)
    (hother : ∀ e, m.taken mv = some e → e.thread ≠ i) : Beside p pool m (m.after start mv) := by
  have still : Beside p pool m m :=
    ⟨⟨pool, hpool, .refl pool⟩, fun j w stack hj => ⟨hlook j w stack hj, stack, hj, id⟩, fun _ _ => id⟩
  have outside : ∀ {s : Store V J} (frames : List (Frame V J)), s.pools = m.store.pools → s.cells = m.store.cells →
      Beside p pool m (spawnThread ⟨s, m.threads⟩ frames) := by
    intro s frames hpools hcells
    have hpool' : s.pools[p]? = some pool := by rw [hpools, hpool]
    refine ⟨⟨pool, hpool', .refl pool⟩, fun j w stack hj => ?_, fun k t henters => ?_⟩
    · have hj' := thread_of_spawnThread hj
      exact ⟨hlook j w stack hj', stack, hj', id⟩
    · exact (Store.enters_iff_of_sameWakers (.of_cells_eq hcells)).1 henters
  cases mv with
  | step j choice =>
    rcases m.after_step start j choice with ⟨heq, -⟩ | ⟨worker, f, rest, hj, -, -, htaken, heq⟩
    · rw [heq]
      exact still
    · have hji : j ≠ i := hother _ htaken
      have hok : f.Ok worker m.store := hm.frames j _ hj f (List.mem_cons_self ..)
      rw [heq]
      by_cases hworker : ∃ w, worker = some (p, w)
      · obtain ⟨w, rfl⟩ := hworker
        have hlookj := hlook j w _ hj
        obtain ⟨seek, rfl⟩ := (hlookj f (List.mem_cons_self ..)).exists_seek
        obtain ⟨hlike, hframes⟩ :=
          Frame.stepWork_of_empty choice w (hlookj _ (List.mem_cons_self ..)) hpool hinjector hlocals
        refine ⟨hlike, fun j' w' stack' hj' => ?_, fun k t henters => ?_⟩
        · rcases thread_of_set hj hj' with ⟨rfl, hth⟩ | ⟨-, hj'⟩
          · cases hth
            refine ⟨fun g hg => ?_, _, hj, nofun⟩
            rcases List.mem_append.1 hg with hg | hg
            · exact hframes g hg
            · exact hlookj g (List.mem_cons_of_mem _ hg)
          · exact ⟨hlook j' w' stack' hj', stack', hj', id⟩
        · have hsame : m.store.SameWakers (Frame.step start (some (p, w)) choice m.store (.work seek)).1 :=
            Frame.sameWakers_step (fun _ => nofun) fun _ _ => nofun
          exact (Store.enters_iff_of_sameWakers hsame).1 henters
      · have hne : ∀ w, worker ≠ some (p, w) := fun w hw => hworker ⟨w, hw⟩
        have hacts : ¬ f.ActsOn p := fun hacts => hworker (halone j _ hj hji f (List.mem_cons_self ..) hacts).1
        refine ⟨⟨pool, ?_, .refl pool⟩, fun j' w' stack' hj' => ?_, fun k t henters => ?_⟩
        · rw [← hpool]
          exact Frame.pools_step_of_not_actsOn hok hne hacts
        · have hj' := worker_of_set hj hne hj' rfl
          exact ⟨hlook j' w' stack' hj', stack', hj', id⟩
        · rcases Frame.enters_step henters with ⟨r, rfl, hparty, -⟩ | ⟨hbefore, -⟩
          · have hon : r.party.On worker := hok
            rw [hparty] at hon
            exact absurd hon hworker
          · exact hbefore
  | startPool config =>
    rcases m.after_startPool start config with heq | heq
    · rw [heq]
      exact still
    · rw [heq]
      have hlt : p < m.store.pools.size := (Array.getElem?_eq_some_iff.1 hpool).1
      refine ⟨⟨pool, pools_addPool hpool, .refl pool⟩, fun j w stack hj => ?_, fun _ _ => id⟩
      have hj' := thread_of_addPool hlt hj
      exact ⟨hlook j w stack hj', stack, hj', id⟩
  | enter body => exact outside _ rfl rfl
  | poll | discard =>
    simp only [Machine.after]
    split
    · exact outside _ rfl rfl
    · exact still

/-- A pool without work stays so, whatever anybody else does. -/
theorem Drained.after (h : m.Drained p) (hm : m.Framed) (halone : m.Alone p i) (mv : Move V J)
    (hother : ∀ e, m.taken mv = some e → e.thread ≠ i) : (m.after start mv).Drained p := by
  obtain ⟨pool, hpool, hrunning, hquiet⟩ := h.pool
  have hbeside := beside_after start hm halone h.workers hpool hquiet.injector hquiet.locals mv hother
  obtain ⟨pool', hpool', hlike⟩ := hbeside.pool
  refine ⟨⟨pool', hpool', ?_, hlike.quiet hquiet⟩, fun j w stack hj => (hbeside.workers j w stack hj).1⟩
  rw [hlike]
  exact hrunning

end Machine
end Dataflow
