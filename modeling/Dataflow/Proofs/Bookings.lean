import Dataflow.Proofs.Scheduling

/-!
# Bookings

A pool books what happens to its tasks in several steps, one counter after the other. A thread that has begun to
book goes on with that before it does anything else (`Frame.BooksFirst`), so there is never more than one booking
on a stack, and what is left of it ends as all bookings of its kind end.
-/

namespace Dataflow

variable {V J : Type}

namespace Frame

/-- The frame is a step of a booking of the pool. -/
def Books (p : PoolId) : Frame V J → Prop
  | .spawn q _ .number _ | .count q _ | .reschedule q _ => q = p
  | .task q _ (.tally _) | .task q _ .unregister | .task q _ .register | .task q _ .enqueue => q = p
  | _ => False

theorem IsQuiet.not_books {p : PoolId} {f : Frame V J} (h : f.IsQuiet) : ¬ f.Books p := by
  cases f <;> first | exact id | exact h.elim

theorem CarriesOn.not_books {p : PoolId} {r : Run V J} {f : Frame V J} (h : f.CarriesOn r) : ¬ f.Books p := by
  cases f with
  | spawn q job phase next =>
    obtain rfl : phase = .check := h.1
    exact id
  | _ => first | exact id | exact h.elim

end Frame

/-- The pool has been started. -/
def Store.HasPool (s : Store V J) (p : PoolId) : Prop := ∃ pool, s.pools[p]? = some pool

/-- The task is finished. -/
def Store.HasEnded (s : Store V J) (p : PoolId) (t : TaskId) : Prop :=
  ∃ y, s.task? p t = some y ∧ y.state.isTerminal = true

/-- The pool is still there, and its tasks that were finished are still finished. -/
structure Store.Retains (s s' : Store V J) (p : PoolId) : Prop where
  pool : s.HasPool p → s'.HasPool p
  ended : ∀ t, s.HasEnded p t → s'.HasEnded p t

namespace Frame

/-- What is left of a booking of the pool. -/
inductive Booking (p : PoolId) (s : Store V J) : List (Frame V J) → Prop where
  /-- A spawn call has reserved a place. -/
  | reserved (job : J) (next : Except RuntimeError TaskId → Run V J) (hp : s.HasPool p) :
    Booking p s [.spawn p job .number next]
  /-- It has made its task. -/
  | made {fs} (t : TaskId) (h : fs <:+ [.count p .activeUp, .count p .liveUp, .task p t .register,
      .count p .spawned, .task p t .enqueue]) : Booking p s fs
  /-- A parked task was woken. -/
  | woken (t : TaskId) : Booking p s [.reschedule p t]
  /-- It comes back to the pool. -/
  | resumed {fs} (t : TaskId) (h : fs <:+ [.count p .activeUp, .count p .resumed, .task p t .enqueue]) :
    Booking p s fs
  /-- A task was parked. -/
  | parked {fs} (hp : s.HasPool p) (h : fs <:+ [.count p .suspended, .count p .activeDown]) : Booking p s fs
  /-- A task has ended. -/
  | ended (t : TaskId) (outcome : Outcome) (ht : s.HasEnded p t) : Booking p s [.task p t (.tally outcome)]
  /-- Its end is known. -/
  | finished {fs} (t : TaskId) (ht : s.HasEnded p t)
    (h : fs <:+ [.task p t .unregister, .count p (.liveDown 1), .count p .activeDown]) : Booking p s fs

/-- What is left of a booking of the pool is on top of the stack, and nothing else on the stack is part of one. -/
def BooksFirst (p : PoolId) (s : Store V J) (stack : List (Frame V J)) : Prop :=
  ∃ now later, stack = now ++ later ∧ Booking p s now ∧ ∀ f ∈ later, ¬ f.Books p

variable {p : PoolId} {s s' : Store V J} {f : Frame V J} {fs now later below : List (Frame V J)}

namespace Booking

theorem nil : Booking p s ([] : List (Frame V J)) := .made 0 List.nil_suffix

theorem mono (h : Booking p s fs) (hs : s.Retains s' p) : Booking p s' fs := by
  cases h with
  | reserved job next hp => exact .reserved job next (hs.pool hp)
  | made t h => exact .made t h
  | woken t => exact .woken t
  | resumed t h => exact .resumed t h
  | parked hp h => exact .parked (hs.pool hp) h
  | ended t outcome ht => exact .ended t outcome (hs.ended t ht)
  | finished t ht h => exact .finished t (hs.ended t ht) h

/-- Only what is to come is left. -/
theorem tail (h : Booking p s (f :: now)) : Booking p s now := by
  have hnow : now <:+ f :: now := List.suffix_cons f now
  cases h with
  | reserved | woken | ended => exact nil
  | made t h => exact .made t (hnow.trans h)
  | resumed t h => exact .resumed t (hnow.trans h)
  | parked hp h => exact .parked hp (hnow.trans h)
  | finished t ht h => exact .finished t ht (hnow.trans h)

end Booking

namespace BooksFirst

theorem of_not_books (h : ∀ f ∈ fs, ¬ f.Books p) : BooksFirst p s fs := ⟨[], fs, rfl, .nil, h⟩

theorem of_booking (h : Booking p s now) : BooksFirst p s now := ⟨now, [], (List.append_nil now).symm, h, by simp⟩

theorem mono (h : BooksFirst p s fs) (hs : s.Retains s' p) : BooksFirst p s' fs := by
  obtain ⟨now, later, heq, hnow, hlater⟩ := h
  exact ⟨now, later, heq, hnow.mono hs, hlater⟩

theorem append (h : BooksFirst p s fs) (hbelow : ∀ f ∈ below, ¬ f.Books p) : BooksFirst p s (fs ++ below) := by
  obtain ⟨now, later, rfl, hnow, hlater⟩ := h
  refine ⟨now, later ++ below, List.append_assoc .., hnow, fun f hf => ?_⟩
  rcases List.mem_append.1 hf with hf | hf
  · exact hlater f hf
  · exact hbelow f hf

theorem tail (h : BooksFirst p s (f :: below)) : BooksFirst p s below := by
  obtain ⟨now, later, heq, hnow, hlater⟩ := h
  cases now with
  | nil =>
    rw [List.nil_append] at heq
    exact of_not_books fun g hg => hlater g (heq ▸ List.mem_cons_of_mem _ hg)
  | cons f' now =>
    rw [List.cons_append, List.cons.injEq] at heq
    exact ⟨now, later, heq.2, hnow.tail, hlater⟩

end BooksFirst

variable {start : J → Except RuntimeError (Body V J)} {worker : Option (PoolId × Nat)} {choice : Nat}

/-- A frame that is no part of a booking may begin one. -/
theorem booksFirst_step_of_not_books (hf : f.Ok worker s) (hp : ¬ s.Closed p)
    (hmade : ∀ t, f.holds worker p t ≠ 0 → ∃ y, s.task? p t = some y)
    (hkeep : s.Retains (f.step start worker choice s).1 p) (hbooks : ¬ f.Books p) :
    BooksFirst p (f.step start worker choice s).1 (f.step start worker choice s).2 := by
  have hgives := gives_step start worker choice s f
  have hended : ∀ t outcome, f = .task p t (.settle outcome) → (f.step start worker choice s).1.HasEnded p t := by
    rintro t outcome rfl
    obtain ⟨y, hy⟩ := hmade t (by simp [holds])
    refine ⟨{ y with state := finalState outcome }, ?_, ?_⟩
    · rw [step, stepTask, Store.setState, Store.task?_modifyTask_self, hy]
      rfl
    · rcases outcome with ((_ | _) | _) <;> rfl
  generalize (f.step start worker choice s).1 = s' at hkeep hended ⊢
  generalize (f.step start worker choice s).2 = fs at hgives ⊢
  cases hgives with
  | @run r =>
    obtain ⟨quiet, g, hfs, hquiet, hg⟩ := stepRun_frames worker s r
    refine .of_not_books fun f hf => ?_
    rw [hfs] at hf
    rcases List.mem_append.1 hf with hf | hf
    · exact (hquiet f hf).not_books
    · exact List.mem_singleton.1 hf ▸ hg.not_books
  | drop hfs =>
    refine .of_not_books fun f hf => ?_
    rcases hfs f hf with ⟨c, value, rfl⟩ | ⟨guards, rfl⟩ <;> exact id
  | fill => exact .of_not_books fun f hf => (isQuiet_afterPut hf).not_books
  | discarded guards body => exact .of_not_books fun f hf => (isQuiet_dropPending hf).not_books
  | @reserved q pool job next hpool =>
    by_cases hq : q = p
    · subst hq
      exact .of_booking (.reserved job next (hkeep.pool ⟨pool, hpool⟩))
    · exact .of_not_books (by simp [Books, hq])
  | @woken q t seen target =>
    by_cases hq : q = p
    · subst hq
      exact .of_booking (.woken t)
    · exact .of_not_books (by simp [Books, hq])
  | @settled q t outcome =>
    by_cases hq : q = p
    · subst hq
      exact .of_booking (.ended t outcome (hended t outcome rfl))
    · exact .of_not_books (by simp [Books, hq])
  | @parked q t pool hpool =>
    by_cases hq : q = p
    · subst hq
      exact .of_booking (.parked (hkeep.pool ⟨pool, hpool⟩) List.suffix_rfl)
    · exact .of_not_books (by simp [Books, hq])
  | @requeued q t =>
    by_cases hq : q = p
    · subst hq
      exact .of_booking (.resumed t (List.suffix_append [Frame.count q .activeUp, .count q .resumed] _))
    · exact .of_not_books (by simp [Books, hq])
  | @collected q tasks =>
    -- a pool that is released counts down by all its tasks at once, but it is closed by then
    have hq : q ≠ p := fun hq => hp (hq ▸ hf)
    exact .of_not_books (by simp [Books, hq])
  | @made q | @handedBack q | @tallied q =>
    have hq : q ≠ p := hbooks
    exact .of_not_books (by simp [Books, hq])
  | joined n => exact .of_not_books (by simp [Books, or_imp, forall_and])
  | _ => exact .of_not_books (by simp [Books])

/-- A step of a booking is followed by the next one, and by nothing above it. -/
theorem step_of_booking (h : Booking p s (f :: now)) :
    now = [] ∧ BooksFirst p (f.step start worker choice s).1 (f.step start worker choice s).2 ∨
      (f.step start worker choice s).2 = [] := by
  have finite : ∀ {fs : List (Frame V J)},
      (∀ g ∈ fs, g.step start worker choice s = ((g.step start worker choice s).1, [])) →
      f :: now <:+ fs → (f.step start worker choice s).2 = [] := fun hfs h => by
    rw [hfs f (h.subset (List.mem_cons_self ..))]
  cases h with
  | reserved job next hp =>
    refine .inl ⟨rfl, ?_⟩
    simp only [step, stepSpawn]
    split
    · exact .of_not_books (by simp [Books])
    · exact ⟨_, [.run _], rfl, .made _ List.suffix_rfl, by simp [Books]⟩
  | woken t =>
    refine .inl ⟨rfl, ?_⟩
    simp only [step, stepReschedule]
    split
    · exact .of_booking (.resumed t List.suffix_rfl)
    · exact .of_booking .nil
  | ended t outcome ht =>
    refine .inl ⟨rfl, ?_⟩
    obtain ⟨y, hy, hend⟩ := ht
    simp only [step, stepTask_tally]
    split
    · exact .of_booking .nil
    · split
      · exact .of_booking .nil
      · refine .of_booking (.finished t ⟨y, ?_, hend⟩ List.suffix_rfl)
        rwa [Store.task?_modifyPool fun pool => by rw [tallied_eq]]
  | made t h | resumed t h | parked hp h | finished t ht h => exact .inr (finite (by simp [step, stepTask]) h)

/-- A thread that books goes on with that. -/
theorem BooksFirst.step (h : BooksFirst p s (f :: below)) (hf : f.Ok worker s) (hp : ¬ s.Closed p)
    (hmade : ∀ t, f.holds worker p t ≠ 0 → ∃ y, s.task? p t = some y)
    (hkeep : s.Retains (f.step start worker choice s).1 p) :
    BooksFirst p (f.step start worker choice s).1 ((f.step start worker choice s).2 ++ below) := by
  obtain ⟨now, later, heq, hnow, hlater⟩ := h
  cases now with
  | nil =>
    rw [List.nil_append] at heq
    subst heq
    exact (booksFirst_step_of_not_books hf hp hmade hkeep (hlater f (List.mem_cons_self ..))).append
      fun g hg => hlater g (List.mem_cons_of_mem _ hg)
  | cons f' now =>
    rw [List.cons_append, List.cons.injEq] at heq
    obtain ⟨rfl, rfl⟩ := heq
    have hstep : now = [] ∧ BooksFirst p (f.step start worker choice s).1 (f.step start worker choice s).2 ∨
        (f.step start worker choice s).2 = [] := step_of_booking hnow
    rcases hstep with ⟨rfl, hfs⟩ | hfs
    · exact hfs.append hlater
    · rw [hfs]
      exact ⟨now, later, rfl, hnow.tail.mono hkeep, hlater⟩

end Frame

section change

variable {start : J → Except RuntimeError (Body V J)} {p : PoolId} {t : TaskId} {s : Store V J} {f : Frame V J}
  {x y : Option (Task V J)} {d e rest : Multiset (Hold V J)}

/-- A task of a running pool that is finished stays so. -/
theorem Exact.isTerminal_of_change (hp : s.Running p) (hx : Exact x (d + rest)) (h : Change start p t s f x d y e)
    (hend : ∃ z, x = some z ∧ z.state.isTerminal = true) : ∃ z, y = some z ∧ z.state.isTerminal = true := by
  obtain ⟨z, rfl, hz⟩ := hend
  have hrest : d = 0 := by
    rcases hx with ⟨hT, -⟩ | ⟨k, -, hk⟩
    · exact Multiset.le_zero.1 (hT ▸ Multiset.le_add_right d rest)
    · rcases hk.state with h | h | h <;> rw [h] at hz <;> cases hz
  cases h with
  | stay => exact ⟨z, rfl, hz⟩
  | wake hstate | notify hstate => rw [hstate] at hz; cases hz
  | flag => exact ⟨_, rfl, hz⟩
  | lose hp' | close hp' => exact absurd hp hp'
  | _ => simp at hrest

end change

namespace Machine

variable {start : J → Except RuntimeError (Body V J)} {m : Machine V J} {p : PoolId}

/-- As long as a pool is not closed, no move loses it or takes back the end of one of its tasks. -/
theorem Scheduled.retains (hm : m.Scheduled) (mv : Move V J) (hp : ¬ m.store.Closed p) :
    m.store.Retains (m.after start mv).store p := by
  refine ⟨fun ⟨pool, hpool⟩ => ?_, fun t hend => ?_⟩
  · obtain ⟨pool', hpool', -⟩ := m.after_keeps start mv p pool hpool
    exact ⟨pool', hpool'⟩
  · obtain ⟨y, hy, -⟩ := id hend
    obtain ⟨pool, hpool, -⟩ := Store.exists_pool_of_task? hy
    have hrunning := Store.running_of_not_closed hp hpool
    rcases change start hm.framed (hm.sound p t).made mv with ⟨-, hx, -⟩ | ⟨i, worker, f, d, e, rest, -, hd, -, hc⟩
    · rwa [Store.HasEnded, hx]
    · exact (hd ▸ hm.exact p t hrunning : Exact _ (d + rest)).isTerminal_of_change hrunning hc hend

/-- What a thread is about to do with a task, it does with one that was made. -/
theorem Scheduled.made (hm : m.Scheduled) {i : Nat} {worker : Option (PoolId × Nat)} {f : Frame V J}
    {rest : List (Frame V J)} (hi : m.threads[i]? = some ⟨worker, f :: rest⟩) (t : TaskId)
    (hf : f.holds worker p t ≠ 0) : ∃ y, m.store.task? p t = some y := by
  obtain ⟨others, hbefore, -⟩ := holds_set hi p t
  refine Option.ne_none_iff_exists'.1 fun hx => hf ?_
  have hle : f.holds worker p t ≤ m.holds p t := by
    rw [hbefore]
    exact (Multiset.le_add_left _ _).trans (Multiset.le_add_right _ _)
  rwa [(hm.sound p t).made hx, Multiset.le_zero] at hle

/-- On every thread, the bookings of pools that are not closed come first. -/
def BooksFirst (m : Machine V J) : Prop :=
  ∀ p, ¬ m.store.Closed p → ∀ (i : Nat) (th : Thread V J), m.threads[i]? = some th →
    Frame.BooksFirst p m.store th.stack

theorem BooksFirst.initial (n : Nat) : (withCells n : Machine V J).BooksFirst := by
  intro p _ i th hi
  simp [withCells] at hi

theorem BooksFirst.after (hm : m.Scheduled) (h : m.BooksFirst) (mv : Move V J) : (m.after start mv).BooksFirst := by
  intro p hclosed
  have hp : ¬ m.store.Closed p := fun hc => hclosed (hc.mono (m.after_keeps start mv))
  clear hclosed
  have hkeep : m.store.Retains (m.after start mv).store p := hm.retains mv hp
  have outside : ∀ {s : Store V J} {frames : List (Frame V J)}, m.store.Retains s p → (∀ f ∈ frames, ¬ f.Books p) →
      ∀ (i : Nat) (th : Thread V J), (spawnThread ⟨s, m.threads⟩ frames).threads[i]? = some th →
        Frame.BooksFirst p s th.stack := by
    intro s frames hs hframes i th hi
    simp only [spawnThread, Array.getElem?_push] at hi
    split at hi
    · cases hi
      exact .of_not_books hframes
    · exact (h p hp i th hi).mono hs
  cases mv with
  | step j choice =>
    rcases m.after_step start j choice with ⟨heq, -⟩ | ⟨worker, f, rest, hj, -, -, -, heq⟩
    · rw [heq]
      exact h p hp
    · rw [heq] at hkeep ⊢
      intro i th hi
      rcases thread_of_set hj hi with ⟨-, rfl⟩ | ⟨-, hi⟩
      · exact (h p hp j _ hj).step (hm.framed.frames j _ hj f (by simp)) hp (hm.made hj) hkeep
      · exact (h p hp i th hi).mono hkeep
  | startPool config =>
    rcases m.after_startPool start config with heq | heq
    · rw [heq]
      exact h p hp
    · rw [heq] at hkeep ⊢
      intro i th hi
      simp only [addPool, Array.getElem?_append] at hi
      split at hi
      · exact (h p hp i th hi).mono hkeep
      · simp only [workers, List.getElem?_toArray, List.getElem?_map, Option.map_eq_some_iff] at hi
        obtain ⟨w, -, rfl⟩ := hi
        exact .of_not_books (by simp [Frame.Books])
  | enter body => exact outside hkeep (by simp [Frame.Books])
  | poll =>
    simp only [Machine.after] at hkeep ⊢
    split
    · rename_i r hr
      rw [hr] at hkeep
      exact outside hkeep (by simp [Frame.Books])
    · exact h p hp
  | discard =>
    simp only [Machine.after] at hkeep ⊢
    split
    · rename_i r hr
      rw [hr] at hkeep
      exact outside hkeep fun f hf => (Frame.isQuiet_dropPending hf).not_books
    · exact h p hp

end Machine
end Dataflow
