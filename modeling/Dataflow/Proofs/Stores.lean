import Dataflow.Pool.Store
import Mathlib

/-!
# Looking into a store

What a change of one pool or one task does to everything else that is read from the store: the tasks
(`task?`), how often a task is in the ready queues of its pool (`waiting`), and whether a pool is running
(`Running`). The queues are counted by the lists that they hold.
-/

namespace Dataflow

/-- A list with one entry replaced, as seen by a sum. -/
theorem exists_sum_set {α M : Type} [AddCommMonoid M] (g : α → M) {xs : List α} {i : Nat} {a : α}
    (h : xs[i]? = some a) :
    ∃ rest, (xs.map g).sum = g a + rest ∧ ∀ b, ((xs.set i b).map g).sum = g b + rest := by
  induction xs generalizing i with
  | nil => simp at h
  | cons x xs ih =>
    cases i with
    | zero =>
      simp only [List.getElem?_cons_zero, Option.some.injEq] at h
      subst h
      exact ⟨(xs.map g).sum, by simp, by simp⟩
    | succ i =>
      obtain ⟨rest, h1, h2⟩ := ih (by simpa using h)
      refine ⟨g x + rest, ?_, fun b => ?_⟩
      · rw [List.map_cons, List.sum_cons, h1, add_left_comm]
      · rw [List.set_cons_succ, List.map_cons, List.sum_cons, h2, add_left_comm]

section modify

variable {α : Type} (xs : Array α) (i : Nat) (f g : α → α)

theorem modify_id : xs.modify i id = xs := by
  refine Array.ext_getElem? fun k => ?_
  rw [Array.getElem?_modify, Option.map_id, id, ite_self]

theorem modify_modify : (xs.modify i f).modify i g = xs.modify i fun a => g (f a) := by
  refine Array.ext_getElem? fun k => ?_
  simp only [Array.getElem?_modify]
  split
  · cases xs[k]? <;> rfl
  · rfl

variable {xs i f g}

theorem modify_comm {j : Nat} (h : i = j → ∀ a, xs[i]? = some a → f (g a) = g (f a)) :
    (xs.modify i f).modify j g = (xs.modify j g).modify i f := by
  refine Array.ext_getElem? fun k => ?_
  simp only [Array.getElem?_modify]
  by_cases hi : i = k
  · by_cases hj : j = k
    · subst hi hj
      simp only [if_true]
      cases ha : xs[j]? with
      | none => rfl
      | some a => simp only [Option.map_some, h rfl a ha]
    · simp [hj]
  · simp [hi]

/-- A new item does not come before one that is there. -/
theorem push_modify {a : α} (h : i < xs.size) :
    (xs.modify i f).push a = (xs.push a).modify i f := by
  refine Array.ext_getElem? fun k => ?_
  simp only [Array.getElem?_modify, Array.getElem?_push, Array.size_modify]
  by_cases hi : i = k
  · subst hi
    simp [Nat.ne_of_lt h]
  · simp [hi]

theorem map_modify (h : ∀ a, g (f a) = f (g a)) :
    (xs.modify i f).map g = (xs.map g).modify i f := by
  refine Array.ext_getElem? fun k => ?_
  simp only [Array.getElem?_modify, Array.getElem?_map]
  split
  · cases xs[k]? with
    | none => rfl
    | some a => simp only [Option.map_some, h]
  · rfl

end modify

namespace Queue

variable {α : Type} {q q' : Queue α} {a : α}

theorem items_of_popFront (h : q.popFront = (some a, q')) : q.items = a :: q'.items := by
  obtain ⟨h1, h2⟩ := q.popFront_eq
  rw [h] at h1 h2
  cases hq : q.items with
  | nil => simp [hq] at h1
  | cons b rest =>
    simp only [hq, List.head?_cons, Option.some.injEq, List.tail_cons] at h1 h2
    rw [h1, h2]

end Queue

namespace LocalQueues

variable {α : Type} [DecidableEq α] {s s' : LocalQueues α} {w : Nat} {a b : α}

/-- How often an item is in the queues of all workers together. -/
def count (s : LocalQueues α) (a : α) : Nat := (s.queues.map fun q => q.items.count a).sum

theorem count_setQueue {q : Queue α} (h : s.queue? w = some q) (a : α) :
    ∃ rest, s.count a = q.items.count a + rest ∧ ∀ q', (s.setQueue w q').count a = q'.items.count a + rest :=
  exists_sum_set _ h

@[simp] theorem workers_setQueue {α : Type} (s : LocalQueues α) (w : Nat) (q : Queue α) :
    (s.setQueue w q).workers = s.workers := by
  simp [setQueue, workers]

theorem count_setQueue_empty_le (s : LocalQueues α) (w : Nat) (a : α) :
    (s.setQueue w {}).count a ≤ s.count a := by
  cases hq : s.queue? w with
  | none =>
    have : s.queues.set w {} = s.queues := List.set_eq_of_length_le (List.getElem?_eq_none_iff.1 hq)
    simp [count, setQueue, this]
  | some q =>
    obtain ⟨rest, h1, h2⟩ := count_setQueue hq a
    rw [h1, h2]
    exact Nat.add_le_add_right (Nat.zero_le _) _

theorem queue?_eq_some_of_lt {α : Type} {s : LocalQueues α} {w : Nat} (h : w < s.workers) :
    ∃ q, s.queue? w = some q := by
  exact ⟨_, List.getElem?_eq_getElem h⟩

theorem push?_eq_some {α : Type} {s s' : LocalQueues α} {w : Nat} {a : α} (h : s.push? w a = some s') :
    ∃ q, s.queue? w = some q ∧ s' = s.setQueue w (q.push a) := by
  obtain ⟨q, hq, rfl⟩ := Option.map_eq_some_iff.1 h
  exact ⟨q, hq, rfl⟩

theorem count_push? (h : s.push? w b = some s') (a : α) :
    s'.count a = s.count a + [b].count a := by
  obtain ⟨q, hq, rfl⟩ := push?_eq_some h
  obtain ⟨rest, h1, h2⟩ := count_setQueue hq a
  rw [h1, h2, Queue.items_push, List.count_append]
  omega

theorem count_extend? (hw : w < s.workers) (bs : List α) (a : α) :
    ((s.extend? w bs).getD s).count a = s.count a + bs.count a := by
  obtain ⟨q, hq⟩ := queue?_eq_some_of_lt hw
  obtain ⟨rest, h1, h2⟩ := count_setQueue hq a
  simp only [extend?, hq, Option.map_some, Option.getD_some]
  rw [h1, h2, Queue.items_extend, List.count_append]
  omega

theorem workers_extend? {α : Type} (s : LocalQueues α) (w : Nat) (bs : List α) :
    ((s.extend? w bs).getD s).workers = s.workers := by
  unfold extend?
  cases s.queue? w <;> simp

theorem count_popLocal (h : s.popLocal w = (some b, s')) (a : α) :
    s.count a = s'.count a + [b].count a := by
  unfold popLocal at h
  cases hq : s.queue? w with
  | none => simp [hq] at h
  | some q =>
    obtain ⟨rest, h1, h2⟩ := count_setQueue hq a
    rcases hp : q.popFront with ⟨b', q'⟩
    simp only [hq, hp, Prod.mk.injEq] at h
    obtain ⟨rfl, rfl⟩ := h
    rw [h1, h2, Queue.items_of_popFront hp, ← List.singleton_append, List.count_append]
    omega

theorem workers_popLocal {α : Type} (s : LocalQueues α) (w : Nat) :
    (s.popLocal w).2.workers = s.workers := by
  unfold popLocal
  cases s.queue? w <;> simp

theorem count_stealFrom (s : LocalQueues α) (victim max : Nat) (a : α) :
    s.count a = (s.stealFrom victim max).2.count a + (s.stealFrom victim max).1.count a := by
  unfold stealFrom
  cases hq : s.queue? victim with
  | none => simp
  | some q =>
    obtain ⟨rest, h1, h2⟩ := count_setQueue hq a
    rw [h1, h2, ← (q.items_stealBack max).1, List.count_append]
    dsimp only
    omega

theorem workers_stealFrom {α : Type} (s : LocalQueues α) (victim max : Nat) :
    (s.stealFrom victim max).2.workers = s.workers := by
  unfold stealFrom
  cases s.queue? victim <;> simp

theorem popLocal_of_empty {α : Type} {s : LocalQueues α} (h : ∀ q ∈ s.queues, q.items = []) (w : Nat) :
    (s.popLocal w).1 = none := by
  unfold popLocal
  split
  · rfl
  · rename_i q hq
    rw [(Queue.popFront_eq q).1, h q (List.mem_of_getElem? hq)]
    rfl

theorem stealFrom_of_empty {α : Type} {s : LocalQueues α} (h : ∀ q ∈ s.queues, q.items = []) (victim max : Nat) :
    (s.stealFrom victim max).1 = [] := by
  unfold stealFrom
  split
  · rfl
  · rename_i q hq
    have hitems := (Queue.items_stealBack q max).1
    rw [h q (List.mem_of_getElem? hq)] at hitems
    exact (List.append_eq_nil_iff.1 hitems).2

theorem empty_setQueue {α : Type} {s : LocalQueues α} (h : ∀ q ∈ s.queues, q.items = []) (w : Nat) :
    ∀ q ∈ (s.setQueue w {}).queues, q.items = [] :=
  fun q hq => (List.mem_or_eq_of_mem_set hq).elim (h q) fun hq => hq ▸ rfl

end LocalQueues

/-- How often a task is in the ready queues. -/
def Pool.waiting {V J : Type} (pool : Pool V J) (t : TaskId) : Nat :=
  pool.injector.items.count t + pool.locals.count t

namespace Store

variable {V J : Type} (s : Store V J) (p q : PoolId) (t u : TaskId)

/-- How often a task is in the ready queues of its pool. -/
def waiting : Nat := (s.pools[p]?.map fun pool => pool.waiting t).getD 0

/-- The pool has been started and not been closed. -/
def Running : Prop := ∃ pool, s.pools[p]? = some pool ∧ pool.running = true

theorem running_iff : s.Running p ↔ (s.pools[p]?.map (·.running)).getD false = true := by
  unfold Running
  cases s.pools[p]? <;> simp

theorem pools_modifyPool (g : Pool V J → Pool V J) :
    (s.modifyPool q g).pools[p]? = if q = p then s.pools[p]?.map g else s.pools[p]? := by
  simp [modifyPool, Array.getElem?_modify]

/-- A pool that is known is replaced. -/
theorem modifyPool_eq {s : Store V J} {p : PoolId} {pool : Pool V J} (hpool : s.pools[p]? = some pool)
    (g : Pool V J → Pool V J) : s.modifyPool p g = s.modifyPool p fun _ => g pool := by
  have hpools : s.pools.modify p g = s.pools.modify p fun _ => g pool := by
    refine Array.ext_getElem? fun q => ?_
    rw [Array.getElem?_modify, Array.getElem?_modify]
    split
    · rename_i hq
      rw [← hq, hpool]
      rfl
    · rfl
  rw [modifyPool, modifyPool, hpools]

theorem modifyPool_self {s : Store V J} {p : PoolId} {pool : Pool V J} (hpool : s.pools[p]? = some pool) :
    (s.modifyPool p fun _ => pool) = s := by
  rw [← show s.modifyPool p id = s.modifyPool p fun _ => pool from modifyPool_eq hpool id, modifyPool, modify_id]

theorem modifyPool_modifyPool (f g : Pool V J → Pool V J) :
    (s.modifyPool p f).modifyPool p g = s.modifyPool p fun x => g (f x) := by
  rw [modifyPool, modifyPool, modifyPool, modify_modify]

theorem pools_modifyPool_const {s : Store V J} {p : PoolId} {pool : Pool V J} (hpool : s.pools[p]? = some pool)
    (pool' : Pool V J) : (s.modifyPool p fun _ => pool').pools[p]? = some pool' := by
  rw [pools_modifyPool, if_pos rfl, hpool]
  rfl

theorem task?_eq : s.task? p t = s.pools[p]?.bind (·.tasks[t]?) := rfl

variable {s p q t u}

section modifyPool

variable {g : Pool V J → Pool V J}

theorem task?_modifyPool (hg : ∀ pool, (g pool).tasks = pool.tasks) :
    (s.modifyPool q g).task? p t = s.task? p t := by
  rw [task?_eq, task?_eq, pools_modifyPool]
  split
  · cases s.pools[p]? <;> simp [hg]
  · rfl

theorem task?_modifyPool_of_ne (h : q ≠ p) : (s.modifyPool q g).task? p t = s.task? p t := by
  rw [task?_eq, task?_eq, pools_modifyPool, if_neg h]

theorem task?_clearRegistry :
    (s.modifyPool p (·.clearRegistry)).task? p t = (s.task? p t).map fun x => { x with registered := false } := by
  rw [task?_eq, task?_eq, pools_modifyPool, if_pos rfl]
  cases s.pools[p]? <;> simp [Pool.clearRegistry]

theorem waiting_modifyPool
    (hg : ∀ pool, (g pool).injector = pool.injector ∧ (g pool).locals.queues = pool.locals.queues) :
    (s.modifyPool q g).waiting p t = s.waiting p t := by
  unfold waiting
  rw [pools_modifyPool]
  split
  · cases s.pools[p]? <;> simp [Pool.waiting, LocalQueues.count, hg]
  · rfl

theorem waiting_of_pool {pool : Pool V J} (hp : s.pools[p]? = some pool) :
    s.waiting p t = pool.waiting t := by
  simp [waiting, hp]

theorem waiting_modifyPool_of_pool {pool : Pool V J} (hp : s.pools[p]? = some pool) :
    (s.modifyPool p g).waiting p t = (g pool).waiting t :=
  waiting_of_pool (by simp [pools_modifyPool, hp])

theorem waiting_modifyPool_of_ne (h : q ≠ p) : (s.modifyPool q g).waiting p t = s.waiting p t := by
  simp [waiting, pools_modifyPool, h]

theorem exists_pool_of_task? {x : Task V J} (h : s.task? p t = some x) :
    ∃ pool, s.pools[p]? = some pool ∧ pool.tasks[t]? = some x := by
  rw [task?_eq] at h
  exact Option.bind_eq_some_iff.1 h

theorem running_modifyPool (hg : ∀ pool, (g pool).running = pool.running) :
    (s.modifyPool q g).Running p ↔ s.Running p := by
  rw [running_iff, running_iff, pools_modifyPool]
  split
  · cases s.pools[p]? <;> simp [hg]
  · rfl

end modifyPool

section modifyTask

variable {f : Task V J → Task V J}

theorem task?_modifyTask :
    (s.modifyTask q u f).task? p t = if q = p ∧ u = t then (s.task? p t).map f else s.task? p t := by
  rw [task?_eq, task?_eq, modifyTask, pools_modifyPool]
  by_cases hp : q = p
  · subst hp
    cases s.pools[q]? with
    | none => simp
    | some pool =>
      by_cases ht : u = t
      · subst ht; simp [Array.getElem?_modify]
      · simp [Array.getElem?_modify, ht]
  · simp [hp]

theorem modifyTask_modifyTask (g : Task V J → Task V J) :
    (s.modifyTask p t f).modifyTask p t g = s.modifyTask p t fun y => g (f y) := by
  simp only [modifyTask, modifyPool_modifyPool, modify_modify]

theorem task?_modifyTask_self : (s.modifyTask p t f).task? p t = (s.task? p t).map f := by
  simp [task?_modifyTask]

theorem task?_modifyTask_of_ne (h : ¬ (q = p ∧ u = t)) :
    (s.modifyTask q u f).task? p t = s.task? p t := by
  simp [task?_modifyTask, h]

@[simp] theorem waiting_modifyTask : (s.modifyTask q u f).waiting p t = s.waiting p t :=
  waiting_modifyPool fun _ => ⟨rfl, rfl⟩

@[simp] theorem running_modifyTask : (s.modifyTask q u f).Running p ↔ s.Running p :=
  running_modifyPool fun _ => rfl

end modifyTask

/-- Pools are never given up, and are closed at most once; their configuration and the number of their
queues stay. -/
def Keeps (s s' : Store V J) : Prop :=
  ∀ (p : PoolId) (pool : Pool V J), s.pools[p]? = some pool →
    ∃ pool' : Pool V J, s'.pools[p]? = some pool' ∧
      (pool'.running = true → pool.running = true) ∧ pool'.config = pool.config ∧
      pool'.locals.workers = pool.locals.workers

theorem Keeps.refl (s : Store V J) : s.Keeps s := fun _ pool h => ⟨pool, h, id, rfl, rfl⟩

theorem Keeps.of_pools_eq {s s' : Store V J} (h : s'.pools = s.pools) : s.Keeps s' :=
  fun _ pool hp => ⟨pool, by rw [h, hp], id, rfl, rfl⟩

theorem Keeps.trans {s s' s'' : Store V J} (h : s.Keeps s') (h' : s'.Keeps s'') : s.Keeps s'' := by
  intro p pool hp
  obtain ⟨pool', hp', hr, hc, hw⟩ := h p pool hp
  obtain ⟨pool'', hp'', hr', hc', hw'⟩ := h' p pool' hp'
  exact ⟨pool'', hp'', hr ∘ hr', hc'.trans hc, hw'.trans hw⟩

theorem Keeps.modifyPool {g : Pool V J → Pool V J}
    (hg : ∀ pool, s.pools[q]? = some pool → ((g pool).running = true → pool.running = true) ∧
      (g pool).config = pool.config ∧ (g pool).locals.workers = pool.locals.workers) :
    s.Keeps (s.modifyPool q g) := by
  intro p pool hp
  rw [pools_modifyPool]
  split
  · subst q
    exact ⟨g pool, by rw [hp]; rfl, hg pool hp⟩
  · exact ⟨pool, hp, id, rfl, rfl⟩

theorem Keeps.push {pool : Pool V J} : s.Keeps { s with pools := s.pools.push pool } := by
  intro p pool' hp
  have hlt : p < s.pools.size := (Array.getElem?_eq_some_iff.1 hp).1
  exact ⟨pool', by simpa [Array.getElem?_push, Nat.ne_of_lt hlt] using hp, id, rfl, rfl⟩

theorem Keeps.modifyTask {f : Task V J → Task V J} : s.Keeps (s.modifyTask q u f) :=
  Keeps.modifyPool fun _ _ => ⟨id, rfl, rfl⟩

end Store
end Dataflow
