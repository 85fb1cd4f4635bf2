import Dataflow.Proofs.Admission
import Dataflow.Proofs.Finishing
import Dataflow.Proofs.Thefts

/-!
# Searches

A worker looks for its next task in its own queue, then in the queue of the pool, then in the queues of the other
workers. Undisturbed it comes to the end of its search wherever a theft begins (`Machine.inevitable_find`), and then it
has the first task of the first of these places that holds any (`Pool.Finds`): no place is missed, and no task is lost
or changes its place but for the rest of a stolen batch, which ends up in the worker's own queue.
-/

namespace Dataflow

/-- Items in several lists, one of which is replaced. -/
theorem exists_flatten_set {α : Type} {xss : List (List α)} {i : Nat} {xs : List α} (h : xss[i]? = some xs) :
    ∃ others : Multiset α, (xss.flatten : Multiset α) = xs + others ∧
      ∀ ys : List α, ((xss.set i ys).flatten : Multiset α) = ys + others := by
  have hflatten : ∀ yss : List (List α), (yss.flatten : Multiset α) = (yss.map Multiset.ofList).sum := by
    intro yss
    induction yss with
    | nil => rfl
    | cons ys yss ih => rw [List.flatten_cons, ← Multiset.coe_add, ih, List.map_cons, List.sum_cons]
  simp only [hflatten]
  exact exists_sum_set _ h

namespace Pool

variable {V J : Type} {pool pool' : Pool V J} {w : Nat} {t : TaskId} {rest : List TaskId}

/-- What worker `w` of the pool finds, and what it leaves. -/
structure Finds (pool : Pool V J) (w : Nat) (found : Option TaskId) (pool' : Pool V J) : Prop where
  /-- Nothing but the queues changes. -/
  queues : pool' = { pool with injector := pool'.injector, locals := pool'.locals }
  /-- Nothing is found exactly if there is nothing in any of the queues where the worker may look. -/
  eq_none_iff : found = none ↔ pool.locals.contents[w]? = some [] ∧ pool.injector.items = [] ∧
    (pool.config.useWorkStealing = true → ∀ v items, v ≠ w → pool.locals.contents[v]? = some items → items = [])
  nothing : found = none →
    pool'.injector.items = pool.injector.items ∧ pool'.locals.contents = pool.locals.contents
  /-- The task that is found and those left in the queues are those that were there. -/
  perm : (found.toList ++ (pool'.injector.items ++ pool'.locals.contents.flatten)).Perm
    (pool.injector.items ++ pool.locals.contents.flatten)
  /-- The first task of the worker's own queue comes before all others, -/
  own : ∀ t rest, pool.locals.contents[w]? = some (t :: rest) → found = some t ∧
    pool'.injector.items = pool.injector.items ∧ pool'.locals.contents = pool.locals.contents.set w rest
  /-- then that of the queue of the pool, -/
  shared : ∀ t rest, pool.locals.contents[w]? = some [] → pool.injector.items = t :: rest → found = some t ∧
    pool'.injector.items = rest ∧ pool'.locals.contents = pool.locals.contents
  /-- and then the first of a batch from the end of another worker's queue. The rest of the batch goes to the end of the
  worker's own queue, which is empty. -/
  stolen : pool.locals.contents[w]? = some [] → pool.injector.items = [] → ∀ t, found = some t →
    ∃ victim items rest, victim ≠ w ∧ pool.locals.contents[victim]? = some items ∧
      items.drop (LocalQueues.kept pool.config.stealBatch items) = t :: rest ∧ pool'.injector.items = [] ∧
      pool'.locals.contents =
        (pool.locals.contents.set victim (items.take (LocalQueues.kept pool.config.stealBatch items))).set w rest

theorem Finds.of_own (hown : pool.locals.contents[w]? = some (t :: rest)) {locals : LocalQueues TaskId}
    (hlocals : locals.contents = pool.locals.contents.set w rest) : pool.Finds w (some t) { pool with locals } := by
  refine ⟨rfl, iff_of_false (Option.some_ne_none t) ?_, fun h => absurd h (Option.some_ne_none t), ?_, ?_, ?_, ?_⟩
  · rintro ⟨hempty, -⟩
    cases hown.symm.trans hempty
  · obtain ⟨others, hbefore, hafter⟩ := exists_flatten_set hown
    have hfirst : ((t :: rest : List TaskId) : Multiset TaskId) = ([t] : List TaskId) + rest := rfl
    rw [← Multiset.coe_eq_coe, hlocals]
    simp only [Option.toList_some, ← Multiset.coe_add, hbefore, hafter, hfirst]
    abel
  · intro u us hu
    cases hown.symm.trans hu
    exact ⟨rfl, rfl, hlocals⟩
  · intro u us hempty
    cases hown.symm.trans hempty
  · intro hempty
    cases hown.symm.trans hempty

theorem Finds.of_shared (hown : pool.locals.contents[w]? = some []) (hshared : pool.injector.items = t :: rest)
    {injector : Queue TaskId} (hinjector : injector.items = rest) : pool.Finds w (some t) { pool with injector } := by
  refine ⟨rfl, iff_of_false (Option.some_ne_none t) ?_, fun h => absurd h (Option.some_ne_none t), ?_, ?_, ?_, ?_⟩
  · rintro ⟨-, hempty, -⟩
    cases hshared.symm.trans hempty
  · rw [hshared, hinjector]
    exact .refl _
  · intro u us hu
    cases hown.symm.trans hu
  · intro u us _ hu
    cases hshared.symm.trans hu
    exact ⟨rfl, hinjector, rfl⟩
  · intro _ hempty
    cases hshared.symm.trans hempty

theorem Finds.of_nothing (hown : pool.locals.contents[w]? = some []) (hshared : pool.injector.items = [])
    (hothers : pool.config.useWorkStealing = true → ∀ v items, v ≠ w → pool.locals.contents[v]? = some items → items = [])
    {locals : LocalQueues TaskId} (hlocals : locals.contents = pool.locals.contents) :
    pool.Finds w none { pool with locals } := by
  refine ⟨rfl, iff_of_true rfl ⟨hown, hshared, hothers⟩, fun _ => ⟨rfl, hlocals⟩, ?_, ?_, ?_, ?_⟩
  · rw [hlocals]
    exact .refl _
  · intro u us hu
    cases hown.symm.trans hu
  · intro u us _ hu
    cases hshared.symm.trans hu
  · intro _ _ u hu
    cases hu

theorem Finds.of_stolen (hown : pool.locals.contents[w]? = some []) (hshared : pool.injector.items = [])
    (hsteals : pool.config.useWorkStealing = true) {victim : Nat} {items : List TaskId} (hne : victim ≠ w)
    (hitems : pool.locals.contents[victim]? = some items)
    (htaken : items.drop (LocalQueues.kept pool.config.stealBatch items) = t :: rest) {locals : LocalQueues TaskId}
    (hlocals : locals.contents =
      (pool.locals.contents.set victim (items.take (LocalQueues.kept pool.config.stealBatch items))).set w rest) :
    pool.Finds w (some t) { pool with locals } := by
  refine ⟨rfl, iff_of_false (Option.some_ne_none t) ?_, fun h => absurd h (Option.some_ne_none t), ?_, ?_, ?_, ?_⟩
  · rintro ⟨-, -, hothers⟩
    rw [hothers hsteals victim items hne hitems, List.drop_nil] at htaken
    cases htaken
  · -- the batch leaves the victim's queue, and all but its first task enter the worker's own
    have hown' : (pool.locals.contents.set victim (items.take (LocalQueues.kept pool.config.stealBatch items)))[w]? =
        some [] := by rw [List.getElem?_set_ne hne, hown]
    obtain ⟨others, hbefore, hafter⟩ := exists_flatten_set hitems
    obtain ⟨others', hbefore', hafter'⟩ := exists_flatten_set hown'
    have hsplit : (items : Multiset TaskId) =
        items.take (LocalQueues.kept pool.config.stealBatch items) + (([t] : List TaskId) + rest) := by
      conv_lhs => rw [← List.take_append_drop (LocalQueues.kept pool.config.stealBatch items) items, htaken]
      rfl
    rw [hafter, Multiset.coe_nil, zero_add] at hbefore'
    rw [← Multiset.coe_eq_coe, hlocals, hshared]
    simp only [Option.toList_some, List.nil_append, ← Multiset.coe_add, hbefore, hafter', ← hbefore', hsplit]
    abel
  · intro u us hu
    cases hown.symm.trans hu
  · intro u us _ hu
    cases hshared.symm.trans hu
  · intro _ _ u hu
    cases hu
    exact ⟨victim, items, rest, hne, hitems, htaken, hshared, hlocals⟩

end Pool

namespace Machine

variable {V J : Type} {start : J → Except RuntimeError (Body V J)} {goal : Machine V J → Prop}
  {threads : Array (Thread V J)} {i : Nat} {p : PoolId} {w : Nat} {rest : List (Frame V J)} {s : Store V J} {pool : Pool V J}

/-- What a worker goes on with when it has found a task, or none. -/
def afterSearch (p : PoolId) : Option TaskId → List (Frame V J)
  | some t => [.task p t .claim, .work .loop]
  | none => [.work .idle]

/-- A worker that looks for tasks never waits. -/
theorem inevitable_work {seek : Seek} (hi : i < threads.size) (halive : s.aborted = false)
    (h : ∀ choice, Inevitable start (fun _ j => j = i) goal (withStack (Frame.stepWork choice s p w seek).1 threads i
      (some (p, w)) ((Frame.stepWork choice s p w seek).2 ++ rest))) :
    Inevitable start (fun _ j => j = i) goal (withStack s threads i (some (p, w)) (.work seek :: rest)) := by
  have hthread : (withStack s threads i (some (p, w)) (.work seek :: rest)).threads[i]? =
      some ⟨some (p, w), .work seek :: rest⟩ := by
    simp [withStack, hi]
  refine .later ⟨i, 0, rfl, canStep_iff.2 ⟨halive, _, _, _, hthread, rfl⟩⟩ ?_
  rintro j choice rfl hcan
  obtain ⟨worker, f, below, hj, -, heq⟩ := after_of_canStep start hcan
  rw [hthread] at hj
  cases hj
  rw [heq]
  simpa [withStack, Frame.step] using h choice

/-- A theft among workers who are still to be visited. -/
theorem inevitable_theft (hi : i < threads.size) (halive : s.aborted = false) (hpool : s.pools[p]? = some pool)
    (hmax : 0 < pool.config.stealBatch) {visits : List Nat}
    (hfails : ∀ locals, pool.locals.Scans pool.config.stealBatch visits [] locals →
      Inevitable start (fun _ j => j = i) goal
        (withStack (s.modifyPool p fun _ => { pool with locals }) threads i (some (p, w)) (.work .idle :: rest)))
    (hgets : ∀ first batch locals, pool.locals.Scans pool.config.stealBatch visits (first :: batch) locals →
      Inevitable start (fun _ j => j = i) goal (withStack (s.modifyPool p fun _ => { pool with locals }) threads i
        (some (p, w)) (.work (.keep first batch) :: rest))) :
    Inevitable start (fun _ j => j = i) goal (withStack s threads i (some (p, w)) (.work (.theft visits) :: rest)) := by
  induction visits with
  | nil =>
    refine inevitable_work hi halive fun choice => ?_
    have hends := hfails { pool.locals with stats := pool.locals.stats.recordFailure }
      (.nothing (fun v hv => absurd hv List.not_mem_nil) rfl rfl)
    rwa [Frame.stepWork, Store.modifyPool_eq hpool]
  | cons victim visits ih =>
    refine inevitable_work hi halive fun choice => ?_
    -- the worker goes on from a queue without items
    have hpasses : (∀ items, pool.locals.contents[victim]? = some items → items = []) →
        Inevitable start (fun _ j => j = i) goal
          (withStack s threads i (some (p, w)) (.work (.theft visits) :: rest)) := fun hempty =>
      ih (fun locals h => hfails locals (h.cons hempty rfl rfl)) fun first batch locals h =>
        hgets first batch locals (h.cons hempty rfl rfl)
    cases hv : pool.locals.contents[victim]? with
    | none =>
      simp only [Frame.stepWork, hpool, LocalQueues.stealFrom_of_none hv]
      exact hpasses fun items h => by cases hv.symm.trans h
    | some items =>
      obtain ⟨htaken, hcontents, hstats⟩ := LocalQueues.stealFrom_of_contents hv pool.config.stealBatch
      simp only [Frame.stepWork, hpool]
      generalize hsteal : pool.locals.stealFrom victim pool.config.stealBatch = result at htaken hcontents hstats
      obtain ⟨taken, locals⟩ := result
      cases taken with
      | nil =>
        refine hpasses fun items' h => ?_
        cases hv.symm.trans h
        exact (LocalQueues.drop_kept_eq_nil_iff hmax).1 htaken.symm
      | cons first batch =>
        simp only at htaken hcontents hstats ⊢
        have hne : items ≠ [] := fun hnil => by
          rw [hnil, List.drop_nil] at htaken
          cases htaken
        rw [Store.modifyPool_eq hpool]
        refine hgets first batch _ ?_
        rw [htaken]
        exact .batch (List.mem_cons_self ..) hv hne hcontents (by rw [hstats, ← htaken]; rfl)

/-- A worker whose own queue and that of its pool are empty searches those of the others. -/
theorem inevitable_find_others (hi : i < threads.size) (halive : s.aborted = false) (hpool : s.pools[p]? = some pool)
    (hmax : 0 < pool.config.stealBatch) (hown : pool.locals.contents[w]? = some []) (hshared : pool.injector.items = [])
    (hsteals : pool.config.useWorkStealing = true)
    (hgoal : ∀ found pool', pool.Finds w found pool' → goal (withStack (s.modifyPool p fun _ => pool') threads i
      (some (p, w)) (afterSearch p found ++ rest))) (first : Nat) :
    Inevitable start (fun _ j => j = i) goal (withStack s threads i (some (p, w))
      (.work (.theft (LocalQueues.victims pool.locals.workers w first)) :: rest)) := by
  refine inevitable_theft hi halive hpool hmax (fun locals h => ?_) fun t batch locals h => ?_
  · generalize htaken : ([] : List TaskId) = taken at h
    cases h with
    | nothing hempty hcontents hstats =>
      refine .now (hgoal none _ (.of_nothing hown hshared (fun _ v items hne hv => ?_) hcontents))
      have hlt : v < pool.locals.contents.length := (List.getElem?_eq_some_iff.1 hv).1
      exact hempty v (LocalQueues.mem_victims.2 ⟨by simpa using hlt, hne⟩) items hv
    | batch hvictim hitems hne hcontents hstats =>
      exact absurd ((LocalQueues.drop_kept_eq_nil_iff hmax).1 htaken.symm) hne
  · generalize htaken : t :: batch = taken at h
    cases h with
    | nothing hempty hcontents hstats => cases htaken
    | @batch _ victim items hvictim hitems hne hcontents hstats =>
      have hother : victim ≠ w := (LocalQueues.mem_victims.1 hvictim).2
      -- the theft has left the worker's own queue as it was
      have hown' : locals.contents[w]? = some [] := by rw [hcontents, List.getElem?_set_ne hother, hown]
      refine inevitable_work hi halive fun choice => ?_
      simp only [Frame.stepWork]
      rw [Store.modifyPool_eq (Store.pools_modifyPool_const hpool _), Store.modifyPool_modifyPool]
      refine .now (hgoal (some t) _ (.of_stolen hown hshared hsteals hother hitems htaken.symm ?_))
      obtain ⟨extended, hextend, hstolen⟩ := LocalQueues.exists_extend? hown' batch
      rw [hextend, Option.getD_some, hstolen, hcontents, List.nil_append]

/-- A worker looks in its own queue, in that of its pool, and then in those of the others. -/
theorem inevitable_search (hi : i < threads.size) (halive : s.aborted = false) (hpool : s.pools[p]? = some pool)
    (hmax : 0 < pool.config.stealBatch) (hw : w < pool.locals.workers)
    (hgoal : ∀ found pool', pool.Finds w found pool' → goal (withStack (s.modifyPool p fun _ => pool') threads i
      (some (p, w)) (afterSearch p found ++ rest))) :
    Inevitable start (fun _ j => j = i) goal (withStack s threads i (some (p, w)) (.work .own :: rest)) := by
  obtain ⟨items, hown⟩ := LocalQueues.exists_contents hw
  refine inevitable_work hi halive fun choice => ?_
  simp only [Frame.stepWork, hpool]
  cases items with
  | cons t items =>
    obtain ⟨locals, hpop, hlocals⟩ := LocalQueues.popLocal_of_contents hown
    simp only [hpop]
    rw [Store.modifyPool_eq hpool]
    exact .now (hgoal (some t) _ (.of_own hown hlocals))
  | nil =>
    have hpop := LocalQueues.popLocal_of_contents_nil hown
    generalize pool.locals.popLocal w = result at hpop
    obtain ⟨found, locals⟩ := result
    cases hpop
    refine inevitable_work hi halive fun choice => ?_
    obtain ⟨hfirst, hrest⟩ := pool.injector.popFront_eq
    simp only [Frame.stepWork, hpool]
    generalize pool.injector.popFront = result at hfirst hrest
    obtain ⟨found, injector⟩ := result
    cases hshared : pool.injector.items with
    | cons t items =>
      rw [hshared, List.head?_cons] at hfirst
      rw [hshared, List.tail_cons] at hrest
      cases hfirst
      dsimp only
      rw [Store.modifyPool_eq hpool]
      exact .now (hgoal (some t) _ (.of_shared hown hshared hrest))
    | nil =>
      rw [hshared, List.head?_nil] at hfirst
      cases hfirst
      dsimp only
      split
      · rename_i hallowed
        exact inevitable_find_others hi halive hpool hmax hown hshared hallowed.1 hgoal choice
      · rename_i hrefused
        have hnothing : pool.Finds w none pool := by
          refine .of_nothing hown hshared (fun hsteals v items hne hv => absurd ⟨hsteals, ?_⟩ hrefused) rfl
          -- with another worker there would be a theft
          have hlt : v < pool.locals.contents.length := (List.getElem?_eq_some_iff.1 hv).1
          rw [LocalQueues.length_contents] at hlt
          simp only [LocalQueues.canSteal, Bool.and_eq_true, decide_eq_true_eq, ne_eq]
          omega
        have hends := hgoal none pool hnothing
        rw [Store.modifyPool_self hpool] at hends
        exact .now hends

/-- A worker that looks for a task comes to the end of its search, wherever a theft begins, and finds the first task of
the first place that holds any. -/
theorem inevitable_find {m : Machine V J} (hi : m.threads[i]? = some ⟨some (p, w), .work .own :: rest⟩)
    (halive : m.store.aborted = false) (hpool : m.store.pools[p]? = some pool) (hw : w < pool.locals.workers)
    (hmax : 0 < pool.config.stealBatch) :
    Inevitable start (fun _ j => j = i) (fun m' => ∃ found pool', pool.Finds w found pool' ∧ m' = withStack
      (m.store.modifyPool p fun _ => pool') m.threads i (some (p, w)) (afterSearch p found ++ rest)) m := by
  have hlt : i < m.threads.size := (Array.getElem?_eq_some_iff.1 hi).1
  have hends : Inevitable start (fun _ j => j = i) (fun m' => ∃ found pool', pool.Finds w found pool' ∧ m' = withStack
      (m.store.modifyPool p fun _ => pool') m.threads i (some (p, w)) (afterSearch p found ++ rest))
      (withStack m.store m.threads i (some (p, w)) (.work .own :: rest)) :=
    inevitable_search hlt halive hpool hmax hw fun found pool' h => ⟨found, pool', h, rfl⟩
  rwa [withStack_of_thread hi] at hends

/-- A pool with the queues `LocalQueues.uneven`, whose second worker begins to look for a task. -/
def unevenPool : Pool Unit Unit :=
  { config := { numWorkers := 3, stealBatch := 2 }, locals := LocalQueues.uneven }

def searcher : Machine Unit Unit :=
  { store := { pools := #[unevenPool] }, threads := #[⟨some (0, 1), [.work .own]⟩] }

/-- It comes away with one of the tasks of the two others. -/
theorem inevitable_find_uneven :
    searcher.threads[0]? = some ⟨some (0, 1), [.work .own]⟩ ∧ searcher.store.aborted = false ∧
      searcher.store.pools[0]? = some unevenPool ∧ 1 < unevenPool.locals.workers ∧ 0 < unevenPool.config.stealBatch ∧
      Inevitable (fun _ => .ok (.done (.ok ()))) (fun _ j => j = 0) (fun m' => ∃ found pool',
        unevenPool.Finds 1 found pool' ∧ m' = withStack (searcher.store.modifyPool 0 fun _ => pool') searcher.threads 0
          (some (0, 1)) (afterSearch 0 found ++ [])) searcher :=
  ⟨rfl, rfl, rfl, by decide, by decide, inevitable_find rfl rfl rfl (by decide) (by decide)⟩

end Machine
end Dataflow
