import Dataflow.Proofs.Stores

/-!
# Thefts

A thief visits the queues of all other workers (`LocalQueues.mem_victims`) and takes from the first one that holds
anything, so it comes away with nothing only if there is nothing to take (`LocalQueues.steals_stealBatch`). What it takes
is at most half of a queue, rounded up, from its end; the queues are described by the lists that they hold.
-/

namespace Dataflow.LocalQueues

variable {α : Type} {s s' : LocalQueues α} {w thief victim max : Nat} {items : List α}

/-- What the queues hold, by worker. -/
def contents (s : LocalQueues α) : List (List α) := s.queues.map (·.items)

/-- How many items a thief leaves who asks for at most `max`: he never takes more than half of them, rounded up. -/
def kept (max : Nat) (items : List α) : Nat := items.length - min max ((items.length + 1) / 2)

@[simp] theorem length_contents (s : LocalQueues α) : s.contents.length = s.workers := by
  simp [contents, workers]

theorem getElem?_contents (s : LocalQueues α) (w : Nat) : s.contents[w]? = (s.queue? w).map (·.items) := by
  simp [contents, queue?]

@[simp] theorem contents_setQueue (s : LocalQueues α) (w : Nat) (q : Queue α) :
    (s.setQueue w q).contents = s.contents.set w q.items := by
  simp [contents, setQueue, List.map_set]

theorem exists_contents (h : w < s.workers) : ∃ items, s.contents[w]? = some items :=
  ⟨_, List.getElem?_eq_getElem (by simpa using h)⟩

/-- The owner takes the first item of his own queue. -/
theorem popLocal_of_contents {a : α} (h : s.contents[w]? = some (a :: items)) :
    ∃ s', s.popLocal w = (some a, s') ∧ s'.contents = s.contents.set w items := by
  rw [getElem?_contents] at h
  obtain ⟨q, hq, hitems⟩ := Option.map_eq_some_iff.1 h
  obtain ⟨hfirst, hrest⟩ := q.popFront_eq
  rw [hitems] at hfirst hrest
  exact ⟨s.setQueue w q.popFront.2, by simp [popLocal, hq, hfirst], by rw [contents_setQueue, hrest, List.tail_cons]⟩

theorem popLocal_of_contents_nil (h : s.contents[w]? = some []) : (s.popLocal w).1 = none := by
  rw [getElem?_contents] at h
  obtain ⟨q, hq, hitems⟩ := Option.map_eq_some_iff.1 h
  simp [popLocal, hq, q.popFront_eq.1, hitems]

theorem exists_extend? (h : s.contents[w]? = some items) (as : List α) :
    ∃ s', s.extend? w as = some s' ∧ s'.contents = s.contents.set w (items ++ as) := by
  rw [getElem?_contents] at h
  obtain ⟨q, hq, rfl⟩ := Option.map_eq_some_iff.1 h
  exact ⟨s.setQueue w (q.extend as), by simp [extend?, hq], by simp⟩

/-- Nobody steals who may take nothing. -/
theorem pos_of_canSteal (h : s.canSteal max) : 0 < max := by
  simp only [canSteal, Bool.and_eq_true, decide_eq_true_eq] at h
  omega

/-- The thief visits all workers but himself. -/
theorem mem_victims {workers start : Nat} : victim ∈ victims workers thief start ↔ victim < workers ∧ victim ≠ thief := by
  simp only [victims, List.mem_filter, List.mem_map, List.mem_range, decide_eq_true_eq]
  refine and_congr_left fun _ => ⟨?_, fun hlt => ?_⟩
  · rintro ⟨offset, hoffset, rfl⟩
    exact Nat.mod_lt _ (Nat.zero_lt_of_lt hoffset)
  · -- from where he starts he comes to the worker before or after he has gone round
    have hstart : start % workers < workers := Nat.mod_lt _ (Nat.zero_lt_of_lt hlt)
    by_cases hle : start % workers ≤ victim
    · refine ⟨victim - start % workers, by omega, ?_⟩
      rw [← Nat.mod_add_mod, Nat.add_sub_cancel' hle, Nat.mod_eq_of_lt hlt]
    · refine ⟨victim + workers - start % workers, by omega, ?_⟩
      rw [← Nat.mod_add_mod, Nat.add_sub_cancel' (by omega), Nat.add_mod_right, Nat.mod_eq_of_lt hlt]

/-- He takes from the end of a queue and leaves the rest. -/
theorem stealFrom_of_contents (h : s.contents[victim]? = some items) (max : Nat) :
    (s.stealFrom victim max).1 = items.drop (kept max items) ∧
      (s.stealFrom victim max).2.contents = s.contents.set victim (items.take (kept max items)) ∧
      (s.stealFrom victim max).2.stats = s.stats := by
  rw [getElem?_contents] at h
  obtain ⟨q, hq, rfl⟩ := Option.map_eq_some_iff.1 h
  have hkept : q.size - q.share max = kept max q.items := by simp [kept, Queue.share]
  have hitems : ∀ xs : List α, Queue.items ⟨xs, []⟩ = xs := fun xs => by simp [Queue.items]
  simp only [stealFrom, hq, Queue.stealBack, hkept, contents_setQueue, hitems]
  exact ⟨trivial, trivial, rfl⟩

theorem stealFrom_of_none (h : s.contents[victim]? = none) (max : Nat) : s.stealFrom victim max = ([], s) := by
  rw [getElem?_contents] at h
  simp only [stealFrom, Option.map_eq_none_iff.1 h]

/-- Of a queue that holds anything a thief gets something. -/
theorem drop_kept_eq_nil_iff (hmax : 0 < max) : items.drop (kept max items) = [] ↔ items = [] := by
  rw [← List.length_eq_zero_iff, ← List.length_eq_zero_iff, List.length_drop, kept]
  omega

/-- What a thief comes away with who visits queues one after the other: nothing, if they are all empty, or a batch from
one of them. -/
inductive Scans (s : LocalQueues α) (max : Nat) (visits : List Nat) : List α → LocalQueues α → Prop
  | nothing {s' : LocalQueues α} (hempty : ∀ v ∈ visits, ∀ items, s.contents[v]? = some items → items = [])
      (hcontents : s'.contents = s.contents) (hstats : s'.stats = s.stats.recordFailure) : Scans s max visits [] s'
  | batch {s' : LocalQueues α} {victim : Nat} {items : List α} (hvictim : victim ∈ visits)
      (hitems : s.contents[victim]? = some items) (hne : items ≠ [])
      (hcontents : s'.contents = s.contents.set victim (items.take (kept max items)))
      (hstats : s'.stats = s.stats.recordSuccess (items.drop (kept max items)).length) :
      Scans s max visits (items.drop (kept max items)) s'

/-- From a queue without items he goes on. -/
theorem Scans.cons {s₁ : LocalQueues α} {visits : List Nat} {taken : List α} (h : Scans s₁ max visits taken s')
    (hempty : ∀ items, s.contents[victim]? = some items → items = []) (hcontents : s₁.contents = s.contents)
    (hstats : s₁.stats = s.stats) : Scans s max (victim :: visits) taken s' := by
  cases h with
  | nothing hall hcontents' hstats' =>
    rw [hcontents] at hall
    exact .nothing (List.forall_mem_cons.2 ⟨hempty, hall⟩) (hcontents'.trans hcontents) (by rw [hstats', hstats])
  | batch hvictim hitems hne hcontents' hstats' =>
    rw [hcontents] at hitems hcontents'
    exact .batch (List.mem_cons_of_mem _ hvictim) hitems hne hcontents' (by rw [hstats', hstats])

theorem scans_stealAmong (hmax : 0 < max) (s : LocalQueues α) (visits : List Nat) :
    Scans s max visits (s.stealAmong max visits).1 (s.stealAmong max visits).2 := by
  induction visits generalizing s with
  | nil => exact .nothing (fun v hv => absurd hv List.not_mem_nil) rfl rfl
  | cons v visits ih =>
    cases hv : s.contents[v]? with
    | none =>
      have hgoes : s.stealAmong max (v :: visits) = s.stealAmong max visits := by
        simp [stealAmong, stealFrom_of_none hv max]
      rw [hgoes]
      exact (ih s).cons (fun items h => by cases hv.symm.trans h) rfl rfl
    | some items =>
      obtain ⟨htaken, hcontents, hstats⟩ := stealFrom_of_contents hv max
      by_cases hitems : items = []
      · subst hitems
        rw [List.drop_nil] at htaken
        obtain ⟨hlt, hget⟩ := List.getElem?_eq_some_iff.1 hv
        have hsame : s.contents.set v [] = s.contents := by
          conv_rhs => rw [← List.set_getElem_self hlt, hget]
        rw [List.take_nil, hsame] at hcontents
        have hgoes : s.stealAmong max (v :: visits) = (s.stealFrom v max).2.stealAmong max visits := by
          simp [stealAmong, htaken]
        rw [hgoes]
        exact (ih _).cons (fun items h => Option.some.inj (h.symm.trans hv)) hcontents hstats
      · have hne : ¬ (s.stealFrom v max).1.isEmpty := by
          rw [htaken, List.isEmpty_iff]
          exact fun hnil => hitems ((drop_kept_eq_nil_iff hmax).1 hnil)
        have hstops : s.stealAmong max (v :: visits) = ((s.stealFrom v max).1, { (s.stealFrom v max).2 with
            stats := (s.stealFrom v max).2.stats.recordSuccess (s.stealFrom v max).1.length }) := by
          simp [stealAmong, hne]
        rw [hstops, htaken]
        exact .batch (List.mem_cons_self ..) hv hitems hcontents (by rw [hstats])

/-- What a theft does, from `s` to `s'`, for a thief who asks for at most `max` items. -/
structure Steals (s : LocalQueues α) (thief max : Nat) (taken : List α) (s' : LocalQueues α) : Prop where
  /-- The thief gets nothing if he asks for nothing, or if nobody else has anything. -/
  nothing : taken = [] ↔ max = 0 ∨ ∀ w items, w ≠ thief → s.contents[w]? = some items → items = []
  /-- Otherwise he gets the last items of one queue, in their order: as many as he asks for, but not more than half of
  them, rounded up. That queue keeps the others, and all other queues stay as they are. -/
  batch : taken ≠ [] → ∃ victim items, victim ≠ thief ∧ s.contents[victim]? = some items ∧ items ≠ [] ∧
    taken = items.drop (items.length - min max ((items.length + 1) / 2)) ∧
    s'.contents = s.contents.set victim (items.take (items.length - min max ((items.length + 1) / 2)))
  unchanged : taken = [] → s'.contents = s.contents
  /-- One attempt is counted, unless nothing was asked for, and it failed if nothing was found. -/
  failed : 0 < max → taken = [] →
    s'.stats = { s.stats with failures := s.stats.failures + 1, attempts := s.stats.attempts + 1 }
  succeeded : 0 < max → taken ≠ [] →
    s'.stats = { s.stats with
      successes := s.stats.successes + 1
      attempts := s.stats.attempts + 1
      stolen := (s.stats.stolen + taken.length) % counterModulus }
  uncounted : max = 0 → s'.stats = s.stats

/-- Among two or more workers a theft finds something wherever it begins, if there is anything to find. -/
theorem steals_stealBatch (s : LocalQueues α) (hworkers : 2 ≤ s.workers) (thief max start : Nat) :
    s.Steals thief max (s.stealBatch thief max start).1 (s.stealBatch thief max start).2 := by
  rcases Nat.eq_zero_or_pos max with rfl | hmax
  · have hrefused : s.stealBatch thief 0 start = ([], s) := by simp [stealBatch, canSteal]
    rw [hrefused]
    exact ⟨by simp, fun h => absurd rfl h, fun _ => rfl, fun h => absurd h (Nat.lt_irrefl 0),
      fun h => absurd h (Nat.lt_irrefl 0), fun _ => rfl⟩
  · have hscans := scans_stealAmong hmax s (victims s.workers thief start)
    have hallowed : s.stealBatch thief max start = s.stealAmong max (victims s.workers thief start) := by
      simp [stealBatch, canSteal, hworkers, Nat.ne_of_gt hmax]
    rw [hallowed]
    generalize (s.stealAmong max (victims s.workers thief start)).1 = taken,
      (s.stealAmong max (victims s.workers thief start)).2 = s' at hscans ⊢
    cases hscans with
    | nothing hempty hcontents hstats =>
      refine ⟨iff_of_true rfl (.inr fun w items hne hw => ?_), fun h => absurd rfl h, fun _ => hcontents, fun _ _ => hstats,
        fun _ h => absurd rfl h, fun h => absurd h (Nat.ne_of_gt hmax)⟩
      have hlt : w < s.contents.length := (List.getElem?_eq_some_iff.1 hw).1
      exact hempty w (mem_victims.2 ⟨by simpa using hlt, hne⟩) items hw
    | @batch _ victim items hvictim hitems hne hcontents hstats =>
      have htaken : items.drop (kept max items) ≠ [] := fun h => hne ((drop_kept_eq_nil_iff hmax).1 h)
      have hother := (mem_victims.1 hvictim).2
      refine ⟨iff_of_false htaken ?_, fun _ => ⟨victim, items, hother, hitems, hne, rfl, hcontents⟩,
        fun h => absurd h htaken, fun _ h => absurd h htaken, fun _ _ => hstats, fun h => absurd h (Nat.ne_of_gt hmax)⟩
      rintro (h | hall)
      · exact absurd h (Nat.ne_of_gt hmax)
      · exact hne (hall victim items hother hitems)

/-- Three workers, of whom the first has five items and the last one has one. -/
def uneven : LocalQueues Nat := { queues := [⟨[1, 2, 3], [5, 4]⟩, {}, ⟨[], [6]⟩] }

/-- From his own queue on a thief comes to the last worker first, and gets its only item; from the first worker's on he
gets two of the five there. -/
theorem steals_uneven : 2 ≤ uneven.workers ∧
    uneven.Steals 1 2 [6] (uneven.stealBatch 1 2 1).2 ∧ uneven.Steals 1 2 [4, 5] (uneven.stealBatch 1 2 0).2 :=
  ⟨by decide, steals_stealBatch uneven (by decide) 1 2 1, steals_stealBatch uneven (by decide) 1 2 0⟩

end Dataflow.LocalQueues
