import Dataflow.Proofs.Searches

/-!
# Conservation

What is put into the queues of the workers is in one of them until it is taken out, once, by the owner, by a thief or
when all queues are drained (`LocalQueues.conserves_run`). Owners take from the front and thieves from the end, so what
an owner takes and what is left in his queue keeps the order in which it was put there. What a single request does to
the lists that the queues hold is said once, by `LocalQueues.Serves`.
-/

namespace Dataflow

/-- In lists that have no item twice an item is in one list only. -/
theorem existsUnique_mem_of_nodup_flatten {α : Type} {xss : List (List α)} (hnodup : xss.flatten.Nodup) {a : α}
    (ha : a ∈ xss.flatten) : ∃! i : Nat, ∃ xs, xss[i]? = some xs ∧ a ∈ xs := by
  obtain ⟨xs, hxs, hmem⟩ := List.mem_flatten.1 ha
  obtain ⟨i, hi⟩ := List.mem_iff_getElem?.1 hxs
  have hdisjoint := List.pairwise_iff_getElem.1 (List.nodup_flatten.1 hnodup).2
  have hapart : ∀ {j k : Nat} {ys zs : List α}, xss[j]? = some ys → xss[k]? = some zs → a ∈ ys → a ∈ zs → ¬ j < k := by
    intro j k ys zs hj hk hys hzs hlt
    obtain ⟨hjlt, rfl⟩ := List.getElem?_eq_some_iff.1 hj
    obtain ⟨hklt, rfl⟩ := List.getElem?_eq_some_iff.1 hk
    exact hdisjoint j k hjlt hklt hlt hys hzs
  refine ⟨i, ⟨xs, hi, hmem⟩, ?_⟩
  rintro j ⟨ys, hj, hys⟩
  exact Nat.le_antisymm (Nat.not_lt.1 (hapart hi hj hmem hys)) (Nat.not_lt.1 (hapart hj hi hys hmem))

namespace LocalQueues

variable {α : Type}

/-- What may be asked of the queues. -/
inductive Request (α : Type)
  | push (worker : Nat) (a : α)
  | extend (worker : Nat) (as : List α)
  | pop (worker : Nat)
  /-- A theft, which begins at queue `start`. -/
  | steal (thief max start : Nat)
  | drain

/-- What they answer. -/
inductive Reply (α : Type)
  | accepted
  /-- There is no such worker, and the item is given back. -/
  | rejected (a : α)
  /-- There is no such worker. -/
  | noQueue
  | popped (a : Option α)
  | taken (as : List α)

/-- Answer a request. -/
def serve (s : LocalQueues α) : Request α → Reply α × LocalQueues α
  | .push w a =>
    match s.push? w a with
    | some s' => (.accepted, s')
    | none => (.rejected a, s)
  | .extend w as =>
    match s.extend? w as with
    | some s' => (.accepted, s')
    | none => (.noQueue, s)
  | .pop w => (.popped (s.popLocal w).1, (s.popLocal w).2)
  | .steal thief max start => (.taken (s.stealBatch thief max start).1, (s.stealBatch thief max start).2)
  | .drain => (.taken s.drainAll.1, s.drainAll.2)

/-- A request, with its answer and the queues before and after it. -/
structure Event (α : Type) where
  before : LocalQueues α
  request : Request α
  reply : Reply α
  after : LocalQueues α

def event (s : LocalQueues α) (request : Request α) : Event α :=
  ⟨s, request, (s.serve request).1, (s.serve request).2⟩

/-- The queues after a run of requests. -/
def run (s : LocalQueues α) : List (Request α) → LocalQueues α
  | [] => s
  | request :: requests => (s.event request).after.run requests

/-- What happens in a run of requests. -/
def log (s : LocalQueues α) : List (Request α) → List (Event α)
  | [] => []
  | request :: requests => s.event request :: (s.event request).after.log requests

namespace Event

/-- The items that came into the queues. -/
def accepted (e : Event α) : List α :=
  match e.request, e.reply with
  | .push _ a, .accepted => [a]
  | .extend _ as, .accepted => as
  | _, _ => []

/-- Those that came into the queue of worker `w`. -/
def addedTo (w : Nat) (e : Event α) : List α :=
  match e.request with
  | .push v _ | .extend v _ => if v = w then e.accepted else []
  | _ => []

/-- The items that were taken out of the queues. -/
def returned (e : Event α) : List α :=
  match e.reply with
  | .popped a => a.toList
  | .taken as => as
  | _ => []

/-- Those that worker `w` took from his own queue. -/
def poppedBy (w : Nat) (e : Event α) : List α :=
  match e.request with
  | .pop v => if v = w then e.returned else []
  | _ => []

/-- Those that a thief took. -/
def stolen (e : Event α) : List α :=
  match e.request with
  | .steal .. => e.returned
  | _ => []

end Event

/-- The items in the queue of worker `w`. -/
def held (s : LocalQueues α) (w : Nat) : List α := (s.contents[w]?).getD []

/-- What a request does to what the queues hold. -/
inductive Serves (s : LocalQueues α) : Request α → Reply α → List (List α) → Prop
  | pushes {w : Nat} {a : α} {items : List α} (h : s.contents[w]? = some items) :
      Serves s (.push w a) .accepted (s.contents.set w (items ++ [a]))
  | rejects {w : Nat} {a : α} (h : s.contents[w]? = none) : Serves s (.push w a) (.rejected a) s.contents
  | appends {w : Nat} {as items : List α} (h : s.contents[w]? = some items) :
      Serves s (.extend w as) .accepted (s.contents.set w (items ++ as))
  | refuses {w : Nat} {as : List α} (h : s.contents[w]? = none) : Serves s (.extend w as) .noQueue s.contents
  | pops {w : Nat} {a : α} {items : List α} (h : s.contents[w]? = some (a :: items)) :
      Serves s (.pop w) (.popped (some a)) (s.contents.set w items)
  | idles {w : Nat} (h : s.held w = []) : Serves s (.pop w) (.popped none) s.contents
  /-- A thief takes from the end of a queue. -/
  | steals {thief max start victim : Nat} {left taken : List α} (h : s.contents[victim]? = some (left ++ taken)) :
      Serves s (.steal thief max start) (.taken taken) (s.contents.set victim left)
  | fails {thief max start : Nat} : Serves s (.steal thief max start) (.taken []) s.contents
  | drains : Serves s .drain (.taken s.contents.flatten) (s.contents.map fun _ => [])

variable {s : LocalQueues α} {w : Nat} {a : α} {items : List α}

theorem exists_push? (h : s.contents[w]? = some items) (a : α) :
    ∃ s', s.push? w a = some s' ∧ s'.contents = s.contents.set w (items ++ [a]) := by
  rw [getElem?_contents] at h
  obtain ⟨q, hq, rfl⟩ := Option.map_eq_some_iff.1 h
  exact ⟨s.setQueue w (q.push a), by simp [push?, hq], by simp⟩

theorem push?_of_contents_none (h : s.contents[w]? = none) (a : α) : s.push? w a = none := by
  simpa [getElem?_contents, push?] using h

theorem extend?_of_contents_none (h : s.contents[w]? = none) (as : List α) : s.extend? w as = none := by
  simpa [getElem?_contents, extend?] using h

theorem popLocal_of_contents_none (h : s.contents[w]? = none) : s.popLocal w = (none, s) := by
  rw [getElem?_contents] at h
  simp [popLocal, Option.map_eq_none_iff.1 h]

theorem contents_popLocal_of_nil (h : s.contents[w]? = some []) : (s.popLocal w).2.contents = s.contents := by
  obtain ⟨hlt, hget⟩ := List.getElem?_eq_some_iff.1 h
  rw [getElem?_contents] at h
  obtain ⟨q, hq, hitems⟩ := Option.map_eq_some_iff.1 h
  have hset : s.contents.set w [] = s.contents := by
    conv_rhs => rw [← List.set_getElem_self hlt, hget]
  simp [popLocal, hq, q.popFront_eq.2, hitems, hset]

theorem contents_drainAll (s : LocalQueues α) :
    s.drainAll.1 = s.contents.flatten ∧ s.drainAll.2.contents = s.contents.map fun _ => [] := by
  simp [drainAll, contents, List.flatMap_def, Queue.drain, Function.comp_def]

theorem serves_serve (s : LocalQueues α) (request : Request α) :
    s.Serves request (s.serve request).1 (s.serve request).2.contents := by
  cases request with
  | push w a =>
    cases hw : s.contents[w]? with
    | none =>
      simp only [serve, push?_of_contents_none hw]
      exact .rejects hw
    | some items =>
      obtain ⟨s', hs', hcontents⟩ := exists_push? hw a
      simp only [serve, hs', hcontents]
      exact .pushes hw
  | extend w as =>
    cases hw : s.contents[w]? with
    | none =>
      simp only [serve, extend?_of_contents_none hw]
      exact .refuses hw
    | some items =>
      obtain ⟨s', hs', hcontents⟩ := exists_extend? hw as
      simp only [serve, hs', hcontents]
      exact .appends hw
  | pop w =>
    simp only [serve]
    cases hw : s.contents[w]? with
    | none =>
      rw [popLocal_of_contents_none hw]
      exact .idles (by simp [held, hw])
    | some items =>
      cases items with
      | nil =>
        rw [popLocal_of_contents_nil hw, contents_popLocal_of_nil hw]
        exact .idles (by simp [held, hw])
      | cons a items =>
        obtain ⟨s', hpop, hcontents⟩ := popLocal_of_contents hw
        rw [hpop, hcontents]
        exact .pops hw
  | steal thief max start =>
    simp only [serve, stealBatch]
    split
    · rename_i hallowed
      have hmax := pos_of_canSteal hallowed
      generalize hscans : s.stealAmong max (victims s.workers thief start) = outcome
      have h := scans_stealAmong hmax s (victims s.workers thief start)
      rw [hscans] at h
      obtain ⟨taken, s'⟩ := outcome
      cases h with
      | nothing _ hcontents _ =>
        rw [hcontents]
        exact .fails
      | @batch _ _ items _ hitems _ hcontents _ =>
        rw [hcontents]
        exact .steals (by rw [hitems, List.take_append_drop])
    · exact .fails
  | drain =>
    obtain ⟨htaken, hcontents⟩ := s.contents_drainAll
    simp only [serve, htaken, hcontents]
    exact .drains

variable {request : Request α} {reply : Reply α} {after : List (List α)}

theorem Serves.length_eq (h : s.Serves request reply after) : after.length = s.contents.length := by
  cases h <;> simp

/-- What is in the queues or comes in is in the queues or goes out. -/
theorem perm_event (s : LocalQueues α) (request : Request α) :
    (s.contents.flatten ++ (s.event request).accepted).Perm
      ((s.event request).after.contents.flatten ++ (s.event request).returned) := by
  have h := s.serves_serve request
  simp only [event, Event.accepted, Event.returned]
  generalize (s.serve request).1 = reply, (s.serve request).2 = s' at h ⊢
  generalize s'.contents = after at h ⊢
  rw [← Multiset.coe_eq_coe, ← Multiset.coe_add, ← Multiset.coe_add]
  -- one queue is replaced, and the others stay
  have hone : ∀ {w : Nat} {items items' ins outs : List α}, s.contents[w]? = some items →
      (items ++ ins).Perm (items' ++ outs) →
      (s.contents.flatten + ins : Multiset α) = (s.contents.set w items').flatten + outs := by
    intro w items items' ins outs hw hperm
    obtain ⟨others, hbefore, hafter⟩ := exists_flatten_set hw
    rw [hbefore, hafter, add_right_comm, add_right_comm (items' : Multiset α), Multiset.coe_add, Multiset.coe_add,
      Multiset.coe_eq_coe.2 hperm]
  cases h with
  | pushes hw => exact hone hw (by simp)
  | rejects => rfl
  | appends hw => exact hone hw (by simp)
  | refuses => rfl
  | pops hw => exact hone hw (by simpa using (List.perm_append_singleton _ _).symm)
  | idles => rfl
  | steals hw => exact hone hw (by simp)
  | fails => rfl
  | drains => simp

/-- One queue is replaced, by items that were in it or come in last. -/
theorem sublist_held_of_set {s' : LocalQueues α} {v : Nat} {items items' : List α} (hv : s.contents[v]? = some items)
    (hset : s'.contents = s.contents.set v items') (outs ins : List α) (h : (outs ++ items').Sublist (items ++ ins))
    (w : Nat) : ((if v = w then outs else []) ++ s'.held w).Sublist (s.held w ++ if v = w then ins else []) := by
  have hlt : v < s.contents.length := (List.getElem?_eq_some_iff.1 hv).1
  by_cases hvw : v = w
  · subst hvw
    simpa [held, hset, hv, List.getElem?_set_self hlt] using h
  · simp [held, hset, hvw, List.getElem?_set_ne hvw]

/-- In the queue of a worker the items stay in order, and new ones come last. -/
theorem sublist_event (s : LocalQueues α) (request : Request α) (w : Nat) :
    ((s.event request).poppedBy w ++ (s.event request).after.held w).Sublist
      (s.held w ++ (s.event request).addedTo w) := by
  have h := s.serves_serve request
  simp only [event, Event.poppedBy, Event.addedTo, Event.accepted, Event.returned]
  generalize (s.serve request).1 = reply, (s.serve request).2 = s' at h ⊢
  generalize hafter : s'.contents = after at h
  -- most requests leave this queue alone
  have hsame : s'.contents = s.contents → s'.held w = s.held w := fun h => by rw [held, h, held]
  cases h with
  | pushes hv => simpa using sublist_held_of_set hv hafter [] [_] (by simp) w
  | rejects => simp [hsame hafter]
  | appends hv => simpa using sublist_held_of_set hv hafter [] _ (List.Sublist.refl _) w
  | refuses => simp [hsame hafter]
  | pops hv => simpa using sublist_held_of_set hv hafter [_] [] (by simp) w
  | idles => simp [hsame hafter]
  | steals hv => simpa using sublist_held_of_set hv hafter [] [] (by simp) w
  | fails => simp [hsame hafter]
  | drains =>
    have hnone : s'.held w = [] := by
      rw [held, hafter, List.getElem?_map]
      cases s.contents[w]? <;> rfl
    simp [hnone]

/-- What the statistics are after thefts that brought `count` items. -/
structure Counted (stats : StealStats) (count : Nat) : Prop where
  attempts : stats.attempts = stats.successes + stats.failures
  stolen : stats.stolen = count % counterModulus

theorem stats_popLocal (s : LocalQueues α) (w : Nat) : (s.popLocal w).2.stats = s.stats := by
  unfold popLocal
  split <;> rfl

/-- Only thefts are counted, and each theft once. -/
theorem Counted.event {count : Nat} (h : Counted s.stats count) (request : Request α) :
    Counted (s.event request).after.stats (count + (s.event request).stolen.length) := by
  cases request with
  | push w a =>
    cases hw : s.queue? w <;> simpa [LocalQueues.event, Event.stolen, serve, push?, hw, setQueue] using h
  | extend w as =>
    cases hw : s.queue? w <;> simpa [LocalQueues.event, Event.stolen, serve, extend?, hw, setQueue] using h
  | pop w => simpa [LocalQueues.event, Event.stolen, serve, stats_popLocal] using h
  | drain => simpa [LocalQueues.event, Event.stolen, serve, drainAll] using h
  | steal thief max start =>
    simp only [LocalQueues.event, Event.stolen, Event.returned, serve, stealBatch]
    split
    · rename_i hallowed
      have hmax := pos_of_canSteal hallowed
      have hscans := scans_stealAmong hmax s (victims s.workers thief start)
      obtain ⟨hattempts, hstolen⟩ := h
      generalize s.stealAmong max (victims s.workers thief start) = outcome at hscans ⊢
      obtain ⟨taken, s'⟩ := outcome
      cases hscans with
      | nothing _ _ hstats =>
        rw [hstats]
        exact ⟨by simp only [StealStats.recordFailure, hattempts]; omega, hstolen⟩
      | batch _ _ _ _ hstats =>
        rw [hstats]
        refine ⟨by simp only [StealStats.recordSuccess, hattempts]; omega, ?_⟩
        simp only [StealStats.recordSuccess, hstolen, Nat.mod_add_mod]
    · simpa using h

/-- All items that came into the queues, in the order in which they came. -/
def accepted (log : List (Event α)) : List α := log.flatMap (·.accepted)

/-- All items that were taken out of them. -/
def returned (log : List (Event α)) : List α := log.flatMap (·.returned)

theorem workers_event (s : LocalQueues α) (request : Request α) : (s.event request).after.workers = s.workers := by
  rw [← length_contents, ← length_contents]
  exact (s.serves_serve request).length_eq

theorem perm_run (s : LocalQueues α) (requests : List (Request α)) :
    (s.contents.flatten ++ accepted (s.log requests)).Perm
      ((s.run requests).contents.flatten ++ returned (s.log requests)) := by
  induction requests generalizing s with
  | nil => simp [accepted, returned, log, run]
  | cons request requests ih =>
    have hfirst := s.perm_event request
    have hrest := ih (s.event request).after
    rw [← Multiset.coe_eq_coe] at hfirst hrest ⊢
    simp only [accepted, returned, log, run, List.flatMap_cons, ← Multiset.coe_add] at hfirst hrest ⊢
    rw [← add_assoc, hfirst, add_right_comm, hrest, add_assoc, add_comm (Multiset.ofList (s.event request).returned)]

theorem sublist_run (s : LocalQueues α) (requests : List (Request α)) (w : Nat) :
    ((s.log requests).flatMap (·.poppedBy w) ++ (s.run requests).held w).Sublist
      (s.held w ++ (s.log requests).flatMap (·.addedTo w)) := by
  induction requests generalizing s with
  | nil => simp [log, run]
  | cons request requests ih =>
    simp only [log, run, List.flatMap_cons, List.append_assoc]
    have hrest := (List.Sublist.refl ((s.event request).poppedBy w)).append (ih (s.event request).after)
    have hfirst := (s.sublist_event request w).append
      (List.Sublist.refl (((s.event request).after.log requests).flatMap (·.addedTo w)))
    rw [List.append_assoc, List.append_assoc] at hfirst
    exact hrest.trans hfirst

theorem Counted.run {count : Nat} (h : Counted s.stats count) (requests : List (Request α)) :
    Counted (s.run requests).stats (count + ((s.log requests).flatMap (·.stolen)).length) := by
  induction requests generalizing s count with
  | nil => simpa [log, LocalQueues.run] using h
  | cons request requests ih =>
    have hrest := ih (h.event request)
    rw [Nat.add_assoc, ← List.length_append] at hrest
    exact hrest

/-- An event of a run happens between states with the same workers. -/
theorem exists_of_mem_log {e : Event α} {requests : List (Request α)} (he : e ∈ s.log requests) :
    ∃ before : LocalQueues α, before.workers = s.workers ∧ e = before.event e.request := by
  induction requests generalizing s with
  | nil => simp [log] at he
  | cons request requests ih =>
    rcases List.mem_cons.1 he with rfl | he
    · exact ⟨s, rfl, rfl⟩
    · obtain ⟨before, hworkers, hevent⟩ := ih he
      exact ⟨before, hworkers.trans (s.workers_event request), hevent⟩

theorem totalSize_eq (s : LocalQueues α) : s.totalSize = s.contents.flatten.length := by
  simp [totalSize, contents, List.length_flatten, Function.comp_def]

theorem mem_held_iff : a ∈ s.held w ↔ ∃ items, s.contents[w]? = some items ∧ a ∈ items := by
  cases hw : s.contents[w]? <;> simp [held, hw]

theorem contents_eq_none (h : s.workers ≤ w) : s.contents[w]? = none :=
  List.getElem?_eq_none (by rwa [length_contents])

theorem event_push (s : LocalQueues α) (w : Nat) (a : α) :
    (w < s.workers → (s.event (.push w a)).reply = .accepted) ∧
      (s.workers ≤ w → (s.event (.push w a)).reply = .rejected a ∧ (s.event (.push w a)).after = s) := by
  refine ⟨fun hw => ?_, fun hw => ?_⟩
  · obtain ⟨items, hitems⟩ := exists_contents hw
    obtain ⟨s', hs', -⟩ := exists_push? hitems a
    simp only [event, serve, hs']
  · simp only [event, serve, push?_of_contents_none (contents_eq_none hw), and_self]

theorem event_extend (s : LocalQueues α) (w : Nat) (as : List α) :
    (w < s.workers → (s.event (.extend w as)).reply = .accepted) ∧
      (s.workers ≤ w → (s.event (.extend w as)).reply = .noQueue ∧ (s.event (.extend w as)).after = s) := by
  refine ⟨fun hw => ?_, fun hw => ?_⟩
  · obtain ⟨items, hitems⟩ := exists_contents hw
    obtain ⟨s', hs', -⟩ := exists_extend? hitems as
    simp only [event, serve, hs']
  · simp only [event, serve, extend?_of_contents_none (contents_eq_none hw), and_self]

/-- What becomes of the items in a run of requests to the queues of so many workers, which are empty at first, up to
state `s`. -/
structure Conserves (workers : Nat) (log : List (Event α)) (s : LocalQueues α) : Prop where
  /-- Every item that was accepted is still there or was returned, as often as it was accepted. -/
  perm : (accepted log).Perm (s.contents.flatten ++ returned log)
  /-- Items that are all different are each in one queue, or were returned by one request. -/
  once : (accepted log).Nodup → ∀ a ∈ accepted log,
    Xor (∃! w, a ∈ s.held w) (∃! i : Nat, ∃ e, log[i]? = some e ∧ a ∈ e.returned)
  size : s.totalSize = (accepted log).length - (returned log).length
  /-- What worker `w` took from his queue and what is left there has the order in which it came. -/
  ordered : ∀ w, (log.flatMap (·.poppedBy w) ++ s.held w).Sublist (log.flatMap (·.addedTo w))
  /-- An item for a worker is accepted; if there is no such worker it is given back, and nothing changes. -/
  push : ∀ e ∈ log, ∀ w a, e.request = .push w a →
    (w < workers → e.reply = .accepted) ∧ (workers ≤ w → e.reply = .rejected a ∧ e.after = e.before)
  extend : ∀ e ∈ log, ∀ w as, e.request = .extend w as →
    (w < workers → e.reply = .accepted) ∧ (workers ≤ w → e.reply = .noQueue ∧ e.after = e.before)
  /-- All items are returned in the order of the workers, and all queues are empty then. -/
  drain : ∀ e ∈ log, e.request = .drain →
    e.reply = .taken e.before.contents.flatten ∧ e.after.contents = List.replicate workers []
  attempts : s.stats.attempts = s.stats.successes + s.stats.failures
  stolen : s.stats.stolen = (log.flatMap (·.stolen)).length % counterModulus

/-- Among different items each is in one queue at most. -/
theorem existsUnique_held_iff (h : s.contents.flatten.Nodup) : (∃! w, a ∈ s.held w) ↔ a ∈ s.contents.flatten := by
  simp only [mem_held_iff]
  refine ⟨fun ⟨w, ⟨items, hw, hmem⟩, _⟩ => ?_, existsUnique_mem_of_nodup_flatten h⟩
  exact List.mem_flatten_of_mem (List.mem_of_getElem? hw) hmem

/-- Among different items each was returned by one request at most. -/
theorem existsUnique_returned_iff {log : List (Event α)} (h : (returned log).Nodup) :
    (∃! i : Nat, ∃ e, log[i]? = some e ∧ a ∈ e.returned) ↔ a ∈ returned log := by
  have hget : ∀ i : Nat, (∃ e, log[i]? = some e ∧ a ∈ e.returned) ↔
      ∃ as, (log.map (·.returned))[i]? = some as ∧ a ∈ as := fun i => by
    simp [List.getElem?_map]
  simp only [hget]
  rw [returned, List.flatMap_def] at h ⊢
  refine ⟨fun ⟨i, ⟨as, hi, hmem⟩, _⟩ => ?_, existsUnique_mem_of_nodup_flatten h⟩
  exact List.mem_flatten_of_mem (List.mem_of_getElem? hi) hmem

/-- Whatever is asked of the queues, they neither lose an item nor return one twice. -/
theorem conserves_run (workers : Nat) (requests : List (Request α)) :
    Conserves workers ((new workers).log requests) ((new workers).run requests) := by
  have hworkers : (new workers : LocalQueues α).workers = workers := by simp [new, LocalQueues.workers]
  have hempty : (new workers : LocalQueues α).contents = List.replicate workers [] := by simp [new, contents]
  have hheld : ∀ w, (new workers : LocalQueues α).held w = [] := fun w => by
    simp only [held, hempty, List.getElem?_replicate]
    split <;> rfl
  have hperm := (new workers).perm_run requests
  rw [hempty, List.flatten_replicate_nil, List.nil_append] at hperm
  have hcounted : Counted ((new workers : LocalQueues α).run requests).stats
      (0 + (((new workers).log requests).flatMap (·.stolen)).length) := Counted.run ⟨rfl, rfl⟩ requests
  refine ⟨hperm, fun hnodup a ha => ?_, ?_, fun w => ?_, ?_, ?_, ?_, hcounted.attempts, by simpa using hcounted.stolen⟩
  · obtain ⟨hleft, hgone, hapart⟩ := List.nodup_append'.1 (hperm.nodup_iff.1 hnodup)
    rw [existsUnique_held_iff hleft, existsUnique_returned_iff hgone]
    rcases List.mem_append.1 (hperm.mem_iff.1 ha) with h | h
    · exact .inl ⟨h, hapart h⟩
    · exact .inr ⟨h, fun h' => hapart h' h⟩
  · rw [totalSize_eq, hperm.length_eq, List.length_append, Nat.add_sub_cancel]
  · simpa [hheld] using (new workers).sublist_run requests w
  · intro e he w a hrequest
    obtain ⟨before, hbefore, hevent⟩ := exists_of_mem_log he
    rw [hrequest] at hevent
    rw [hevent, ← hworkers, ← hbefore]
    exact before.event_push w a
  · intro e he w as hrequest
    obtain ⟨before, hbefore, hevent⟩ := exists_of_mem_log he
    rw [hrequest] at hevent
    rw [hevent, ← hworkers, ← hbefore]
    exact before.event_extend w as
  · intro e he hrequest
    obtain ⟨before, hbefore, hevent⟩ := exists_of_mem_log he
    rw [hrequest] at hevent
    obtain ⟨htaken, hcontents⟩ := before.contents_drainAll
    rw [hevent, ← hworkers, ← hbefore, ← length_contents, ← List.map_const']
    exact ⟨congrArg Reply.taken htaken, hcontents⟩

end LocalQueues
end Dataflow
