import Dataflow.Proofs.SingleAssignment
import Mathlib

/-!
# Who waits on a cell

A future waits on a cell from the poll that leaves it pending until a poll answers it or it is dropped; a
thread from the look that blocks it until it returns (`Since`). The cell keeps one registration for each
future that waits, under a key of its own, and counts the threads (`Room.Waited`). Every step keeps to this
(`Room.Waited.step`), so that what the cell says of its waiters is what its history says of its readers
(`WaiterAccounting`).
-/

namespace Dataflow

/-- In the list there is something that begins, and nothing after it ends it. -/
def Since {α : Type} (begins ends : α → Prop) (xs : List α) : Prop :=
  ∃ pre x post, xs = pre ++ x :: post ∧ begins x ∧ ∀ y ∈ post, ¬ ends y

theorem not_since_nil {α : Type} {begins ends : α → Prop} : ¬ Since begins ends [] := by
  rintro ⟨pre, x, post, h, -⟩
  simp at h

theorem since_concat {α : Type} {begins ends : α → Prop} {xs : List α} {a : α} :
    Since begins ends (xs ++ [a]) ↔ begins a ∨ (Since begins ends xs ∧ ¬ ends a) := by
  constructor
  · rintro ⟨pre, x, post, h, hx, hpost⟩
    rcases List.eq_nil_or_concat post with rfl | ⟨post', b, rfl⟩
    · obtain ⟨-, hax⟩ := List.append_inj' h rfl
      obtain rfl : a = x := by simpa using hax
      exact .inl hx
    · rw [List.concat_eq_append, ← List.cons_append, ← List.append_assoc] at h
      obtain ⟨rfl, hab⟩ := List.append_inj' h rfl
      obtain rfl : a = b := by simpa using hab
      exact .inr ⟨⟨pre, x, post', rfl, hx, fun y hy => hpost y (by simp [hy])⟩, hpost a (by simp)⟩
  · rintro (ha | ⟨⟨pre, x, post, rfl, hx, hpost⟩, ha⟩)
    · exact ⟨xs, a, [], rfl, ha, by simp⟩
    · refine ⟨pre, x, post ++ [a], by simp, hx, fun y hy => ?_⟩
      rcases List.mem_append.1 hy with hy | hy
      · exact hpost y hy
      · rwa [List.mem_singleton.1 hy]

/-- It stays so as long as nothing ends it. -/
theorem Since.append {α : Type} {begins ends : α → Prop} {xs ys : List α} (h : Since begins ends xs)
    (hys : ∀ y ∈ ys, ¬ ends y) : Since begins ends (xs ++ ys) := by
  obtain ⟨pre, x, post, rfl, hx, hpost⟩ := h
  refine ⟨pre, x, post ++ ys, by simp, hx, fun y hy => ?_⟩
  rcases List.mem_append.1 hy with hy | hy
  · exact hpost y hy
  · exact hys y hy

namespace Room

variable {V W : Type}

namespace Event

variable (e : Event V W)

/-- The poll leaves the future pending. -/
def LeavesPending (k : Nat) : Prop := (∃ waker, e.action = .poll k waker) ∧ e.answer = .polled .pending

/-- The future gets its answer, or is dropped. -/
def FreesFuture (k : Nat) : Prop :=
  (∃ waker answer, e.action = .poll k waker ∧ e.answer = .polled (.ready answer)) ∨
    (e.action = .drop k ∧ e.answer = .dropped true)

/-- The thread finds the cell empty and blocks. -/
def BlocksThread (n : Nat) : Prop := (∃ timed, e.action = .arrive timed) ∧ e.answer = .blocked n

/-- The thread goes on with its answer. -/
def FreesThread (n : Nat) : Prop := ∃ timed answer, e.answer = .returned n timed answer

end Event

/-- The future was left pending, and has neither been answered nor dropped since. -/
def FutureWaits (history : List (Event V W)) (k : Nat) : Prop :=
  Since (Event.LeavesPending · k) (Event.FreesFuture · k) history

/-- The thread was blocked, and has not returned since. -/
def ThreadWaits (history : List (Event V W)) (n : Nat) : Prop :=
  Since (Event.BlocksThread · n) (Event.FreesThread · n) history

/-- A list with the images of others, after both have lost one image. -/
theorem map_erase_eq {α β : Type} [DecidableEq β] {g : Nat → β} {h : α → β} {ks : List Nat} {xs : List α}
    (heq : ks.map g = xs.map h) (hnodup : (xs.map h).Nodup) {k : Nat} (hk : k ∈ ks) :
    (ks.erase k).map g = (xs.filter fun x => h x ≠ g k).map h := by
  have hks : (ks.map g).Nodup := heq ▸ hnodup
  have herase : ks.erase k = ks.filter fun j => g j ≠ g k := by
    rw [hks.of_map.erase_eq_filter]
    refine List.filter_congr fun j hj => ?_
    rw [Bool.eq_iff_iff, bne_iff_ne, decide_eq_true_iff]
    exact not_congr ⟨fun hjk => by rw [hjk], List.inj_on_of_nodup_map hks hj hk⟩
  have hfilter : (xs.map h).filter (· ≠ g k) = (ks.map g).filter (· ≠ g k) := by rw [heq]
  rw [List.filter_map, List.filter_map] at hfilter
  rw [herase]
  exact hfilter.symm

/-- What the cell knows of the futures and threads that wait. -/
structure Waited (r : Room V W) (futures threads : List Nat) : Prop where
  /-- One registration for each future, under the future's own key. -/
  entries : futures.map (fun k => r.futures[k]?) = r.cell.wakers.map fun entry => some (.live (some entry.1))
  /-- Every future that holds a key waits. -/
  held : ∀ k key, r.futures[k]? = some (.live (some key)) → k ∈ futures
  /-- No two registrations have one key. -/
  keys : (r.cell.wakers.map (·.1)).Nodup
  /-- No key is given out that is in use. -/
  bound : ∀ entry ∈ r.cell.wakers, entry.1 < r.cell.nextKey
  /-- The threads that wait, each once. -/
  waiting : ∀ n, n ∈ threads ↔ ∃ timed, r.readers[n]? = some (.waiting timed)
  nodup : threads.Nodup
  blocked : r.cell.blocked = threads.length
  /-- Nobody waits for what is gone. -/
  gone : r.cell.payload = .destroyed → futures = [] ∧ threads = []

namespace Waited

variable {r : Room V W} {futures threads : List Nat} {k n key : Nat}

theorem initial : Waited ({} : Room V W) [] [] :=
  ⟨rfl, by simp, .nil, by simp, by simp, .nil, rfl, fun _ => ⟨rfl, rfl⟩⟩

theorem waiters_eq (h : r.Waited futures threads) : r.cell.waiters = futures.length + threads.length := by
  have hlen := congrArg List.length h.entries
  rw [List.length_map, List.length_map] at hlen
  rw [Cell.waiters, ← hlen, h.blocked]

/-- The images by which futures and registrations are matched are different. -/
theorem nodup_entries (h : r.Waited futures threads) :
    (r.cell.wakers.map fun entry => some (CellFuture.live (some entry.1))).Nodup := by
  have hmap : (r.cell.wakers.map fun entry => some (CellFuture.live (some entry.1))) =
      (r.cell.wakers.map (·.1)).map fun key => some (CellFuture.live (some key)) := by
    rw [List.map_map]
    rfl
  rw [hmap]
  exact List.Nodup.map (fun a b hab => by simpa using hab) h.keys

theorem nodup_futures (h : r.Waited futures threads) : futures.Nodup :=
  List.Nodup.of_map _ (h.entries ▸ h.nodup_entries)

/-- Who waits holds a key. -/
theorem exists_key (h : r.Waited futures threads) (hk : k ∈ futures) :
    ∃ entry ∈ r.cell.wakers, r.futures[k]? = some (.live (some entry.1)) := by
  have hmem : r.futures[k]? ∈ futures.map fun k => r.futures[k]? := List.mem_map_of_mem hk
  rw [h.entries] at hmem
  obtain ⟨entry, hentry, heq⟩ := List.mem_map.1 hmem
  exact ⟨entry, hentry, heq.symm⟩

/-- Whose key is not there does not wait. -/
theorem not_mem (h : r.Waited futures threads) {future : CellFuture} (hk : r.futures[k]? = some future)
    (hfuture : ∀ key, future ≠ .live (some key)) : k ∉ futures := by
  intro hmem
  obtain ⟨entry, -, heq⟩ := h.exists_key hmem
  rw [hk] at heq
  exact hfuture _ (Option.some.inj heq)

/-- The key that a future holds is in the list, so a poll never has to enter it again. -/
theorem any_key (h : r.Waited futures threads) (hk : r.futures[k]? = some (.live (some key))) :
    (r.cell.wakers.any (·.1 == key)) = true := by
  obtain ⟨entry, hentry, heq⟩ := h.exists_key (h.held k key hk)
  rw [hk] at heq
  cases heq
  exact List.any_eq_true.2 ⟨entry, hentry, by simp⟩

/-- Futures other than one that has changed are as they were. -/
theorem getElem?_set_of_mem_erase (h : r.Waited futures threads) {future : CellFuture} {j : Nat}
    (hj : j ∈ futures.erase k) : (r.futures.set k future)[j]? = r.futures[j]? :=
  List.getElem?_set_ne (h.nodup_futures.mem_erase_iff.1 hj).1.symm

/-- A future that is answered or dropped gives up its registration, if it has one. -/
theorem leave (h : r.Waited futures threads) {key : Option Nat} (hk : r.futures[k]? = some (.live key))
    {future : CellFuture} (hfuture : ∀ key, future ≠ .live (some key)) :
    Waited { r with cell := r.cell.withdraw key, futures := r.futures.set k future } (futures.erase k) threads := by
  have hlt : k < r.futures.length := (List.getElem?_eq_some_iff.1 hk).1
  have hheld : ∀ j key', (r.futures.set k future)[j]? = some (.live (some key')) → j ∈ futures.erase k := by
    intro j key' hj
    by_cases hjk : k = j
    · subst hjk
      rw [List.getElem?_set_self hlt] at hj
      exact absurd (Option.some.inj hj) (hfuture key')
    · rw [List.getElem?_set_ne hjk] at hj
      exact h.nodup_futures.mem_erase_iff.2 ⟨fun hkj => hjk hkj.symm, h.held j key' hj⟩
  have hsame : (futures.erase k).map (fun j => (r.futures.set k future)[j]?) =
      (futures.erase k).map fun j => r.futures[j]? :=
    List.map_congr_left fun j hj => h.getElem?_set_of_mem_erase hj
  cases key with
  | none =>
    have hnot : k ∉ futures := h.not_mem hk fun key => by simp
    refine ⟨?_, hheld, h.keys, h.bound, h.waiting, h.nodup, h.blocked, ?_⟩
    · dsimp only
      rw [hsame, List.erase_of_not_mem hnot]
      exact h.entries
    · rw [List.erase_of_not_mem hnot]
      exact h.gone
  | some key =>
    have hmem := h.held k key hk
    have hentries := map_erase_eq h.entries h.nodup_entries hmem
    have hfilter : (r.cell.wakers.filter fun entry => some (CellFuture.live (some entry.1)) ≠ r.futures[k]?) =
        r.cell.wakers.filter (·.1 != key) :=
      List.filter_congr fun entry _ => by rw [hk, Bool.eq_iff_iff]; simp
    rw [hfilter] at hentries
    have hsub : (r.cell.wakers.filter (·.1 != key)).Sublist r.cell.wakers := List.filter_sublist
    refine ⟨?_, hheld, h.keys.sublist (hsub.map _), fun entry hentry => h.bound entry (hsub.subset hentry),
      h.waiting, h.nodup, h.blocked, fun hgone => ?_⟩
    · dsimp only [Cell.withdraw]
      rw [hsame]
      exact hentries
    · obtain ⟨hnil, -⟩ := h.gone hgone
      rw [hnil] at hmem
      cases hmem

/-- A future that was not registered takes a new key. -/
theorem join (h : r.Waited futures threads) (hempty : r.cell.payload = .empty)
    (hk : r.futures[k]? = some (.live none)) (waker : W) :
    Waited { r with
      cell := (r.cell.register waker none).1
      futures := r.futures.set k (.live (some r.cell.nextKey)) } (futures ++ [k]) threads := by
  have hlt : k < r.futures.length := (List.getElem?_eq_some_iff.1 hk).1
  have hnot : k ∉ futures := h.not_mem hk fun key => by simp
  have hsame : futures.map (fun j => (r.futures.set k (.live (some r.cell.nextKey)))[j]?) =
      futures.map fun j => r.futures[j]? :=
    List.map_congr_left fun j hj => List.getElem?_set_ne fun (hkj : k = j) => hnot (hkj ▸ hj)
  refine ⟨?_, fun j key hj => ?_, ?_, fun entry hentry => ?_, h.waiting, h.nodup, h.blocked, fun hgone => ?_⟩
  · rw [List.map_append, hsame, h.entries]
    simp [Cell.register, hlt]
  · by_cases hjk : k = j
    · simp [hjk]
    · rw [List.getElem?_set_ne hjk] at hj
      exact List.mem_append_left _ (h.held j key hj)
  · simp only [Cell.register, List.map_append, List.map_cons, List.map_nil]
    refine List.nodup_append.2 ⟨h.keys, by simp, fun key hkey key' hkey' => ?_⟩
    obtain ⟨entry, hentry, rfl⟩ := List.mem_map.1 hkey
    rw [List.mem_singleton.1 hkey']
    exact Nat.ne_of_lt (h.bound entry hentry)
  · simp only [Cell.register, List.mem_append, List.mem_singleton] at hentry ⊢
    rcases hentry with hentry | rfl
    · exact Nat.lt_succ_of_lt (h.bound entry hentry)
    · exact Nat.lt_succ_self _
  · cases hempty.symm.trans hgone

/-- A future that is polled again keeps its key and its place. -/
theorem rejoin (h : r.Waited futures threads) (hk : r.futures[k]? = some (.live (some key))) (waker : W) :
    Waited { r with
      cell := (r.cell.register waker (some key)).1
      futures := r.futures.set k (.live (some (r.cell.register waker (some key)).2)) } futures threads := by
  have hlt : k < r.futures.length := (List.getElem?_eq_some_iff.1 hk).1
  have hregister : r.cell.register waker (some key) =
      ({ r.cell with wakers := Cell.setWaker r.cell.wakers key waker }, key) := by
    rw [Cell.register, if_pos (h.any_key hk)]
  have hset : r.futures.set k (.live (some key)) = r.futures := by
    obtain ⟨_, hget⟩ := List.getElem?_eq_some_iff.1 hk
    rw [← hget, List.set_getElem_self]
  have hfst : ∀ entry : Nat × W, (if entry.1 = key then (key, waker) else entry).1 = entry.1 := by
    intro entry
    split
    · rename_i heq
      exact heq.symm
    · rfl
  have hkeys : (Cell.setWaker r.cell.wakers key waker).map (·.1) = r.cell.wakers.map (·.1) := by
    rw [Cell.setWaker, List.map_map]
    exact List.map_congr_left fun entry _ => hfst entry
  rw [hregister]
  dsimp only
  rw [hset]
  refine ⟨?_, h.held, hkeys ▸ h.keys, fun entry hentry => ?_, h.waiting, h.nodup, h.blocked, h.gone⟩
  · have himage : ∀ xs : List (Nat × W), xs.map (fun entry => some (CellFuture.live (some entry.1))) =
        (xs.map (·.1)).map fun key => some (CellFuture.live (some key)) := by
      intro xs
      rw [List.map_map]
      rfl
    dsimp only
    rw [h.entries, himage, himage, hkeys]
  · obtain ⟨entry', hentry', rfl⟩ := List.mem_map.1 hentry
    rw [hfst]
    exact h.bound entry' hentry'

/-- Nobody comes or goes. -/
theorem congr (h : r.Waited futures threads) {r' : Room V W} (hfutures : r'.futures = r.futures)
    (hreaders : r'.readers = r.readers) (hwakers : r'.cell.wakers = r.cell.wakers)
    (hkey : r'.cell.nextKey = r.cell.nextKey) (hblocked : r'.cell.blocked = r.cell.blocked)
    (hgone : r'.cell.payload = .destroyed → futures = [] ∧ threads = []) : r'.Waited futures threads := by
  refine ⟨?_, ?_, ?_, ?_, ?_, h.nodup, ?_, hgone⟩
  · rw [hfutures, hwakers]
    exact h.entries
  · rw [hfutures]
    exact h.held
  · rw [hwakers]
    exact h.keys
  · rw [hwakers, hkey]
    exact h.bound
  · rw [hreaders]
    exact h.waiting
  · rw [hblocked]
    exact h.blocked

/-- A new future waits for nothing yet. -/
theorem get (h : r.Waited futures threads) :
    Waited { r with futures := r.futures ++ [.live none] } futures threads := by
  refine ⟨?_, fun k key hk => ?_, h.keys, h.bound, h.waiting, h.nodup, h.blocked, h.gone⟩
  · refine Eq.trans (List.map_congr_left fun k hk => ?_) h.entries
    obtain ⟨entry, -, hkey⟩ := h.exists_key hk
    exact List.getElem?_append_left (List.getElem?_eq_some_iff.1 hkey).1
  · rw [List.getElem?_append] at hk
    split at hk
    · exact h.held k key hk
    · rw [List.getElem?_singleton] at hk
      split at hk <;> simp at hk

/-- A thread that finds a value, or nothing any more, does not wait. -/
theorem arriveReturned (h : r.Waited futures threads) (timed : Bool) (answer : Except RuntimeError (Option V)) :
    Waited { r with readers := r.readers ++ [.returned timed answer] } futures threads := by
  refine ⟨h.entries, h.held, h.keys, h.bound, fun n => ?_, h.nodup, h.blocked, h.gone⟩
  rw [h.waiting]
  constructor
  · rintro ⟨timed', hn⟩
    exact ⟨timed', by rw [List.getElem?_append_left (List.getElem?_eq_some_iff.1 hn).1]; exact hn⟩
  · rintro ⟨timed', hn⟩
    rw [List.getElem?_append] at hn
    split at hn
    · exact ⟨timed', hn⟩
    · rw [List.getElem?_singleton] at hn
      split at hn <;> simp at hn

/-- A thread that finds the cell empty takes the next number and waits. -/
theorem arriveWaiting (h : r.Waited futures threads) (hempty : r.cell.payload = .empty) (timed : Bool) :
    Waited { r with
      cell := { r.cell with blocked := r.cell.blocked + 1 }
      readers := r.readers ++ [.waiting timed] } futures (threads ++ [r.readers.length]) := by
  have hnew : r.readers.length ∉ threads := by
    rw [h.waiting]
    simp
  refine ⟨h.entries, h.held, h.keys, h.bound, fun n => ?_, ?_, ?_, fun hgone => ?_⟩
  · rw [List.mem_append, h.waiting, List.mem_singleton]
    constructor
    · rintro (⟨timed', hn⟩ | rfl)
      · exact ⟨timed', by rw [List.getElem?_append_left (List.getElem?_eq_some_iff.1 hn).1]; exact hn⟩
      · exact ⟨timed, by simp⟩
    · rintro ⟨timed', hn⟩
      rw [List.getElem?_append] at hn
      split at hn
      · exact .inl ⟨timed', hn⟩
      · rw [List.getElem?_singleton] at hn
        split at hn
        · exact .inr (by omega)
        · cases hn
  · exact List.nodup_append.2 ⟨h.nodup, by simp, fun n hn n' hn' hnn => by
      rw [List.mem_singleton] at hn'
      exact hnew (hn' ▸ hnn ▸ hn)⟩
  · rw [List.length_append, ← h.blocked]
    rfl
  · cases hempty.symm.trans hgone

/-- A thread that has its answer no longer counts. -/
theorem returns (h : r.Waited futures threads) {timed : Bool} (hn : r.readers[n]? = some (.waiting timed))
    (answer : Except RuntimeError (Option V)) :
    Waited { r with
      cell := { r.cell with blocked := r.cell.blocked - 1 }
      readers := r.readers.set n (.returned timed answer) } futures (threads.erase n) := by
  have hlt : n < r.readers.length := (List.getElem?_eq_some_iff.1 hn).1
  have hmem : n ∈ threads := (h.waiting n).2 ⟨timed, hn⟩
  refine ⟨h.entries, h.held, h.keys, h.bound, fun j => ?_, h.nodup.erase n, ?_, fun hgone => ?_⟩
  · rw [h.nodup.mem_erase_iff, h.waiting]
    by_cases hjn : n = j
    · subst hjn
      simp [hlt]
    · simp [List.getElem?_set_ne hjn, Ne.symm hjn]
  · rw [List.length_erase_of_mem hmem, ← h.blocked]
  · obtain ⟨-, hnil⟩ := h.gone hgone
    rw [hnil] at hmem
    cases hmem

end Waited

/-- Who waits after the event: those who began to, and those who did before and were not freed. -/
def Event.Admits (e : Event V W) (futures threads futures' threads' : List Nat) : Prop :=
  (∀ k, k ∈ futures' ↔ e.LeavesPending k ∨ (k ∈ futures ∧ ¬ e.FreesFuture k)) ∧
    ∀ n, n ∈ threads' ↔ e.BlocksThread n ∨ (n ∈ threads ∧ ¬ e.FreesThread n)

namespace Event.Admits

variable {e : Event V W} {futures threads : List Nat} {k n : Nat}

/-- Nobody comes or goes. -/
theorem idle (hpolled : ∀ answer, e.answer ≠ .polled answer) (hdrop : e.answer ≠ .dropped true)
    (hblocked : ∀ timed n, e.action = .arrive timed → e.answer ≠ .blocked n)
    (hreturned : ∀ n timed x, e.answer ≠ .returned n timed x) : e.Admits futures threads futures threads := by
  refine ⟨fun k => ?_, fun n => ?_⟩
  · have hleaves : ¬ e.LeavesPending k := fun h => hpolled _ h.2
    have hfrees : ¬ e.FreesFuture k := by
      rintro (⟨-, x, -, hx⟩ | ⟨-, hx⟩)
      · exact hpolled _ hx
      · exact hdrop hx
    simp [hleaves, hfrees]
  · have hblocks : ¬ e.BlocksThread n := by
      rintro ⟨⟨timed, ht⟩, hn⟩
      exact hblocked timed n ht hn
    have hfrees : ¬ e.FreesThread n := by
      rintro ⟨timed, x, hx⟩
      exact hreturned n timed x hx
    simp [hblocks, hfrees]

/-- One future is left pending. -/
theorem pending {waker : W} {futures' : List Nat} (haction : e.action = .poll k waker)
    (hanswer : e.answer = .polled .pending) (hmem : ∀ j, j ∈ futures' ↔ k = j ∨ j ∈ futures) :
    e.Admits futures threads futures' threads := by
  refine ⟨fun j => ?_, fun n => ?_⟩
  · simp [hmem, LeavesPending, FreesFuture, haction, hanswer]
  · simp [BlocksThread, FreesThread, hanswer]

/-- One future has its answer. -/
theorem answered {waker : W} {answer : Except RuntimeError V} (haction : e.action = .poll k waker)
    (hanswer : e.answer = .polled (.ready answer)) (hnodup : futures.Nodup) :
    e.Admits futures threads (futures.erase k) threads := by
  refine ⟨fun j => ?_, fun n => ?_⟩
  · simp [hnodup.mem_erase_iff, LeavesPending, FreesFuture, haction, hanswer, and_comm, eq_comm]
  · simp [BlocksThread, FreesThread, hanswer]

/-- One future is dropped. -/
theorem dropped (haction : e.action = .drop k) (hanswer : e.answer = .dropped true) (hnodup : futures.Nodup) :
    e.Admits futures threads (futures.erase k) threads := by
  refine ⟨fun j => ?_, fun n => ?_⟩
  · simp [hnodup.mem_erase_iff, LeavesPending, FreesFuture, haction, hanswer, and_comm, eq_comm]
  · simp [BlocksThread, FreesThread, hanswer]

/-- One thread is blocked. -/
theorem blocked {timed : Bool} (haction : e.action = .arrive timed) (hanswer : e.answer = .blocked n) :
    e.Admits futures threads futures (threads ++ [n]) := by
  refine ⟨fun j => ?_, fun j => ?_⟩
  · simp [LeavesPending, FreesFuture, haction, hanswer]
  · simp [BlocksThread, FreesThread, haction, hanswer, or_comm, eq_comm]

/-- One thread has its answer, whether it was blocked or not. -/
theorem returned {timed : Bool} {answer : Except RuntimeError (Option V)} (hanswer : e.answer = .returned n timed answer)
    (hnodup : threads.Nodup) : e.Admits futures threads futures (threads.erase n) := by
  refine ⟨fun j => ?_, fun j => ?_⟩
  · simp [LeavesPending, FreesFuture, hanswer]
  · simp [hnodup.mem_erase_iff, BlocksThread, FreesThread, hanswer, and_comm, eq_comm]

end Event.Admits

namespace Waited

variable {r : Room V W} {futures threads : List Nat}

theorem poll (h : r.Waited futures threads) (k : Nat) (waker : W) :
    ∃ futures' threads', (r.step (.poll k waker)).1.Waited futures' threads' ∧
      (r.event (.poll k waker)).Admits futures threads futures' threads' := by
  by_cases hk : ∃ key, r.futures[k]? = some (.live key)
  · obtain ⟨key, hk⟩ := hk
    have hstep : r.step (.poll k waker) = ({ r with
        cell := (r.cell.poll key waker).2.1
        futures := r.futures.set k (.live (r.cell.poll key waker).2.2) }, .polled (r.cell.poll key waker).1) := by
      simp only [Room.step, Room.poll, hk]
    have hanswer : (r.event (.poll k waker)).answer = .polled (r.cell.poll key waker).1 := by
      rw [event, hstep]
    rw [hstep]
    cases hp : r.cell.payload with
    | full value | destroyed =>
      simp only [Cell.poll, hp] at hanswer ⊢
      exact ⟨_, _, h.leave hk (by simp), .answered rfl hanswer h.nodup_futures⟩
    | empty =>
      simp only [Cell.poll, hp] at hanswer ⊢
      cases key with
      | none =>
        refine ⟨_, _, h.join hp hk waker, .pending rfl hanswer fun j => ?_⟩
        rw [List.mem_append, List.mem_singleton, or_comm, eq_comm]
      | some key =>
        refine ⟨_, _, h.rejoin hk waker, .pending rfl hanswer fun j => ?_⟩
        exact ⟨.inr, fun hj => hj.elim (fun hkj => hkj ▸ h.held k key hk) id⟩
  · have hstep : r.step (.poll k waker) = (r, .nothing) := by
      simp only [Room.step, Room.poll]
      split
      · rename_i key hkey
        exact absurd ⟨key, hkey⟩ hk
      · rfl
    have hanswer : (r.event (.poll k waker)).answer = .nothing := by rw [event, hstep]
    rw [hstep]
    exact ⟨_, _, h, .idle (by simp [hanswer]) (by simp [hanswer]) (by simp [event]) (by simp [hanswer])⟩

theorem drop (h : r.Waited futures threads) (k : Nat) :
    ∃ futures' threads', (r.step (.drop k)).1.Waited futures' threads' ∧
      (r.event (.drop k)).Admits futures threads futures' threads' := by
  by_cases hk : ∃ key, r.futures[k]? = some (.live key)
  · obtain ⟨key, hk⟩ := hk
    have hstep : r.step (.drop k) =
        ({ r with cell := r.cell.withdraw key, futures := r.futures.set k .dropped }, .dropped true) := by
      simp only [Room.step, Room.drop, hk]
    have hanswer : (r.event (.drop k)).answer = .dropped true := by rw [event, hstep]
    rw [hstep]
    exact ⟨_, _, h.leave hk (by simp), .dropped rfl hanswer h.nodup_futures⟩
  · have hstep : r.step (.drop k) = (r, .dropped false) := by
      simp only [Room.step, Room.drop]
      split
      · rename_i key hkey
        exact absurd ⟨key, hkey⟩ hk
      · rfl
    have hanswer : (r.event (.drop k)).answer = .dropped false := by rw [event, hstep]
    rw [hstep]
    exact ⟨_, _, h, .idle (by simp [hanswer]) (by simp [hanswer]) (by simp [event]) (by simp [hanswer])⟩

theorem arrive (h : r.Waited futures threads) (timed : Bool) :
    ∃ futures' threads', (r.step (.arrive timed)).1.Waited futures' threads' ∧
      (r.event (.arrive timed)).Admits futures threads futures' threads' := by
  have hreturned : ∀ answer : Except RuntimeError (Option V), r.step (.arrive timed) =
      ({ r with readers := r.readers ++ [.returned timed answer] }, .returned r.readers.length timed answer) →
      ∃ futures' threads', (r.step (.arrive timed)).1.Waited futures' threads' ∧
        (r.event (.arrive timed)).Admits futures threads futures' threads' := by
    intro answer hstep
    have hanswer : (r.event (.arrive timed)).answer = .returned r.readers.length timed answer := by rw [event, hstep]
    have hnew : r.readers.length ∉ threads := by
      rw [h.waiting]
      simp
    rw [hstep]
    refine ⟨_, _, h.arriveReturned timed answer, ?_⟩
    have hadmits : (r.event (.arrive timed)).Admits futures threads futures (threads.erase r.readers.length) :=
      .returned hanswer h.nodup
    rwa [List.erase_of_not_mem hnew] at hadmits
  cases hp : r.cell.payload with
  | full value => exact hreturned (.ok (some value)) (by simp only [Room.step, Room.arrive, Cell.arrive, hp]; rfl)
  | destroyed => exact hreturned (.error .useAfterDestroy) (by simp only [Room.step, Room.arrive, Cell.arrive, hp]; rfl)
  | empty =>
    have hstep : r.step (.arrive timed) = ({ r with
        cell := { r.cell with blocked := r.cell.blocked + 1 }
        readers := r.readers ++ [.waiting timed] }, .blocked r.readers.length) := by
      simp only [Room.step, Room.arrive, Cell.arrive, hp]
    have hanswer : (r.event (.arrive timed)).answer = .blocked r.readers.length := by rw [event, hstep]
    rw [hstep]
    exact ⟨_, _, h.arriveWaiting hp timed, .blocked rfl hanswer⟩

theorem resume (h : r.Waited futures threads) (n : Nat) (timeOver : Bool) :
    ∃ futures' threads', (r.step (.resume n timeOver)).1.Waited futures' threads' ∧
      (r.event (.resume n timeOver)).Admits futures threads futures' threads' := by
  have hidle : ∀ answer : Answer V W, r.step (.resume n timeOver) = (r, answer) → answer = .nothing ∨ answer = .blocked n →
      ∃ futures' threads', (r.step (.resume n timeOver)).1.Waited futures' threads' ∧
        (r.event (.resume n timeOver)).Admits futures threads futures' threads' := by
    intro answer hstep hcases
    have hanswer : (r.event (.resume n timeOver)).answer = answer := by rw [event, hstep]
    rw [hstep]
    refine ⟨_, _, h, .idle ?_ ?_ (by simp [event]) ?_⟩ <;> rw [hanswer] <;> rcases hcases with rfl | rfl <;> simp
  by_cases hn : ∃ timed, r.readers[n]? = some (.waiting timed)
  · obtain ⟨timed, hn⟩ := hn
    cases hgo : (if timeOver then timed else r.signalled) with
    | false => exact hidle .nothing (by simp only [Room.step, Room.resume, hn, hgo]; rfl) (.inl rfl)
    | true =>
      have hreturned : ∀ answer, r.cell.recheck timeOver = (some answer, { r.cell with blocked := r.cell.blocked - 1 }) →
          ∃ futures' threads', (r.step (.resume n timeOver)).1.Waited futures' threads' ∧
            (r.event (.resume n timeOver)).Admits futures threads futures' threads' := by
        intro answer hrecheck
        have hstep : r.step (.resume n timeOver) = ({ r with
            cell := { r.cell with blocked := r.cell.blocked - 1 }
            readers := r.readers.set n (.returned timed answer) }, .returned n timed answer) := by
          simp only [Room.step, Room.resume, hn, hgo, hrecheck, if_true]
        have hanswer : (r.event (.resume n timeOver)).answer = .returned n timed answer := by rw [event, hstep]
        rw [hstep]
        exact ⟨_, _, h.returns hn answer, .returned hanswer h.nodup⟩
      cases hp : r.cell.payload with
      | full value => exact hreturned (.ok (some value)) (by simp only [Cell.recheck, hp])
      | destroyed => exact hreturned (.error .useAfterDestroy) (by simp only [Cell.recheck, hp])
      | empty =>
        cases timeOver with
        | true => exact hreturned (.ok none) (by simp only [Cell.recheck, hp, if_true])
        | false =>
          refine hidle (.blocked n) ?_ (.inr rfl)
          simp only [Room.step, Room.resume, hn, hgo, if_true, Cell.recheck, hp]
          rfl
  · refine hidle .nothing ?_ (.inl rfl)
    simp only [Room.step, Room.resume]
    split
    · rename_i timed htimed
      exact absurd ⟨timed, htimed⟩ hn
    · rfl

theorem destroy (h : r.Waited futures threads) : (r.step .destroy).1.Waited futures threads := by
  rcases r.step_destroy with ⟨hp, hanswer, hcell⟩ | ⟨e, hstep, -⟩
  · have hnobody : futures.length + threads.length = 0 := by
      rw [← h.waiters_eq]
      by_contra hw
      have hrefused : r.cell.destroy = .error (.destroyWithWaiters r.cell.waiters) := by
        cases hq : r.cell.payload with
        | destroyed => exact absurd hq hp
        | _ => simp only [Cell.destroy, hq, gt_iff_lt, Nat.pos_of_ne_zero hw, if_true]
      simp only [Room.step, hrefused, Answer.done.injEq, reduceCtorEq] at hanswer
    have hsame : (r.step .destroy).1.futures = r.futures ∧ (r.step .destroy).1.readers = r.readers := by
      simp only [Room.step]
      split <;> exact ⟨rfl, rfl⟩
    refine h.congr hsame.1 hsame.2 (by rw [hcell]) (by rw [hcell]) (by rw [hcell]) fun _ => ?_
    exact ⟨List.length_eq_zero_iff.1 (by omega), List.length_eq_zero_iff.1 (by omega)⟩
  · rw [hstep]
    exact h

/-- Every step keeps the account, and lets in and out whom its answer says. -/
theorem step (h : r.Waited futures threads) (a : Action V W) :
    ∃ futures' threads', (r.step a).1.Waited futures' threads' ∧ (r.event a).Admits futures threads futures' threads' := by
  cases a with
  | poll k waker => exact h.poll k waker
  | drop k => exact h.drop k
  | arrive timed => exact h.arrive timed
  | resume n timeOver => exact h.resume n timeOver
  | destroy =>
    refine ⟨_, _, h.destroy, .idle ?_ ?_ (by simp [event]) ?_⟩ <;>
      (simp only [event, Room.step]; split <;> simp)
  | put value =>
    rcases r.step_put value with ⟨hp, hanswer, hcell⟩ | ⟨-, hstep⟩
    · have hsame : (r.step (.put value)).1.futures = r.futures ∧ (r.step (.put value)).1.readers = r.readers := by
        simp only [Room.step, Room.put]
        split <;> exact ⟨rfl, rfl⟩
      refine ⟨_, _, h.congr hsame.1 hsame.2 (by rw [hcell]) (by rw [hcell]) (by rw [hcell]) ?_, .idle ?_ ?_ (by simp [event]) ?_⟩
      · simp [hcell]
      all_goals simp [event, hanswer]
    · refine ⟨_, _, hstep ▸ h, .idle ?_ ?_ (by simp [event]) ?_⟩ <;> simp [event, hstep]
  | signal =>
    simp only [event, Room.step]
    split
    · exact ⟨_, _, h.congr rfl rfl rfl rfl rfl h.gone, .idle (by simp) (by simp) (by simp) (by simp)⟩
    · exact ⟨_, _, h, .idle (by simp) (by simp) (by simp) (by simp)⟩
  | get => refine ⟨_, _, h.get, .idle ?_ ?_ ?_ ?_⟩ <;> simp [event, Room.step]
  | tryGet | state | waiters => refine ⟨_, _, h, .idle ?_ ?_ ?_ ?_⟩ <;> simp [event, Room.step]

end Waited

/-- The readers in the two lists are those that wait, as the history tells. -/
def Reads (history : List (Event V W)) (futures threads : List Nat) : Prop :=
  (∀ k, k ∈ futures ↔ FutureWaits history k) ∧ ∀ n, n ∈ threads ↔ ThreadWaits history n

theorem Reads.concat {history : List (Event V W)} {e : Event V W} {futures threads futures' threads' : List Nat}
    (h : Reads history futures threads) (he : e.Admits futures threads futures' threads') :
    Reads (history ++ [e]) futures' threads' := by
  refine ⟨fun k => ?_, fun n => ?_⟩
  · rw [he.1, h.1, FutureWaits, FutureWaits, since_concat]
  · rw [he.2, h.2, ThreadWaits, ThreadWaits, since_concat]

/-- After a run the cell knows of exactly those readers that wait. -/
theorem exists_waited_run {r : Room V W} {past : List (Event V W)} {futures threads : List Nat}
    (h : r.Waited futures threads) (hpast : Reads past futures threads) (as : List (Action V W)) :
    ∃ futures' threads', (r.run as).1.Waited futures' threads' ∧ Reads (past ++ r.history as) futures' threads' := by
  induction as generalizing r past futures threads with
  | nil => exact ⟨futures, threads, h, by rwa [history, List.append_nil]⟩
  | cons a as ih =>
    obtain ⟨futures', threads', h', hadmits⟩ := h.step a
    have hrest := ih h' (hpast.concat hadmits)
    rwa [List.append_assoc] at hrest

/-- What is known of an empty room: nobody waits. -/
theorem Reads.initial : Reads ([] : List (Event V W)) [] [] :=
  ⟨fun k => by simp [FutureWaits, not_since_nil], fun n => by simp [ThreadWaits, not_since_nil]⟩

end Room

open Room

/-- What a cell says of its waiters is what its history says of its readers. -/
structure WaiterAccounting {V W : Type} (r : Room V W) (history : List (Event V W)) (futures threads : List Nat) :
    Prop where
  /-- The futures that were left pending and have neither been answered nor dropped since, each once. -/
  futures_iff : ∀ k, k ∈ futures ↔ FutureWaits history k
  futures_nodup : futures.Nodup
  /-- The threads that were blocked and have not returned since, each once. -/
  threads_iff : ∀ n, n ∈ threads ↔ ThreadWaits history n
  threads_nodup : threads.Nodup
  /-- The cell counts them all. -/
  count : r.cell.waiters = futures.length + threads.length
  /-- It has one registration for each of these futures, under the future's key, in the order of the list. -/
  entries : futures.map (fun k => r.futures[k]?) = r.cell.wakers.map fun entry => some (.live (some entry.1))
  keys_nodup : (r.cell.wakers.map (·.1)).Nodup
  keys_lt : ∀ entry ∈ r.cell.wakers, entry.1 < r.cell.nextKey
  /-- A poll never has to enter a key again. -/
  present : ∀ k key : Nat, r.futures[k]? = some (.live (some key)) → (r.cell.wakers.any (·.1 == key)) = true
  /-- Nobody waits for a cell that is gone. -/
  gone : r.cell.state = .destroyed → r.cell.waiters = 0
  /-- A cell that is there is released if nobody waits, and otherwise says how many do. -/
  destroy : r.cell.state ≠ .destroyed → (r.step .destroy).2 = .done
    (if futures.length + threads.length = 0 then .ok ()
      else .error (.destroyWithWaiters (futures.length + threads.length)))
  /-- A future that waits is not told that the cell is gone. -/
  future_answer : ∀ k waker, FutureWaits history k →
    (r.step (.poll k waker)).2 ≠ .polled (.ready (.error .useAfterDestroy))
  /-- Neither is a thread. -/
  thread_answer : ∀ n timeOver timed, ThreadWaits history n →
    (r.step (.resume n timeOver)).2 ≠ .returned n timed (.error .useAfterDestroy)

theorem Room.Waited.accounting {V W : Type} {r : Room V W} {history : List (Event V W)} {futures threads : List Nat}
    (h : r.Waited futures threads) (hreads : Reads history futures threads) :
    WaiterAccounting r history futures threads := by
  -- a read that tells of a cell that is gone is a read of a cell that is gone
  have hgone : ∀ a, (r.step a).2.read? = some (.error .useAfterDestroy) → futures = [] ∧ threads = [] := by
    intro a ha
    refine h.gone ?_
    have hread := read_eq r a ha
    cases hp : r.cell.payload with
    | destroyed => rfl
    | _ =>
      rw [hp] at hread
      cases hread
  refine ⟨hreads.1, h.nodup_futures, hreads.2, h.nodup, h.waiters_eq, h.entries, h.keys, h.bound,
    fun k key => h.any_key, fun hstate => ?_, fun hstate => ?_, fun k waker hk hanswer => ?_,
    fun n timeOver timed hn hanswer => ?_⟩
  · have hp : r.cell.payload = .destroyed := by
      cases hp : r.cell.payload <;> simp [Cell.state, hp] at hstate ⊢
    obtain ⟨hfutures, hthreads⟩ := h.gone hp
    rw [h.waiters_eq, hfutures, hthreads]
    rfl
  · rw [← h.waiters_eq]
    cases hp : r.cell.payload with
    | destroyed => simp [Cell.state, hp] at hstate
    | _ => by_cases hw : r.cell.waiters = 0 <;> simp [Room.step, Cell.destroy, hp, hw, Nat.pos_iff_ne_zero]
  · have hnil := (hgone (.poll k waker) (by rw [hanswer]; rfl)).1
    have hmem := (hreads.1 k).2 hk
    rw [hnil] at hmem
    cases hmem
  · have hnil := (hgone (.resume n timeOver) (by rw [hanswer]; rfl)).2
    have hmem := (hreads.2 n).2 hn
    rw [hnil] at hmem
    cases hmem

namespace Session

variable {V W : Type}

/-- The session after a sequence of operations. -/
def performAll (s : Session V W) (ops : List (Op V W)) : Session V W := ops.foldl perform s

/-- What a sequence of operations does to a cell, and where it leaves it. -/
theorem exists_run_of_performAll (s : Session V W) (i : Nat) (ops : List (Op V W)) :
    ∃ as, s.historyOf i ops = (s.roomAt i).history as ∧ (s.performAll ops).roomAt i = ((s.roomAt i).run as).1 := by
  induction ops generalizing s with
  | nil => exact ⟨[], rfl, rfl⟩
  | cons op ops ih =>
    obtain ⟨as, hhistory, hroom⟩ := ih (s.perform op)
    rcases s.roomAt_perform i op with ⟨he, hr⟩ | ⟨a, he, hr⟩
    · rw [hr] at hhistory hroom
      exact ⟨as, by rw [historyOf, he, hhistory]; rfl, hroom⟩
    · rw [hr] at hhistory hroom
      exact ⟨a :: as, by rw [historyOf, he, hhistory]; rfl, hroom⟩

/-- After any operations through any handles, the waiters that a cell counts are the futures that were left
pending on it and the threads that were blocked, less those that are through. -/
theorem waiterAccounting_performAll (ops : List (Op V W)) (i : Nat) :
    ∃ futures threads, WaiterAccounting ((({} : Session V W).performAll ops).roomAt i)
      (({} : Session V W).historyOf i ops) futures threads := by
  obtain ⟨as, hhistory, hroom⟩ := exists_run_of_performAll ({} : Session V W) i ops
  have hnobody : Reads ([] : List (Event V W)) [] [] :=
    ⟨fun k => by simp [FutureWaits, not_since_nil], fun n => by simp [ThreadWaits, not_since_nil]⟩
  obtain ⟨futures, threads, h, hreads⟩ := exists_waited_run (r := ({} : Session V W).roomAt i) .initial hnobody as
  rw [hhistory, hroom]
  exact ⟨futures, threads, h.accounting hreads⟩

end Session
end Dataflow
