import Dataflow.Proofs.Waiters

/-!
# Whom a put wakes

A put that goes through wakes everyone the cell has registered, and the cell has one waker for each future
that waits: that of its latest poll, in the place that its first poll took (`Room.Lined`). The invariant only
speaks of an empty cell, since a put goes through on no other. As long as the cell is empty a future is never
answered, so it enters the list once, at the end, and leaves it only when it is dropped.

What a waker does when it is woken may wake others in turn; `Session.Wakes` says what is woken then, and in
which order.
-/

namespace Dataflow
namespace Room

variable {V W : Type}

/-- Whom a step wakes. -/
def Answer.woken : Answer V W → List W
  | .written _ woken => woken
  | _ => []

/-- The waker that a future leaves with the cell, if the event is a poll that leaves it pending. -/
def Event.pendingWaker? (e : Event V W) (k : Nat) : Option W :=
  match e.action, e.answer with
  | .poll j waker, .polled .pending => if j = k then some waker else none
  | _, _ => none

/-- The waker of the future's latest poll that left it pending. -/
def latestWaker? (past : List (Event V W)) (k : Nat) : Option W :=
  past.reverse.findSome? (·.pendingWaker? k)

/-- How many events there were when a poll first left the future pending. -/
def firstPending (past : List (Event V W)) (k : Nat) : Nat :=
  past.findIdx fun e => (e.pendingWaker? k).isSome

section Past

variable {past : List (Event V W)} {e : Event V W} {k : Nat} {waker : W}

theorem latestWaker?_concat :
    latestWaker? (past ++ [e]) k = (e.pendingWaker? k).or (latestWaker? past k) := by
  simp [latestWaker?, List.findSome?_cons]
  cases e.pendingWaker? k <;> rfl

theorem firstPending_lt (h : latestWaker? past k = some waker) : firstPending past k < past.length := by
  obtain ⟨d, hd, hwaker⟩ := List.exists_of_findSome?_eq_some h
  exact List.findIdx_lt_length_of_exists ⟨d, List.mem_reverse.1 hd, by simp [hwaker]⟩

/-- A future that was pending before keeps its turn. -/
theorem firstPending_concat (h : firstPending past k < past.length) :
    firstPending (past ++ [e]) k = firstPending past k := by
  rw [firstPending] at h
  rw [firstPending, List.findIdx_append, if_pos h, firstPending]

/-- A future that was never pending before is the last one. -/
theorem firstPending_concat_of_fresh (hpast : ∀ d ∈ past, d.pendingWaker? k = none)
    (he : e.pendingWaker? k = some waker) : firstPending (past ++ [e]) k = past.length := by
  have hend : (past.findIdx fun d => (d.pendingWaker? k).isSome) = past.length :=
    List.findIdx_eq_length.2 fun d hd => by simp [hpast d hd]
  rw [firstPending, List.findIdx_append, if_neg (by omega)]
  simp [List.findIdx_cons, he]

end Past

theorem pendingWaker?_of_not_pending {e : Event V W} (h : e.answer ≠ .polled .pending) (k : Nat) :
    e.pendingWaker? k = none := by
  unfold Event.pendingWaker?
  split
  · rename_i hanswer
    exact absurd hanswer h
  · rfl

/-- The registration is that of the future, with the waker of its latest poll. -/
def Matches (r : Room V W) (past : List (Event V W)) (k : Nat) (entry : Nat × W) : Prop :=
  r.futures[k]? = some (.live (some entry.1)) ∧ latestWaker? past k = some entry.2

theorem Matches.concat {r r' : Room V W} {past : List (Event V W)} {e : Event V W} {k : Nat} {entry : Nat × W}
    (h : r.Matches past k entry) (he : e.pendingWaker? k = none) (hk : r'.futures[k]? = r.futures[k]?) :
    r'.Matches (past ++ [e]) k entry := by
  refine ⟨hk.trans h.1, ?_⟩
  rw [latestWaker?_concat, he, Option.none_or, h.2]

/-- The futures are lined up before an empty cell. -/
structure Lined (r : Room V W) (past : List (Event V W)) (futures : List Nat) : Prop where
  /-- The cell has the waker of each one's latest poll. -/
  wakers : List.Forall₂ (r.Matches past) futures r.cell.wakers
  /-- They stand in the order of their first polls. -/
  order : futures.Pairwise fun j k => firstPending past j < firstPending past k
  /-- A future that is not registered, and was not dropped, never was. -/
  fresh : ∀ k, r.futures[k]? = some (.live none) ∨ r.futures[k]? = none →
    ∀ e ∈ past, e.pendingWaker? k = none

namespace Waited

variable {r r' : Room V W} {futures threads futures' threads' : List Nat} {j k key : Nat}

/-- The futures that wait, beside their registrations. -/
theorem beside (h : r.Waited futures threads) :
    List.Forall₂ (fun k entry => r.futures[k]? = some (.live (some entry.1))) futures r.cell.wakers := by
  have hentries := h.entries
  rwa [← List.forall₂_eq_eq_eq, List.forall₂_map_left_iff, List.forall₂_map_right_iff] at hentries

/-- A key is held by one future. -/
theorem holder (h : r.Waited futures threads) (hk : r.futures[k]? = some (.live (some key)))
    (hj : r.futures[j]? = some (.live (some key))) : j = k :=
  List.inj_on_of_nodup_map (h.entries ▸ h.nodup_entries) (h.held j key hj) (h.held k key hk) (hj.trans hk.symm)

/-- The cell and the keys that the futures hold say who waits, and in which order. -/
theorem futures_eq (h : r.Waited futures threads) (h' : r'.Waited futures' threads')
    (hwakers : r'.cell.wakers = r.cell.wakers)
    (hkeys : ∀ k key : Nat, r'.futures[k]? = some (CellFuture.live (some key)) →
      r.futures[k]? = some (CellFuture.live (some key))) : futures' = futures := by
  have hbeside' := h'.beside.imp fun k (entry : Nat × W) => hkeys k entry.1
  rw [hwakers] at hbeside'
  have hunique : Relator.LeftUnique fun k (entry : Nat × W) =>
      r.futures[k]? = some (CellFuture.live (some entry.1)) :=
    fun j k entry hj hk => h.holder hk hj
  exact List.left_unique_forall₂' hunique hbeside' h.beside

end Waited

/-- Who neither makes, polls nor drops a future leaves the futures and their registrations alone. -/
theorem step_beside (r : Room V W) {a : Action V W} (hpoll : ∀ k waker, a ≠ .poll k waker) (hdrop : ∀ k, a ≠ .drop k)
    (hget : a ≠ .get) : (r.step a).1.futures = r.futures ∧ (r.step a).1.cell.wakers = r.cell.wakers ∧
      (r.step a).2 ≠ .polled .pending := by
  cases a with
  | poll k waker => exact absurd rfl (hpoll k waker)
  | drop k => exact absurd rfl (hdrop k)
  | get => exact absurd rfl hget
  | tryGet | state | waiters => exact ⟨rfl, rfl, by simp [Room.step]⟩
  | signal =>
    simp only [Room.step]
    split <;> exact ⟨rfl, rfl, by simp⟩
  | put value =>
    rcases r.step_put value with ⟨-, hanswer, hcell⟩ | ⟨-, hstep⟩
    · refine ⟨?_, by rw [hcell], by simp [hanswer]⟩
      simp only [Room.step, Room.put]
      split <;> rfl
    · simp [hstep]
  | destroy =>
    rcases r.step_destroy with ⟨-, hanswer, hcell⟩ | ⟨e, hstep, -⟩
    · refine ⟨?_, by rw [hcell], by simp [hanswer]⟩
      simp only [Room.step]
      split <;> rfl
    · simp [hstep]
  | arrive timed =>
    cases hp : r.cell.payload <;> simp [Room.step, Room.arrive, Cell.arrive, hp]
  | resume n timeOver =>
    simp only [Room.step, Room.resume]
    split
    · rename_i timed _
      cases (if timeOver = true then timed else r.signalled) with
      | false => simp
      | true => cases hp : r.cell.payload <;> cases timeOver <;> simp [Cell.recheck, hp]
    · simp

/-- A future that was dropped stays so. -/
theorem step_dropped {r : Room V W} {k : Nat} (hk : r.futures[k]? = some .dropped) (a : Action V W) :
    (r.step a).1.futures[k]? = some .dropped := by
  have hlt : k < r.futures.length := (List.getElem?_eq_some_iff.1 hk).1
  cases a with
  | get =>
    simp only [Room.step]
    rwa [List.getElem?_append_left hlt]
  | poll j waker =>
    simp only [Room.step, Room.poll]
    split
    · rename_i key hj
      have hjk : j ≠ k := by
        rintro rfl
        simp [hk] at hj
      dsimp only
      rwa [List.getElem?_set_ne hjk]
    · exact hk
  | drop j =>
    simp only [Room.step, Room.drop]
    split
    · by_cases hjk : j = k
      · subst hjk
        exact List.getElem?_set_self hlt
      · dsimp only
        rwa [List.getElem?_set_ne hjk]
    · exact hk
  | put | signal | destroy | tryGet | state | waiters | arrive | resume =>
    rw [(r.step_beside (by simp) (by simp) (by simp)).1]
    exact hk

theorem history_dropped {r : Room V W} {k : Nat} (hk : r.futures[k]? = some .dropped) (as : List (Action V W)) :
    ∀ e ∈ r.history as, ¬ e.LeavesPending k := by
  induction as generalizing r with
  | nil => simp [history]
  | cons a as ih =>
    intro e he
    rcases List.mem_cons.1 he with rfl | he
    · rintro ⟨⟨waker, haction⟩, hanswer⟩
      obtain rfl : a = .poll k waker := haction
      simp [event, Room.step, Room.poll, hk] at hanswer
    · exact ih (step_dropped hk a) e he

namespace Lined

variable {r r' : Room V W} {past : List (Event V W)} {futures threads futures' threads' : List Nat}
  {e : Event V W} {j k key : Nat} {waker : W}

theorem initial : Lined ({} : Room V W) [] [] := ⟨.nil, .nil, by simp⟩

/-- A future in the list was pending before. -/
theorem firstPending_lt (h : r.Lined past futures) (hk : k ∈ futures) : firstPending past k < past.length := by
  obtain ⟨i, hi, rfl⟩ := List.getElem_of_mem hk
  have hlen := h.wakers.length_eq
  exact Room.firstPending_lt (h.wakers.get hi (hlen ▸ hi)).2

/-- The cell's wakers are those of the latest polls. -/
theorem latest (h : r.Lined past futures) : futures.map (latestWaker? past) = r.cell.registered.map some := by
  rw [Cell.registered, List.map_map, ← List.forall₂_eq_eq_eq, List.forall₂_map_left_iff, List.forall₂_map_right_iff]
  exact h.wakers.imp fun k entry hmatch => hmatch.2

/-- What happens next moves nobody who stands in the list. -/
theorem order_concat (h : r.Lined past futures) (e : Event V W) :
    futures.Pairwise fun j k => firstPending (past ++ [e]) j < firstPending (past ++ [e]) k := by
  refine h.order.imp_of_mem fun {j k} hj hk hjk => ?_
  rwa [firstPending_concat (h.firstPending_lt hj), firstPending_concat (h.firstPending_lt hk)]

/-- What is new of a future after the event is what the event says of it. -/
theorem fresh_concat (h : r.Lined past futures) {k : Nat}
    (hk : r.futures[k]? = some (.live none) ∨ r.futures[k]? = none) (he : e.pendingWaker? k = none) :
    ∀ d ∈ past ++ [e], d.pendingWaker? k = none := by
  intro d hd
  rcases List.mem_append.1 hd with hd | hd
  · exact h.fresh k hk d hd
  · rwa [List.mem_singleton.1 hd]

/-- Nobody comes or goes. -/
theorem quiet (h : r.Lined past futures) (he : e.answer ≠ .polled .pending)
    (hwakers : r'.cell.wakers = r.cell.wakers)
    (hkeys : ∀ k ∈ futures, r'.futures[k]? = r.futures[k]?)
    (hfresh : ∀ k : Nat, r'.futures[k]? = some (CellFuture.live none) ∨ r'.futures[k]? = none →
      r.futures[k]? = some (CellFuture.live none) ∨ r.futures[k]? = none) : r'.Lined (past ++ [e]) futures := by
  have hnone := pendingWaker?_of_not_pending he
  refine ⟨?_, h.order_concat e, fun k hk => h.fresh_concat (hfresh k hk) (hnone k)⟩
  rw [hwakers]
  refine ((List.forall₂_and_left _ _).2 ⟨hkeys, h.wakers⟩).imp fun k entry hmatch => ?_
  exact hmatch.2.concat (hnone k) hmatch.1

/-- A future that is dropped leaves the list. -/
theorem leave (h : r.Lined past futures) (hwaited : r.Waited futures threads) {key : Option Nat}
    (hk : r.futures[k]? = some (.live key)) (he : e.answer ≠ .polled .pending) :
    Lined { r with cell := r.cell.withdraw key, futures := r.futures.set k .dropped } (past ++ [e])
      (futures.erase k) := by
  have hnone := pendingWaker?_of_not_pending he
  have hlt : k < r.futures.length := (List.getElem?_eq_some_iff.1 hk).1
  refine ⟨?_, (h.order_concat e).sublist List.erase_sublist, fun j hj => ?_⟩
  · have hkept : List.Forall₂ (r.Matches past) (futures.erase k) (r.cell.withdraw key).wakers := by
      cases key with
      | none =>
        rw [List.erase_of_not_mem (hwaited.not_mem hk fun key => by simp)]
        exact h.wakers
      | some key =>
        rw [hwaited.nodup_futures.erase_eq_filter]
        refine List.rel_filter (fun j entry hmatch => ?_) h.wakers
        show (j != k) = true ↔ (entry.1 != key) = true
        rw [bne_iff_ne, bne_iff_ne, not_iff_not]
        constructor
        · rintro rfl
          simpa [hk] using hmatch.1.symm
        · rintro rfl
          exact hwaited.holder hk hmatch.1
    have hne : ∀ j ∈ futures.erase k, k ≠ j := fun j hj => (hwaited.nodup_futures.mem_erase_iff.1 hj).1.symm
    refine ((List.forall₂_and_left _ _).2 ⟨hne, hkept⟩).imp fun j entry hmatch => ?_
    exact hmatch.2.concat (hnone j) (List.getElem?_set_ne hmatch.1)
  · have hjk : k ≠ j := by
      rintro rfl
      simp [List.getElem?_set_self hlt] at hj
    rw [List.getElem?_set_ne hjk] at hj
    exact h.fresh_concat hj (hnone j)

/-- A future that is polled for the first time goes to the end. -/
theorem join (h : r.Lined past futures) (hk : r.futures[k]? = some (.live none))
    (hnot : k ∉ futures) (haction : e.action = .poll k waker) (hanswer : e.answer = .polled .pending) :
    Lined { r with
      cell := (r.cell.register waker none).1
      futures := r.futures.set k (.live (some r.cell.nextKey)) } (past ++ [e]) (futures ++ [k]) := by
  have hpending : ∀ j, e.pendingWaker? j = if k = j then some waker else none := by
    intro j
    rw [Event.pendingWaker?, haction, hanswer]
  have hself : e.pendingWaker? k = some waker := by rw [hpending, if_pos rfl]
  have hlt : k < r.futures.length := (List.getElem?_eq_some_iff.1 hk).1
  refine ⟨?_, ?_, fun j hj => ?_⟩
  · refine List.rel_append ?_ (.cons ⟨by simp [hlt], by simp [latestWaker?_concat, hself]⟩ .nil)
    have hne : ∀ j ∈ futures, k ≠ j := fun j hj => (ne_of_mem_of_not_mem hj hnot).symm
    refine ((List.forall₂_and_left _ _).2 ⟨hne, h.wakers⟩).imp fun j entry hmatch => ?_
    exact hmatch.2.concat (by rw [hpending, if_neg hmatch.1]) (List.getElem?_set_ne hmatch.1)
  · refine List.pairwise_append.2 ⟨h.order_concat e, by simp, fun j hj j' hj' => ?_⟩
    rw [List.mem_singleton.1 hj', firstPending_concat (h.firstPending_lt hj),
      firstPending_concat_of_fresh (h.fresh k (.inl hk)) hself]
    exact h.firstPending_lt hj
  · have hjk : k ≠ j := by
      rintro rfl
      simp [List.getElem?_set_self hlt] at hj
    rw [List.getElem?_set_ne hjk] at hj
    exact h.fresh_concat hj (by rw [hpending, if_neg hjk])

/-- A future that is polled again stays where it is, with its new waker. -/
theorem rejoin (h : r.Lined past futures) (hwaited : r.Waited futures threads)
    (hk : r.futures[k]? = some (.live (some key))) (haction : e.action = .poll k waker)
    (hanswer : e.answer = .polled .pending) :
    Lined { r with
      cell := (r.cell.register waker (some key)).1
      futures := r.futures.set k (.live (some (r.cell.register waker (some key)).2)) } (past ++ [e]) futures := by
  have hpending : ∀ j, e.pendingWaker? j = if k = j then some waker else none := by
    intro j
    rw [Event.pendingWaker?, haction, hanswer]
  have hregister : r.cell.register waker (some key) =
      ({ r.cell with wakers := Cell.setWaker r.cell.wakers key waker }, key) := by
    rw [Cell.register, if_pos (hwaited.any_key hk)]
  have hset : r.futures.set k (.live (some key)) = r.futures := by
    obtain ⟨_, hget⟩ := List.getElem?_eq_some_iff.1 hk
    rw [← hget, List.set_getElem_self]
  rw [hregister]
  dsimp only
  rw [hset]
  refine ⟨?_, h.order_concat e, fun j hj => h.fresh_concat hj ?_⟩
  · refine List.forall₂_map_right_iff.2 (h.wakers.imp fun j entry hmatch => ?_)
    by_cases hjk : k = j
    · have hentry : entry.1 = key := by
        rw [← hjk] at hmatch
        simpa [hk] using hmatch.1.symm
      rw [if_pos hentry]
      exact ⟨hjk ▸ hk, by rw [latestWaker?_concat, hpending, if_pos hjk, Option.some_or]⟩
    · have hentry : entry.1 ≠ key := fun hentry => hjk (hwaited.holder (hentry ▸ hmatch.1) hk)
      rw [if_neg hentry]
      exact hmatch.concat (by rw [hpending, if_neg hjk]) rfl
  · rw [hpending, if_neg]
    rintro rfl
    simp [hk] at hj

/-- A step that changes neither registrations nor futures. -/
theorem idle (h : r.Lined past futures) (hwaited : r.Waited futures threads) (hwaited' : r'.Waited futures' threads')
    (he : e.answer ≠ .polled .pending) (hwakers : r'.cell.wakers = r.cell.wakers)
    (hfutures : r'.futures = r.futures) : r'.Lined (past ++ [e]) futures' := by
  obtain rfl := hwaited.futures_eq hwaited' hwakers fun k key hk => by rwa [← hfutures]
  exact h.quiet he hwakers (fun k _ => by rw [hfutures]) fun k hk => by rwa [← hfutures]

theorem poll (h : r.Lined past futures) (hwaited : r.Waited futures threads) (hempty : r.cell.payload = .empty)
    (hwaited' : (r.step (.poll k waker)).1.Waited futures' threads') :
    (r.step (.poll k waker)).1.Lined (past ++ [r.event (.poll k waker)]) futures' := by
  by_cases hk : ∃ key, r.futures[k]? = some (.live key)
  · obtain ⟨key, hk⟩ := hk
    have hstep : r.step (.poll k waker) = ({ r with
        cell := (r.cell.register waker key).1
        futures := r.futures.set k (.live (some (r.cell.register waker key).2)) }, .polled .pending) := by
      simp only [Room.step, Room.poll, hk, Cell.poll, hempty]
    have hanswer : (r.event (.poll k waker)).answer = .polled .pending := by rw [event, hstep]
    rw [hstep] at hwaited' ⊢
    cases key with
    | none =>
      have hjoined := hwaited.join hempty hk waker
      obtain rfl := hjoined.futures_eq hwaited' rfl fun _ _ => id
      exact h.join hk (hwaited.not_mem hk fun key => by simp) rfl hanswer
    | some key =>
      obtain rfl := (hwaited.rejoin hk waker).futures_eq hwaited' rfl fun _ _ => id
      exact h.rejoin hwaited hk rfl hanswer
  · have hstep : r.step (.poll k waker) = (r, .nothing) := by
      simp only [Room.step, Room.poll]
      split
      · rename_i key hkey
        exact absurd ⟨key, hkey⟩ hk
      · rfl
    have hanswer : (r.event (.poll k waker)).answer ≠ .polled .pending := by simp [event, hstep]
    rw [hstep] at hwaited' ⊢
    exact h.idle hwaited hwaited' hanswer rfl rfl

theorem drop (h : r.Lined past futures) (hwaited : r.Waited futures threads)
    (hwaited' : (r.step (.drop k)).1.Waited futures' threads') :
    (r.step (.drop k)).1.Lined (past ++ [r.event (.drop k)]) futures' := by
  by_cases hk : ∃ key, r.futures[k]? = some (.live key)
  · obtain ⟨key, hk⟩ := hk
    have hstep : r.step (.drop k) =
        ({ r with cell := r.cell.withdraw key, futures := r.futures.set k .dropped }, .dropped true) := by
      simp only [Room.step, Room.drop, hk]
    have hanswer : (r.event (.drop k)).answer ≠ .polled .pending := by simp [event, hstep]
    rw [hstep] at hwaited' ⊢
    have hleft := hwaited.leave hk (show ∀ key, CellFuture.dropped ≠ .live (some key) by simp)
    obtain rfl := hleft.futures_eq hwaited' rfl fun _ _ => id
    exact h.leave hwaited hk hanswer
  · have hstep : r.step (.drop k) = (r, .dropped false) := by
      simp only [Room.step, Room.drop]
      split
      · rename_i key hkey
        exact absurd ⟨key, hkey⟩ hk
      · rfl
    have hanswer : (r.event (.drop k)).answer ≠ .polled .pending := by simp [event, hstep]
    rw [hstep] at hwaited' ⊢
    exact h.idle hwaited hwaited' hanswer rfl rfl

theorem get (h : r.Lined past futures) (hwaited : r.Waited futures threads)
    (hwaited' : (r.step .get).1.Waited futures' threads') :
    (r.step .get).1.Lined (past ++ [r.event .get]) futures' := by
  obtain rfl := hwaited.get.futures_eq hwaited' rfl fun _ _ => id
  refine h.quiet (by simp [event, Room.step]) rfl (fun k hk => ?_) fun k hk => ?_
  · obtain ⟨entry, -, hkey⟩ := hwaited.exists_key hk
    exact List.getElem?_append_left (List.getElem?_eq_some_iff.1 hkey).1
  · by_cases hlt : k < r.futures.length
    · simp only [Room.step] at hk
      rwa [List.getElem?_append_left hlt] at hk
    · exact .inr (List.getElem?_eq_none (Nat.le_of_not_lt hlt))

/-- As long as the cell is empty, every step leaves the futures lined up. -/
theorem step (h : r.Lined past futures) (hwaited : r.Waited futures threads) (a : Action V W)
    (hempty : (r.step a).1.cell.payload = .empty) (hwaited' : (r.step a).1.Waited futures' threads') :
    (r.step a).1.Lined (past ++ [r.event a]) futures' := by
  have hbefore := empty_of_step hempty
  by_cases hbeside : (∀ k waker, a ≠ .poll k waker) ∧ (∀ k, a ≠ .drop k) ∧ a ≠ .get
  · obtain ⟨hfutures, hwakers, hanswer⟩ := r.step_beside hbeside.1 hbeside.2.1 hbeside.2.2
    exact h.idle hwaited hwaited' hanswer hwakers hfutures
  · cases a with
    | poll k waker => exact h.poll hwaited hbefore hwaited'
    | drop k => exact h.drop hwaited hwaited'
    | get => exact h.get hwaited hwaited'
    | _ => simp at hbeside

end Lined

/-- After a run the futures that wait are lined up, if the cell is still empty. -/
theorem exists_lined_run {r : Room V W} {past : List (Event V W)} {futures threads : List Nat}
    (h : r.Waited futures threads) (hreads : Reads past futures threads)
    (hlined : r.cell.payload = .empty → r.Lined past futures) (as : List (Action V W)) :
    ∃ futures' threads', (r.run as).1.Waited futures' threads' ∧ Reads (past ++ r.history as) futures' threads' ∧
      ((r.run as).1.cell.payload = .empty → (r.run as).1.Lined (past ++ r.history as) futures') := by
  induction as generalizing r past futures threads with
  | nil =>
    rw [history, List.append_nil]
    exact ⟨futures, threads, h, hreads, hlined⟩
  | cons a as ih =>
    obtain ⟨futures', threads', h', hadmits⟩ := h.step a
    have hrest := ih h' (hreads.concat hadmits) fun hempty => (hlined (empty_of_step hempty)).step h a hempty h'
    rwa [List.append_assoc] at hrest

/-- Once a future is answered or dropped, no poll leaves it pending. -/
theorem history_freed (r : Room V W) (as : List (Action V W)) :
    (r.history as).Pairwise fun d e => ∀ k, d.FreesFuture k → ¬ e.LeavesPending k := by
  refine history_pairwise (fun r a as e he k hfrees => ?_) r as
  rcases hfrees with ⟨waker, answer, haction, hanswer⟩ | ⟨haction, hanswer⟩
  · -- the answer was there, so the cell is not empty, and it never is again
    have hlook : answer.map some = r.cell.payload.look :=
      read_eq r a (by rw [show (r.step a).2 = _ from hanswer]; rfl)
    obtain rfl : a = .poll k waker := haction
    have hsame := r.step_other (a := .poll k waker) (by simp) (by simp)
    have hpending : e.LeavesPending k → e.before.cell.payload = .empty := by
      rintro ⟨-, hpending⟩
      obtain ⟨r', b, rfl⟩ := exists_event_of_mem he
      have hread : .ok none = r'.cell.payload.look :=
        read_eq r' b (by rw [show (r'.step b).2 = _ from hpending]; rfl)
      cases hp : r'.cell.payload <;> simp [hp, Payload.look] at hread
      exact hp
    intro hleaves
    have hempty := hpending hleaves
    cases hp : r.cell.payload with
    | empty => cases answer <;> simp [hp, Payload.look, Except.map] at hlook
    | full value =>
      rcases ((history_full (hsame.trans hp) as).1 e he).2 with hfull | hgone
      · cases hempty.symm.trans hfull
      · cases hempty.symm.trans hgone
    | destroyed => cases hempty.symm.trans (history_destroyed (hsame.trans hp) as e he).2.2.2
  · obtain rfl : a = .drop k := haction
    refine history_dropped ?_ as e he
    simp only [event, Room.step, Room.drop] at hanswer ⊢
    split at hanswer
    · rename_i key hk
      simp [(List.getElem?_eq_some_iff.1 hk).1]
    · simp at hanswer

/-- So it does not wait any more. -/
theorem not_futureWaits_of_freed {past : List (Event V W)} {d : Event V W} {k : Nat}
    (hpast : past.Pairwise fun d e => ∀ k, d.FreesFuture k → ¬ e.LeavesPending k) (hd : d ∈ past)
    (hfrees : d.FreesFuture k) : ¬ FutureWaits past k := by
  rintro ⟨old, x, new, rfl, hx, hnew⟩
  rcases List.mem_append.1 hd with hd | hd
  · exact (List.pairwise_append.1 hpast).2.2 d hd x (by simp) k hfrees hx
  · rcases List.mem_cons.1 hd with rfl | hd
    · rcases hfrees with ⟨waker, answer, -, hanswer⟩ | ⟨-, hanswer⟩ <;> simp [hx.2] at hanswer
    · exact hnew d hd hfrees

/-- Who does not put anything wakes nobody, nor does a put that is refused. -/
theorem woken_eq_nil {r : Room V W} {a : Action V W} (h : ¬ (r.event a).IsWrite) : (r.step a).2.woken = [] := by
  cases a with
  | put value =>
    rcases r.step_put value with ⟨-, hanswer, -⟩ | ⟨-, hstep⟩
    · exact absurd ⟨value, rfl, _, hanswer⟩ h
    · rw [hstep]
      rfl
  | tryGet | state | waiters | get => rfl
  | signal | destroy =>
    simp only [Room.step]
    split <;> rfl
  | poll k waker =>
    simp only [Room.step, Room.poll]
    split <;> rfl
  | drop k =>
    simp only [Room.step, Room.drop]
    split <;> rfl
  | arrive timed =>
    simp only [Room.step, Room.arrive]
    split <;> rfl
  | resume n timeOver =>
    simp only [Room.step, Room.resume]
    repeat' split
    all_goals rfl

end Room

open Room

/-- A put wakes those who wait, and nothing else wakes anyone. -/
structure WakesReaders {V W : Type} (history : List (Event V W)) : Prop where
  /-- A put that goes through wakes each future that was left pending and has neither been answered nor dropped
  since, by the waker of its latest poll, in the order in which they were first left pending. -/
  put : ∀ pre e post, history = pre ++ e :: post → e.IsWrite → ∃ futures : List Nat,
    (∀ k, k ∈ futures ↔ FutureWaits pre k) ∧ futures.Nodup ∧
      (futures.Pairwise fun j k => firstPending pre j < firstPending pre k) ∧
      e.answer.woken.map some = futures.map (latestWaker? pre)
  /-- A future that was ever answered or dropped is not among them. -/
  freed : ∀ pre post, history = pre ++ post → ∀ d ∈ pre, ∀ k, d.FreesFuture k → ¬ FutureWaits pre k
  /-- A put that is refused wakes nobody, nor does any other step. -/
  others : ∀ e ∈ history, ¬ e.IsWrite → e.answer.woken = []

namespace Room

variable {V W : Type}

theorem wakesReaders_history (as : List (Action V W)) : WakesReaders (({} : Room V W).history as) := by
  constructor
  case put =>
    intro pre e post h he
    obtain ⟨as', a, -, rfl, rfl, -, -⟩ := history_split_run h
    obtain ⟨futures, threads, hwaited, hreads, hlined⟩ :=
      exists_lined_run (r := ({} : Room V W)) .initial .initial (fun _ => .initial) as'
    obtain ⟨value, hwrites⟩ := he
    have hempty := (payload_of_writes hwrites).1
    have hline := hlined hempty
    obtain rfl : a = .put value := hwrites.1
    refine ⟨futures, hreads.1, hwaited.nodup_futures, hline.order, ?_⟩
    have hwoken : (event (({} : Room V W).run as').1 (.put value)).answer.woken =
        (({} : Room V W).run as').1.cell.registered := by
      rcases (({} : Room V W).run as').1.step_put value with ⟨-, hanswer, -⟩ | ⟨hfull, -⟩
      · rw [event, hanswer]
        rfl
      · exact absurd hempty hfull
    rw [List.nil_append] at hline
    rw [hwoken, hline.latest]
  case freed =>
    intro pre post h d hd k hfrees
    have hall := h ▸ history_freed ({} : Room V W) as
    exact not_futureWaits_of_freed (List.pairwise_append.1 hall).1 hd hfrees
  case others =>
    intro e he hwrite
    obtain ⟨r, a, rfl⟩ := exists_event_of_mem he
    exact woken_eq_nil hwrite

/-- A future that is polled again keeps its place and has its new waker woken; one that was dropped is left out. -/
example : (({} : Room Nat Nat).run [.get, .get, .get, .poll 2 12, .poll 1 11, .poll 0 10, .poll 2 22, .drop 1, .put 5]).2.getLast?.map
    Answer.woken = some [22, 10] := rfl

end Room

namespace Session

variable {V W : Type} {react : W → Option (Handle × V)}

/-- The wakers are woken one after the other, each of them once. What one of them puts wakes others before the
next one has its turn. -/
inductive Wakes (react : W → Option (Handle × V)) :
    Session V W → List W → List (WakeEvent W) → Session V W → Prop
  | nil (s : Session V W) : Wakes react s [] [] s
  | idle {s s' : Session V W} {waker : W} {wakers : List W} {events : List (WakeEvent W)} :
      react waker = none → Wakes react s wakers events s' →
      Wakes react s (waker :: wakers) (.woken waker :: events) s'
  | refused {s s' : Session V W} {waker : W} {wakers : List W} {events : List (WakeEvent W)} {h : Handle} {value : V}
      {e : RuntimeError} :
      react waker = some (h, value) → s.put h value = .error e → Wakes react s wakers events s' →
      Wakes react s (waker :: wakers) (.woken waker :: .answered (.error e) :: events) s'
  | put {s s₁ s₂ s' : Session V W} {waker : W} {wakers woken : List W} {inner events : List (WakeEvent W)} {h : Handle}
      {value : V} :
      react waker = some (h, value) → s.put h value = .ok (s₁, woken) → Wakes react s₁ woken inner s₂ →
      Wakes react s₂ wakers events s' →
      Wakes react s (waker :: wakers) (.woken waker :: (inner ++ .answered (.ok ()) :: events)) s'

theorem Wakes.emptyCells_le {s s' : Session V W} {wakers : List W} {events : List (WakeEvent W)}
    (h : Wakes react s wakers events s') : s'.emptyCells ≤ s.emptyCells := by
  induction h with
  | nil => exact Nat.le_refl _
  | idle _ _ ih | refused _ _ _ ih => exact ih
  | put _ hput _ _ ihinner ih => exact ih.trans (ihinner.trans (emptyCells_put_lt hput).le)

theorem cascade_idle {s : Session V W} {waker : W} {rest : List (Chore W)} (hreact : react waker = none) :
    cascade react s (.wake waker :: rest) = ((cascade react s rest).1, .woken waker :: (cascade react s rest).2) := by
  rw [cascade, hreact]

theorem cascade_refused {s : Session V W} {waker : W} {rest : List (Chore W)} {h : Handle} {value : V}
    {e : RuntimeError} (hreact : react waker = some (h, value)) (hput : s.put h value = .error e) :
    cascade react s (.wake waker :: rest) =
      ((cascade react s rest).1, .woken waker :: .answered (.error e) :: (cascade react s rest).2) := by
  rw [cascade, hreact]
  dsimp only
  split
  · rename_i e' he
    cases hput.symm.trans he
    rfl
  · rename_i s₁ woken hok
    cases hput.symm.trans hok

theorem cascade_put {s s₁ : Session V W} {waker : W} {woken : List W} {rest : List (Chore W)} {h : Handle} {value : V}
    (hreact : react waker = some (h, value)) (hput : s.put h value = .ok (s₁, woken)) :
    cascade react s (.wake waker :: rest) =
      ((cascade react s₁ (woken.map .wake ++ .answer (.ok ()) :: rest)).1,
        .woken waker :: (cascade react s₁ (woken.map .wake ++ .answer (.ok ()) :: rest)).2) := by
  rw [cascade, hreact]
  dsimp only
  split
  · rename_i e he
    cases hput.symm.trans he
  · rename_i s' woken' hok
    cases hput.symm.trans hok
    rfl

theorem cascade_answer {s : Session V W} {result : Except RuntimeError Unit} {rest : List (Chore W)} :
    cascade react s (.answer result :: rest) =
      ((cascade react s rest).1, .answered result :: (cascade react s rest).2) := by
  rw [cascade]

/-- A cascade wakes its wakers, and then does what else it has to do. -/
theorem exists_wakes_cascade (react : W → Option (Handle × V)) (s : Session V W) (wakers : List W) (rest : List (Chore W)) :
    ∃ s' events, Wakes react s wakers events s' ∧ cascade react s (wakers.map .wake ++ rest) =
      ((cascade react s' rest).1, events ++ (cascade react s' rest).2) := by
  -- a put that goes through leaves one empty cell less, and a waker that puts nothing one waker less
  induction hn : s.emptyCells using Nat.strong_induction_on generalizing s wakers rest with
  | _ n ihcells =>
    induction wakers with
    | nil => exact ⟨s, [], .nil s, by simp⟩
    | cons waker wakers ih =>
      obtain ⟨s', events, hwakes, hcascade⟩ := ih
      rw [List.map_cons, List.cons_append]
      cases hreact : react waker with
      | none =>
        refine ⟨s', .woken waker :: events, .idle hreact hwakes, ?_⟩
        rw [cascade_idle hreact, hcascade, List.cons_append]
      | some answer =>
        obtain ⟨h, value⟩ := answer
        cases hput : s.put h value with
        | error e =>
          refine ⟨s', .woken waker :: .answered (.error e) :: events, .refused hreact hput hwakes, ?_⟩
          rw [cascade_refused hreact hput, hcascade, List.cons_append, List.cons_append]
        | ok result =>
          obtain ⟨s₁, woken⟩ := result
          have hlt : s₁.emptyCells < n := hn ▸ emptyCells_put_lt hput
          obtain ⟨s₂, inner, hinner, hfirst⟩ :=
            ihcells _ hlt s₁ woken (.answer (.ok ()) :: (wakers.map .wake ++ rest)) rfl
          have hlt₂ : s₂.emptyCells < n := hinner.emptyCells_le.trans_lt hlt
          obtain ⟨s₃, outer, houter, hsecond⟩ := ihcells _ hlt₂ s₂ wakers rest rfl
          refine ⟨s₃, _, .put hreact hput hinner houter, ?_⟩
          rw [cascade_put hreact hput, hfirst, cascade_answer, hsecond]
          simp

/-- A put through a handle goes through exactly if the step on the cell behind it does. -/
theorem put_eq (s : Session V W) (h : Handle) (value : V) :
    (∃ i e, s.eventOn i (.via h (.put value)) = some e ∧ e.IsWrite ∧
      s.put h value = .ok (s.perform (.via h (.put value)), e.answer.woken)) ∨
    ((∀ i e, s.eventOn i (.via h (.put value)) = some e → ¬ e.IsWrite) ∧ ∃ e, s.put h value = .error e) := by
  cases hroom : s.room? h with
  | none => exact .inr ⟨by simp [eventOn, hroom], .useAfterDestroy, by simp only [put, hroom]⟩
  | some found =>
    obtain ⟨i, r⟩ := found
    obtain ⟨hhandle, hr⟩ := room?_eq_some hroom
    rcases r.step_put value with ⟨-, hanswer, -⟩ | ⟨-, hstep⟩
    · refine .inl ⟨i, r.event (.put value), by simp [eventOn, hroom], ⟨value, rfl, _, hanswer⟩, ?_⟩
      have hput : r.put value = ((r.step (.put value)).1, .written (.ok ()) r.cell.registered) :=
        Prod.ext rfl hanswer
      simp only [put, hroom, hput, perform, onRoom, hhandle, stepRoom, hr, event, hanswer, Answer.woken]
    · have hput : r.put value = (r, .written (.error .doubleWrite) []) := hstep
      refine .inr ⟨fun j e he => ?_, .doubleWrite, by simp only [put, hroom, hput]⟩
      simp only [eventOn, hroom, Option.ite_none_right_eq_some, Option.some.injEq] at he
      obtain ⟨-, rfl⟩ := he
      rintro ⟨v, -, woken, hanswer⟩
      simp [event, hstep] at hanswer

theorem eventOn_unique {s : Session V W} {op : Op V W} {i j : Nat} {e e' : Event V W}
    (he : s.eventOn i op = some e) (he' : s.eventOn j op = some e') : e' = e := by
  cases op with
  | new | clone => cases he
  | via h a =>
    simp only [eventOn] at he he'
    cases hroom : s.room? h with
    | none => simp [hroom] at he
    | some found =>
      simp only [hroom, Option.ite_none_right_eq_some, Option.some.injEq] at he he'
      exact he'.2.symm.trans he.2

end Session

/-- What a request wakes is what its put wakes, and what those put who are woken. -/
structure RequestWakes {V W : Type} (react : W → Option (Handle × V)) (s : Session V W)
    (request : Session.Request V W) : Prop where
  /-- A put that goes through wakes the readers of its cell, one after the other. -/
  put : ∀ h value i e, request = .put h value → s.eventOn i (.via h (.put value)) = some e → e.IsWrite →
    ∃ s', Session.Wakes react (s.perform (.via h (.put value))) e.answer.woken (s.serve react request).2.2 s'
  /-- Everything else wakes nobody. -/
  others : (∀ h value i e, request = .put h value → s.eventOn i (.via h (.put value)) = some e → ¬ e.IsWrite) →
    (s.serve react request).2.2 = []

namespace Session

variable {V W : Type}

theorem requestWakes (react : W → Option (Handle × V)) (s : Session V W) (request : Request V W) :
    RequestWakes react s request := by
  constructor
  case put =>
    rintro h value i e rfl he hwrite
    rcases s.put_eq h value with ⟨j, e', he', -, hput⟩ | ⟨hno, -⟩
    · obtain rfl := eventOn_unique he' he
      obtain ⟨s', events, hwakes, hcascade⟩ :=
        exists_wakes_cascade react (s.perform (.via h (.put value))) e.answer.woken []
      have hevents : (cascade react (s.perform (.via h (.put value))) (e.answer.woken.map .wake)).2 = events := by
        rw [List.append_nil] at hcascade
        simp [hcascade, cascade]
      refine ⟨s', ?_⟩
      rw [← hevents] at hwakes
      simp only [serve, putAndWake, hput]
      split <;> exact hwakes
    · exact absurd hwrite (hno i e he)
  case others =>
    intro hno
    cases request with
    | put h value =>
      rcases s.put_eq h value with ⟨i, e, he, hwrite, -⟩ | ⟨-, e, he⟩
      · exact absurd hwrite (hno h value i e rfl he)
      · simp only [serve, putAndWake, he]
    | new | same | tryGet | getTimeout | destroy | state | isFull | waiters => rfl
    | clone h | getBlocking h | get h | poll k waker | drop k | block h timed =>
      simp only [serve]
      repeat' split
      all_goals rfl

/-- Whatever is done to cells, through whichever handles: a put that goes through wakes every future that waits on
the cell, by its latest waker and in the order in which they came, and nothing else wakes anyone. -/
theorem wakes_registered_readers :
    (∀ (ops : List (Op V W)) (i : Nat), WakesReaders (({} : Session V W).historyOf i ops)) ∧
      ∀ (react : W → Option (Handle × V)) (s : Session V W) (request : Request V W), RequestWakes react s request := by
  refine ⟨fun ops i => ?_, requestWakes⟩
  obtain ⟨as, h⟩ := historyOf_eq_history ({} : Session V W) i ops
  rw [h]
  exact wakesReaders_history as

end Session
end Dataflow
