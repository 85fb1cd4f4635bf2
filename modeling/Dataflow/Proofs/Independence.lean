import Dataflow.Proofs.Waking

/-!
# Independence of cells

Cells share the tables of handles, futures and threads, and nothing else: what is asked of one cell is answered as if
there were no other (`Session.independent`). The session that has only one of the cells is the session with the entries
of the others left out of its tables (`Session.only`); what is addressed to this cell commutes with that
(`Session.ask_only`), and what is addressed to others does not touch it (`Session.only_ask`). A handle is nothing but
the number of its cell, so any handle of the same cell does in its place.
-/

namespace Dataflow

/-- The place of entry `n` among those that have the property. -/
def place {α : Type} (p : α → Bool) (xs : List α) (n : Nat) : Nat := (xs.take n).countP p

section Place

variable {α : Type} {p : α → Bool} {xs : List α} {n : Nat}

theorem getElem?_filter_place {x : α} (h : xs[n]? = some x) (hp : p x = true) : (xs.filter p)[place p xs n]? = some x := by
  induction xs generalizing n with
  | nil => cases h
  | cons y xs ih =>
    cases n with
    | zero =>
      cases h
      simp [place, hp]
    | succ n =>
      have hrest := ih (n := n) (by simpa using h)
      by_cases hy : p y = true
      · rw [List.filter_cons_of_pos hy, place, List.take_succ_cons, List.countP_cons_of_pos hy, List.getElem?_cons_succ]
        exact hrest
      · rw [List.filter_cons_of_neg hy, place, List.take_succ_cons, List.countP_cons_of_neg hy]
        exact hrest

/-- A new entry comes after all others. -/
theorem place_length (p : α → Bool) (xs : List α) : place p xs xs.length = (xs.filter p).length := by
  rw [place, List.take_length, List.countP_eq_length_filter]

/-- The entries that have the property, each with its place. -/
theorem zipIdx_filter (p : α → Bool) (xs : List α) :
    (xs.filter p).zipIdx = (xs.zipIdx.filter (p ·.1)).map fun entry => (entry.1, place p xs entry.2) := by
  induction xs using List.reverseRecOn with
  | nil => rfl
  | append_singleton xs x ih =>
    have hold : ∀ entry ∈ xs.zipIdx.filter (p ·.1), place p (xs ++ [x]) entry.2 = place p xs entry.2 := by
      intro entry hentry
      have hlt : entry.2 < xs.length := by
        have hmem := List.mem_zipIdx (List.mem_filter.1 hentry).1
        omega
      rw [place, List.take_append_of_le_length (Nat.le_of_lt hlt), place]
    have hnew : place p (xs ++ [x]) xs.length = (xs.filter p).length := by
      rw [place, List.take_left', List.countP_eq_length_filter]
      rfl
    rw [List.filter_append, List.zipIdx_append, ih, List.zipIdx_append, List.filter_append, List.map_append]
    refine congrArg₂ _ (List.map_congr_left fun entry hentry => by rw [hold entry hentry]) ?_
    by_cases hx : p x = true <;> simp [hx, hnew]

end Place

namespace Session

variable {V W : Type}

/-- What the session may be asked: a request, or how the cell of a handle shows itself. -/
inductive Ask (V W : Type)
  | request (request : Request V W)
  | inspect (handle : Handle)

/-- What it tells, with those whom it wakes. -/
inductive Told (V W : Type)
  | reply (reply : Reply V) (woken : List (WakeEvent W))
  | shown (text : Option String)

/-- Ask the session, with wakers that put nothing themselves. -/
def ask (s : Session V W) : Ask V W → Session V W × Told V W
  | .request request =>
    let (s', reply, woken) := s.serve (fun _ => none) request
    (s', .reply reply woken)
  | .inspect h => (s, .shown ((s.room? h).map (·.2.cell.inspect)))

/-- What was asked, and what was told. -/
structure Entry (V W : Type) where
  before : Session V W
  ask : Ask V W
  told : Told V W

/-- All that is asked and told in a run. -/
def log (s : Session V W) : List (Ask V W) → List (Entry V W)
  | [] => []
  | a :: as => ⟨s, a, (s.ask a).2⟩ :: (s.ask a).1.log as

/-- The session after a run. -/
def after (s : Session V W) : List (Ask V W) → Session V W
  | [] => s
  | a :: as => (s.ask a).1.after as

namespace Request

/-- The handles that the request goes through. -/
def handles : Request V W → List Handle
  | .clone h | .put h _ | .tryGet h | .getBlocking h | .getTimeout h | .destroy h | .state h | .isFull h | .waiters h
  | .get h | .block h _ => [h]
  | .same h other => [h, other]
  | .new | .poll .. | .drop _ => []

/-- The request through other handles. -/
def through : Request V W → List Handle → Request V W
  | .clone _, [h] => .clone h
  | .put _ value, [h] => .put h value
  | .tryGet _, [h] => .tryGet h
  | .getBlocking _, [h] => .getBlocking h
  | .getTimeout _, [h] => .getTimeout h
  | .destroy _, [h] => .destroy h
  | .state _, [h] => .state h
  | .isFull _, [h] => .isFull h
  | .waiters _, [h] => .waiters h
  | .get _, [h] => .get h
  | .block _ timed, [h] => .block h timed
  | .same _ _, [h, other] => .same h other
  | request, _ => request

end Request

/-- The session with only cell `i`. -/
def only (i : Nat) (s : Session V W) : Session V W where
  rooms := s.rooms[i]?.toList
  handles := (s.handles.filter (· == i)).map fun _ => 0
  futures := (s.futures.filter (·.1 == i)).map fun future => (0, future.2)
  readers := (s.readers.filter (·.1 == i)).map fun reader => (0, reader.2)

/-- The number of a handle among those of cell `i`. -/
def handleIn (s : Session V W) (i : Nat) (h : Handle) : Handle := place (· == i) s.handles h

def futureIn (s : Session V W) (i n : Nat) : Nat := place (·.1 == i) s.futures n

def readerIn (s : Session V W) (i n : Nat) : Nat := place (·.1 == i) s.readers n

/-- What is asked of cell `i`, as it is asked if there is no other. `none`: it is not asked of this cell. -/
def Ask.within? (s : Session V W) (i : Nat) : Ask V W → Option (Ask V W)
  | .request .new => if s.rooms.length = i then some (.request .new) else none
  | .request (.poll n waker) =>
    if s.futures[n]?.map (·.1) = some i then some (.request (.poll (s.futureIn i n) waker)) else none
  | .request (.drop n) =>
    if s.futures[n]?.map (·.1) = some i then some (.request (.drop (s.futureIn i n))) else none
  | .request a =>
    if ∀ h ∈ a.handles, s.handles[h]? = some i then some (.request (a.through (a.handles.map (s.handleIn i)))) else none
  | .inspect h => if s.handles[h]? = some i then some (.inspect (s.handleIn i h)) else none

def Joined.within (s : Session V W) (i : Nat) (thread : Joined V) : Joined V :=
  { thread with reader := s.readerIn i thread.reader }

/-- What is told, with the numbers that things have if there is no other cell. -/
def Told.within (s : Session V W) (i : Nat) : Told V W → Told V W
  | .reply (.handle h) woken => .reply (.handle (s.handleIn i h)) woken
  | .reply (.future n) woken => .reply (.future (s.futureIn i n)) woken
  | .reply (.blocked n) woken => .reply (.blocked (s.readerIn i n)) woken
  | .reply (.joined thread) woken => .reply (.joined (thread.within s i)) woken
  | .reply (.put threads) woken => .reply (.put (threads.map (·.within s i))) woken
  | told => told

/-- An entry as it is if there is no cell but `i`. -/
def Entry.within? (i : Nat) (e : Entry V W) : Option (Ask V W × Told V W) :=
  (e.ask.within? e.before i).map fun a => (a, e.told.within e.before i)

/-- All handles, futures and threads are those of a cell that is there. -/
structure Sound (s : Session V W) : Prop where
  handles : ∀ i ∈ s.handles, i < s.rooms.length
  futures : ∀ future ∈ s.futures, future.1 < s.rooms.length
  readers : ∀ reader ∈ s.readers, reader.1 < s.rooms.length

variable {s : Session V W} {i j n k : Nat} {h : Handle} {r : Room V W}

theorem handles_only (hh : s.handles[h]? = some i) : (s.only i).handles[s.handleIn i h]? = some 0 := by
  have hplace := getElem?_filter_place (p := (· == i)) hh (beq_self_eq_true i)
  simp only [only, List.getElem?_map, handleIn, hplace, Option.map_some]

theorem futures_only (hn : s.futures[n]? = some (i, k)) : (s.only i).futures[s.futureIn i n]? = some (0, k) := by
  have hplace := getElem?_filter_place (p := (·.1 == i)) hn (beq_self_eq_true i)
  simp only [only, List.getElem?_map, futureIn, hplace, Option.map_some]

@[simp] theorem rooms_only (i : Nat) (s : Session V W) : (s.only i).rooms[0]? = s.rooms[i]? := by
  cases hr : s.rooms[i]? <;> simp [only, hr]

theorem room?_only (hh : s.room? h = some (i, r)) : (s.only i).room? (s.handleIn i h) = some (0, r) := by
  obtain ⟨hh, hr⟩ := room?_eq_some hh
  simp [room?, handles_only hh, hr]

/-- A room changes, and the tables stay. -/
theorem only_set (hr : s.rooms[i]? = some r) (r' : Room V W) :
    only i { s with rooms := s.rooms.set i r' } = { s.only i with rooms := (s.only i).rooms.set 0 r' } := by
  have hlt : i < s.rooms.length := (List.getElem?_eq_some_iff.1 hr).1
  simp only [only, List.getElem?_set_self hlt, hr, Option.toList_some, List.set_cons_zero]

theorem stepRoom_only (s : Session V W) (i : Nat) (a : Room.Action V W) :
    (s.only i).stepRoom 0 a = ((s.stepRoom i a).1.only i, (s.stepRoom i a).2) := by
  cases hr : s.rooms[i]? with
  | none => simp only [stepRoom, rooms_only, hr]
  | some r => simp only [stepRoom, rooms_only, hr, only_set hr]

/-- A step in a room leaves the tables alone. -/
theorem stepRoom_tables (s : Session V W) (i : Nat) (a : Room.Action V W) :
    (s.stepRoom i a).1.handles = s.handles ∧ (s.stepRoom i a).1.futures = s.futures ∧
      (s.stepRoom i a).1.readers = s.readers ∧ (s.stepRoom i a).1.rooms.length = s.rooms.length := by
  simp only [stepRoom]
  split <;> simp

/-- The threads that wait in a room, by the numbers that they have if there is no other. -/
theorem waitingIn_only (s : Session V W) (i : Nat) :
    (s.only i).waitingIn 0 = (s.waitingIn i).map fun thread => (s.readerIn i thread.1, thread.2) := by
  simp only [waitingIn, only, List.zipIdx_map, List.filterMap_map, zipIdx_filter, List.map_filterMap,
    List.filterMap_filter]
  refine List.filterMap_congr fun entry _ => ?_
  obtain ⟨⟨room, k⟩, n⟩ := entry
  by_cases hroom : room = i
  · subst hroom
    cases hr : s.rooms[room]? with
    | none => simp
    | some r => by_cases hk : k ∈ r.waiting <;> simp [hk, readerIn]
  · cases hr : s.rooms[room]? <;> simp [hroom]

/-- A thread that waited in room `i` goes on. -/
def goOn (i : Nat) (state : Session V W × List (Joined V)) (thread : Nat × Nat) : Session V W × List (Joined V) :=
  match state.1.stepRoom i (.resume thread.2 false) with
  | (s, .returned _ timed answer) => (s, state.2 ++ [⟨thread.1, timed, answer⟩])
  | (s, _) => (s, state.2)

theorem joinThreads_eq (s : Session V W) (i : Nat) :
    s.joinThreads i = (s.waitingIn i).foldl (goOn i) ((s.stepRoom i .signal).1, []) := rfl

theorem goOn_fst (i : Nat) (state : Session V W × List (Joined V)) (thread : Nat × Nat) :
    (goOn i state thread).1 = (state.1.stepRoom i (.resume thread.2 false)).1 := by
  simp only [goOn]
  split <;> rename_i heq <;> rw [heq]

theorem goOn_only (s : Session V W) (i : Nat) (state : Session V W × List (Joined V)) (thread : Nat × Nat) :
    goOn 0 (state.1.only i, state.2.map (·.within s i)) (s.readerIn i thread.1, thread.2) =
      ((goOn i state thread).1.only i, (goOn i state thread).2.map (·.within s i)) := by
  simp only [goOn, stepRoom_only]
  generalize state.1.stepRoom i (.resume thread.2 false) = outcome
  obtain ⟨t, answer⟩ := outcome
  cases answer <;> simp [Joined.within]

theorem foldl_goOn_only (s : Session V W) (i : Nat) (threads : List (Nat × Nat)) (state : Session V W × List (Joined V)) :
    threads.foldl (fun state thread => goOn 0 state (s.readerIn i thread.1, thread.2))
        (state.1.only i, state.2.map (·.within s i)) =
      ((threads.foldl (goOn i) state).1.only i, (threads.foldl (goOn i) state).2.map (·.within s i)) := by
  induction threads generalizing state with
  | nil => rfl
  | cons thread threads ih =>
    rw [List.foldl_cons, List.foldl_cons, goOn_only]
    exact ih _

theorem joinThreads_only (s : Session V W) (i : Nat) :
    (s.only i).joinThreads 0 = ((s.joinThreads i).1.only i, (s.joinThreads i).2.map (·.within s i)) := by
  rw [joinThreads_eq, joinThreads_eq, waitingIn_only, List.foldl_map, stepRoom_only]
  exact foldl_goOn_only s i _ ((s.stepRoom i .signal).1, [])

/-- What the steps in a room keep is kept when its threads go on. -/
theorem joinThreads_induction {P : Session V W → Prop} (hstep : ∀ s a, P s → P (s.stepRoom j a).1) (hs : P s) :
    P (s.joinThreads j).1 := by
  rw [joinThreads_eq]
  refine List.foldlRecOn (motive := fun state : Session V W × List (Joined V) => P state.1) _ _ (hstep s .signal hs) fun state hstate thread _ => ?_
  rw [goOn_fst]
  exact hstep _ _ hstate

theorem cascade_none (s : Session V W) (wakers : List W) :
    cascade (fun _ => none) s (wakers.map .wake) = (s, wakers.map .woken) := by
  induction wakers with
  | nil => simp [cascade]
  | cons waker wakers ih => rw [List.map_cons, cascade_idle rfl, ih, List.map_cons]

/-- What a put through a handle of cell `i` does. -/
theorem putAndWake_cases (hr : s.room? h = some (i, r)) (value : V) :
    (∃ r' woken, r.put value = (r', .written (.ok ()) woken) ∧ s.putAndWake (fun _ => none) h value =
        ((joinThreads { s with rooms := s.rooms.set i r' } i).1,
          .put (joinThreads { s with rooms := s.rooms.set i r' } i).2, woken.map .woken)) ∨
      ∃ e, r.put value = (r, .written (.error e) []) ∧ s.putAndWake (fun _ => none) h value = (s, .done (.error e), []) := by
  rcases r.step_put value with ⟨-, hanswer, -⟩ | ⟨-, hstep⟩
  · have hput : r.put value = ((r.put value).1, .written (.ok ()) r.cell.registered) := Prod.ext rfl hanswer
    have hs : s.put h value = .ok ({ s with rooms := s.rooms.set i (r.put value).1 }, r.cell.registered) := by
      simp only [put, hr]
      rw [hput]
    refine .inl ⟨_, _, hput, ?_⟩
    simp only [putAndWake, hs, cascade_none, (room?_eq_some hr).1]
  · have hput : r.put value = (r, .written (.error .doubleWrite) []) := hstep
    have hs : s.put h value = .error .doubleWrite := by simp only [put, hr, hput]
    exact .inr ⟨_, hput, by simp only [putAndWake, hs]⟩

theorem Sound.room? (hs : s.Sound) (hh : s.handles[h]? = some i) : ∃ r, s.room? h = some (i, r) := by
  have hlt := hs.handles i (List.mem_of_getElem? hh)
  exact ⟨s.rooms[i], by simp [Session.room?, hh, List.getElem?_eq_getElem hlt]⟩

/-- A cell that is still to be made has no handles, futures or threads. -/
theorem Sound.filter_new (hs : s.Sound) : s.handles.filter (· == s.rooms.length) = [] ∧
    s.futures.filter (·.1 == s.rooms.length) = [] ∧ s.readers.filter (·.1 == s.rooms.length) = [] :=
  ⟨List.filter_eq_nil_iff.2 fun i hi => by simpa using Nat.ne_of_lt (hs.handles i hi),
    List.filter_eq_nil_iff.2 fun future hf => by simpa using Nat.ne_of_lt (hs.futures future hf),
    List.filter_eq_nil_iff.2 fun reader hr => by simpa using Nat.ne_of_lt (hs.readers reader hr)⟩

theorem within?_of_handles {a : Request V W} (hone : a.handles = [h]) : Ask.within? s i (.request a) =
    if s.handles[h]? = some i then some (.request (a.through [s.handleIn i h])) else none := by
  cases a <;> simp_all [Request.handles, Ask.within?]

/-- A request through a handle is answered as if there were no other cell. -/
theorem request_only (hs : s.Sound) {a : Request V W} (hone : a.handles = [h]) (hh : s.handles[h]? = some i) :
    (s.only i).ask (.request (a.through [s.handleIn i h])) =
      ((s.ask (.request a)).1.only i, (s.ask (.request a)).2.within s i) := by
  obtain ⟨r, hr⟩ := hs.room? hh
  have hr' := room?_only hr
  have hroom := (room?_eq_some hr).2
  cases a with
  | new | same | poll | drop => cases hone
  | clone h' =>
    cases hone
    simp only [Request.through, ask, serve, handles_only hh, hh, Told.within]
    simp [only, List.filter_append, handleIn, place_length]
  | put h' value =>
    cases hone
    simp only [Request.through, ask, serve]
    rcases putAndWake_cases hr value with ⟨r', woken, hput, hs'⟩ | ⟨e, hput, hs'⟩ <;>
      rcases putAndWake_cases hr' value with ⟨r'', woken', hput', hs''⟩ | ⟨e', hput', hs''⟩ <;>
      cases hput.symm.trans hput'
    · rw [hs', hs'', ← only_set hroom, joinThreads_only]
      rfl
    · rw [hs', hs'']
      rfl
  | tryGet h' | destroy h' | state h' | isFull h' | waiters h' =>
    cases hone
    simp only [Request.through, ask, serve, onRoom, handles_only hh, hh, stepRoom_only]
    refine Prod.ext rfl ?_
    split <;> rfl
  | getBlocking h' =>
    cases hone
    simp only [Request.through, ask, serve, hr, hr']
    cases r.cell.arrive <;> rfl
  | getTimeout h' =>
    cases hone
    simp only [Request.through, ask, serve, getTimeout, hr, hr']
    cases hp : r.cell.payload <;> simp only [Cell.arrive, Cell.recheck, hp, if_true, only_set hroom] <;> rfl
  | get h' =>
    cases hone
    have hget : s.stepRoom i .get = ((s.stepRoom i .get).1, .count r.futures.length) := by
      simp only [stepRoom, hroom, Room.step]
    have hfutures := (s.stepRoom_tables i .get).2.1
    rw [hget] at hfutures
    simp only [Request.through, ask, serve, handles_only hh, hh, stepRoom_only]
    rw [hget]
    generalize (s.stepRoom i .get).1 = t at hfutures ⊢
    simp [only, List.filter_append, hfutures, Told.within, futureIn, place_length]
  | block h' timed =>
    cases hone
    have hreaders := (s.stepRoom_tables i (.arrive timed)).2.2.1
    simp only [Request.through, ask, serve, handles_only hh, hh, stepRoom_only]
    generalize s.stepRoom i (.arrive timed) = outcome at hreaders ⊢
    obtain ⟨t, answer⟩ := outcome
    simp only at hreaders
    cases answer <;>
      simp [only, List.filter_append, hreaders, Told.within, Joined.within, readerIn, place_length]

/-- What is asked of a cell is answered as if there were no other. -/
theorem ask_only (hs : s.Sound) {a a' : Ask V W} (ha : a.within? s i = some a') :
    (s.only i).ask a' = ((s.ask a).1.only i, (s.ask a).2.within s i) := by
  cases a with
  | inspect h =>
    obtain ⟨hh, rfl⟩ : s.handles[h]? = some i ∧ .inspect (s.handleIn i h) = a' := by simpa [Ask.within?] using ha
    obtain ⟨r, hr⟩ := hs.room? hh
    simp only [ask, room?_only hr, hr, Told.within, Option.map_some]
  | request a =>
    by_cases hone : ∃ h, a.handles = [h]
    · obtain ⟨h, hone⟩ := hone
      rw [within?_of_handles hone, Option.ite_none_right_eq_some, Option.some.injEq] at ha
      obtain ⟨hh, rfl⟩ := ha
      exact request_only hs hone hh
    cases a with
    | new =>
      obtain ⟨rfl, rfl⟩ : s.rooms.length = i ∧ .request .new = a' := by simpa [Ask.within?] using ha
      obtain ⟨hhandles, hfutures, hreaders⟩ := hs.filter_new
      simp [ask, serve, only, Told.within, handleIn, place_length, hhandles, hfutures, hreaders, List.filter_append]
    | same h other =>
      obtain ⟨⟨hh, hother⟩, rfl⟩ : (s.handles[h]? = some i ∧ s.handles[other]? = some i) ∧
          .request (.same (s.handleIn i h) (s.handleIn i other)) = a' := by
        simpa [Ask.within?, Request.handles, Request.through] using ha
      simp [ask, serve, handles_only hh, handles_only hother, hh, hother, Told.within]
    | poll n waker =>
      obtain ⟨hcell, rfl⟩ : s.futures[n]?.map (·.1) = some i ∧ .request (.poll (s.futureIn i n) waker) = a' := by
        simpa only [Ask.within?, Option.ite_none_right_eq_some, Option.some.injEq] using ha
      obtain ⟨⟨_, k⟩, hn, rfl⟩ := Option.map_eq_some_iff.1 hcell
      simp only [ask, serve, futures_only hn, hn, stepRoom_only]
      generalize s.stepRoom _ (.poll k waker) = outcome
      obtain ⟨t, answer⟩ := outcome
      rcases answer with _ | _ | _ | _ | _ | (_ | _) | _ | _ | _ | _ <;> rfl
    | drop n =>
      obtain ⟨hcell, rfl⟩ : s.futures[n]?.map (·.1) = some i ∧ .request (.drop (s.futureIn i n)) = a' := by
        simpa only [Ask.within?, Option.ite_none_right_eq_some, Option.some.injEq] using ha
      obtain ⟨⟨_, k⟩, hn, rfl⟩ := Option.map_eq_some_iff.1 hcell
      simp only [ask, serve, futures_only hn, hn, stepRoom_only]
      generalize s.stepRoom _ (.drop k) = outcome
      obtain ⟨t, answer⟩ := outcome
      cases answer <;> rfl
    | _ => exact absurd ⟨_, rfl⟩ hone

/-- From `s` to `s'` only cell `j` and those who read it have changed. -/
structure Touches (s : Session V W) (j : Nat) (s' : Session V W) : Prop where
  other : ∀ i, i ≠ j → s'.rooms[i]? = s.rooms[i]?
  length : s.rooms.length ≤ s'.rooms.length
  lt : j < s'.rooms.length
  handles : ∃ new, s'.handles = s.handles ++ new ∧ ∀ i ∈ new, i = j
  futures : ∃ new, s'.futures = s.futures ++ new ∧ ∀ future ∈ new, future.1 = j
  readers : ∃ new, s'.readers = s.readers ++ new ∧ ∀ reader ∈ new, reader.1 = j

namespace Touches

variable {s' : Session V W}

theorem refl (hj : j < s.rooms.length) : s.Touches j s :=
  ⟨fun _ _ => rfl, Nat.le_refl _, hj, ⟨[], by simp⟩, ⟨[], by simp⟩, ⟨[], by simp⟩⟩

theorem set (h : s.Touches j s') (r' : Room V W) : s.Touches j { s' with rooms := s'.rooms.set j r' } := by
  refine ⟨fun i hi => ?_, by simpa using h.length, by simpa using h.lt, h.handles, h.futures, h.readers⟩
  rw [← h.other i hi]
  exact List.getElem?_set_ne hi.symm

theorem stepRoom (h : s.Touches j s') (a : Room.Action V W) : s.Touches j (s'.stepRoom j a).1 := by
  simp only [Session.stepRoom]
  split
  · exact h
  · exact h.set _

/-- The session with only another cell is as it was. -/
theorem only_eq (h : s.Touches j s') (hij : i ≠ j) : s'.only i = s.only i := by
  obtain ⟨handles, hhandles, hnewh⟩ := h.handles
  obtain ⟨futures, hfutures, hnewf⟩ := h.futures
  obtain ⟨readers, hreaders, hnewr⟩ := h.readers
  have hh : handles.filter (· == i) = [] := List.filter_eq_nil_iff.2 fun k hk => by simpa [hnewh k hk] using hij.symm
  have hf : futures.filter (·.1 == i) = [] := List.filter_eq_nil_iff.2 fun f hf => by simpa [hnewf f hf] using hij.symm
  have hr : readers.filter (·.1 == i) = [] := List.filter_eq_nil_iff.2 fun f hf => by simpa [hnewr f hf] using hij.symm
  simp only [only, h.other i hij, hhandles, hfutures, hreaders, List.filter_append, hh, hf, hr, List.append_nil]

theorem sound (h : s.Touches j s') (hs : s.Sound) : s'.Sound := by
  obtain ⟨handles, hhandles, hnewh⟩ := h.handles
  obtain ⟨futures, hfutures, hnewf⟩ := h.futures
  obtain ⟨readers, hreaders, hnewr⟩ := h.readers
  refine ⟨fun i hi => ?_, fun f hf => ?_, fun f hf => ?_⟩
  · rcases List.mem_append.1 (hhandles ▸ hi) with hi | hi
    · exact Nat.lt_of_lt_of_le (hs.handles i hi) h.length
    · exact hnewh i hi ▸ h.lt
  · rcases List.mem_append.1 (hfutures ▸ hf) with hf | hf
    · exact Nat.lt_of_lt_of_le (hs.futures f hf) h.length
    · exact hnewf f hf ▸ h.lt
  · rcases List.mem_append.1 (hreaders ▸ hf) with hf | hf
    · exact Nat.lt_of_lt_of_le (hs.readers f hf) h.length
    · exact hnewr f hf ▸ h.lt

end Touches

/-- A request through a handle changes its cell only. -/
theorem touches_request (hs : s.Sound) {a : Request V W} (hone : a.handles = [h]) (hh : s.handles[h]? = some j) :
    s.Touches j (s.ask (.request a)).1 := by
  have hrefl : s.Touches j s := .refl (hs.handles j (List.mem_of_getElem? hh))
  obtain ⟨r, hr⟩ := hs.room? hh
  cases a with
  | new | same | poll | drop => cases hone
  | clone h' =>
    cases hone
    simp only [ask, serve, hh]
    exact ⟨hrefl.other, hrefl.length, hrefl.lt, ⟨[j], by simp⟩, hrefl.futures, hrefl.readers⟩
  | put h' value =>
    cases hone
    simp only [ask, serve]
    rcases putAndWake_cases hr value with ⟨r', woken, -, hs'⟩ | ⟨e, -, hs'⟩
    · rw [hs']
      exact joinThreads_induction (P := fun s' => s.Touches j s') (fun s' a h => h.stepRoom a) (hrefl.set r')
    · rw [hs']
      exact hrefl
  | tryGet h' | destroy h' | state h' | isFull h' | waiters h' =>
    cases hone
    simp only [ask, serve, onRoom, hh]
    exact hrefl.stepRoom _
  | getBlocking h' =>
    cases hone
    simp only [ask, serve, hr]
    split <;> exact hrefl
  | getTimeout h' =>
    cases hone
    simp only [ask, serve, getTimeout, hr]
    split
    · exact hrefl
    · split
      · exact hrefl.set _
      · exact hrefl
  | get h' =>
    cases hone
    have hstep := hrefl.stepRoom .get
    obtain ⟨-, hfutures, -⟩ := s.stepRoom_tables j .get
    simp only [ask, serve, hh]
    generalize s.stepRoom j .get = outcome at hstep hfutures ⊢
    obtain ⟨t, answer⟩ := outcome
    split
    · rename_i heq
      cases heq
      exact ⟨hstep.other, hstep.length, hstep.lt, hstep.handles, ⟨_, congrArg (· ++ _) hfutures, by simp⟩, hstep.readers⟩
    · rename_i heq
      cases heq
      exact hstep
  | block h' timed =>
    cases hone
    have hstep := hrefl.stepRoom (.arrive timed)
    obtain ⟨-, -, hreaders, -⟩ := s.stepRoom_tables j (.arrive timed)
    simp only [ask, serve, hh]
    generalize s.stepRoom j (.arrive timed) = outcome at hstep hreaders ⊢
    obtain ⟨t, answer⟩ := outcome
    split
    · rename_i heq
      cases heq
      exact ⟨hstep.other, hstep.length, hstep.lt, hstep.handles, hstep.futures, ⟨_, congrArg (· ++ _) hreaders, by simp⟩⟩
    · rename_i heq
      cases heq
      exact ⟨hstep.other, hstep.length, hstep.lt, hstep.handles, hstep.futures, ⟨_, congrArg (· ++ _) hreaders, by simp⟩⟩
    · rename_i heq
      cases heq
      exact hstep

/-- Through a handle that is not there nothing is done. -/
theorem request_of_none {a : Request V W} (hone : a.handles = [h]) (hh : s.handles[h]? = none) :
    (s.ask (.request a)).1 = s := by
  have hr : s.room? h = none := by simp [Session.room?, hh]
  cases a with
  | new | same | poll | drop => cases hone
  | put h' value =>
    cases hone
    simp only [ask, serve, putAndWake, put, hr]
  | clone h' | get h' | block h' =>
    cases hone
    simp only [ask, serve, hh]
  | getBlocking h' | getTimeout h' =>
    cases hone
    simp only [ask, serve, getTimeout, hr]
  | tryGet h' | destroy h' | state h' | isFull h' | waiters h' =>
    cases hone
    simp only [ask, serve, onRoom, hh]

/-- What is asked changes nothing, or only the cell of which it is asked. -/
theorem touches_ask (hs : s.Sound) (a : Ask V W) :
    (s.ask a).1 = s ∨ ∃ j, s.Touches j (s.ask a).1 ∧ ∀ i, a.within? s i = none → i ≠ j := by
  cases a with
  | inspect h => exact .inl rfl
  | request a =>
    by_cases hone : ∃ h, a.handles = [h]
    · obtain ⟨h, hone⟩ := hone
      cases hh : s.handles[h]? with
      | none => exact .inl (request_of_none hone hh)
      | some j =>
        refine .inr ⟨j, touches_request hs hone hh, ?_⟩
        rintro i hi rfl
        simp [within?_of_handles hone, hh] at hi
    cases a with
    | new =>
      refine .inr ⟨s.rooms.length, ⟨fun i hi => ?_, ?_, ?_, ⟨[s.rooms.length], rfl, by simp⟩, ⟨[], ?_⟩, ⟨[], ?_⟩⟩, ?_⟩
      · simp only [ask, serve, List.getElem?_append]
        split
        · rfl
        · rw [List.getElem?_eq_none (by simp; omega), List.getElem?_eq_none (by omega)]
      · simp [ask, serve]
      · simp [ask, serve]
      · simp [ask, serve]
      · simp [ask, serve]
      · rintro i hi rfl
        simp [Ask.within?] at hi
    | same h other => exact .inl rfl
    | poll n waker =>
      cases hn : s.futures[n]? with
      | none => exact .inl (by simp only [ask, serve, hn])
      | some future =>
        obtain ⟨j, k⟩ := future
        have hrefl : s.Touches j s := .refl (hs.futures _ (List.mem_of_getElem? hn))
        refine .inr ⟨j, ?_, ?_⟩
        · have hstep := hrefl.stepRoom (.poll k waker)
          simp only [ask, serve, hn]
          generalize s.stepRoom j (.poll k waker) = outcome at hstep ⊢
          split <;> exact hstep
        · rintro i hi rfl
          simp [Ask.within?, hn] at hi
    | drop n =>
      cases hn : s.futures[n]? with
      | none => exact .inl (by simp only [ask, serve, hn])
      | some future =>
        obtain ⟨j, k⟩ := future
        have hrefl : s.Touches j s := .refl (hs.futures _ (List.mem_of_getElem? hn))
        refine .inr ⟨j, ?_, ?_⟩
        · have hstep := hrefl.stepRoom (.drop k)
          simp only [ask, serve, hn]
          generalize s.stepRoom j (.drop k) = outcome at hstep ⊢
          split <;> exact hstep
        · rintro i hi rfl
          simp [Ask.within?, hn] at hi
    | _ => exact absurd ⟨_, rfl⟩ hone

theorem Sound.ask (hs : s.Sound) (a : Ask V W) : (s.ask a).1.Sound := by
  rcases touches_ask hs a with hsame | ⟨j, h, -⟩
  · rwa [hsame]
  · exact h.sound hs

theorem Sound.after (hs : s.Sound) (as : List (Ask V W)) : (s.after as).Sound := by
  induction as generalizing s with
  | nil => exact hs
  | cons a as ih => exact ih (hs.ask a)

theorem Sound.initial : ({} : Session V W).Sound := ⟨by simp, by simp, by simp⟩

/-- What is asked of other cells does not touch this one. -/
theorem only_ask (hs : s.Sound) {a : Ask V W} (ha : a.within? s i = none) : (s.ask a).1.only i = s.only i := by
  rcases touches_ask hs a with hsame | ⟨j, h, hother⟩
  · rw [hsame]
  · exact h.only_eq (hother i ha)

/-- A run is, for each cell, what it is with this cell alone. -/
theorem log_only (hs : s.Sound) (i : Nat) (as : List (Ask V W)) :
    ((s.only i).log (((s.log as).filterMap (·.within? i)).map (·.1))).map (fun e => (e.ask, e.told)) =
      (s.log as).filterMap (·.within? i) := by
  induction as generalizing s with
  | nil => rfl
  | cons a as ih =>
    cases ha : a.within? s i with
    | none =>
      have hnone : Entry.within? i ⟨s, a, (s.ask a).2⟩ = none := by simp [Entry.within?, ha]
      rw [log, List.filterMap_cons_none hnone, ← only_ask hs ha]
      exact ih (hs.ask a)
    | some a' =>
      have hsome : Entry.within? i ⟨s, a, (s.ask a).2⟩ = some (a', (s.ask a).2.within s i) := by
        simp [Entry.within?, ha]
      rw [log, List.filterMap_cons_some hsome, List.map_cons, log, List.map_cons, ask_only hs ha]
      exact congrArg _ (ih (hs.ask a))

/-- The session says that the two handles are of one cell. -/
def Same (s : Session V W) (h h' : Handle) : Prop := (s.ask (.request (.same h h'))).2 = .reply (.flag true) []

theorem same_iff {h h' : Handle} : s.Same h h' ↔ s.handles[h]? = s.handles[h']? := by
  simp [Same, ask, serve]

/-- The same is asked, through handles of the same cells. -/
inductive Alike (s : Session V W) : Ask V W → Ask V W → Prop
  | request {a : Request V W} {hs : List Handle} (hsame : List.Forall₂ s.Same a.handles hs) :
      Alike s (.request a) (.request (a.through hs))
  | inspect {h h' : Handle} (hsame : s.Same h h') : Alike s (.inspect h) (.inspect h')

/-- In a run other handles of the same cells are used, at any place. -/
inductive Interchanged : Session V W → List (Ask V W) → List (Ask V W) → Prop
  | nil (s : Session V W) : Interchanged s [] []
  | cons {s : Session V W} {a a' : Ask V W} {as as' : List (Ask V W)} (h : s.Alike a a')
      (hrest : Interchanged (s.ask a).1 as as') : Interchanged s (a :: as) (a' :: as')

theorem room?_congr {h h' : Handle} (hh : s.handles[h]? = s.handles[h']?) : s.room? h' = s.room? h := by
  simp only [room?, hh]

theorem putAndWake_congr {h h' : Handle} (hh : s.handles[h]? = s.handles[h']?) (value : V) :
    s.putAndWake (fun _ => none) h' value = s.putAndWake (fun _ => none) h value := by
  have hroom := room?_congr hh
  cases hr : s.room? h with
  | none => simp only [putAndWake, put, hroom, hr]
  | some found =>
    obtain ⟨i, r⟩ := found
    rw [hr] at hroom
    rcases putAndWake_cases hr value with ⟨r', woken, hput, hs'⟩ | ⟨e, hput, hs'⟩ <;>
      rcases putAndWake_cases hroom value with ⟨r'', woken', hput', hs''⟩ | ⟨e', hput', hs''⟩ <;>
      cases hput.symm.trans hput' <;> rw [hs', hs'']

/-- A handle is nothing but its cell. -/
theorem Alike.ask_eq {a a' : Ask V W} (h : s.Alike a a') : s.ask a' = s.ask a := by
  cases h with
  | inspect hsame => simp only [ask, room?_congr (same_iff.1 hsame)]
  | @request a hs hsame =>
    cases a with
    | new | poll | drop =>
      cases hsame
      rfl
    | same h other =>
      obtain _ | ⟨hfirst, _ | ⟨hsecond, _ | _⟩⟩ := hsame
      simp only [Request.through, ask, serve, same_iff.1 hfirst, same_iff.1 hsecond]
    | put h value =>
      obtain _ | ⟨hfirst, _ | _⟩ := hsame
      simp only [Request.through, ask, serve, putAndWake_congr (same_iff.1 hfirst)]
    | getBlocking h | getTimeout h =>
      obtain _ | ⟨hfirst, _ | _⟩ := hsame
      simp only [Request.through, ask, serve, getTimeout, room?_congr (same_iff.1 hfirst)]
    | _ =>
      obtain _ | ⟨hfirst, _ | _⟩ := hsame
      simp only [Request.through, ask, serve, onRoom, same_iff.1 hfirst]

theorem Interchanged.log_eq {as as' : List (Ask V W)} (h : Interchanged s as as') :
    (s.log as').map (·.told) = (s.log as).map (·.told) ∧ s.after as' = s.after as := by
  induction h with
  | nil => exact ⟨rfl, rfl⟩
  | cons h _ ih => simp only [log, after, List.map_cons, h.ask_eq, ih, and_self]

/-- Handles stay, and new ones come after them. -/
theorem handles_prefix (hs : s.Sound) (as : List (Ask V W)) : s.handles <+: (s.after as).handles := by
  induction as generalizing s with
  | nil => exact List.prefix_rfl
  | cons a as ih =>
    refine List.IsPrefix.trans ?_ (ih (hs.ask a))
    rcases touches_ask hs a with hsame | ⟨j, h, -⟩
    · rw [hsame]
    · obtain ⟨new, hnew, -⟩ := h.handles
      exact ⟨new, hnew.symm⟩

/-- Cells do not depend on each other, whatever is asked of them. -/
structure Independent (as : List (Ask V W)) : Prop where
  /-- What is asked of cell `i` gets the same answers, and wakes the same wakers, if nothing else is asked. -/
  alone : ∀ i, (({} : Session V W).log (((({} : Session V W).log as).filterMap (·.within? i)).map (·.1))).map
      (fun e => (e.ask, e.told)) = (({} : Session V W).log as).filterMap (·.within? i)
  /-- Nothing changes if other handles of the same cells are used. -/
  interchange : ∀ as', Interchanged ({} : Session V W) as as' →
    (({} : Session V W).log as').map (·.told) = (({} : Session V W).log as).map (·.told)
  /-- A new cell is not the same as one that has been there, now or later. -/
  new : ∀ s : Session V W, s = ({} : Session V W).after as →
    (s.ask (.request .new)).2 = .reply (.handle s.handles.length) [] ∧
      ∀ later h, h < s.handles.length → ¬ ((s.ask (.request .new)).1.after later).Same s.handles.length h ∧
        ¬ ((s.ask (.request .new)).1.after later).Same h s.handles.length

theorem independent (as : List (Ask V W)) : Independent as := by
  refine ⟨fun i => log_only .initial i as, fun as' h => h.log_eq.1, ?_⟩
  rintro s rfl
  refine ⟨rfl, fun later h hlt => ?_⟩
  have hs := Sound.initial.after as
  generalize ({} : Session V W).after as = s at hs hlt ⊢
  obtain ⟨more, hmore⟩ := handles_prefix (hs.ask (.request .new)) later
  have hold : (s.handles ++ [s.rooms.length] ++ more)[h]? = some s.handles[h] := by
    rw [List.append_assoc, List.getElem?_append_left hlt, List.getElem?_eq_getElem hlt]
  have hnew : (s.handles ++ [s.rooms.length] ++ more)[s.handles.length]? = some s.rooms.length := by simp
  have hne : s.handles[h] ≠ s.rooms.length := Nat.ne_of_lt (hs.handles _ (List.getElem_mem hlt))
  simp only [same_iff, ← hmore]
  simp only [ask, serve, hold, hnew, Option.some.injEq]
  exact ⟨hne.symm, hne⟩

end Session
end Dataflow
