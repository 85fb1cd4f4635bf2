import Dataflow.Cell.Room

/-!
# Sessions with several cells

Cells behind numbered handles, with futures and threads numbered over all cells, and wakers that may
themselves put a value when they are woken. A put wakes the registered futures one after the other;
what a waker puts wakes others before the next one has its turn. The cascade ends because every put
that wakes anyone fills an empty cell.
-/

namespace Dataflow

/-- Handles are numbered in the order they were made. -/
abbrev Handle := Nat

/-- What happens while a put wakes its readers. -/
inductive WakeEvent (W : Type) where
  | woken (waker : W)
  /-- The result of a put made by a waker, after all that it caused. -/
  | answered (result : Except RuntimeError Unit)

/-- What remains to be done of a cascade. -/
inductive Chore (W : Type) where
  | wake (waker : W)
  | answer (result : Except RuntimeError Unit)

/-- Several cells, their handles, and the numbering of futures and threads over all of them. -/
structure Session (V W : Type) where
  rooms : List (Room V W) := []
  /-- The room of each handle. -/
  handles : List Nat := []
  /-- The room of each future, and its number there. -/
  futures : List (Nat × Nat) := []
  /-- The room of each thread, and its number there. -/
  readers : List (Nat × Nat) := []

namespace Session

variable {V W : Type}

/-- A request to the session; cells are addressed by handle. -/
inductive Request (V W : Type) where
  | new
  | clone (handle : Handle)
  | same (handle other : Handle)
  | put (handle : Handle) (value : V)
  | tryGet (handle : Handle)
  | getBlocking (handle : Handle)
  /-- Blocks until the time is over, if nothing comes. -/
  | getTimeout (handle : Handle)
  | destroy (handle : Handle)
  | state (handle : Handle)
  | isFull (handle : Handle)
  | waiters (handle : Handle)
  | get (handle : Handle)
  | poll (future : Nat) (waker : W)
  | drop (future : Nat)
  /-- A thread of its own reads the cell. -/
  | block (handle : Handle) (timed : Bool)

/-- The answer of a thread, with its number and whether it was timed. -/
structure Joined (V : Type) where
  reader : Nat
  timed : Bool
  answer : Except RuntimeError (Option V)

/-- The answer to a request. -/
inductive Reply (V : Type) where
  | handle (h : Handle)
  | future (n : Nat)
  | flag (b : Bool)
  | count (n : Nat)
  | state (s : CellState)
  | done (result : Except RuntimeError Unit)
  | read (result : Except RuntimeError (Option V))
  | value (result : Except RuntimeError V)
  | pending
  | wouldBlock
  | dropped
  | blocked (reader : Nat)
  | joined (thread : Joined V)
  /-- A put went through; the threads that had waited on the cell have returned. -/
  | put (threads : List (Joined V))
  | unknown

/-- Room of a handle. -/
def room? (s : Session V W) (h : Handle) : Option (Nat × Room V W) := do
  let i ← s.handles[h]?
  let r ← s.rooms[i]?
  return (i, r)

theorem room?_eq_some {s : Session V W} {h : Handle} {i : Nat} {r : Room V W}
    (hr : s.room? h = some (i, r)) : s.handles[h]? = some i ∧ s.rooms[i]? = some r := by
  unfold room? at hr
  cases hh : s.handles[h]? with
  | none => simp [hh] at hr
  | some j =>
    cases hj : s.rooms[j]? with
    | none => simp [hh, hj] at hr
    | some q =>
      simp only [hh, hj, bind, Option.bind, pure, Option.some.injEq, Prod.mk.injEq] at hr
      obtain ⟨rfl, rfl⟩ := hr
      exact ⟨rfl, hj⟩

/-- Let one room take a step. -/
def stepRoom (s : Session V W) (i : Nat) (action : Room.Action V W) : Session V W × Room.Answer V W :=
  match s.rooms[i]? with
  | none => (s, .nothing)
  | some r =>
    let (r', answer) := r.step action
    ({ s with rooms := s.rooms.set i r' }, answer)

/-- How many cells are still empty. -/
def emptyCells (s : Session V W) : Nat :=
  s.rooms.countP fun r => r.cell.state == .empty

/-- Put through a handle: the session afterwards and the wakers to wake, or the refusal. -/
def put (s : Session V W) (h : Handle) (value : V) : Except RuntimeError (Session V W × List W) :=
  match s.room? h with
  | none => .error .useAfterDestroy
  | some (i, r) =>
    match r.put value with
    | (r', .written (.ok ()) woken) => .ok ({ s with rooms := s.rooms.set i r' }, woken)
    | (_, .written (.error e) _) => .error e
    | _ => .error .doubleWrite

theorem countP_set_lt {α : Type} (p : α → Bool) {xs : List α} {i : Nat} {a b : α}
    (ha : xs[i]? = some a) (hpa : p a = true) (hpb : p b = false) :
    (xs.set i b).countP p < xs.countP p := by
  induction xs generalizing i with
  | nil => simp at ha
  | cons x xs ih =>
    cases i with
    | zero =>
      simp only [List.getElem?_cons_zero, Option.some.injEq] at ha
      subst ha
      simp [hpa, hpb]
    | succ i =>
      have := ih (i := i) (by simpa using ha)
      simp only [List.set_cons_succ, List.countP_cons]
      omega

/-- A put that goes through leaves one empty cell less. -/
theorem emptyCells_put_lt {s s' : Session V W} {h : Handle} {value : V} {woken : List W}
    (hput : s.put h value = .ok (s', woken)) : s'.emptyCells < s.emptyCells := by
  unfold put at hput
  split at hput
  · contradiction
  · rename_i i r hroom
    have hr : s.rooms[i]? = some r := (room?_eq_some hroom).2
    split at hput
    · rename_i r' w hrput
      cases hput
      cases hp : r.cell.payload with
      | empty =>
        simp only [Room.put, Cell.put, hp, Prod.mk.injEq] at hrput
        refine countP_set_lt _ hr (by simp [Cell.state, hp]) ?_
        rw [← hrput.1]
        simp [Cell.state]
      | full _ => simp [Room.put, Cell.put, hp] at hrput
      | destroyed => simp [Room.put, Cell.put, hp] at hrput
    · cases hput
    · cases hput

/-- Work off a cascade. `react` gives the put that a waker makes when it is woken, if it makes one. -/
def cascade (react : W → Option (Handle × V)) (s : Session V W) :
    List (Chore W) → Session V W × List (WakeEvent W)
  | [] => (s, [])
  | .answer result :: rest =>
    let (last, events) := cascade react s rest
    (last, .answered result :: events)
  | .wake waker :: rest =>
    match react waker with
    | none =>
      let (last, events) := cascade react s rest
      (last, .woken waker :: events)
    | some (h, value) =>
      match _hput : s.put h value with
      | .error e =>
        let (last, events) := cascade react s rest
        (last, .woken waker :: .answered (.error e) :: events)
      | .ok (s', woken) =>
        let (last, events) := cascade react s' (woken.map .wake ++ .answer (.ok ()) :: rest)
        (last, .woken waker :: events)
termination_by chores => (s.emptyCells, chores.length)
decreasing_by
  · exact Prod.Lex.right _ (Nat.lt_succ_self _)
  · exact Prod.Lex.right _ (Nat.lt_succ_self _)
  · exact Prod.Lex.right _ (Nat.lt_succ_self _)
  · exact Prod.Lex.left _ _ (emptyCells_put_lt _hput)

/-- The threads of room `i` that wait, by their number in the session. -/
def waitingIn (s : Session V W) (i : Nat) : List (Nat × Nat) :=
  (s.readers.zipIdx).filterMap fun ((room, k), n) =>
    match s.rooms[room]? with
    | some r => if room = i ∧ k ∈ r.waiting then some (n, k) else none
    | none => none

/-- Signal the threads that wait in room `i` and let each of them go on. -/
def joinThreads (s : Session V W) (i : Nat) : Session V W × List (Joined V) :=
  let waiting := s.waitingIn i
  let (s, _) := s.stepRoom i .signal
  waiting.foldl (fun (s, joined) (n, k) =>
    match s.stepRoom i (.resume k false) with
    | (s, .returned _ timed answer) => (s, joined ++ [⟨n, timed, answer⟩])
    | (s, _) => (s, joined)) (s, [])

/-- A put from outside, all that it wakes, and the threads that it frees. -/
def putAndWake (react : W → Option (Handle × V)) (s : Session V W) (h : Handle) (value : V) :
    Session V W × Reply V × List (WakeEvent W) :=
  match s.put h value with
  | .error e => (s, .done (.error e), [])
  | .ok (s, woken) =>
    let (s, events) := cascade react s (woken.map .wake)
    match s.handles[h]? with
    | none => (s, .put [], events)
    | some i =>
      let (s, joined) := s.joinThreads i
      (s, .put joined, events)

/-- Give one step to the room of a handle and turn its answer into a reply. -/
def onRoom (s : Session V W) (h : Handle) (action : Room.Action V W)
    (reply : Room.Answer V W → Reply V) : Session V W × Reply V :=
  match s.handles[h]? with
  | none => (s, .unknown)
  | some i =>
    let (s, answer) := s.stepRoom i action
    (s, reply answer)

/-- A thread of the caller's reads with a limit on its time, and nothing comes while it waits. -/
def getTimeout (s : Session V W) (h : Handle) : Session V W × Reply V :=
  match s.room? h with
  | none => (s, .unknown)
  | some (i, r) =>
    match r.cell.arrive with
    | .returned answer => (s, .read (answer.map some))
    | .waiting cell =>
      match cell.recheck true with
      | (some answer, cell) => ({ s with rooms := s.rooms.set i { r with cell } }, .read answer)
      | (none, _) => (s, .unknown)

/-- Serve one request: the session afterwards, the answer, and what was woken. -/
def serve (react : W → Option (Handle × V)) (s : Session V W) :
    Request V W → Session V W × Reply V × List (WakeEvent W)
  | .new =>
    let h := s.handles.length
    ({ s with rooms := s.rooms ++ [{}], handles := s.handles ++ [s.rooms.length] }, .handle h, [])
  | .clone h =>
    match s.handles[h]? with
    | none => (s, .unknown, [])
    | some i => ({ s with handles := s.handles ++ [i] }, .handle s.handles.length, [])
  | .same h other => (s, .flag (s.handles[h]? == s.handles[other]?), [])
  | .put h value => putAndWake react s h value
  | .tryGet h =>
    let (s, reply) := s.onRoom h .tryGet fun
      | .read result => .read result
      | _ => .unknown
    (s, reply, [])
  | .getBlocking h =>
    match s.room? h with
    | none => (s, .unknown, [])
    | some (_, r) =>
      match r.cell.arrive with
      | .returned answer => (s, .value answer, [])
      | .waiting _ => (s, .wouldBlock, [])
  | .getTimeout h =>
    let (s, reply) := s.getTimeout h
    (s, reply, [])
  | .destroy h =>
    let (s, reply) := s.onRoom h .destroy fun
      | .done result => .done result
      | _ => .unknown
    (s, reply, [])
  | .state h =>
    let (s, reply) := s.onRoom h .state fun
      | .state state => .state state
      | _ => .unknown
    (s, reply, [])
  | .isFull h =>
    let (s, reply) := s.onRoom h .state fun
      | .state state => .flag (state == .full)
      | _ => .unknown
    (s, reply, [])
  | .waiters h =>
    let (s, reply) := s.onRoom h .waiters fun
      | .count n => .count n
      | _ => .unknown
    (s, reply, [])
  | .get h =>
    match s.handles[h]? with
    | none => (s, .unknown, [])
    | some i =>
      match s.stepRoom i .get with
      | (s, .count k) => ({ s with futures := s.futures ++ [(i, k)] }, .future s.futures.length, [])
      | (s, _) => (s, .unknown, [])
  | .poll future waker =>
    match s.futures[future]? with
    | none => (s, .dropped, [])
    | some (i, k) =>
      match s.stepRoom i (.poll k waker) with
      | (s, .polled .pending) => (s, .pending, [])
      | (s, .polled (.ready result)) => (s, .value result, [])
      | (s, _) => (s, .dropped, [])
  | .drop future =>
    match s.futures[future]? with
    | none => (s, .flag false, [])
    | some (i, k) =>
      match s.stepRoom i (.drop k) with
      | (s, .dropped present) => (s, .flag present, [])
      | (s, _) => (s, .flag false, [])
  | .block h timed =>
    match s.handles[h]? with
    | none => (s, .unknown, [])
    | some i =>
      let n := s.readers.length
      match s.stepRoom i (.arrive timed) with
      | (s, .blocked k) => ({ s with readers := s.readers ++ [(i, k)] }, .blocked n, [])
      | (s, .returned k timed answer) =>
        ({ s with readers := s.readers ++ [(i, k)] }, .joined ⟨n, timed, answer⟩, [])
      | (s, _) => (s, .unknown, [])

/-- The cell behind every handle as inspection shows it. -/
def inspect (s : Session V W) : List String :=
  s.handles.map fun i => (s.rooms[i]?.map (·.cell.inspect)).getD ""

end Session
end Dataflow
