import Dataflow.Cell.Session

/-!
# Single assignment

The history of a cell is the list of the steps that were taken on it, with their answers, whichever
handle each step went through. A history keeps to single assignment (`SingleAssignment`) when at most
one put goes through, every read tells what the cell holds, and what is gone stays gone.

Every kind of read answers the payload (`Event.read_eq`), and a step changes the payload in two ways
only (`step_payload`): a put fills an empty cell and a destroy releases one that nobody waits on.
-/

namespace Dataflow

/-- What a look at the payload tells. -/
def Payload.look {V : Type} : Payload V → Except RuntimeError (Option V)
  | .empty => .ok none
  | .full value => .ok (some value)
  | .destroyed => .error .useAfterDestroy

namespace Room

variable {V W : Type}

/-- A step that was taken in a room, with its answer. -/
structure Event (V W : Type) where
  before : Room V W
  action : Action V W
  answer : Answer V W
  after : Room V W

/-- The step as an event. -/
def event (r : Room V W) (a : Action V W) : Event V W := ⟨r, a, (r.step a).2, (r.step a).1⟩

/-- The events of a run, in order. -/
def history (r : Room V W) : List (Action V W) → List (Event V W)
  | [] => []
  | a :: as => r.event a :: (r.step a).1.history as

/-- What the reader got who was answered so: a value, nothing yet, or an error. `none`: no read. -/
def Answer.read? : Answer V W → Option (Except RuntimeError (Option V))
  | .read result => some result
  | .polled .pending => some (.ok none)
  | .polled (.ready result) => some (result.map some)
  | .blocked _ => some (.ok none)
  | .returned _ _ answer => some answer
  | _ => none

namespace Event

/-- A put of that value that went through. -/
def Writes (e : Event V W) (value : V) : Prop :=
  e.action = .put value ∧ ∃ woken, e.answer = .written (.ok ()) woken

/-- A put that went through. -/
def IsWrite (e : Event V W) : Prop := ∃ value, e.Writes value

/-- A destroy that went through. -/
def IsRelease (e : Event V W) : Prop := e.action = .destroy ∧ e.answer = .done (.ok ())

/-- The event tells that the cell is gone, if it reads or destroys. -/
def TellsGone (e : Event V W) : Prop :=
  (∀ result, e.answer.read? = some result → result = .error .useAfterDestroy) ∧
    (e.action = .destroy → e.answer = .done (.error .useAfterDestroy))

end Event

/-- The payload answers every read: four kinds of reader, one rule. -/
theorem read_eq (r : Room V W) (a : Action V W) {result : Except RuntimeError (Option V)}
    (h : (r.step a).2.read? = some result) : result = r.cell.payload.look := by
  cases a with
  | put value => simp only [step, put] at h; split at h <;> simp [Answer.read?] at h
  | signal => simp only [step] at h; split at h <;> simp [Answer.read?] at h
  | destroy => simp only [step] at h; split at h <;> simp [Answer.read?] at h
  | state => simp [step, Answer.read?] at h
  | waiters => simp [step, Answer.read?] at h
  | get => simp [step, Answer.read?] at h
  | drop future => simp only [step, drop] at h; split at h <;> simp [Answer.read?] at h
  | tryGet =>
    cases hp : r.cell.payload <;>
      simpa [step, Cell.tryGet, Answer.read?, Payload.look, hp, eq_comm] using h
  | poll future waker =>
    simp only [step, poll] at h
    split at h
    · cases hp : r.cell.payload <;>
        simpa [Cell.poll, Answer.read?, Payload.look, hp, Except.map, eq_comm] using h
    · simp [Answer.read?] at h
  | arrive timed =>
    cases hp : r.cell.payload <;>
      simpa [step, arrive, Cell.arrive, Answer.read?, Payload.look, hp, Except.map, eq_comm] using h
  | resume reader timeOver =>
    simp only [step, resume] at h
    split at h
    · rename_i timed _
      cases hgo : (if timeOver = true then timed else r.signalled) with
      | false => simp [hgo, Answer.read?] at h
      | true =>
        rw [hgo] at h
        cases hp : r.cell.payload <;> cases timeOver <;>
          simpa [Cell.recheck, Answer.read?, Payload.look, hp, eq_comm] using h
    · simp [Answer.read?] at h

/-- A put goes through exactly when the cell is empty, and then only fills it. -/
theorem step_put (r : Room V W) (value : V) :
    (r.cell.payload = .empty ∧ (r.step (.put value)).2 = .written (.ok ()) r.cell.registered ∧
      (r.step (.put value)).1.cell = { r.cell with payload := .full value }) ∨
    (r.cell.payload ≠ .empty ∧ r.step (.put value) = (r, .written (.error .doubleWrite) [])) := by
  cases hp : r.cell.payload <;> simp [step, put, Cell.put, hp]

/-- A destroy goes through exactly when the cell is there and nobody waits on it. -/
theorem step_destroy (r : Room V W) :
    (r.cell.payload ≠ .destroyed ∧ (r.step .destroy).2 = .done (.ok ()) ∧
      (r.step .destroy).1.cell = { r.cell with payload := .destroyed }) ∨
    (∃ e, r.step .destroy = (r, .done (.error e)) ∧
      (r.cell.payload = .destroyed → e = .useAfterDestroy)) := by
  by_cases hp : r.cell.payload = .destroyed
  · exact .inr ⟨.useAfterDestroy, by simp [step, Cell.destroy, hp], fun _ => rfl⟩
  · by_cases hw : r.cell.waiters > 0
    · refine .inr ⟨.destroyWithWaiters r.cell.waiters, ?_, fun h => absurd h hp⟩
      cases hq : r.cell.payload <;> simp_all [step, Cell.destroy]
    · refine .inl ⟨hp, ?_⟩
      cases hq : r.cell.payload <;> simp_all [step, Cell.destroy]

/-- All other steps leave the payload alone. -/
theorem step_other (r : Room V W) {a : Action V W} (hput : ∀ value, a ≠ .put value)
    (hdestroy : a ≠ .destroy) : (r.step a).1.cell.payload = r.cell.payload := by
  have withdrawn : ∀ key, (r.cell.withdraw key).payload = r.cell.payload := by
    intro key; cases key <;> rfl
  have registered : ∀ waker key, (r.cell.register waker key).1.payload = r.cell.payload := by
    intro waker key
    cases key with
    | none => rfl
    | some key => unfold Cell.register; dsimp only; split <;> rfl
  cases a with
  | put value => exact absurd rfl (hput value)
  | destroy => exact absurd rfl hdestroy
  | signal => simp only [step]; split <;> rfl
  | tryGet | state | waiters | get => rfl
  | drop future =>
    simp only [step, drop]
    split
    · exact withdrawn _
    · rfl
  | poll future waker =>
    simp only [step, poll]
    split
    · cases hp : r.cell.payload <;> simp [Cell.poll, hp, withdrawn, registered]
    · rfl
  | arrive timed =>
    cases hp : r.cell.payload <;> simp [step, arrive, Cell.arrive, hp]
  | resume reader timeOver =>
    simp only [step, resume]
    split
    · rename_i timed _
      cases (if timeOver = true then timed else r.signalled) with
      | false => rfl
      | true => cases hp : r.cell.payload <;> cases timeOver <;> simp [Cell.recheck, hp]
    · rfl

/-- How a step can change the payload: not at all, by a put into an empty cell, or by a destroy. -/
theorem step_payload (r : Room V W) (a : Action V W) :
    ((r.step a).1.cell.payload = r.cell.payload ∧ ¬ (r.event a).IsWrite ∧ ¬ (r.event a).IsRelease) ∨
    (∃ value, r.cell.payload = .empty ∧ (r.step a).1.cell.payload = .full value ∧
      (r.event a).Writes value ∧ ¬ (r.event a).IsRelease) ∨
    (r.cell.payload ≠ .destroyed ∧ (r.step a).1.cell.payload = .destroyed ∧
      (r.event a).IsRelease ∧ ¬ (r.event a).IsWrite) := by
  by_cases hput : ∃ value, a = .put value
  · obtain ⟨value, rfl⟩ := hput
    rcases r.step_put value with ⟨he, ha, hc⟩ | ⟨-, hs⟩
    · exact .inr (.inl ⟨value, he, by rw [hc], ⟨rfl, _, ha⟩, fun h => by cases h.1⟩)
    · refine .inl ⟨by rw [hs], ?_, fun h => by cases h.1⟩
      rintro ⟨v, -, woken, h⟩
      simp [event, hs] at h
  by_cases hdestroy : a = .destroy
  · subst hdestroy
    have hw : ¬ (r.event .destroy).IsWrite := by rintro ⟨v, h, -⟩; cases h
    rcases r.step_destroy with ⟨hp, ha, hc⟩ | ⟨e, hs, -⟩
    · exact .inr (.inr ⟨hp, by rw [hc], ⟨rfl, ha⟩, hw⟩)
    · exact .inl ⟨by rw [hs], hw, fun h => by simpa [event, hs] using h.2⟩
  · exact .inl ⟨r.step_other (fun v h => hput ⟨v, h⟩) hdestroy, fun ⟨v, h, _⟩ => hput ⟨v, h⟩,
      fun h => hdestroy h.1⟩

/-- A cell that is empty was empty before. -/
theorem empty_of_step {r : Room V W} {a : Action V W} (hempty : (r.step a).1.cell.payload = .empty) :
    r.cell.payload = .empty := by
  rcases r.step_payload a with ⟨hsame, -⟩ | ⟨value, -, hfull, -⟩ | ⟨-, hgone, -⟩
  · exact hsame.symm.trans hempty
  · cases hempty.symm.trans hfull
  · cases hempty.symm.trans hgone

/-- What is gone stays gone. -/
theorem history_destroyed {r : Room V W} (hr : r.cell.payload = .destroyed) (as : List (Action V W)) :
    ∀ e ∈ r.history as, e.TellsGone ∧ ¬ e.IsWrite ∧ ¬ e.IsRelease ∧ e.before.cell.payload = .destroyed := by
  induction as generalizing r with
  | nil => simp [history]
  | cons a as ih =>
    rcases r.step_payload a with ⟨hs, hw, hd⟩ | ⟨v, he, -⟩ | ⟨hp, -⟩
    · intro e he
      rcases List.mem_cons.1 he with rfl | he
      · refine ⟨⟨fun result h => ?_, fun ha => ?_⟩, hw, hd, hr⟩
        · rw [read_eq r a h, hr]; rfl
        · obtain rfl : a = .destroy := ha
          rcases r.step_destroy with ⟨hp, -⟩ | ⟨e, hs, he⟩
          · exact absurd hr hp
          · rw [he hr] at hs
            simp [event, hs]
      · exact ih (hs.trans hr) e he
    · rw [hr] at he; cases he
    · exact absurd hr hp

/-- A full cell takes no other value, and keeps its own until it is released. -/
theorem history_full {r : Room V W} {value : V} (hr : r.cell.payload = .full value)
    (as : List (Action V W)) :
    (∀ e ∈ r.history as, ¬ e.IsWrite ∧
      (e.before.cell.payload = .full value ∨ e.before.cell.payload = .destroyed)) ∧
    ∀ mid e post, r.history as = mid ++ e :: post → (∀ d ∈ mid, ¬ d.IsRelease) →
      e.before.cell.payload = .full value := by
  induction as generalizing r with
  | nil => simp [history]
  | cons a as ih =>
    rcases r.step_payload a with ⟨hs, hw, -⟩ | ⟨v, he, -⟩ | ⟨-, hs, hd, hw⟩
    · obtain ⟨h1, h2⟩ := ih (hs.trans hr)
      refine ⟨fun e he => ?_, fun mid e post h hm => ?_⟩
      · rcases List.mem_cons.1 he with rfl | he
        · exact ⟨hw, .inl hr⟩
        · exact h1 e he
      · cases mid with
        | nil => obtain ⟨rfl, -⟩ := List.cons.inj h; exact hr
        | cons d mid =>
          obtain ⟨-, h⟩ := List.cons.inj h
          exact h2 mid e post h fun d hd => hm d (by simp [hd])
    · rw [hr] at he; cases he
    · have hgone := history_destroyed hs as
      refine ⟨fun e he => ?_, fun mid e post h hm => ?_⟩
      · rcases List.mem_cons.1 he with rfl | he
        · exact ⟨hw, .inl hr⟩
        · exact ⟨(hgone e he).2.1, .inr (hgone e he).2.2.2⟩
      · cases mid with
        | nil => obtain ⟨rfl, -⟩ := List.cons.inj h; exact hr
        | cons d mid =>
          obtain ⟨rfl, -⟩ := List.cons.inj h
          exact absurd hd (hm _ (by simp))

/-- After any run it still holds its value, or is gone. -/
theorem run_full {r : Room V W} {value : V} (hr : r.cell.payload = .full value) (as : List (Action V W)) :
    (r.run as).1.cell.payload = .full value ∨ (r.run as).1.cell.payload = .destroyed := by
  have hlast := ((history_full hr (as ++ [.state])).1 ((r.run as).1.event .state) ?_).2
  · exact hlast
  · clear hr
    induction as generalizing r with
    | nil => exact List.mem_singleton_self _
    | cons a as ih => exact List.mem_cons_of_mem _ ih

/-- A cell that is not empty was filled or released by an earlier event, and one that is full was filled
with what it holds. -/
theorem history_source {r : Room V W} (hr : r.cell.payload = .empty) (as : List (Action V W))
    {pre post : List (Event V W)} {e : Event V W} (h : r.history as = pre ++ e :: post) :
    (e.before.cell.payload ≠ .empty ↔ ∃ d ∈ pre, d.IsWrite ∨ d.IsRelease) ∧
      ∀ value, e.before.cell.payload = .full value → ∃ d ∈ pre, d.Writes value := by
  induction as generalizing r pre with
  | nil => simp [history] at h
  | cons a as ih =>
    cases pre with
    | nil =>
      obtain ⟨rfl, -⟩ := List.cons.inj h
      simp [event, hr]
    | cons d pre =>
      simp only [history, List.cons_append, List.cons.injEq] at h
      obtain ⟨rfl, h⟩ := h
      have hmem : e ∈ (r.step a).1.history as := by simp [h]
      rcases r.step_payload a with ⟨hs, hw, hd⟩ | ⟨v, -, hs, hw, -⟩ | ⟨-, hs, hd, -⟩
      · obtain ⟨h1, h2⟩ := ih (hs.trans hr) h
        refine ⟨by simp [h1, hw, hd], fun v hv => ?_⟩
        obtain ⟨d, hd, hw⟩ := h2 v hv
        exact ⟨d, by simp [hd], hw⟩
      · have hfull := ((history_full hs as).1 e hmem).2
        refine ⟨⟨fun _ => ⟨_, by simp, .inl ⟨v, hw⟩⟩, fun _ he => ?_⟩, fun v' hv' => ?_⟩
        · rcases hfull with hp | hp <;> rw [he] at hp <;> cases hp
        · refine ⟨r.event a, by simp, ?_⟩
          rcases hfull with hp | hp <;> rw [hv'] at hp <;> cases hp
          exact hw
      · have hgone := (history_destroyed hs as e hmem).2.2.2
        rw [hgone]
        exact ⟨⟨fun _ => ⟨_, by simp, .inr hd⟩, fun _ he => (by cases he)⟩, fun v hv => (by cases hv)⟩

/-- What holds between a step and all that come later holds between any two events in their order. -/
theorem history_pairwise {R : Event V W → Event V W → Prop}
    (hR : ∀ r a as, ∀ e ∈ history (Prod.fst (step r a)) as, R (event r a) e) (r : Room V W)
    (as : List (Action V W)) : (r.history as).Pairwise R := by
  induction as generalizing r with
  | nil => exact List.Pairwise.nil
  | cons a as ih => exact List.pairwise_cons.2 ⟨hR r a as, ih _⟩

/-- Every event of a history is a step of a room, and the room it led to has the rest of the history. -/
theorem history_split {r : Room V W} {as : List (Action V W)} {pre post : List (Event V W)}
    {e : Event V W} (h : r.history as = pre ++ e :: post) :
    ∃ r' a as', e = event r' a ∧ post = (r'.step a).1.history as' := by
  induction as generalizing r pre with
  | nil => simp [history] at h
  | cons a as ih =>
    cases pre with
    | nil =>
      obtain ⟨rfl, rfl⟩ := List.cons.inj h
      exact ⟨r, a, as, rfl, rfl⟩
    | cons d pre => exact ih (List.cons.inj h).2

/-- What comes before an event is the history of a run, the event a step of the room that it led to, and what
comes after the history of the run from there. -/
theorem history_split_run {r : Room V W} {as : List (Action V W)} {pre post : List (Event V W)}
    {e : Event V W} (h : r.history as = pre ++ e :: post) :
    ∃ as₁ a as₂, pre = r.history as₁ ∧ e = (r.run as₁).1.event a ∧
      post = ((r.run as₁).1.step a).1.history as₂ ∧ (r.run as).1 = (((r.run as₁).1.step a).1.run as₂).1 := by
  induction as generalizing r pre with
  | nil => simp [history] at h
  | cons a as ih =>
    cases pre with
    | nil => exact ⟨[], a, as, rfl, (List.cons.inj h).1.symm, (List.cons.inj h).2.symm, rfl⟩
    | cons d pre =>
      obtain ⟨rfl, hrest⟩ := List.cons.inj h
      obtain ⟨as₁, b, as₂, rfl, rfl, hpost, hlast⟩ := ih hrest
      exact ⟨a :: as₁, b, as₂, rfl, rfl, hpost, hlast⟩

theorem exists_event_of_mem {r : Room V W} {as : List (Action V W)} {e : Event V W}
    (h : e ∈ r.history as) : ∃ r' a, e = event r' a := by
  obtain ⟨pre, post, h⟩ := List.append_of_mem h
  obtain ⟨r', a, -, he, -⟩ := history_split h
  exact ⟨r', a, he⟩

/-- A put that goes through leaves its value. -/
theorem payload_of_writes {r : Room V W} {a : Action V W} {value : V} (h : (r.event a).Writes value) :
    r.cell.payload = .empty ∧ (r.step a).1.cell.payload = .full value := by
  rcases r.step_payload a with ⟨-, hn, -⟩ | ⟨v, hp, hs, hw, -⟩ | ⟨-, -, -, hn⟩
  · exact absurd ⟨value, h⟩ hn
  · have hv : Action.put v = Action.put value := hw.1.symm.trans h.1
    cases hv
    exact ⟨hp, hs⟩
  · exact absurd ⟨value, h⟩ hn

/-- A destroy that goes through releases the cell. -/
theorem payload_of_release {r : Room V W} {a : Action V W} (h : (r.event a).IsRelease) :
    (r.step a).1.cell.payload = .destroyed := by
  rcases r.step_payload a with ⟨-, -, hn⟩ | ⟨-, -, -, -, hn⟩ | ⟨-, hs, -⟩
  · exact absurd h hn
  · exact absurd h hn
  · exact hs

end Room

open Room

/-- The rules of a cell that is written once. `history` lists what was done to it, in order. -/
structure SingleAssignment {V W : Type} (history : List (Event V W)) : Prop where
  /-- At most one put goes through. -/
  once : history.Pairwise fun e e' => ¬ (e.IsWrite ∧ e'.IsWrite)
  /-- Whoever gets a value gets that of a put before. -/
  source : ∀ pre e post value, history = pre ++ e :: post →
    e.answer.read? = some (.ok (some value)) → ∃ w ∈ pre, w.Writes value
  /-- From the put on, every read gets its value, until the cell is released. -/
  kept : ∀ pre w mid e post value result, history = pre ++ w :: (mid ++ e :: post) → w.Writes value →
    (∀ d ∈ mid, ¬ d.IsRelease) → e.answer.read? = some result → result = .ok (some value)
  /-- A put is refused exactly when the cell is full or released, and goes through otherwise. -/
  refused : ∀ e ∈ history, ∀ value, e.action = .put value →
    ((e.answer = .written (.error .doubleWrite) [] ↔
        e.before.cell.state = .full ∨ e.before.cell.state = .destroyed) ∧
      (e.before.cell.state = .empty ↔ e.Writes value))
  /-- The cell is full or released exactly when an earlier put or destroy went through. -/
  state : ∀ pre e post, history = pre ++ e :: post →
    (e.before.cell.state ≠ .empty ↔ ∃ d ∈ pre, d.IsWrite ∨ d.IsRelease)
  /-- Once it is released, every read and every destroy tells so. -/
  gone : history.Pairwise fun d e => d.IsRelease → e.TellsGone
  /-- A put or a destroy that does not go through leaves the cell as it was: payload, registrations in
  their order, and the count of blocked threads. -/
  unchanged : ∀ e ∈ history, (∃ value, e.action = .put value) ∨ e.action = .destroy →
    ¬ e.IsWrite → ¬ e.IsRelease → e.after.cell = e.before.cell

namespace Room

variable {V W : Type}

/-- All that is done to an empty cell keeps to single assignment. -/
theorem singleAssignment_history {r : Room V W} (hr : r.cell.payload = .empty)
    (as : List (Action V W)) : SingleAssignment (r.history as) := by
  refine ⟨?_, ?_, ?_, ?_, ?_, ?_, ?_⟩
  · refine history_pairwise (fun r a as e he => ?_) r as
    rintro ⟨⟨v, hw⟩, hw'⟩
    exact ((history_full (payload_of_writes hw).2 as).1 e he).1 hw'
  · intro pre e post value h hread
    refine (history_source hr as h).2 value ?_
    obtain ⟨r', a, as', rfl, -⟩ := history_split h
    have := read_eq r' a hread
    cases hp : r'.cell.payload <;> simp_all [Payload.look, event]
  · intro pre w mid e post value result h hw hm hread
    obtain ⟨r', a, as', rfl, hrest⟩ := history_split h
    have hfull := (history_full (payload_of_writes hw).2 as').2 mid e post hrest.symm hm
    obtain ⟨q, b, -, rfl, -⟩ := history_split hrest.symm
    rw [read_eq q b hread, show q.cell.payload = .full value from hfull]
    rfl
  · intro e he value ha
    obtain ⟨r', a, rfl⟩ := exists_event_of_mem he
    obtain rfl : a = .put value := ha
    rcases r'.step_put value with ⟨hp, ha, -⟩ | ⟨hp, hs⟩
    · simp [event, ha, Cell.state, hp, Event.Writes]
    · cases hq : r'.cell.payload <;> simp_all [event, Cell.state, Event.Writes]
  · intro pre e post h
    have hstate : e.before.cell.state = .empty ↔ e.before.cell.payload = .empty := by
      cases hp : e.before.cell.payload <;> simp [Cell.state, hp]
    rw [ne_eq, hstate, ← ne_eq, (history_source hr as h).1]
  · refine history_pairwise (fun r a as e he hd => ?_) r as
    exact (history_destroyed (payload_of_release hd) as e he).1
  · rintro e he ha hw hd
    obtain ⟨r', a, rfl⟩ := exists_event_of_mem he
    rcases ha with ⟨value, rfl⟩ | rfl
    · rcases r'.step_put value with ⟨-, ha, -⟩ | ⟨-, hs⟩
      · exact absurd ⟨value, rfl, _, ha⟩ hw
      · simp [event, hs]
    · rcases r'.step_destroy with ⟨-, ha, -⟩ | ⟨e, hs, -⟩
      · exact absurd ⟨rfl, ha⟩ hd
      · simp [event, hs]

end Room

namespace Session

variable {V W : Type}

/-- An operation on cells: make a cell, make another handle of one, or take a step on the cell behind a
handle. -/
inductive Op (V W : Type) where
  | new
  | clone (handle : Handle)
  | via (handle : Handle) (action : Action V W)

/-- The session after an operation. -/
def perform (s : Session V W) : Op V W → Session V W
  | .new => (s.serve (fun _ => none) .new).1
  | .clone h => (s.serve (fun _ => none) (.clone h)).1
  | .via h a => (s.onRoom h a fun _ => .unknown).1

/-- The step that an operation takes on cell `i`, if it is about that cell. -/
def eventOn (s : Session V W) (i : Nat) : Op V W → Option (Event V W)
  | .via h a =>
    match s.room? h with
    | some (j, r) => if j = i then some (r.event a) else none
    | none => none
  | _ => none

/-- All that a sequence of operations does to cell `i`, through whichever handles. -/
def historyOf (s : Session V W) (i : Nat) : List (Op V W) → List (Event V W)
  | [] => []
  | op :: ops => (s.eventOn i op).toList ++ (s.perform op).historyOf i ops

/-- The room of cell `i`; before the cell is made, the room as it will be then. -/
def roomAt (s : Session V W) (i : Nat) : Room V W := s.rooms[i]?.getD {}

/-- An operation changes the room of a cell by the step it takes there and in no other way. -/
theorem roomAt_perform (s : Session V W) (i : Nat) (op : Op V W) :
    (s.eventOn i op = none ∧ (s.perform op).roomAt i = s.roomAt i) ∨
      ∃ a, s.eventOn i op = some ((s.roomAt i).event a) ∧
        (s.perform op).roomAt i = ((s.roomAt i).step a).1 := by
  cases op with
  | new =>
    refine .inl ⟨rfl, ?_⟩
    simp only [perform, serve, roomAt, List.getElem?_append]
    split
    · rfl
    · cases hk : i - s.rooms.length <;> simp_all
  | clone h =>
    refine .inl ⟨rfl, ?_⟩
    simp only [perform, serve]
    split <;> rfl
  | via h a =>
    simp only [eventOn, perform, onRoom]
    cases hr : s.room? h with
    | none =>
      refine .inl ⟨rfl, ?_⟩
      cases hh : s.handles[h]? with
      | none => rfl
      | some j =>
        have hj : s.rooms[j]? = none := by
          cases hj : s.rooms[j]? with
          | none => rfl
          | some q => simp [room?, hh, hj] at hr
        simp [stepRoom, hj]
    | some jr =>
      obtain ⟨j, r⟩ := jr
      obtain ⟨hh, hj⟩ := room?_eq_some hr
      simp only [hh, stepRoom, hj]
      by_cases hji : j = i
      · subst hji
        refine .inr ⟨a, ?_, ?_⟩
        · simp [roomAt, hj]
        · simp [roomAt, hj, List.getElem?_set_self (List.getElem?_eq_some_iff.1 hj).1]
      · exact .inl ⟨by simp [hji], by simp [roomAt, List.getElem?_set_ne hji]⟩

/-- Whatever happens to cells through handles is, for each cell, a run of its room. -/
theorem historyOf_eq_history (s : Session V W) (i : Nat) (ops : List (Op V W)) :
    ∃ as, s.historyOf i ops = (s.roomAt i).history as := by
  induction ops generalizing s with
  | nil => exact ⟨[], rfl⟩
  | cons op ops ih =>
    obtain ⟨as, h⟩ := ih (s.perform op)
    rcases s.roomAt_perform i op with ⟨he, hr⟩ | ⟨a, he, hr⟩
    · exact ⟨as, by rw [historyOf, he, h, hr]; rfl⟩
    · exact ⟨a :: as, by rw [historyOf, he, h, hr]; rfl⟩

/-- Every cell is written at most once, and what its readers are told agrees with that, in every run of
operations through any handles: whoever makes the operations, and in whatever order. -/
theorem singleAssignment_historyOf (ops : List (Op V W)) (i : Nat) :
    SingleAssignment (({} : Session V W).historyOf i ops) := by
  obtain ⟨as, h⟩ := historyOf_eq_history ({} : Session V W) i ops
  rw [h]
  exact singleAssignment_history rfl as

end Session
end Dataflow
