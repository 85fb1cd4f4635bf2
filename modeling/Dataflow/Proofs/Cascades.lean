import Dataflow.Proofs.Waking

/-!
# Cascades

Wakers that put something wake others, who may put something in turn, on the same cell or in a circle. A put commits
before it wakes anyone, so a cascade does to the cells what its puts do one after the other, in the order in which they
are called (`Session.Wakes.exists_puts`). Of a sequence of puts the first one on an empty cell goes through, and all
others are refused (`Session.Puts.room`); a cell is thus filled at most once, and those who wait on it are woken at most
once (`Session.reentrant_puts`).
-/

namespace Dataflow

/-- A put that was called, with what it answered and whom it woke itself. -/
structure PutCall (V W : Type) where
  handle : Handle
  value : V
  result : Except RuntimeError Unit
  woken : List W

/-- The waker that is woken. -/
def WakeEvent.woken? {W : Type} : WakeEvent W → Option W
  | .woken waker => some waker
  | .answered _ => none

/-- The answer that a waker gets to its put. -/
def WakeEvent.answer? {W : Type} : WakeEvent W → Option (Except RuntimeError Unit)
  | .woken _ => none
  | .answered result => some result

namespace Session

variable {V W : Type} {react : W → Option (Handle × V)}

/-- Puts that are called one after the other. -/
inductive Puts : Session V W → List (PutCall V W) → Session V W → Prop
  | nil (s : Session V W) : Puts s [] s
  | refuses {s s' : Session V W} {h : Handle} {value : V} {e : RuntimeError} {calls : List (PutCall V W)} :
      s.put h value = .error e → Puts s calls s' → Puts s (⟨h, value, .error e, []⟩ :: calls) s'
  | commits {s s₁ s' : Session V W} {h : Handle} {value : V} {woken : List W} {calls : List (PutCall V W)} :
      s.put h value = .ok (s₁, woken) → Puts s₁ calls s' → Puts s (⟨h, value, .ok (), woken⟩ :: calls) s'

theorem Puts.append {s s₁ s' : Session V W} {calls calls' : List (PutCall V W)} (h : Puts s calls s₁)
    (h' : Puts s₁ calls' s') : Puts s (calls ++ calls') s' := by
  induction h with
  | nil => exact h'
  | refuses hput _ ih => exact .refuses hput (ih h')
  | commits hput _ ih => exact .commits hput (ih h')

theorem Puts.of_append {s s' : Session V W} {calls calls' : List (PutCall V W)} (h : Puts s (calls ++ calls') s') :
    ∃ s₁, Puts s calls s₁ ∧ Puts s₁ calls' s' := by
  induction calls generalizing s with
  | nil => exact ⟨s, .nil s, h⟩
  | cons call calls ih =>
    cases h with
    | refuses hput h =>
      obtain ⟨s₁, hfirst, hrest⟩ := ih h
      exact ⟨s₁, .refuses hput hfirst, hrest⟩
    | commits hput h =>
      obtain ⟨s₁, hfirst, hrest⟩ := ih h
      exact ⟨s₁, .commits hput hfirst, hrest⟩

/-- A cascade is a sequence of puts. Each waker that is woken makes its put at once, each put is answered, and nobody is
woken but by one of them. -/
theorem Wakes.exists_puts {s s' : Session V W} {wakers : List W} {events : List (WakeEvent W)}
    (h : Wakes react s wakers events s') : ∃ calls, Puts s calls s' ∧
      calls.map (fun c => (c.handle, c.value)) = (events.filterMap (·.woken?)).filterMap react ∧
      (events.filterMap (·.answer?)).Perm (calls.map (·.result)) ∧
      (events.filterMap (·.woken?)).Perm (wakers ++ calls.flatMap (·.woken)) := by
  induction h with
  | nil s => exact ⟨[], .nil s, rfl, .refl _, .refl _⟩
  | idle hreact _ ih =>
    obtain ⟨calls, hputs, hmade, hanswers, hwoken⟩ := ih
    exact ⟨calls, hputs, by simp [WakeEvent.woken?, hreact, hmade], hanswers, hwoken.cons _⟩
  | refused hreact hput _ ih =>
    obtain ⟨calls, hputs, hmade, hanswers, hwoken⟩ := ih
    exact ⟨_, .refuses hput hputs, by simp [WakeEvent.woken?, hreact, hmade], hanswers.cons _, hwoken.cons _⟩
  | @put s s₁ s₂ s' waker wakers woken inner events h value hreact hput _ _ ihinner ih =>
    obtain ⟨nested, hnested, hmade, hanswers, hwoken⟩ := ihinner
    obtain ⟨calls, hputs, hmade', hanswers', hwoken'⟩ := ih
    refine ⟨_, .commits hput (hnested.append hputs), ?_, ?_, ?_⟩
    · simp [WakeEvent.woken?, hreact, hmade, hmade', List.filterMap_append]
    · simp only [List.filterMap_cons, List.filterMap_append, WakeEvent.answer?, List.map_cons, List.map_append]
      exact List.perm_middle.trans ((hanswers.append hanswers').cons _)
    · simp only [List.filterMap_cons, List.filterMap_append, WakeEvent.woken?, List.flatMap_cons, List.flatMap_append,
        List.cons_append]
      refine ((hwoken.append hwoken').trans ?_).cons _
      rw [← Multiset.coe_eq_coe]
      simp only [← Multiset.coe_add]
      abel

/-- A put goes through on an empty cell and wakes those who are registered; on any other it is refused. -/
theorem put_cases (s : Session V W) (h : Handle) (value : V) :
    (∃ i r r₁, s.room? h = some (i, r) ∧ r.cell.payload = .empty ∧ r₁.cell = { r.cell with payload := .full value } ∧
      s.put h value = .ok ({ s with rooms := s.rooms.set i r₁ }, r.cell.registered)) ∨
    ∃ e, s.put h value = .error e ∧ ∀ i r, s.room? h = some (i, r) → r.cell.payload ≠ .empty ∧ e = .doubleWrite := by
  cases hroom : s.room? h with
  | none => exact .inr ⟨.useAfterDestroy, by simp only [put, hroom], fun _ _ h => by cases h⟩
  | some found =>
    obtain ⟨i, r⟩ := found
    rcases r.step_put value with ⟨hempty, hanswer, hcell⟩ | ⟨hfull, hstep⟩
    · have hput : r.put value = ((r.step (.put value)).1, .written (.ok ()) r.cell.registered) := Prod.ext rfl hanswer
      exact .inl ⟨i, r, _, rfl, hempty, hcell, by simp only [put, hroom, hput]⟩
    · have hput : r.put value = (r, .written (.error .doubleWrite) []) := hstep
      refine .inr ⟨.doubleWrite, by simp only [put, hroom, hput], fun j q hq => ?_⟩
      cases hq
      exact ⟨hfull, rfl⟩

/-- The cell that the call filled, if it did. -/
def filled? (s : Session V W) (call : PutCall V W) : Option Nat :=
  match call.result with
  | .ok () => s.handles[call.handle]?
  | .error _ => none

/-- The cells that the calls filled, in order. -/
def filled (s : Session V W) (calls : List (PutCall V W)) : List Nat := calls.filterMap s.filled?

/-- The wakers that are registered with a cell. -/
def registeredIn (s : Session V W) (i : Nat) : List W := (s.rooms[i]?.map (·.cell.registered)).getD []

namespace Puts

variable {s s' : Session V W} {pre post calls : List (PutCall V W)} {call : PutCall V W} {i : Nat} {r : Room V W}

theorem handles (hputs : Puts s calls s') : s'.handles = s.handles := by
  induction hputs with
  | nil => rfl
  | refuses _ _ ih => exact ih
  | @commits s s₁ s' h value woken calls hput _ ih =>
    rcases s.put_cases h value with ⟨i, r, r₁, -, -, -, hok⟩ | ⟨e, herror, -⟩
    · cases hput.symm.trans hok
      exact ih
    · cases hput.symm.trans herror

/-- A cell stays as it was but for its value, and that is the one of the call that filled it. -/
theorem room (hputs : Puts s calls s') (hr : s.rooms[i]? = some r) : ∃ r', s'.rooms[i]? = some r' ∧
    (i ∉ s.filled calls ∧ r'.cell = r.cell ∨
      r.cell.payload = .empty ∧ ∃ c ∈ calls, s.filled? c = some i ∧ r'.cell = { r.cell with payload := .full c.value }) := by
  induction hputs generalizing r with
  | nil => exact ⟨r, hr, .inl ⟨List.not_mem_nil, rfl⟩⟩
  | refuses hput _ ih =>
    obtain ⟨r', hr', ⟨hnot, hcell⟩ | ⟨hempty, c, hc, hfills, hcell⟩⟩ := ih hr
    · exact ⟨r', hr', .inl ⟨hnot, hcell⟩⟩
    · exact ⟨r', hr', .inr ⟨hempty, c, List.mem_cons_of_mem _ hc, hfills, hcell⟩⟩
  | @commits s s₁ s' h value woken calls hput _ ih =>
    rcases s.put_cases h value with ⟨j, q, q₁, hroom, hempty, hcell₁, hok⟩ | ⟨e, herror, -⟩
    · cases hput.symm.trans hok
      obtain ⟨hhandle, hq⟩ := room?_eq_some hroom
      have hhead : s.filled? ⟨h, value, .ok (), q.cell.registered⟩ = some j := hhandle
      by_cases hj : j = i
      · -- the first call has filled it, and no later one does
        subst hj
        cases hr.symm.trans hq
        obtain ⟨r', hr', ⟨hnot, hcell⟩ | ⟨hempty', -⟩⟩ := ih (List.getElem?_set_self (List.getElem?_eq_some_iff.1 hq).1)
        · exact ⟨r', hr', .inr ⟨hempty, _, List.mem_cons_self .., hhead, hcell.trans hcell₁⟩⟩
        · rw [hcell₁] at hempty'
          cases hempty'
      · have hr₁ : (s.rooms.set j q₁)[i]? = some r := by rw [List.getElem?_set_ne hj, hr]
        obtain ⟨r', hr', ⟨hnot, hcell⟩ | ⟨hempty', c, hc, hfills, hcell⟩⟩ := ih hr₁
        · refine ⟨r', hr', .inl ⟨fun hmem => ?_, hcell⟩⟩
          rw [filled, List.filterMap_cons_some hhead] at hmem
          exact (List.mem_cons.1 hmem).elim (fun heq => hj heq.symm) hnot
        · exact ⟨r', hr', .inr ⟨hempty', c, List.mem_cons_of_mem _ hc, hfills, hcell⟩⟩
    · cases hput.symm.trans herror


/-- No cell is filled twice. -/
theorem nodup_filled (hputs : Puts s calls s') : (s.filled calls).Nodup := by
  induction hputs with
  | nil => exact List.nodup_nil
  | refuses _ _ ih => exact ih
  | @commits s s₁ s' h value woken calls hput hputs ih =>
    rcases s.put_cases h value with ⟨j, q, q₁, hroom, -, hcell, hok⟩ | ⟨e, herror, -⟩
    · cases hput.symm.trans hok
      obtain ⟨hhandle, hq⟩ := room?_eq_some hroom
      have hhead : s.filled? ⟨h, value, .ok (), q.cell.registered⟩ = some j := hhandle
      rw [Session.filled, List.filterMap_cons_some hhead]
      refine List.nodup_cons.2 ⟨?_, ih⟩
      obtain ⟨r', -, ⟨hnot, -⟩ | ⟨hempty, -⟩⟩ := hputs.room (List.getElem?_set_self (List.getElem?_eq_some_iff.1 hq).1)
      · exact hnot
      · rw [hcell] at hempty
        cases hempty
    · cases hput.symm.trans herror

/-- Those who are woken are those who were registered with the cells that were filled. -/
theorem flatMap_woken (hputs : Puts s calls s') : calls.flatMap (·.woken) = (s.filled calls).flatMap s.registeredIn := by
  induction hputs with
  | nil => rfl
  | refuses _ _ ih => exact ih
  | @commits s s₁ s' h value woken calls hput _ ih =>
    rcases s.put_cases h value with ⟨j, q, q₁, hroom, -, hcell, hok⟩ | ⟨e, herror, -⟩
    · cases hput.symm.trans hok
      obtain ⟨hhandle, hq⟩ := room?_eq_some hroom
      have hhead : s.filled? ⟨h, value, .ok (), q.cell.registered⟩ = some j := hhandle
      have hsame : registeredIn { s with rooms := s.rooms.set j q₁ } = s.registeredIn := by
        funext i
        by_cases hi : j = i
        · subst hi
          simp [registeredIn, List.getElem?_set_self (List.getElem?_eq_some_iff.1 hq).1, hq, hcell, Cell.registered]
        · simp [registeredIn, List.getElem?_set_ne hi]
      have hown : s.registeredIn j = q.cell.registered := by simp [registeredIn, hq]
      rw [hsame] at ih
      rw [Session.filled, List.filterMap_cons_some hhead, List.flatMap_cons, List.flatMap_cons, hown, ih]
      rfl
    · cases hput.symm.trans herror

/-- What a call meets: a cell that was empty and has not been filled by a call before it, or one that refuses. -/
theorem meets (hputs : Puts s (pre ++ call :: post) s') (hroom : s.room? call.handle = some (i, r)) :
    (r.cell.payload = .empty ∧ i ∉ s.filled pre ∧ call.result = .ok () ∧ call.woken = r.cell.registered) ∨
    ((r.cell.payload ≠ .empty ∨ i ∈ s.filled pre) ∧ call.result = .error .doubleWrite ∧ call.woken = []) := by
  obtain ⟨s₁, hpre, hcall⟩ := hputs.of_append
  obtain ⟨hhandle, hr⟩ := room?_eq_some hroom
  obtain ⟨r₁, hr₁, hcell⟩ := hpre.room hr
  have hroom₁ : s₁.room? call.handle = some (i, r₁) := by simp [room?, hpre.handles, hhandle, hr₁]
  cases hcall with
  | @refuses _ _ h value e _ hput =>
    rcases s₁.put_cases h value with ⟨_, _, _, -, -, -, hok⟩ | ⟨e', herror, hrefuses⟩
    · cases hput.symm.trans hok
    · cases hput.symm.trans herror
      obtain ⟨hfull, rfl⟩ := hrefuses i r₁ hroom₁
      refine .inr ⟨?_, rfl, rfl⟩
      rcases hcell with ⟨-, hcell⟩ | ⟨-, c, hc, hfills, -⟩
      · rw [hcell] at hfull
        exact .inl hfull
      · exact .inr (List.mem_filterMap.2 ⟨c, hc, hfills⟩)
  | @commits _ _ _ h value woken _ hput =>
    rcases s₁.put_cases h value with ⟨j, q, q₁, hroom', hempty, -, hok⟩ | ⟨e, herror, -⟩
    · cases hroom'.symm.trans hroom₁
      cases hput.symm.trans hok
      rcases hcell with ⟨hnot, hcell⟩ | ⟨-, c, -, -, hcell⟩
      · rw [hcell] at hempty ⊢
        exact .inl ⟨hempty, hnot, rfl, rfl⟩
      · rw [hcell] at hempty
        cases hempty
    · cases hput.symm.trans herror

end Puts

/-- All that a put leads to: the calls with the wakers that are woken, until the put itself returns. -/
structure Cascades (react : W → Option (Handle × V)) (s : Session V W) (h : Handle) (value : V)
    (calls : List (PutCall V W)) (events : List (WakeEvent W)) (s' : Session V W) : Prop where
  /-- The put returns: at once if it is refused, and otherwise when all its wakers have been woken and the put that each
  of them makes has returned. -/
  returns : (∃ e, s.put h value = .error e ∧ events = [] ∧ s' = s) ∨
    ∃ s₁ woken, s.put h value = .ok (s₁, woken) ∧ Wakes react s₁ woken events s' ∧
      cascade react s₁ (woken.map .wake) = (s', events)
  /-- Beside the put itself those are called that the wakers make, in the order in which they are woken. -/
  made : calls.map (fun c => (c.handle, c.value)) = (h, value) :: (events.filterMap (·.woken?)).filterMap react
  /-- Each of those is answered. -/
  answered : (events.filterMap (·.answer?)).Perm (calls.tail.map (·.result))
  /-- A call on an empty cell that no call before it has filled goes through and wakes those who are registered. -/
  fills : ∀ pre c post i r, calls = pre ++ c :: post → s.room? c.handle = some (i, r) → r.cell.payload = .empty →
    i ∉ s.filled pre → c.result = .ok () ∧ c.woken = r.cell.registered
  /-- Every other call is refused and wakes nobody. -/
  refuses : ∀ pre c post i r, calls = pre ++ c :: post → s.room? c.handle = some (i, r) →
    r.cell.payload ≠ .empty ∨ i ∈ s.filled pre → c.result = .error .doubleWrite ∧ c.woken = []
  /-- No cell is filled twice. -/
  once : (s.filled calls).Nodup
  /-- A cell that is filled holds the value of the call that filled it, and is otherwise as it was. -/
  cells : ∀ i r, s.rooms[i]? = some r → ∃ r', s'.rooms[i]? = some r' ∧
    (i ∉ s.filled calls ∧ r'.cell = r.cell ∨
      r.cell.payload = .empty ∧ ∃ c ∈ calls, s.filled? c = some i ∧ r'.cell = { r.cell with payload := .full c.value })
  /-- Every registration with a cell that is filled is woken, once, and no other. -/
  woken : (events.filterMap (·.woken?)).Perm ((s.filled calls).flatMap s.registeredIn)
  count : (events.filterMap (·.woken?)).length = ((s.filled calls).map fun i => (s.registeredIn i).length).sum

/-- What is made of a sequence of puts and of what the first of them woke. -/
theorem Cascades.of_puts {s s' : Session V W} {h : Handle} {value : V} {calls : List (PutCall V W)}
    {events : List (WakeEvent W)} (hputs : Puts s calls s')
    (hreturns : (∃ e, s.put h value = .error e ∧ events = [] ∧ s' = s) ∨
      ∃ s₁ woken, s.put h value = .ok (s₁, woken) ∧ Wakes react s₁ woken events s' ∧
        cascade react s₁ (woken.map .wake) = (s', events))
    (hmade : calls.map (fun c => (c.handle, c.value)) = (h, value) :: (events.filterMap (·.woken?)).filterMap react)
    (hanswered : (events.filterMap (·.answer?)).Perm (calls.tail.map (·.result)))
    (hwoken : (events.filterMap (·.woken?)).Perm (calls.flatMap (·.woken))) :
    Cascades react s h value calls events s' := by
  rw [hputs.flatMap_woken] at hwoken
  refine ⟨hreturns, hmade, hanswered, ?_, ?_, hputs.nodup_filled, fun i r => hputs.room, hwoken, ?_⟩
  · rintro pre c post i r rfl hroom hempty hnot
    rcases hputs.meets hroom with ⟨-, -, hcall⟩ | ⟨hfull | hmem, -⟩
    · exact hcall
    · exact absurd hempty hfull
    · exact absurd hmem hnot
  · rintro pre c post i r rfl hroom hrefuses
    rcases hputs.meets hroom with ⟨hempty, hnot, -⟩ | ⟨-, hcall⟩
    · exact (hrefuses.elim (absurd hempty) fun hmem => absurd hmem hnot)
    · exact hcall
  · rw [hwoken.length_eq, List.length_flatMap]

/-- Wakers may put what they like when they are woken, on any cell and in a circle: every put returns, each cell is
filled at most once, all other puts are refused, and each registration with a cell that is filled is woken once. -/
theorem reentrant_puts (react : W → Option (Handle × V)) (s : Session V W) (h : Handle) (value : V) :
    ∃ calls s', Cascades react s h value calls (s.serve react (.put h value)).2.2 s' := by
  cases hput : s.put h value with
  | error e =>
    have hevents : (s.serve react (.put h value)).2.2 = [] := by simp only [serve, putAndWake, hput]
    rw [hevents]
    exact ⟨_, s, .of_puts (.refuses hput (.nil s)) (.inl ⟨e, hput, rfl, rfl⟩) rfl (.refl _) (.refl _)⟩
  | ok result =>
    obtain ⟨s₁, woken⟩ := result
    obtain ⟨s', events, hwakes, hcascade⟩ := exists_wakes_cascade react s₁ woken []
    rw [List.append_nil] at hcascade
    simp only [cascade, List.append_nil] at hcascade
    have hevents : (s.serve react (.put h value)).2.2 = events := by
      simp only [serve, putAndWake, hput, hcascade]
      split <;> rfl
    obtain ⟨calls, hputs, hmade, hanswers, hwoken⟩ := hwakes.exists_puts
    rw [hevents]
    exact ⟨_, s', .of_puts (.commits hput hputs) (.inr ⟨s₁, woken, hput, hwakes, hcascade⟩) (by rw [List.map_cons, hmade])
      hanswers hwoken⟩

end Session
end Dataflow
