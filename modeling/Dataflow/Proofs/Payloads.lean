import Dataflow.Proofs.Frames

/-!
# Payloads

What the cells hold changes in two ways only, whatever the threads do (`Frame.payload_step`): a put fills an
empty cell, and a destroy releases one. So what is filled stays so along a run until it is destroyed.
-/

namespace Dataflow

variable {V J : Type}

namespace Cell

variable {W : Type} {x x' : Cell V W}

/-- A destroy that goes through only changes the payload. -/
theorem eq_of_destroy (h : x.destroy = .ok x') : x' = { x with payload := .destroyed } := by
  unfold destroy at h
  split at h
  · cases h
  · split at h <;> cases h
    rfl
  · split at h <;> cases h
    rfl

/-- So does a put. -/
theorem eq_of_put {value : V} (h : x.put value = .ok x') : x' = { x with payload := .full value } := by
  unfold put at h
  split at h <;> cases h
  rfl

theorem put_of_empty {value : V} (h : x.payload = .empty) : x.put value = .ok { x with payload := .full value } := by
  unfold put
  rw [h]

/-- A thread that has to wait is counted. -/
theorem eq_of_arrive (h : x.arrive = .waiting x') : x' = { x with blocked := x.blocked + 1 } := by
  unfold arrive at h
  split at h <;> cases h
  rfl

theorem payload_withdraw (x : Cell V W) (key : Option Nat) : (x.withdraw key).payload = x.payload := by
  cases key <;> rfl

theorem payload_register (x : Cell V W) (waker : W) (key : Option Nat) :
    (x.register waker key).1.payload = x.payload := by
  cases key with
  | none => rfl
  | some key => simp only [register]; split <;> rfl

theorem payload_poll (x : Cell V W) (key : Option Nat) (waker : W) :
    (x.poll key waker).2.1.payload = x.payload := by
  unfold poll
  split
  · exact x.payload_withdraw key
  · exact x.payload_withdraw key
  · exact x.payload_register waker key

theorem payload_recheck (x : Cell V W) (timeOver : Bool) : (x.recheck timeOver).2.payload = x.payload := by
  unfold recheck
  split <;> (try split) <;> rfl

end Cell

namespace Store

/-- A new cell is what its number stood for. -/
theorem cell_newCell (s : Store V J) (c : CellId) : s.newCell.2.cell c = s.cell c := by
  simp only [cell, newCell, Array.getElem?_push]
  split
  · rename_i hc
    simp [hc]
  · rfl

/-- The cell with that number after one was replaced. -/
theorem cell_setCell (s : Store V J) (c c' : CellId) (x : Cell V Party) :
    (s.setCell c x).cell c' = if c = c' ∧ c < s.cells.size then x else s.cell c' := by
  unfold cell setCell
  by_cases hc : c = c'
  · subst hc
    by_cases hlt : c < s.cells.size <;> simp [hlt]
  · simp [hc, Array.getElem?_setIfInBounds_ne]

/-- A cell replaced by one that holds the same. -/
theorem payload_setCell {s : Store V J} {c : CellId} {x : Cell V Party} (hx : x.payload = (s.cell c).payload)
    (c' : CellId) : ((s.setCell c x).cell c').payload = (s.cell c').payload := by
  rw [cell_setCell]
  split
  · rename_i hc
    rw [hx, hc.1]
  · rfl

end Store

namespace Frame

/-- The put call that the frame is about to make. -/
def put? : Frame V J → Option (CellId × V)
  | .run ⟨_, _, .put c value _⟩ => some (c, value)
  | .fill c value => some (c, value)
  | _ => none

/-- The destroy call that it is about to make. -/
def destroy? : Frame V J → Option CellId
  | .run ⟨_, _, .destroy c _⟩ => some c
  | _ => none

/-- What a step from `s` to `s'` does to the payload of a cell. -/
def Pays (s : Store V J) (f : Frame V J) (s' : Store V J) (c : CellId) : Prop :=
  (s'.cell c).payload = (s.cell c).payload ∨
    (∃ value, f.put? = some (c, value) ∧ (s.cell c).payload = .empty ∧ (s'.cell c).payload = .full value) ∨
    (f.destroy? = some c ∧ (s'.cell c).payload = .destroyed)

variable {s s' : Store V J} {f : Frame V J} {c : CellId}

theorem Pays.of_cells_eq (h : s'.cells = s.cells) : Pays s f s' c := .inl (by rw [Store.cell, h, Store.cell])

theorem Pays.setCell {c' : CellId} {x : Cell V Party} (hx : x.payload = (s.cell c').payload) :
    Pays s f (s.setCell c' x) c := .inl (Store.payload_setCell hx c)

theorem pays_pollWait (party : Party) (w : Wait V) : Pays s f (pollWait s party w).2 c := by
  cases w with
  | answered answer => exact .of_cells_eq rfl
  | «open» c' key => exact .setCell (Cell.payload_poll ..)

theorem Pays.put {c' : CellId} {value : V} {x : Cell V Party} (hf : f.put? = some (c', value))
    (hx : (s.cell c').put value = .ok x) : Pays s f (s.setCell c' x) c := by
  rw [Pays, Store.cell_setCell]
  split
  · rename_i hc
    refine .inr (.inl ⟨value, hc.1 ▸ hf, ?_, by rw [Cell.eq_of_put hx]⟩)
    rw [← hc.1]
    unfold Cell.put at hx
    split at hx
    · assumption
    · cases hx
    · cases hx
  · exact .inl rfl

/-- A read that finds a value goes on with it. -/
theorem stepRun_get_of_full (worker : Option (PoolId × Nat)) (party : Party) (guards : List (Guard V)) (key : Option Nat)
    (next : Except RuntimeError V → Body V J) {value : V} (h : (s.cell c).payload = .full value) :
    stepRun worker s ⟨party, guards, .get c key next⟩ =
      (s.setCell c ((s.cell c).withdraw key), [.run ⟨party, guards, next (.ok value)⟩]) := by
  have hpoll : (s.cell c).poll key party = (.ready (.ok value), (s.cell c).withdraw key, none) := by
    unfold Cell.poll
    rw [h]
  simp only [stepRun, pollWait, hpoll, Wait.ofPoll, Run.goOn]

/-- And one that finds none is registered. -/
theorem stepRun_get_of_empty (worker : Option (PoolId × Nat)) (party : Party) (guards : List (Guard V))
    (key : Option Nat) (next : Except RuntimeError V → Body V J) (h : (s.cell c).payload = .empty) :
    stepRun worker s ⟨party, guards, .get c key next⟩ =
      (s.setCell c ((s.cell c).register party key).1,
        [.pause ⟨party, guards, .get c (some ((s.cell c).register party key).2) next⟩]) := by
  have hpoll : (s.cell c).poll key party =
      (.pending, ((s.cell c).register party key).1, some ((s.cell c).register party key).2) := by
    unfold Cell.poll
    rw [h]
  simp only [stepRun, pollWait, hpoll, Wait.ofPoll, Run.goOn]

theorem pays_stepRun (worker : Option (PoolId × Nat)) (r : Run V J) :
    Pays s (.run r) (stepRun worker s r).1 c := by
  obtain ⟨party, guards, body⟩ := r
  cases body with
  | get c' key next => simp only [stepRun]; split <;> exact pays_pollWait party _
  | join a b second next =>
    cases second with
    | false => exact pays_pollWait party _
    | true => simp only [stepRun]; split <;> exact pays_pollWait party _
  | select a b second next => cases second <;> simp only [stepRun] <;> split <;> exact pays_pollWait party _
  | put c' value next =>
    simp only [stepRun]
    split
    · exact .of_cells_eq rfl
    · rename_i x hx
      exact .put rfl hx
  | destroy c' next =>
    simp only [stepRun]
    split
    · exact .of_cells_eq rfl
    · rename_i x hx
      rw [Pays, Store.cell_setCell]
      split
      · rename_i hc
        exact .inr (.inr ⟨congrArg some hc.1, by rw [Cell.eq_of_destroy hx]⟩)
      · exact .inl rfl
  | getBlocking c' next | getTimeout c' next =>
    simp only [stepRun]
    split
    · exact .of_cells_eq rfl
    · rename_i x hx
      exact .setCell (by rw [Cell.eq_of_arrive hx])
  | newCell next => exact .inl (congrArg Cell.payload (s.cell_newCell c))
  | spawn pool job next => simp only [stepRun]; split <;> exact .of_cells_eq rfl
  | _ => exact .of_cells_eq rfl

/-- A put fills an empty cell, a destroy releases one, and nothing else changes what a cell holds. -/
theorem payload_step (start : J → Except RuntimeError (Body V J)) (worker : Option (PoolId × Nat)) (choice : Nat)
    (s : Store V J) (f : Frame V J) (c : CellId) : Pays s f (f.step start worker choice s).1 c := by
  cases f with
  | run r => exact pays_stepRun worker r
  | pause r => simp only [step, stepPause]; split <;> exact .of_cells_eq rfl
  | drop guards => cases guards <;> exact .of_cells_eq rfl
  | fill c' value =>
    simp only [step]
    split
    · exact .of_cells_eq rfl
    · rename_i x hx
      exact .put rfl hx
  | withdraw c' key => exact .setCell (Cell.payload_withdraw ..)
  | ended party outcome => cases party <;> exact .of_cells_eq rfl
  | blocked c' timed next => simp only [step]; split <;> exact .setCell (Cell.payload_recheck ..)
  | spawn p job phase next =>
    cases phase <;> simp only [step, stepSpawn] <;> split <;> (try split) <;> exact .of_cells_eq rfl
  | wake party =>
    cases party with
    | outside => exact .of_cells_eq rfl
    | task p t => simp only [step, stepWake]; split <;> (try split) <;> exact .of_cells_eq rfl
  | exchange p t seen target => simp only [step, stepExchange]; split <;> (try split) <;> exact .of_cells_eq rfl
  | reschedule p t => simp only [step, stepReschedule]; split <;> exact .of_cells_eq rfl
  | task p t phase => exact .of_cells_eq (stepTask_cells_shelf start worker s p t phase).1
  | work seek =>
    rcases worker with _ | ⟨p, w⟩
    · exact .of_cells_eq rfl
    · rcases stepWork_pools choice s p w seek with heq | ⟨g, heq, -⟩ <;> rw [step, heq] <;> exact .of_cells_eq rfl
  | shutdown p phase => exact .of_cells_eq (stepShutdown_cells_shelf choice s p phase).1
  | _ => exact .of_cells_eq rfl

/-- Cells are made, and none goes. -/
theorem size_step (start : J → Except RuntimeError (Body V J)) (worker : Option (PoolId × Nat)) (choice : Nat)
    (s : Store V J) (f : Frame V J) : s.cells.size ≤ (f.step start worker choice s).1.cells.size := by
  have set : ∀ (c : CellId) (x : Cell V Party), s.cells.size ≤ (s.setCell c x).cells.size := fun c x =>
    (Array.size_setIfInBounds ..).ge
  have polled : ∀ party w, s.cells.size ≤ (pollWait s party w).2.cells.size := by
    rintro party (_ | _)
    · exact set ..
    · exact Nat.le_refl _
  cases f with
  | run r =>
    obtain ⟨party, guards, body⟩ := r
    cases body with
    | get => simp only [step, stepRun]; split <;> exact polled ..
    | join a b second next =>
      cases second with
      | false => exact polled ..
      | true => simp only [step, stepRun]; split <;> exact polled ..
    | select a b second next => cases second <;> (simp only [step, stepRun]; split) <;> exact polled ..
    | put | destroy | getBlocking | getTimeout =>
      simp only [step, stepRun]
      split
      · exact Nat.le_refl _
      · exact set ..
    | newCell next => simp [step, stepRun, Store.newCell]
    | spawn => simp only [step, stepRun]; split <;> exact Nat.le_refl _
    | _ => exact Nat.le_refl _
  | pause r => simp only [step, stepPause]; split <;> exact Nat.le_refl _
  | drop guards => cases guards <;> exact Nat.le_refl _
  | fill c value =>
    simp only [step]
    split
    · exact Nat.le_refl _
    · exact set ..
  | withdraw c key => exact set ..
  | ended party outcome => cases party <;> exact Nat.le_refl _
  | blocked c timed next => simp only [step]; split <;> exact set ..
  | spawn p job phase next =>
    cases phase <;> simp only [step, stepSpawn] <;> split <;> (try split) <;> exact Nat.le_refl _
  | wake party =>
    cases party with
    | outside => exact Nat.le_refl _
    | task p t => simp only [step, stepWake]; split <;> (try split) <;> exact Nat.le_refl _
  | exchange => simp only [step, stepExchange]; split <;> (try split) <;> exact Nat.le_refl _
  | reschedule => simp only [step, stepReschedule]; split <;> exact Nat.le_refl _
  | task p t phase => rw [step, (stepTask_cells_shelf start worker s p t phase).1]
  | work seek =>
    rcases worker with _ | ⟨p, w⟩
    · exact Nat.le_refl _
    · rcases stepWork_pools choice s p w seek with heq | ⟨g, heq, -⟩
      · rw [step, heq]
      · rw [step, heq]
        exact Nat.le_refl _
  | shutdown p phase => rw [step, (stepShutdown_cells_shelf choice s p phase).1]
  | _ => exact Nat.le_refl _

/-- A put that goes through fills the cell, and then wakes everyone who was registered. -/
theorem step_of_puts (start : J → Except RuntimeError (Body V J)) (worker : Option (PoolId × Nat)) (choice : Nat)
    {value : V} (hf : f.put? = some (c, value)) (hc : (s.cell c).payload = .empty) :
    (f.step start worker choice s).1 = s.setCell c { s.cell c with payload := .full value } ∧
      ∃ fs, (f.step start worker choice s).2 = afterPut c (s.cell c) ++ fs := by
  have hput : (s.cell c).put value = .ok { s.cell c with payload := .full value } := Cell.put_of_empty hc
  cases f with
  | run r =>
    obtain ⟨party, guards, body⟩ := r
    cases body with
    | put c' value' next =>
      cases hf
      simp only [step, stepRun, hput]
      exact ⟨trivial, _, rfl⟩
    | _ => cases hf
  | fill c' value' =>
    cases hf
    simp only [step, hput]
    exact ⟨trivial, [], (List.append_nil _).symm⟩
  | _ => cases hf

end Frame

/-- A put call on the cell that goes through. -/
def Taken.Fills (e : Taken V J) (c : CellId) : Prop :=
  c < e.store.cells.size ∧ (e.store.cell c).payload = .empty ∧ ∃ value, e.frame.put? = some (c, value)

namespace Machine

variable {start : J → Except RuntimeError (Body V J)}

/-- Only the step of a thread changes what a cell holds. -/
theorem payload_after (start : J → Except RuntimeError (Body V J)) (m : Machine V J) (mv : Move V J) (c : CellId) :
    ((m.after start mv).store.cell c).payload = (m.store.cell c).payload ∨
      ∃ i worker f, m.taken mv = some ⟨i, worker, f, m.store⟩ ∧ f.Pays m.store (m.after start mv).store c := by
  cases mv with
  | step i choice =>
    rcases m.after_step start i choice with ⟨heq, -⟩ | ⟨worker, f, rest, -, -, -, htaken, heq⟩
    · exact .inl (by rw [heq])
    · exact .inr ⟨i, worker, f, htaken, by rw [heq]; exact Frame.payload_step start worker choice m.store f c⟩
  | startPool config => rcases m.after_startPool start config with heq | heq <;> rw [heq] <;> exact .inl rfl
  | enter body => exact .inl rfl
  | poll | discard => simp only [Machine.after]; split <;> exact .inl rfl

/-- A cell that has been filled is not empty again. -/
theorem payload_ne_empty_after {m : Machine V J} {c : CellId} (h : (m.store.cell c).payload ≠ .empty)
    (mv : Move V J) : ((m.after start mv).store.cell c).payload ≠ .empty := by
  rcases m.payload_after start mv c with heq | ⟨_, _, _, -, heq | ⟨_, -, hempty, -⟩ | ⟨-, heq⟩⟩
  · rwa [heq]
  · rwa [heq]
  · exact absurd hempty h
  · rw [heq]
    exact nofun

end Machine
end Dataflow
