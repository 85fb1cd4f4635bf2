import Dataflow.Proofs.Charges
import Dataflow.Proofs.Crews
import Dataflow.Proofs.Squares

/-!
# A fan-out of squares

Whatever order the workers and the program that made the tasks go on in, every task of a fan-out is in a state that its
cell bears out (`Machine.Squared`). The workers lead on with every step, if it is no step of a worker that looks for
tasks and finds none (`Machine.Squared.advances`), and a task that rests has ended, and its cell has the square
(`Machine.Squared.completed_of_rests`).
-/

namespace Dataflow

/-- All that the frame of the program does to cells and tasks: it makes cells, and looks into them. -/
structure Frame.Modest (s : Store Datum Job) (f : Frame Datum Job) : Prop where
  outside : f.IsOutside
  put : f.put? = none
  destroy : f.destroy? = none
  read : ∀ r, f = .run r → ¬ r.body.IsRead
  /-- A task that it makes squares the next number, and its cell is there. -/
  spawn : ∀ job next, f = .spawn 0 job .number next →
    ∃ q k, s.charge 0 = some (q, k) ∧ job = Square.job k ∧ k < s.cells.size
  close : f ≠ .shutdown 0 .close

theorem Frame.Modest.fills {s : Store Datum Job} {f : Frame Datum Job} (h : f.Modest s) : f.Fills Square.value := by
  refine ⟨fun c v hput => ?_, h.destroy⟩
  rw [h.put] at hput
  cases hput

/-- It takes nobody's registration. -/
theorem Frame.Modest.sameWakers {s : Store Datum Job} {f : Frame Datum Job} (h : f.Modest s)
    {worker : Option (PoolId × Nat)} {choice : Nat} : s.SameWakers (f.step Job.start worker choice s).1 := by
  cases f with
  | run r => exact sameWakers_stepRun worker s (h.read r rfl)
  | withdraw => exact h.outside.elim
  | _ => exact sameWakers_step (fun _ => by simp) fun _ _ => by simp

/-- What the tasks leave to the program that made them. -/
structure Store.Respects (s s' : Store Datum Job) : Prop where
  size : s'.cells.size = s.cells.size
  blocked : ∀ c, (s'.cell c).blocked = (s.cell c).blocked
  notes : s'.notes = s.notes
  /-- They give back places, and make no tasks. -/
  charge : ∀ q k, s.charge 0 = some (q, k) → ∃ q' ≤ q, s'.charge 0 = some (q', k)

theorem Frame.OfSquare.respects {s : Store Datum Job} {f : Frame Datum Job} (h : f.OfSquare)
    (worker : Option (PoolId × Nat)) (choice : Nat) : s.Respects (f.step Job.start worker choice s).1 := by
  have same : s.cells = (f.step Job.start worker choice s).1.cells → s.notes = (f.step Job.start worker choice s).1.notes →
      s.Respects (f.step Job.start worker choice s).1 := by
    intro hcells hnotes
    refine ⟨by rw [hcells], fun c => ?_, hnotes.symm, fun q k => h.isLabour.charge⟩
    rw [Store.cell, ← hcells, Store.cell]
  by_cases hrun : ∃ r, f = .run r
  · obtain ⟨r, rfl⟩ := hrun
    obtain ⟨t, rfl | rfl⟩ := id h
    · cases hput : (s.cell t).put (Square.value t) with
      | error e =>
        refine same ?_ ?_ <;> simp only [Frame.step, stepRun, Square.writes, hput]
      | ok x =>
        refine ⟨?_, fun c => ?_, ?_, fun q k => h.isLabour.charge⟩ <;> simp only [Frame.step, stepRun, Square.writes, hput]
        · exact Array.size_setIfInBounds ..
        · exact Store.blocked_setCell (by rw [Cell.eq_of_put hput])
        · rfl
    · exact same rfl rfl
  · obtain ⟨hcells, hnotes, -⟩ := h.isLabour.still (fun r hr => hrun ⟨r, hr⟩) Job.start worker choice s
    exact same hcells.symm hnotes.symm

namespace Machine

variable {m : Machine Datum Job} {D i choice N : Nat} {worker : Option (PoolId × Nat)} {f : Frame Datum Job}
  {rest : List (Frame Datum Job)} {t : TaskId} {y : Task Datum Job}

/-- The tasks of a fan-out as they can be at any moment, while the program that made them goes on. -/
structure Squared (D : Nat) (m : Machine Datum Job) : Prop where
  crew : m.Crew D
  frames : m.AllFrames fun worker f => f.OfSquare ∨ worker = none ∧ f.IsOutside
  filling : m.Filling Square.value
  /-- Nobody waits with a cell but threads that are blocked. -/
  wakers : ∀ k party, ¬ m.store.Enters k party
  room : ∀ t y, m.store.task? 0 t = some y → t < m.store.cells.size
  /-- A cell is written by its task. -/
  written : ∀ t, m.store.Filled Square.value t → ∃ y, m.store.task? 0 t = some y
  knows : ∀ t y, m.store.task? 0 t = some y → Square.Knows m.store t y (m.holds 0 t)

namespace Squared

theorem fills {s : Store Datum Job} (hf : f.OfSquare ∨ f.Modest s) : f.Fills Square.value :=
  hf.elim Frame.OfSquare.fills Frame.Modest.fills

theorem isOutside {s : Store Datum Job} (hf : f.OfSquare ∨ f.Modest s) : f.OfSquare ∨ f.IsOutside :=
  hf.imp_right Frame.Modest.outside

section after

variable (h : m.Squared D) (hi : m.threads[i]? = some ⟨worker, f :: rest⟩)

include h hi

/-- A task that writes finds its cell empty. -/
theorem writes (hw : f = .run (Square.writes t)) : (m.store.cell t).payload = .empty := by
  subst hw
  obtain ⟨y, hy, hT, hfit⟩ := h.crew.lawful.scheduled.holds_eq h.crew.running hi (List.mem_cons_self ..)
    (p := 0) (t := t) (k := .polling (Square.writes t)) (by simp [Frame.holds, Square.writes])
  refine (h.filling.cells t).resolve_right fun hfull => ?_
  rcases (h.knows t y hy).filled.1 hfull with hend | ⟨k, hk, hspent⟩
  · rcases hfit.1 with hstate | hstate <;> rw [hend] at hstate <;> cases hstate
  · rw [hT, Multiset.mem_singleton] at hk
    subst hk
    exact hspent

/-- A worker that takes up a task finds its job. -/
theorem enters (henter : f = .task 0 t .enter) :
    ∃ y, m.store.task? 0 t = some y ∧ y.stage = .unclaimed (Square.job t) := by
  subst henter
  obtain ⟨y, hy, -, hfit⟩ := h.crew.lawful.scheduled.holds_eq h.crew.running hi (List.mem_cons_self ..)
    (p := 0) (t := t) (k := .claimed) (by simp [Frame.holds])
  exact ⟨y, hy, (h.knows t y hy).stage.resolve_right hfit.2⟩

/-- What a worker does next for a task is a step of it. -/
theorem ofSquare_step (hsquare : f.OfSquare) : ∀ g ∈ (f.step Job.start worker choice m.store).2, g.OfSquare :=
  hsquare.step (h.crew.homes i _ hi) h.wakers (fun _ => h.writes hi) fun _ => h.enters hi

variable (hfree : f.isBlocked worker choice m.store = false) (hf : f.OfSquare ∨ f.Modest m.store)

include hfree hf

/-- What happens to a task. -/
theorem turns (hy : m.store.task? 0 t = some y) : ∃ z, (m.after Job.start (.step i choice)).store.task? 0 t = some z ∧
    Square.Turns t f y (m.holds 0 t) z ((m.after Job.start (.step i choice)).holds 0 t) := by
  obtain ⟨-, htaken⟩ := h.crew.after_eq Job.start hi hfree
  rcases change Job.start h.crew.lawful.scheduled.framed (h.crew.lawful.scheduled.sound 0 t).made (.step i choice) with
    ⟨hnone, -⟩ | ⟨_, _, f', d, e, others, htaken', hd, he, hc⟩
  · cases htaken.symm.trans hnone
  · rw [htaken] at htaken'
    cases htaken'
    have hx := h.crew.lawful.scheduled.exact 0 t h.crew.running
    rw [hy] at hc hx
    rw [hd] at hx
    have hknows := h.knows t y hy
    rw [hd] at hknows ⊢
    rw [he]
    exact Square.turns_of_change h.crew.running hx hknows (h.writes hi) (isOutside hf) hc

/-- A task that was not there squares the next number. -/
theorem made (hnone : m.store.task? 0 t = none) {z : Task Datum Job}
    (hz : (m.after Job.start (.step i choice)).store.task? 0 t = some z) :
    z = { stage := .unclaimed (Square.job t) } ∧ (m.after Job.start (.step i choice)).holds 0 t = {.ready} ∧
      t < m.store.cells.size := by
  obtain ⟨-, htaken⟩ := h.crew.after_eq Job.start hi hfree
  rcases change Job.start h.crew.lawful.scheduled.framed (h.crew.lawful.scheduled.sound 0 t).made (.step i choice) with
    ⟨hnone', -⟩ | ⟨_, _, f', d, e, others, htaken', hd, he, hc⟩
  · cases htaken.symm.trans hnone'
  · rw [htaken] at htaken'
    cases htaken'
    have hT := (h.crew.lawful.scheduled.sound 0 t).made hnone
    rw [hnone, hz] at hc
    rw [he]
    cases hc with
    | @spawn job next pool hpool ht =>
      obtain rfl : others = 0 := by simpa [hT] using hd.symm
      obtain ⟨q, k, hcharge, rfl, hlt⟩ := (hf.resolve_left id).spawn job next rfl
      rw [Store.charge_of_pool hpool] at hcharge
      cases hcharge
      subst ht
      exact ⟨rfl, rfl, hlt⟩

theorem knows_after (hy : (m.after Job.start (.step i choice)).store.task? 0 t = some y) :
    Square.Knows (m.after Job.start (.step i choice)).store t y ((m.after Job.start (.step i choice)).holds 0 t) := by
  obtain ⟨heq, -⟩ := h.crew.after_eq Job.start hi hfree
  have hfull : m.store.Filled Square.value t → (m.after Job.start (.step i choice)).store.Filled Square.value t := by
    rw [heq]
    exact (fills hf).filled
  have hwritten : f = .run (Square.writes t) → (m.after Job.start (.step i choice)).store.Filled Square.value t := by
    rintro rfl
    obtain ⟨y, hy, -⟩ := h.crew.fits hi (t := t) (k := .polling (Square.writes t)) (by simp [Frame.holds, Square.writes])
    rw [heq, Frame.step, Frame.stepRun_writes worker (h.writes hi rfl), Store.Filled, Store.cell_setCell,
      if_pos ⟨rfl, h.room t y hy⟩]
  have hnew : (m.after Job.start (.step i choice)).store.Filled Square.value t → m.store.Filled Square.value t ∨
      ∃ k ∈ (m.after Job.start (.step i choice)).holds 0 t, k.IsSpent := by
    rw [heq]
    intro hfilled
    rcases (fills hf).of_filled hfilled with hbefore | ⟨hempty, hput⟩
    · exact .inl hbefore
    rcases hf with hsquare | hmodest
    · obtain rfl := hsquare.of_put? hput
      refine .inr ⟨.polling (Square.ends t), ?_, trivial⟩
      have hends : .run (Square.ends t) ∈ (Frame.step Job.start worker choice m.store (.run (Square.writes t))).2 ++ rest :=
        List.mem_append_left _ (by simp [Frame.step, Frame.stepRun_writes worker hempty])
      exact mem_holds_of_set hi hends (by simp [Frame.holds, Square.ends])
    · cases hmodest.put.symm.trans hput
  cases hx : m.store.task? 0 t with
  | some x =>
    obtain ⟨z, hz, hturns⟩ := turns h hi hfree hf hx
    rw [hy] at hz
    cases hz
    exact (h.knows t x hx).turn hturns hfull hnew hwritten
  | none =>
    obtain ⟨rfl, hT, -⟩ := made h hi hfree hf hx hy
    refine ⟨.inl rfl, .inl rfl, fun hfilled => ?_, fun hend => ?_⟩
    · rcases hnew hfilled with hbefore | hspent
      · obtain ⟨x, hx'⟩ := h.written t hbefore
        cases hx.symm.trans hx'
      · exact .inr hspent
    · simp [hT, Hold.IsSpent] at hend

/-- The tasks stay as they can be. What the program does next is up to the program. -/
theorem after (hown : f.Modest m.store →
      ∀ g ∈ (f.step Job.start worker choice m.store).2, g.OfSquare ∨ worker = none ∧ g.IsOutside) :
    (m.after Job.start (.step i choice)).Squared D := by
  have hknows := fun t y => knows_after h hi hfree hf (t := t) (y := y)
  have hmade := fun t => made h hi hfree hf (t := t)
  have hnext : ∀ g ∈ (f.step Job.start worker choice m.store).2, g.OfSquare ∨ worker = none ∧ g.IsOutside :=
    hf.elim (fun hsquare g hg => .inl (h.ofSquare_step hi hsquare g hg)) hown
  have hclose : f ≠ .shutdown 0 .close := by
    rintro rfl
    exact hf.elim id fun hmodest => hmodest.close rfl
  have hcrew : (m.after Job.start (.step i choice)).Crew D :=
    h.crew.after hi hfree hclose fun g hg => (hnext g hg).imp_left Frame.OfSquare.isLabour
  obtain ⟨heq, -⟩ := h.crew.after_eq Job.start hi hfree
  rw [heq] at hknows hmade hcrew ⊢
  have hsize := Frame.size_step Job.start worker choice m.store f
  refine ⟨hcrew, h.frames.set hi hnext _, h.filling.step hi (fills hf), fun k party henters => ?_, fun t y hy => ?_,
    fun t hfull => ?_, hknows⟩
  · have hsame : m.store.SameWakers (f.step Job.start worker choice m.store).1 :=
      hf.elim (fun hsquare => hsquare.sameWakers) fun hmodest => hmodest.sameWakers
    exact h.wakers k party ((Store.enters_iff_of_sameWakers hsame).1 henters)
  · cases hx : m.store.task? 0 t with
    | some x => exact Nat.lt_of_lt_of_le (h.room t x hx) hsize
    | none => exact Nat.lt_of_lt_of_le (hmade t hx hy).2.2 hsize
  · have hthere : ∃ y, m.store.task? 0 t = some y := by
      rcases (fills hf).of_filled hfull with hbefore | ⟨-, hput⟩
      · exact h.written t hbefore
      rcases hf with hsquare | hmodest
      · obtain rfl := hsquare.of_put? hput
        obtain ⟨y, hy, -⟩ := h.crew.fits hi (t := t) (k := .polling (Square.writes t)) (by simp [Frame.holds, Square.writes])
        exact ⟨y, hy⟩
      · cases hmodest.put.symm.trans hput
    obtain ⟨y, hy⟩ := hthere
    exact ⟨_, Frame.task?_step Job.start worker choice f hy⟩

/-- A step brings a task nearer to its end, or nothing happens to any. -/
theorem still_or_lt (hN : ∀ t y, (m.after Job.start (.step i choice)).store.task? 0 t = some y → t < N) :
    m.Still (m.after Job.start (.step i choice)) ∨ (m.after Job.start (.step i choice)).ranks N < m.ranks N := by
  refine Machine.still_or_lt hN (fun t z hx hz => ?_) fun t y hy => ?_
  · obtain ⟨rfl, hT, -⟩ := made h hi hfree hf hx hz
    simp [hT, Link.rank, Hold.distance, Stage.distance]
  · obtain ⟨z, hz, hturns⟩ := turns h hi hfree hf hy
    exact ⟨z, hz, hturns.rank⟩

omit hf

/-- The body of a task comes nearer to its end with every step. -/
theorem not_still_of_run {r : Run Datum Job} (hr : f = .run r) (hsquare : f.OfSquare) :
    ¬ m.Still (m.after Job.start (.step i choice)) := by
  subst hr
  intro hstill
  have same : ∀ {t : TaskId} {l : Hold Datum Job} {g : Frame Datum Job}, r.party = .task 0 t →
      g ∈ (Frame.step Job.start worker choice m.store (.run r)).2 → l ∈ g.holds worker 0 t → l = .polling r :=
    fun hparty hg hk => h.crew.hold_eq_of_still hi hfree hstill (by simp [Frame.holds, hparty]) hg hk
  obtain ⟨t, rfl | rfl⟩ := hsquare
  · have hnext := same (t := t) (l := .polling (Square.ends t)) (g := .run (Square.ends t)) rfl
      (by simp [Frame.step, Frame.stepRun_writes worker (h.writes hi rfl)]) (by simp [Frame.holds, Square.ends])
    simp [Square.writes, Square.ends] at hnext
  · have hnext := same (t := t) (l := .ending (.returned (.ok ()))) (g := .ended (.task 0 t) (.returned (.ok ()))) rfl
      (by simp [Frame.step, Frame.stepRun_ends]) (by simp [Frame.holds])
    cases hnext

/-- A step for a task leads on, or it is one of a worker that looks for tasks and finds none. -/
theorem advances (hsquare : f.OfSquare)
    (hN : ∀ t y, (m.after Job.start (.step i choice)).store.task? 0 t = some y → t < N) :
    (m.after Job.start (.step i choice)).ranks N < m.ranks N ∨
      (m.after Job.start (.step i choice)).ranks N = m.ranks N ∧
        ((m.after Job.start (.step i choice)).loads < m.loads ∨
          (m.after Job.start (.step i choice)).loads = m.loads ∧ m.Idles i ∧
            m.Defers (m.after Job.start (.step i choice))) :=
  h.crew.advances hi hfree hsquare.isLabour (fun _ hr => h.not_still_of_run hi hfree hr hsquare)
    (h.still_or_lt hi hfree (.inl hsquare) hN)

end after

/-- A task that rests has ended, and its cell has the square. -/
theorem completed_of_rests (h : m.Squared D) (hy : m.store.task? 0 t = some y) (hrests : y.Rests) :
    y.state = .completed ∧ m.store.Filled Square.value t := by
  have hknows := h.knows t y hy
  have hcompleted : y.state = .completed := by
    rcases hrests with ⟨hstate, -⟩ | ⟨hend, -⟩ <;> rcases hknows.state with h | h | h
    · cases hstate.symm.trans h
    · cases hstate.symm.trans h
    · exact h
    · rw [h] at hend
      cases hend
    · rw [h] at hend
      cases hend
    · exact h
  exact ⟨hcompleted, hknows.filled.2 (.inl hcompleted)⟩

end Squared

end Machine
end Dataflow
