import Dataflow.Proofs.Charges
import Dataflow.Proofs.Finishing
import Dataflow.Proofs.Fillings
import Dataflow.Proofs.Links
import Dataflow.Proofs.Wakes

/-!
# Links at work

The steps of links fill the cells of a chain one after the other, and leave the rest of the store to the program that
made them (`Store.Spares`). That program makes a link for the next cell only, and writes no cell but the first
(`Frame.Prudent`).
-/

namespace Dataflow

/-! ### What a step does to the cells -/

/-- If the frame writes a cell, it writes the number of the cell; and it releases none. -/
def Frame.Numbers (f : Frame Datum Job) : Prop :=
  (∀ c value, f.put? = some (c, value) → value = Link.number c) ∧ f.destroy? = none

/-- All that the frame of a program outside does to cells and tasks. -/
structure Frame.Prudent (s : Store Datum Job) (f : Frame Datum Job) : Prop where
  outside : f.IsOutside
  /-- It writes the first cell only. -/
  put : ∀ c value, f.put? = some (c, value) → c = 0 ∧ value = Link.number 0
  destroy : f.destroy? = none
  read : ∀ r, f = .run r → ¬ r.body.IsRead
  /-- A task that it makes is the next link, and the cell of that link is there. -/
  spawn : ∀ job next, f = .spawn 0 job .number next →
    ∃ q k, s.charge 0 = some (q, k) ∧ job = Link.job k ∧ k + 1 < s.cells.size
  close : f ≠ .shutdown 0 .close

/-- What links leave to the program that made them. -/
structure Store.Spares (s s' : Store Datum Job) : Prop where
  size : s'.cells.size = s.cells.size
  blocked : ∀ c, (s'.cell c).blocked = (s.cell c).blocked
  full : ∀ c, s.Full c → s'.Full c
  notes : s'.notes = s.notes
  signalled : ∀ c ∈ s.signalled, c ∈ s'.signalled
  /-- They give back places, and make no tasks. -/
  charge : ∀ q k, s.charge 0 = some (q, k) → ∃ q' ≤ q, s'.charge 0 = some (q', k)

/-- A cell replaced by itself. -/
theorem Store.cells_setCell_cell {V J : Type} (s : Store V J) (c : CellId) : (s.setCell c (s.cell c)).cells = s.cells := by
  refine Array.ext_getElem? fun c' => ?_
  rw [Store.setCell, Array.getElem?_setIfInBounds]
  split
  · rename_i hc
    subst hc
    split
    · rename_i hlt
      simp [Store.cell, hlt]
    · rename_i hge
      rw [Array.getElem?_eq_none (Nat.le_of_not_lt hge)]
  · rfl

namespace Frame

variable {worker : Option (PoolId × Nat)} {choice : Nat} {s s' : Store Datum Job} {f g : Frame Datum Job} {c : CellId}

/-- What is done for links is labour. -/
theorem OfLink.isLabour (h : f.OfLink s) : f.IsLabour := by
  cases f with
  | run r =>
    obtain ⟨t, hstands⟩ := h
    cases hstands <;> exact ⟨t, rfl⟩
  | pause r =>
    obtain ⟨t, key, rfl⟩ := h
    exact ⟨t, rfl⟩
  | ended party outcome =>
    obtain ⟨t, hparty, houtcome, -⟩ := h
    exact ⟨t, hparty, houtcome⟩
  | wake party =>
    obtain ⟨t, hparty, -⟩ := h
    exact ⟨t, hparty⟩
  | exchange | reschedule => exact h.1
  | task p t phase =>
    cases phase with
    | settle | tally => exact ⟨h.1, h.2.1⟩
    | _ => exact h
  | signal | work => trivial
  | _ => exact h

/-- The body of a link changes the cell that it reads or writes, nothing else of a link any; and what it says nobody
hears. -/
theorem OfLink.still (hf : f.OfLink s) :
    (∃ c x, (f.step Job.start worker choice s).1.cells = (s.setCell c x).cells ∧ x.blocked = (s.cell c).blocked) ∧
      (f.step Job.start worker choice s).1.notes = s.notes ∧
      ∀ c ∈ s.signalled, c ∈ (f.step Job.start worker choice s).1.signalled := by
  have own : ∃ c x, s.cells = (s.setCell c x).cells ∧ x.blocked = (s.cell c).blocked :=
    ⟨0, s.cell 0, (s.cells_setCell_cell 0).symm, rfl⟩
  by_cases hrun : ∃ r, f = .run r
  · obtain ⟨r, rfl⟩ := hrun
    obtain ⟨t, hstands⟩ := hf
    cases hstands with
    | @reads key =>
      have hpoll := blocked_poll (s.cell t) key (.task 0 t)
      simp only [step, stepRun, Link.reads]
      split <;> exact ⟨⟨t, ((s.cell t).poll key (.task 0 t)).2.1, rfl, hpoll⟩, rfl, fun _ => id⟩
    | writes =>
      simp only [step, stepRun, Link.writes]
      split
      · exact ⟨own, rfl, fun _ => id⟩
      · rename_i x hx
        exact ⟨⟨t + 1, x, rfl, by rw [Cell.eq_of_put hx]⟩, rfl, fun _ => id⟩
    | ends => exact ⟨own, rfl, fun _ => id⟩
  · obtain ⟨hcells, hrest⟩ := hf.isLabour.still (fun r hr => hrun ⟨r, hr⟩) Job.start worker choice s
    rw [hcells]
    exact ⟨own, hrest⟩

/-- Only the body of a link makes put calls, for its own cell. -/
theorem OfLink.of_put? (hf : f.OfLink s) {c : CellId} {value : Datum} (hput : f.put? = some (c, value)) :
    ∃ t, f = .run (Link.writes t) ∧ c = t + 1 ∧ value = Link.number (t + 1) := by
  cases f with
  | run r =>
    obtain ⟨t, hstands⟩ := hf
    cases hstands with
    | writes =>
      cases hput
      exact ⟨t, rfl, rfl, rfl⟩
    | _ => cases hput
  | fill => exact hf.elim
  | _ => cases hput

theorem OfLink.destroy?_eq_none (hf : f.OfLink s) : f.destroy? = none := by
  cases f with
  | run r =>
    obtain ⟨t, hstands⟩ := hf
    cases hstands <;> rfl
  | _ => rfl

theorem OfLink.numbers (hf : f.OfLink s) : f.Numbers := by
  refine ⟨fun c value hput => ?_, hf.destroy?_eq_none⟩
  obtain ⟨t, -, rfl, rfl⟩ := hf.of_put? hput
  rfl

theorem Prudent.numbers (hf : f.Prudent s) : f.Numbers := by
  refine ⟨fun c value hput => ?_, hf.destroy⟩
  obtain ⟨rfl, rfl⟩ := hf.put c value hput
  rfl

theorem Numbers.fills (hf : f.Numbers) : f.Fills Link.number := ⟨hf.1, hf.2⟩

/-- What is full stays so. -/
theorem Numbers.full (hf : f.Numbers) (h : s.Full c) : (f.step Job.start worker choice s).1.Full c := hf.fills.filled h

/-- A cell that becomes full was written. -/
theorem Numbers.of_full (hf : f.Numbers) (h : (f.step Job.start worker choice s).1.Full c) :
    s.Full c ∨ (s.cell c).payload = .empty ∧ ∃ value, f.put? = some (c, value) :=
  (hf.fills.of_filled h).imp_right fun hput => ⟨hput.1, _, hput.2⟩

/-- Links leave their places and spare everything else. -/
theorem OfLink.spares (hf : f.OfLink s) : s.Spares (f.step Job.start worker choice s).1 := by
  have hstill : (∃ c x, (f.step Job.start worker choice s).1.cells = (s.setCell c x).cells ∧ x.blocked = (s.cell c).blocked) ∧
      (f.step Job.start worker choice s).1.notes = s.notes ∧
      ∀ c ∈ s.signalled, c ∈ (f.step Job.start worker choice s).1.signalled := hf.still
  obtain ⟨⟨c, x, hcells, hblocked⟩, hnotes, hsignalled⟩ := hstill
  refine ⟨by rw [hcells, Store.setCell, Array.size_setIfInBounds], fun c' => ?_, fun c' => hf.numbers.full, hnotes,
    hsignalled, fun q k hcharge => ?_⟩
  · rw [Store.cell, hcells, ← Store.cell, Store.blocked_setCell hblocked]
  · exact hf.isLabour.charge hcharge

theorem OfLink.mono (hf : f.OfLink s) (h : ∀ c, s.Full c → s'.Full c) : f.OfLink s' := by
  cases f with
  | run r =>
    obtain ⟨t, hstands⟩ := hf
    cases hstands with
    | reads hkey => exact ⟨t, .reads fun hne => h _ (hkey hne)⟩
    | writes hread => exact ⟨t, .writes (h _ hread)⟩
    | ends hread hwritten => exact ⟨t, .ends (h _ hread) (h _ hwritten)⟩
  | ended party outcome =>
    obtain ⟨t, hparty, houtcome, hread, hwritten⟩ := hf
    exact ⟨t, hparty, houtcome, h _ hread, h _ hwritten⟩
  | signal c => exact h _ hf
  | wake party =>
    obtain ⟨t, hparty, hread⟩ := hf
    exact ⟨t, hparty, h _ hread⟩
  | exchange | reschedule => exact ⟨hf.1, h _ hf.2⟩
  | task p t phase =>
    cases phase with
    | settle | tally => exact ⟨hf.1, hf.2.1, h _ hf.2.2.1, h _ hf.2.2.2⟩
    | _ => exact hf
  | _ => exact hf

/-- A put into the cell of a link wakes that link. -/
theorem ofLink_afterPut (hwakers : ∀ k party, s.Enters k party → party = .task 0 k.1) (hfull : s'.Full c)
    (hg : g ∈ (afterPut c (s.cell c) : List (Frame Datum Job))) : g.OfLink s' := by
  rcases List.mem_append.1 hg with hg | hg
  · split at hg
    · rw [List.mem_singleton.1 hg]
      exact hfull
    · cases hg
  · obtain ⟨party, hparty, rfl⟩ := List.mem_map.1 hg
    obtain ⟨⟨key, _⟩, hentry, rfl⟩ := List.mem_map.1 hparty
    exact ⟨c, hwakers (c, key) _ hentry, hfull⟩

theorem ofLink_run {r : Run Datum Job} {t : TaskId} (hstands : Link.Stands s t r)
    (hcells : ∀ c, (s.cell c).payload = .empty ∨ s.Full c) (hwakers : ∀ k party, s.Enters k party → party = .task 0 k.1)
    (hwrites : r = Link.writes t → (s.cell (t + 1)).payload = .empty ∧ t + 1 < s.cells.size)
    (hfull : ∀ c, s.Full c → (stepRun worker s r).1.Full c) :
    ∀ g ∈ (stepRun worker s r).2, g.OfLink (stepRun worker s r).1 := by
  intro g hg
  cases hstands with
  | @reads key hkey =>
    by_cases hread : s.Full t
    · have hmem := hg
      rw [Link.stepRun_reads_of_full worker key hread, List.mem_singleton] at hmem
      exact hmem ▸ ⟨t, .writes (hfull t hread)⟩
    · have hmem := hg
      rw [Link.stepRun_reads_of_empty worker key ((hcells t).resolve_right hread), List.mem_singleton] at hmem
      exact hmem ▸ ⟨t, _, rfl⟩
  | writes hread =>
    obtain ⟨hempty, hlt⟩ := hwrites rfl
    have hwritten : (stepRun worker s (Link.writes t)).1.Full (t + 1) := by
      rw [Link.stepRun_writes worker hempty, Store.Full, Store.cell_setCell, if_pos ⟨rfl, hlt⟩]
    have hmem := hg
    rw [Link.stepRun_writes worker hempty, List.mem_append, List.mem_singleton] at hmem
    rcases hmem with hmem | rfl
    · exact ofLink_afterPut hwakers hwritten hmem
    · exact ⟨t, .ends (hfull t hread) hwritten⟩
  | ends hread hwritten =>
    rw [Link.stepRun_ends] at hg
    simp only [List.mem_cons, List.not_mem_nil, or_false] at hg
    rcases hg with rfl | rfl
    · rfl
    · exact ⟨t, rfl, rfl, hread, hwritten⟩

theorem ofLink_enter {t : TaskId} {y : Task Datum Job} (hy : s.task? 0 t = some y) (hkeeps : Link.Keeps t y.stage)
    (hconsumed : y.stage ≠ .consumed) (hstarted : y.stage.IsStarted → s'.Full t) :
    ∀ g ∈ ((Frame.task 0 t .enter).step Job.start worker choice s).2, g.OfLink s' := by
  intro g hg
  simp only [Frame.step, stepTask, hy] at hg
  cases hstage : y.stage with
  | consumed => exact absurd hstage hconsumed
  | unclaimed job =>
    rw [hstage] at hkeeps
    obtain rfl : job = Link.job t := hkeeps
    have hstart : Job.start (Link.job t) = .ok (.get t none (Link.next t)) := Link.start_job t
    simp only [hstage, hstart, List.mem_singleton] at hg
    exact hg ▸ ⟨t, .reads (absurd rfl)⟩
  | started guards body =>
    rw [hstage] at hkeeps hstarted
    obtain ⟨rfl, key, rfl⟩ := hkeeps
    simp only [hstage, List.mem_singleton] at hg
    exact hg ▸ ⟨t, .reads fun _ => hstarted trivial⟩

/-- What a link does next is the step of a link. -/
theorem OfLink.step (hf : f.OfLink s) (hworker : ∀ p w, worker = some (p, w) → p = 0)
    (hcells : ∀ c, (s.cell c).payload = .empty ∨ s.Full c)
    (hwakers : ∀ k party, s.Enters k party → party = .task 0 k.1)
    (hwrites : ∀ t, f = .run (Link.writes t) → (s.cell (t + 1)).payload = .empty ∧ t + 1 < s.cells.size)
    (henter : ∀ t, f = .task 0 t .enter → ∃ y, s.task? 0 t = some y ∧ Link.Keeps t y.stage ∧ y.stage ≠ .consumed ∧
      (y.stage.IsStarted → s.Full t)) :
    ∀ g ∈ (f.step Job.start worker choice s).2, g.OfLink (f.step Job.start worker choice s).1 := by
  have hfull : ∀ c, s.Full c → (f.step Job.start worker choice s).1.Full c := fun c => hf.numbers.full
  intro g hg
  have hgives := gives_step Job.start worker choice s f
  cases f with
  | run r =>
    obtain ⟨t, hstands⟩ := hf
    exact ofLink_run hstands hcells hwakers (fun hr => hwrites t (congrArg Frame.run hr)) hfull g hg
  | task p t phase =>
    obtain ⟨rfl, hphase⟩ := hf
    cases phase with
    | enter =>
      obtain ⟨y, hy, hkeeps, hconsumed, hstarted⟩ := henter t rfl
      exact ofLink_enter hy hkeeps hconsumed (fun h => hfull t (hstarted h)) g hg
    | abandon | discard => exact hphase.elim
    | settle outcome =>
      rw [List.mem_singleton.1 hg]
      exact ⟨rfl, hphase.1, hfull _ hphase.2.1, hfull _ hphase.2.2⟩
    | tally outcome =>
      generalize (Frame.step _ _ _ _ _).2 = fs at hg hgives
      cases hgives with
      | nothing => cases hg
      | tallied =>
        simp only [List.mem_cons, List.not_mem_nil, or_false] at hg
        rcases hg with rfl | rfl | rfl
        exacts [⟨rfl, trivial⟩, rfl, rfl]
    | park =>
      generalize (Frame.step _ _ _ _ _).2 = fs at hg hgives
      cases hgives with
      | nothing => cases hg
      | parked =>
        simp only [List.mem_cons, List.not_mem_nil, or_false] at hg
        rcases hg with rfl | rfl <;> rfl
      | notified =>
        rw [List.mem_singleton.1 hg]
        exact ⟨rfl, trivial⟩
    | _ =>
      generalize (Frame.step _ _ _ _ _).2 = fs at hg hgives
      cases hgives <;> simp only [List.mem_cons, List.not_mem_nil, or_false] at hg
      all_goals exact hg ▸ ⟨rfl, trivial⟩
  | work seek =>
    generalize (Frame.step _ _ _ _ _).2 = fs at hg hgives
    cases hgives <;> simp only [List.mem_cons, List.not_mem_nil, or_false] at hg
    case seeks => exact hg ▸ trivial
    case finds p w hhome t =>
      obtain rfl := hworker p w hhome
      rcases hg with rfl | rfl
      exacts [⟨rfl, trivial⟩, trivial]
  | pause r =>
    obtain ⟨t, key, rfl⟩ := hf
    rw [List.mem_singleton.1 hg]
    exact ⟨rfl, trivial⟩
  | drop guards =>
    obtain rfl : guards = [] := hf
    cases hg
  | ended party outcome =>
    obtain ⟨t, rfl, houtcome⟩ := hf
    rw [List.mem_singleton.1 hg]
    exact ⟨rfl, houtcome.1, hfull _ houtcome.2.1, hfull _ houtcome.2.2⟩
  | wake party =>
    obtain ⟨t, rfl, hread⟩ := hf
    generalize (Frame.step _ _ _ _ _).2 = fs at hg hgives
    cases hgives with
    | nothing => cases hg
    | wake =>
      rw [List.mem_singleton.1 hg]
      exact ⟨rfl, hfull t hread⟩
  | exchange p t seen target =>
    obtain ⟨rfl, hread⟩ := hf
    generalize (Frame.step _ _ _ _ _).2 = fs at hg hgives
    cases hgives <;> simp only [List.mem_cons, List.not_mem_nil, or_false] at hg
    case missed => exact hg ▸ ⟨t, rfl, hfull t hread⟩
    case woken => exact hg ▸ ⟨rfl, hfull t hread⟩
  | reschedule p t =>
    obtain ⟨rfl, -⟩ := hf
    generalize (Frame.step _ _ _ _ _).2 = fs at hg hgives
    cases hgives <;> simp only [List.mem_cons, List.not_mem_nil, or_false] at hg
    case handedBack =>
      rcases hg with rfl | rfl | rfl
      exacts [rfl, rfl, ⟨rfl, trivial⟩]
  | signal | count => cases hg
  | _ => exact hf.elim

theorem OfLink.aborted (hf : f.OfLink s) : (f.step Job.start worker choice s).1.aborted = s.aborted := by
  by_cases htally : ∃ q t outcome, f = .task q t (.tally outcome)
  · obtain ⟨q, t, outcome, rfl⟩ := htally
    obtain ⟨-, rfl, -⟩ := hf
    simp only [Frame.step]
    rw [stepTask_tally]
    split
    · rfl
    · rw [if_neg (by simp [isFatal])]
      rfl
  · exact aborted_step fun q t outcome h => htally ⟨q, t, outcome, h⟩

/-- What a program outside does takes nobody's registration. -/
theorem Prudent.sameWakers (hf : f.Prudent s) : s.SameWakers (f.step Job.start worker choice s).1 := by
  cases f with
  | run r => exact sameWakers_stepRun worker s (hf.read r rfl)
  | withdraw => exact hf.outside.elim
  | _ => exact sameWakers_step (fun _ => by simp) fun _ _ => by simp

/-- Nor does a link as long as there is nothing to read. -/
theorem OfLink.enters (hf : f.OfLink s) (hcells : ∀ c, (s.cell c).payload = .empty ∨ s.Full c) {t : TaskId} {key : Nat}
    {party : Party} (ht : ¬ s.Full t) (h : s.Enters (t, key) party) :
    (f.step Job.start worker choice s).1.Enters (t, key) party := by
  have same : s.SameWakers (f.step Job.start worker choice s).1 →
      (f.step Job.start worker choice s).1.Enters (t, key) party := fun hsame =>
    (Store.enters_iff_of_sameWakers hsame).2 h
  cases f with
  | run r =>
    obtain ⟨u, hstands⟩ := hf
    cases hstands with
    | @reads own hown =>
      by_cases hfull : s.Full u
      · have hne : u ≠ t := fun hu => ht (hu ▸ hfull)
        rw [Frame.step, Link.stepRun_reads_of_full worker own hfull, Store.Enters, Store.cell_setCell, if_neg fun hu => hne hu.1]
        exact h
      · obtain rfl : own = none := not_not.1 fun hne => hfull (hown hne)
        rw [Frame.step, Link.stepRun_reads_of_empty worker none ((hcells u).resolve_right hfull), Store.Enters,
          Store.cell_setCell]
        split
        · rename_i hu
          obtain ⟨rfl, -⟩ := hu
          exact List.mem_append_left _ h
        · exact h
    | writes | ends => exact same (sameWakers_stepRun worker s id)
  | withdraw => exact hf.elim
  | _ => exact same (sameWakers_step (fun _ => by simp) fun _ _ => by simp)

/-- Whom a frame has entered with a cell. -/
theorem OfLink.minds (hf : f.OfLink s) {k : CellId × Nat} {party : Party} (h : f.Minds k party) : party = .task 0 k.1 := by
  cases f with
  | run r =>
    obtain ⟨t, hstands⟩ := hf
    obtain ⟨rfl, hk⟩ := h
    cases hstands with
    | @reads key =>
      cases key with
      | none => cases hk
      | some key =>
        rw [List.mem_singleton.1 hk]
        rfl
    | writes | ends => cases hk
  | pause r =>
    obtain ⟨t, key, rfl⟩ := hf
    obtain ⟨rfl, hk⟩ := h
    rw [List.mem_singleton.1 hk]
    rfl
  | withdraw => exact hf.elim
  | _ => exact h.elim

end Frame

end Dataflow
