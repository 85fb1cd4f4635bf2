import Dataflow.Proofs.Leavings
import Dataflow.Proofs.Payloads

/-!
# Cells that get what is meant for them

Where everybody writes what is meant for a cell, and nobody releases one, every cell is empty or has its value
(`Machine.Filling`). A thread that is blocked on a full cell has been told of it then, or is about to be, and whoever has
been told of a cell finds it full.
-/

namespace Dataflow

variable {V J : Type} {value : CellId → V} {c : CellId}

/-- The cell is full, with the value that is meant for it. -/
def Store.Filled (s : Store V J) (value : CellId → V) (c : CellId) : Prop := (s.cell c).payload = .full (value c)

/-- If the frame writes a cell, it writes the value that is meant for the cell; and it releases none. -/
structure Frame.Fills (f : Frame V J) (value : CellId → V) : Prop where
  put : ∀ c v, f.put? = some (c, v) → v = value c
  destroy : f.destroy? = none

/-- Nobody is blocked on a cell that is not there. -/
theorem Store.lt_of_blocked {s : Store V J} (h : 0 < (s.cell c).blocked) : c < s.cells.size := by
  by_contra hge
  rw [Store.cell, Array.getElem?_eq_none (Nat.le_of_not_lt hge)] at h
  exact absurd h (Nat.lt_irrefl 0)

namespace Frame

variable {start : J → Except RuntimeError (Body V J)} {worker : Option (PoolId × Nat)} {choice : Nat} {s : Store V J}
  {f : Frame V J}

/-! ### What a step does to payloads and signals -/

/-- What is full stays so. -/
theorem Fills.filled (hf : f.Fills value) (h : s.Filled value c) : (f.step start worker choice s).1.Filled value c := by
  rcases payload_step start worker choice s f c with hsame | ⟨v, -, hempty, -⟩ | ⟨hdestroy, -⟩
  · exact hsame.trans h
  · cases hempty.symm.trans h
  · cases hf.destroy.symm.trans hdestroy

/-- A cell that becomes full was written. -/
theorem Fills.of_filled (hf : f.Fills value) (h : (f.step start worker choice s).1.Filled value c) :
    s.Filled value c ∨ (s.cell c).payload = .empty ∧ f.put? = some (c, value c) := by
  rcases payload_step start worker choice s f c with hsame | ⟨v, hput, hempty, -⟩ | ⟨hdestroy, -⟩
  · exact .inl (hsame.symm.trans h)
  · obtain rfl := hf.put c v hput
    exact .inr ⟨hempty, hput⟩
  · cases hf.destroy.symm.trans hdestroy

theorem Fills.cells (hf : f.Fills value) (h : ∀ c, (s.cell c).payload = .empty ∨ s.Filled value c) (c : CellId) :
    ((f.step start worker choice s).1.cell c).payload = .empty ∨ (f.step start worker choice s).1.Filled value c := by
  rcases payload_step start worker choice s f c with hsame | ⟨v, hput, -, hfull⟩ | ⟨hdestroy, -⟩
  · exact (h c).imp hsame.trans hsame.trans
  · obtain rfl := hf.put c v hput
    exact .inr hfull
  · cases hf.destroy.symm.trans hdestroy

theorem signalled_pollWait (s : Store V J) (party : Party) (wait : Wait V) :
    (pollWait s party wait).2.signalled = s.signalled := by
  cases wait <;> rfl

theorem signalled_stepRun (worker : Option (PoolId × Nat)) (s : Store V J) (r : Run V J) :
    (stepRun worker s r).1.signalled = s.signalled := by
  obtain ⟨party, guards, body⟩ := r
  cases body with
  | get c key next => simp only [stepRun]; split <;> exact signalled_pollWait ..
  | join a b second next =>
    cases second with
    | false => exact signalled_pollWait ..
    | true => simp only [stepRun]; split <;> exact signalled_pollWait ..
  | select a b second next => cases second <;> simp only [stepRun] <;> split <;> exact signalled_pollWait ..
  | put c value next | destroy c next | getBlocking c next | getTimeout c next | spawn pool job next =>
    simp only [stepRun]
    split <;> rfl
  | _ => rfl

/-- Nothing but a signal tells threads that are blocked. -/
theorem signalled_step (hf : ∀ c, f ≠ .signal c) : (f.step start worker choice s).1.signalled = s.signalled := by
  cases f with
  | run r => exact signalled_stepRun worker s r
  | signal c => exact absurd rfl (hf c)
  | drop guards => cases guards <;> rfl
  | ended party => cases party <;> rfl
  | work seek =>
    rcases worker with _ | ⟨p, w⟩
    · rfl
    · rcases stepWork_pools choice s p w seek with heq | ⟨g, heq, -⟩
      · rw [step, heq]
      · rw [step, heq]
        rfl
  | spawn p job phase =>
    cases phase <;> simp only [step, stepSpawn]
    all_goals repeat' split
    all_goals rfl
  | task p t phase =>
    cases phase <;> simp only [step, stepTask]
    all_goals repeat' split
    all_goals rfl
  | shutdown p phase =>
    cases phase with
    | release tasks => cases tasks <;> rfl
    | _ =>
      simp only [step, stepShutdown]
      repeat' split
      all_goals rfl
  | wake party =>
    cases party <;> simp only [step, stepWake]
    all_goals repeat' split
    all_goals rfl
  | withdraw | count | waitIdle => rfl
  | _ =>
    simp only [step, stepPause, stepExchange, stepReschedule]
    repeat' split
    all_goals rfl

theorem of_signal_mem_afterPut {c' : CellId} {before : Cell V Party}
    (h : (.signal c : Frame V J) ∈ afterPut c' before) : c = c' ∧ 0 < before.blocked := by
  simp only [afterPut, List.mem_append, List.mem_map, reduceCtorEq, and_false, exists_false, or_false] at h
  split at h
  · rename_i hpos
    exact ⟨by simpa using h, hpos⟩
  · cases h

/-- Who gives a signal has just filled the cell, and threads are blocked on it. -/
theorem put?_of_signal (h : .signal c ∈ (f.step start worker choice s).2) :
    (s.cell c).payload = .empty ∧ 0 < (s.cell c).blocked ∧ ∃ v, f.put? = some (c, v) := by
  have of_put : ∀ {c' : CellId} {v : V} {x : Cell V Party}, (s.cell c').put v = .ok x →
      (.signal c : Frame V J) ∈ afterPut c' (s.cell c') → f.put? = some (c', v) →
      (s.cell c).payload = .empty ∧ 0 < (s.cell c).blocked ∧ ∃ v, f.put? = some (c, v) := by
    intro c' v x hx hmem hput
    obtain ⟨rfl, hpos⟩ := of_signal_mem_afterPut hmem
    refine ⟨?_, hpos, v, hput⟩
    unfold Cell.put at hx
    split at hx
    · assumption
    · cases hx
    · cases hx
  have hgives := gives_step start worker choice s f
  generalize hfs : (f.step start worker choice s).2 = fs at h hgives
  cases hgives with
  | @run r =>
    obtain ⟨party, guards, body⟩ := r
    cases body with
    | put c' v next =>
      simp only [stepRun] at h
      split at h
      · simp at h
      · rename_i x hx
        exact of_put hx ((List.mem_append.1 h).resolve_right (by simp)) rfl
    | join a b second next =>
      cases second <;> simp only [stepRun] at h
      · simp at h
      · split at h <;> simp at h
    | select a b second next => cases second <;> simp only [stepRun] at h <;> split at h <;> simp at h
    | get | destroy | getBlocking | getTimeout | spawn =>
      simp only [stepRun] at h
      split at h <;> simp at h
    | _ => simp [stepRun] at h
  | @fill c' v =>
    simp only [step] at hfs
    split at hfs
    · rw [← hfs] at h
      cases h
    · rename_i x hx
      exact of_put hx h rfl
  | drop hnext => rcases hnext _ h with ⟨c', v, hg⟩ | ⟨guards, hg⟩ <;> cases hg
  | discarded guards body => simp [dropPending] at h
  | joined n => simp at h
  | _ => simp at h

theorem IsQuiet.blockedOn_eq_zero (h : f.IsQuiet) (c : CellId) : f.blockedOn c = 0 := by
  cases f with
  | blocked => exact h.elim
  | _ => rfl

/-- Who neither blocks nor is blocked leaves no thread blocked. -/
theorem blockedOn_step (c : CellId) (hblocked : ∀ c timed next, f ≠ .blocked c timed next)
    (hrun : ∀ r, f = .run r → (∀ c next, r.body ≠ .getBlocking c next) ∧ ∀ c next, r.body ≠ .getTimeout c next)
    {g : Frame V J} (hg : g ∈ (f.step start worker choice s).2) : g.blockedOn c = 0 := by
  have hgives := gives_step start worker choice s f
  generalize (f.step start worker choice s).2 = fs at hg hgives
  cases hgives with
  | @run r =>
    obtain ⟨hnow, htimed⟩ := hrun r rfl
    obtain ⟨party, guards, body⟩ := r
    cases body with
    | getBlocking c' next => exact absurd rfl (hnow c' next)
    | getTimeout c' next => exact absurd rfl (htimed c' next)
    | put c' v next =>
      simp only [stepRun] at hg
      split at hg
      · simp [List.mem_singleton.1 hg, blockedOn]
      · rcases List.mem_append.1 hg with hg | hg
        · exact (isQuiet_afterPut hg).blockedOn_eq_zero c
        · simp [List.mem_singleton.1 hg, blockedOn]
    | join a b second next =>
      cases second <;> simp only [stepRun] at hg
      · simp [List.mem_singleton.1 hg, blockedOn]
      · split at hg <;> simp [List.mem_singleton.1 hg, blockedOn]
    | select a b second next =>
      cases second <;> simp only [stepRun] at hg <;> split at hg
      all_goals
        simp only [List.mem_append, List.mem_map, List.mem_cons, List.not_mem_nil, or_false] at hg
        grind [blockedOn]
    | get | destroy | spawn =>
      simp only [stepRun] at hg
      split at hg <;> simp [List.mem_singleton.1 hg, blockedOn]
    | _ =>
      simp only [stepRun, List.mem_append, List.mem_map, List.mem_cons, List.mem_replicate, List.not_mem_nil, or_false] at hg
      grind [blockedOn]
  | drop hnext => rcases hnext _ hg with ⟨c', v, rfl⟩ | ⟨guards, rfl⟩ <;> rfl
  | fill => exact (isQuiet_afterPut hg).blockedOn_eq_zero c
  | discarded guards body => exact (isQuiet_dropPending hg).blockedOn_eq_zero c
  | nothing => cases hg
  | freed | blocked => exact (hblocked _ _ _ rfl).elim
  | _ =>
    simp only [List.mem_append, List.mem_map, List.mem_cons, List.not_mem_nil, or_false] at hg
    grind [blockedOn]

/-- Nobody blocks on a cell that is full. -/
theorem blocked_step_le (h : (s.cell c).payload ≠ .empty) :
    ((f.step start worker choice s).1.cell c).blocked ≤ (s.cell c).blocked := by
  have quiet : (∀ c timed next, f ≠ .blocked c timed next) →
      (∀ r, f = .run r → (∀ c next, r.body ≠ .getBlocking c next) ∧ ∀ c next, r.body ≠ .getTimeout c next) →
      ((f.step start worker choice s).1.cell c).blocked ≤ (s.cell c).blocked := by
    intro hblocked hrun
    have hle := blocked_step c start worker choice s f
    have hsum : ((f.step start worker choice s).2.map (blockedOn c)).sum = 0 :=
      List.sum_eq_zero fun n hn => by
        obtain ⟨g, hg, rfl⟩ := List.mem_map.1 hn
        exact blockedOn_step c hblocked hrun hg
    omega
  cases f with
  | run r =>
    obtain ⟨party, guards, body⟩ := r
    cases body with
    | getBlocking c' next | getTimeout c' next =>
      simp only [step, stepRun]
      split
      · exact Nat.le_refl _
      · rename_i x hx
        have hne : ¬ (c' = c ∧ c' < s.cells.size) := by
          rintro ⟨rfl, -⟩
          unfold Cell.arrive at hx
          split at hx
          · cases hx
          · cases hx
          · rename_i hempty
            exact h hempty
        rw [Store.cell_setCell, if_neg hne]
    | _ => exact quiet (by simp) (by simp)
  | blocked c' timed next =>
    simp only [step]
    rcases blocked_recheck (s.cell c') (timed && choice != 0) with ⟨hnone, hcell⟩ | ⟨answer, hanswer, hcell⟩
    · rw [hnone, hcell]
      exact (Store.blocked_setCell rfl).le
    · rw [hanswer]
      exact (Store.blocked_setCell_sub hcell).trans (Nat.sub_le ..)
  | _ => exact quiet (by simp) (by simp)

end Frame

namespace Machine

variable {start : J → Except RuntimeError (Body V J)} {m : Machine V J} {i choice : Nat}
  {worker : Option (PoolId × Nat)} {f : Frame V J} {rest : List (Frame V J)}

/-- Every cell is empty or has the value that is meant for it, and threads learn of it. -/
structure Filling (m : Machine V J) (value : CellId → V) : Prop where
  cells : ∀ c, (m.store.cell c).payload = .empty ∨ m.store.Filled value c
  /-- Threads that are blocked on a full cell have been told, or are about to be. -/
  told : ∀ c, m.store.Filled value c → 0 < (m.store.cell c).blocked → c ∈ m.store.signalled ∨ m.Pending (· = .signal c)
  signals : ∀ c, m.Pending (· = .signal c) → m.store.Filled value c
  signalled : ∀ c ∈ m.store.signalled, m.store.Filled value c

theorem Filling.step (h : m.Filling value) (hi : m.threads[i]? = some ⟨worker, f :: rest⟩) (hf : f.Fills value) :
    Filling ⟨(f.step start worker choice m.store).1,
      m.threads.setIfInBounds i ⟨worker, (f.step start worker choice m.store).2 ++ rest⟩⟩ value := by
  have told : ∀ c ∈ m.store.signalled, c ∈ (f.step start worker choice m.store).1.signalled := fun c hc => by
    by_cases hsignal : ∃ c, f = .signal c
    · obtain ⟨c', rfl⟩ := hsignal
      exact List.mem_cons_of_mem _ hc
    · rwa [Frame.signalled_step fun c hc => hsignal ⟨c, hc⟩]
  constructor
  case cells => exact hf.cells h.cells
  case told =>
    intro c hfull hpos
    rcases hf.of_filled hfull with hbefore | ⟨hempty, hput⟩
    · have hne : (m.store.cell c).payload ≠ .empty := fun hempty => by cases hempty.symm.trans hbefore
      rcases h.told c hbefore (Nat.lt_of_lt_of_le hpos (Frame.blocked_step_le hne)) with hsignalled | hpending
      · exact .inl (told c hsignalled)
      · rcases hpending.set hi with rfl | hpending'
        · exact .inl (List.mem_cons_self ..)
        · exact .inr hpending'
    -- the put itself gives the signal
    · obtain ⟨hstore, fs, hfs⟩ := Frame.step_of_puts start worker choice hput hempty
      have hbefore : 0 < (m.store.cell c).blocked := by
        have hsame : ((f.step start worker choice m.store).1.cell c).blocked = (m.store.cell c).blocked := by
          rw [hstore]
          exact Store.blocked_setCell rfl
        rwa [← hsame]
      refine .inr (Pending.of_mem hi (g := .signal c) ?_ rfl)
      rw [hfs, Frame.afterPut, if_pos hbefore]
      exact List.mem_append_left _ (List.mem_append_left _ (List.mem_singleton_self _))
  case signals =>
    rintro c ⟨j, th, hj, g, hg, rfl⟩
    have old : m.Pending (· = .signal c) → (f.step start worker choice m.store).1.Filled value c := fun hpending =>
      hf.filled (h.signals c hpending)
    rcases thread_of_set hi hj with ⟨-, rfl⟩ | ⟨-, hj⟩
    · rcases List.mem_append.1 hg with hnew | hold
      · obtain ⟨hempty, hpos, v, hput⟩ := Frame.put?_of_signal hnew
        obtain rfl := hf.put c v hput
        have hlt : c < m.store.cells.size := Store.lt_of_blocked hpos
        obtain ⟨hstore, -⟩ := Frame.step_of_puts start worker choice hput hempty
        change (f.step start worker choice m.store).1.Filled value c
        rw [hstore, Store.Filled, Store.cell_setCell, if_pos ⟨rfl, hlt⟩]
      · exact old ⟨i, _, hi, _, List.mem_cons_of_mem _ hold, rfl⟩
    · exact old ⟨j, th, hj, _, hg, rfl⟩
  case signalled =>
    intro c hc
    change (f.step start worker choice m.store).1.Filled value c
    by_cases hsignal : ∃ c, f = .signal c
    · obtain ⟨c', rfl⟩ := hsignal
      rcases List.mem_cons.1 hc with rfl | hc
      · exact hf.filled (h.signals c ⟨i, _, hi, _, List.mem_cons_self .., rfl⟩)
      · exact hf.filled (h.signalled c hc)
    · rw [Frame.signalled_step fun c hc => hsignal ⟨c, hc⟩] at hc
      exact hf.filled (h.signalled c hc)

end Machine
end Dataflow
