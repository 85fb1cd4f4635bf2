import Dataflow.Proofs.Counters
import Dataflow.Proofs.Desertion

/-!
# What finished tasks leave behind

A cell has wakers of tasks that can still go on, and of no others. A waker is minded until it is out of the list: by
its task, while that is put away with the key, by whoever has the body of the task in hand, or by whoever is about
to withdraw the key (`Machine.AllMinded`). A task that has ended is not put away any more, unless a shutdown is about
to drop what it still had to do (`Machine.Discarding`), and nobody has its body in hand.

A cell counts no more blocked readers than there are threads blocked on it (`Machine.Blocking`). So where no task is
live and nobody outside the pools waits, every cell can be destroyed.
-/

namespace Dataflow

variable {V J : Type}

namespace Store

variable {s : Store V J} {c d : CellId} {x : Cell V Party}

theorem blocked_setCell_le {n : Nat} (h : x.blocked ≤ (s.cell c).blocked + n) :
    ((s.setCell c x).cell d).blocked ≤ (s.cell d).blocked + if c = d then n else 0 := by
  rw [cell_setCell]
  by_cases hc : c = d
  · subst hc
    split
    · simpa using h
    · exact Nat.le_add_right _ _
  · simp [hc]

theorem blocked_setCell (h : x.blocked = (s.cell c).blocked) : ((s.setCell c x).cell d).blocked = (s.cell d).blocked := by
  rw [cell_setCell]
  split
  · rename_i hc
    rw [h, hc.1]
  · rfl

theorem blocked_setCell_sub (h : x.blocked = (s.cell c).blocked - 1) :
    ((s.setCell c x).cell d).blocked ≤ (s.cell d).blocked - if c = d then 1 else 0 := by
  rw [cell_setCell]
  by_cases hc : c = d
  · subst hc
    by_cases hlt : c < s.cells.size
    · simp [hlt, h]
    · have hnone : (s.cell c).blocked = 0 := by
        rw [cell, Array.getElem?_eq_none (Nat.le_of_not_lt hlt)]
        rfl
      simp [hlt, hnone]
  · simp [hc]

end Store

namespace Frame

/-- One for every thread that is blocked on the cell. -/
def blockedOn (c : CellId) : Frame V J → Nat
  | .blocked c' _ _ => if c' = c then 1 else 0
  | _ => 0

variable {c : CellId} {s : Store V J} {party : Party} {worker : Option (PoolId × Nat)}
  {start : J → Except RuntimeError (Body V J)} {choice : Nat}

theorem blocked_register {W : Type} (x : Cell V W) (waker : W) (key : Option Nat) :
    (x.register waker key).1.blocked = x.blocked := by
  cases key with
  | none => rfl
  | some key => simp only [Cell.register]; split <;> rfl

theorem blocked_poll {W : Type} (x : Cell V W) (key : Option Nat) (waker : W) :
    (x.poll key waker).2.1.blocked = x.blocked := by
  unfold Cell.poll
  split
  · cases key <;> rfl
  · cases key <;> rfl
  · exact blocked_register x waker key

theorem blocked_pollWait (w : Wait V) : ((pollWait s party w).2.cell c).blocked = (s.cell c).blocked := by
  cases w with
  | answered answer => rfl
  | «open» c' key => exact Store.blocked_setCell (blocked_poll ..)

/-- A blocked thread that looks again is answered and no longer counted, or stays blocked. -/
theorem blocked_recheck {W : Type} (x : Cell V W) (timeOver : Bool) :
    (x.recheck timeOver).1 = none ∧ (x.recheck timeOver).2 = x ∨
      ∃ answer, (x.recheck timeOver).1 = some answer ∧ (x.recheck timeOver).2.blocked = x.blocked - 1 := by
  unfold Cell.recheck
  split
  · exact .inr ⟨_, rfl, rfl⟩
  · exact .inr ⟨_, rfl, rfl⟩
  · split
    · exact .inr ⟨_, rfl, rfl⟩
    · exact .inl ⟨rfl, rfl⟩

variable {p : PoolId} {t : TaskId} {f : Frame V J} {x : Task V J} {k : CellId × Nat}

/-- A task that is put away keeps its keys until it is entered or dropped, or put away anew. -/
theorem held_of_alter (hk : k ∈ x.stage.held) : k ∈ (f.alter p t x).stage.held ∨ f = .task p t .enter ∨
    f = .task p t .discard ∨ ∃ r, f = .pause r ∧ r.party = .task p t := by
  cases f with
  | pause r =>
    by_cases hparty : r.party = .task p t
    · exact .inr (.inr (.inr ⟨r, rfl, hparty⟩))
    · rw [alter, if_neg hparty]
      exact .inl hk
  | exchange q u seen target => simp only [alter]; split <;> exact .inl hk
  | task q u phase =>
    by_cases hq : q = p ∧ u = t
    · obtain ⟨rfl, rfl⟩ := hq
      rw [alter, if_pos ⟨rfl, rfl⟩]
      cases phase with
      | enter => exact .inr (.inl rfl)
      | discard => exact .inr (.inr (.inl rfl))
      | claim | park => simp only [TaskPhase.alter]; split <;> exact .inl hk
      | _ => exact .inl hk
    · rw [alter, if_neg hq]
      exact .inl hk
  | shutdown q phase =>
    cases phase with
    | collect => simp only [alter]; split <;> exact .inl hk
    | _ => exact .inl hk
  | _ => exact .inl hk

/-- Whoever drops what a task still had to do withdraws its registrations. -/
theorem minds_of_discard (start : J → Except RuntimeError (Body V J)) (worker : Option (PoolId × Nat)) (hx : s.task? p t = some x) (hk : k ∈ x.stage.held) :
    ∃ g ∈ (stepTask start worker s p t .discard).2, g.Minds k (.task p t) := by
  cases hstage : x.stage with
  | unclaimed job | consumed => simp [hstage, Stage.held] at hk
  | started guards body =>
    rw [hstage] at hk
    simp only [stepTask, hx, hstage]
    exact ⟨.withdraw k.1 k.2, List.mem_append_left _ (List.mem_map.2 ⟨k, hk, rfl⟩), rfl⟩

/-- An instruction counts one more blocked reader for each thread that it blocks. -/
theorem blocked_stepRun (r : Run V J) : ((stepRun worker s r).1.cell c).blocked ≤
    (s.cell c).blocked + ((stepRun worker s r).2.map (blockedOn c)).sum := by
  have same : ∀ {s' : Store V J} {n : Nat}, (s'.cell c).blocked = (s.cell c).blocked →
      (s'.cell c).blocked ≤ (s.cell c).blocked + n := fun h => h ▸ Nat.le_add_right _ _
  obtain ⟨party, guards, body⟩ := r
  cases body with
  | get c' key next => simp only [stepRun]; split <;> exact same (blocked_pollWait _)
  | join a b second next =>
    cases second with
    | false => exact same (blocked_pollWait _)
    | true => simp only [stepRun]; split <;> exact same (blocked_pollWait _)
  | select a b second next => cases second <;> simp only [stepRun] <;> split <;> exact same (blocked_pollWait _)
  | put c' value next =>
    simp only [stepRun]
    split
    · exact same rfl
    · rename_i x hx
      exact same (Store.blocked_setCell (by rw [Cell.eq_of_put hx]))
  | destroy c' next =>
    simp only [stepRun]
    split
    · exact same rfl
    · rename_i x hx
      exact same (Store.blocked_setCell (by rw [Cell.eq_of_destroy hx]))
  | getBlocking c' next | getTimeout c' next =>
    simp only [stepRun]
    split
    · exact same rfl
    · rename_i x hx
      exact Store.blocked_setCell_le (n := 1) (by rw [Cell.eq_of_arrive hx])
  | newCell next => exact same (congrArg Cell.blocked (s.cell_newCell c))
  | spawn pool job next => simp only [stepRun]; split <;> exact same rfl
  | _ => exact same rfl

/-- A cell counts a blocked reader for no longer than the thread is blocked. -/
theorem blocked_step (c : CellId) (start : J → Except RuntimeError (Body V J)) (worker : Option (PoolId × Nat))
    (choice : Nat) (s : Store V J) (f : Frame V J) : ((f.step start worker choice s).1.cell c).blocked ≤
    (s.cell c).blocked - f.blockedOn c + ((f.step start worker choice s).2.map (blockedOn c)).sum := by
  have same : ∀ {s' : Store V J} {n : Nat}, s'.cells = s.cells → (s'.cell c).blocked ≤ (s.cell c).blocked - 0 + n := by
    intro s' n h
    rw [Store.cell, h, Nat.sub_zero]
    exact Nat.le_add_right _ _
  cases f with
  | run r => exact blocked_stepRun r
  | pause r => simp only [step, stepPause]; split <;> exact same rfl
  | drop guards => cases guards <;> exact same rfl
  | fill c' value =>
    simp only [step]
    split
    · exact same rfl
    · rename_i x hx
      exact (Store.blocked_setCell (by rw [Cell.eq_of_put hx])).le.trans (Nat.le_add_right _ _)
  | withdraw c' key =>
    have hcell : ((s.setCell c' ((s.cell c').withdraw (some key))).cell c).blocked = (s.cell c).blocked :=
      Store.blocked_setCell rfl
    exact hcell.le.trans (Nat.le_add_right _ _)
  | ended party outcome => cases party <;> exact same rfl
  | blocked c' timed next =>
    simp only [step]
    rcases blocked_recheck (s.cell c') (timed && choice != 0) with ⟨hnone, hcell⟩ | ⟨answer, hanswer, hcell⟩
    · rw [hnone, hcell]
      have hsame : ((s.setCell c' (s.cell c')).cell c).blocked = (s.cell c).blocked := Store.blocked_setCell rfl
      simp only [List.map_cons, List.map_nil, List.sum_cons, List.sum_nil]
      omega
    · rw [hanswer]
      have hless := Store.blocked_setCell_sub (s := s) (d := c) hcell
      simpa [blockedOn] using hless
  | spawn p job phase next =>
    cases phase <;> simp only [step, stepSpawn] <;> split <;> (try split) <;> exact same rfl
  | wake party =>
    cases party with
    | outside => exact same rfl
    | task p t => simp only [step, stepWake]; split <;> (try split) <;> exact same rfl
  | exchange p t seen target => simp only [step, stepExchange]; split <;> (try split) <;> exact same rfl
  | reschedule p t => simp only [step, stepReschedule]; split <;> exact same rfl
  | task p t phase => exact same (stepTask_cells_shelf start worker s p t phase).1
  | work seek =>
    rcases worker with _ | ⟨p, w⟩
    · exact same rfl
    · rcases stepWork_pools choice s p w seek with heq | ⟨g, heq, -⟩ <;> rw [step, heq] <;> exact same rfl
  | shutdown p phase => exact same (stepShutdown_cells_shelf choice s p phase).1
  | _ => exact same rfl

end Frame

namespace Machine

variable {start : J → Except RuntimeError (Body V J)} {m : Machine V J} {p : PoolId} {t : TaskId} {c : CellId}
  {k : CellId × Nat}

theorem Arrival.frameSum_le {m' : Machine V J} {g : Option (PoolId × Nat) → Frame V J → Nat} (h : Arrival m m')
    (hg : ∀ worker, g worker (.work .loop) = 0) : m.frameSum g ≤ m'.frameSum g := by
  cases h with
  | nobody => exact le_rfl
  | workers config => rw [frameSum_addPool hg]
  | @outsider s frames =>
    rw [frameSum_spawnThread]
    exact Nat.le_add_right (m.frameSum g) _

/-- A cell counts no more blocked readers than there are threads blocked on it. -/
def Blocking (m : Machine V J) : Prop := ∀ c, (m.store.cell c).blocked ≤ m.frameSum fun _ f => f.blockedOn c

theorem Blocking.after (h : m.Blocking) (mv : Move V J) : (m.after start mv).Blocking := by
  intro c
  rcases after_cases start m mv with ⟨harrival, hcells⟩ | ⟨i, choice, worker, f, rest, hi, -, heq⟩
  · rw [Store.cell, hcells]
    exact (h c).trans (harrival.frameSum_le fun _ => rfl)
  · rw [heq]
    obtain ⟨others, hbefore, hafter⟩ := frameSum_set (fun _ => Frame.blockedOn c) hi
    have hc : (m.store.cell c).blocked ≤ f.blockedOn c + others := hbefore ▸ h c
    have hstep := Frame.blocked_step c start worker choice m.store f
    refine hstep.trans ?_
    rw [hafter]
    omega

/-- If a task that has ended is put away, a shutdown is about to drop what it still had to do. -/
def Discarding (m : Machine V J) : Prop :=
  ∀ p t y, m.store.task? p t = some y → y.stage.IsStarted → y.state.isTerminal = true →
    m.Pending (· = .task p t .discard)

theorem Discarding.after (hm : m.Scheduled) (htidy : m.Tidy) (h : m.Discarding) (mv : Move V J) :
    (m.after start mv).Discarding := by
  rcases after_cases start m mv with ⟨harrival, -⟩ | ⟨i, choice, worker, f, rest, hi, -, heq⟩
  · intro p t y hy hstarted hend
    rw [harrival.task?] at hy
    exact harrival.pending (h p t y hy hstarted hend)
  · rw [heq]
    intro p t y hy hstarted hend
    have hmem : f ∈ f :: rest := List.mem_cons_self ..
    have hok := hm.framed.frames i _ hi f hmem
    cases hx : m.store.task? p t with
    | none =>
      obtain ⟨⟨job, rfl⟩, -⟩ := hm.made_step hi hx hy
      exact hstarted.elim
    | some x =>
      rw [Frame.task?_step _ _ _ _ hx] at hy
      cases hy
      -- a body that is put away belongs to a task that has not ended
      have hunended : f.Works p t → x.state.isTerminal = false := fun hw => by
        obtain ⟨z, hz, hstate⟩ := htidy.unended i _ hi f hmem p t hw
        rw [hx] at hz
        cases hz
        exact hstate
      rcases Frame.isStarted_of_alter hstarted with ⟨hbefore, hdiscard⟩ | ⟨r, rfl, hparty⟩
      · cases hstate : x.state.isTerminal with
        | true => exact ((h p t x hx hbefore hstate).set hi).resolve_left hdiscard
        | false =>
          rcases Frame.eq_of_isTerminal_alter hok hstate hend with ⟨outcome, rfl⟩ | rfl
          · have hheld : .ending outcome ∈ m.holds p t := by
              obtain ⟨others, hholds, -⟩ := holds_set hi p t
              simp [hholds, Frame.holds]
            have hconsumed := (hm.sound p t).body x hx _ hheld trivial
            exact absurd hconsumed hbefore.ne_consumed
          · exact .of_mem hi (List.mem_singleton_self _) rfl
      · have hstate := hunended (.inl hparty)
        simp [Frame.alter, hparty, hstate] at hend

/-- Every waker of a task is minded by the task or by a thread. -/
def AllMinded (m : Machine V J) : Prop :=
  ∀ k p t, m.store.Enters k (.task p t) → m.store.Stages p t k ∨ m.Pending (Frame.Minds k (.task p t))

theorem AllMinded.after (hm : m.Scheduled) (h : m.AllMinded) (mv : Move V J) : (m.after start mv).AllMinded := by
  rcases after_cases start m mv with ⟨harrival, hcells⟩ | ⟨i, choice, worker, f, rest, hi, -, heq⟩
  · intro k p t henters
    have hbefore : m.store.Enters k (.task p t) := by rwa [Store.Enters, Store.cell, hcells] at henters
    rcases h k p t hbefore with ⟨y, hy, hk⟩ | hpending
    · exact .inl ⟨y, by rw [harrival.task?, hy], hk⟩
    · exact .inr (harrival.pending hpending)
  · intro k p t henters
    have hmem : f ∈ f :: rest := List.mem_cons_self ..
    have hset : m.Pending (Frame.Minds k (.task p t)) → f.Minds k (.task p t) ∨
        (m.after start mv).Pending (Frame.Minds k (.task p t)) := fun hP => by
      rw [heq]
      exact hP.set hi
    have hnew : (∃ g ∈ (f.step start worker choice m.store).2, g.Minds k (.task p t)) →
        (m.after start mv).Pending (Frame.Minds k (.task p t)) := by
      rintro ⟨g, hg, hP⟩
      rw [heq]
      exact .of_mem hi hg hP
    have henters' : (f.step start worker choice m.store).1.Enters k (.task p t) := by rwa [heq] at henters
    rcases Frame.enters_step henters' with ⟨r, rfl, -, hg⟩ | ⟨hbefore, hminded⟩
    · exact .inr (hnew hg)
    · rcases h k p t hbefore with ⟨x, hx, hk⟩ | hpending
      · have hafter := Frame.task?_step start worker choice f hx
        rcases Frame.held_of_alter hk with hkeep | hf | hf | ⟨r, hf, hparty⟩
        · exact .inl ⟨_, by rw [heq]; exact hafter, hkeep⟩
        all_goals subst hf
        · exact .inr (hnew (minds_of_enter worker hx hk))
        · exact .inr (hnew (Frame.minds_of_discard start worker hx hk))
        · have hheld : .pausing r ∈ m.holds p t := by
            obtain ⟨others, hholds, -⟩ := holds_set hi p t
            simp [hholds, Frame.holds, hparty]
          rw [(hm.sound p t).body x hx _ hheld trivial] at hk
          cases hk
      · rcases hset hpending with hf | hpending
        · rcases hminded hf with hg | ⟨r, rfl⟩
          · exact .inr (hnew hg)
          · obtain ⟨hparty, hk⟩ := hf
            obtain ⟨x, hx⟩ := hm.made hi (p := p) t (by simp [Frame.holds, hparty])
            refine .inl ?_
            rw [heq]
            exact stages_of_pause hx hparty hk
        · exact .inr hpending

end Machine

namespace Frame

variable {p : PoolId} {t : TaskId} {f : Frame V J}

end Frame

namespace Machine

variable {start : J → Except RuntimeError (Body V J)} {m : Machine V J} {p : PoolId} {t : TaskId}

end Machine
end Dataflow
