import Dataflow.Proofs.Bookings
import Dataflow.Proofs.Registrations

/-!
# Who answers for a registration

`Registrations` goes from those who wait to the cells. This module goes back: every waker that a cell has for a
task of a pool that is still open is minded by someone who will take it out, either the task itself, while it is
put away with the key, or a worker of its pool, which has the key in a body or is about to withdraw it
(`Machine.Minded`). So a pool without bodies in hand has no registrations but those of its parked tasks.
-/

namespace Dataflow

variable {V J : Type}

namespace Cell

variable {W : Type} {x : Cell V W} {key key' : Nat} {waker waker' : W}

theorem mem_wakers_withdraw (h : (key, waker) ∈ (x.withdraw (some key')).wakers) :
    (key, waker) ∈ x.wakers ∧ key ≠ key' := by
  obtain ⟨hmem, hkey⟩ := List.mem_filter.1 h
  exact ⟨hmem, by simpa using hkey⟩

/-- A registration adds no waker but its own. -/
theorem mem_wakers_register {own : Option Nat} (h : (key, waker) ∈ (x.register waker' own).1.wakers) :
    (key, waker) ∈ x.wakers ∨ (key = (x.register waker' own).2 ∧ waker = waker') := by
  cases own with
  | none =>
    rcases List.mem_append.1 h with h | h
    · exact .inl h
    · exact .inr (Prod.mk.inj (List.mem_singleton.1 h))
  | some k =>
    simp only [register] at h ⊢
    split at h
    · rename_i hany
      rw [if_pos hany]
      obtain ⟨entry, hentry, heq⟩ := List.mem_map.1 h
      split at heq
      · exact .inr (by simpa [eq_comm] using heq)
      · exact .inl (heq ▸ hentry)
    · rename_i hany
      rw [if_neg hany]
      rcases List.mem_append.1 h with h | h
      · exact .inl h
      · exact .inr (by simpa using h)

end Cell

namespace Store

variable {s s' : Store V J} {c : CellId} {k : CellId × Nat} {party : Party}

/-- The cell has a waker for the party under the key. -/
def Enters (s : Store V J) (k : CellId × Nat) (party : Party) : Prop := (k.2, party) ∈ (s.cell k.1).wakers

theorem enters_iff_of_sameWakers (h : s.SameWakers s') : s'.Enters k party ↔ s.Enters k party := by
  rw [Enters, Enters, (h k.1).1]

theorem enters_setCell {x : Cell V Party} (h : (s.setCell c x).Enters k party) :
    s.Enters k party ∧ k.1 ≠ c ∨ k.1 = c ∧ (k.2, party) ∈ x.wakers := by
  rw [Enters, cell_setCell] at h
  split at h
  · rename_i hc
    exact .inr ⟨hc.1.symm, h⟩
  · rename_i hc
    refine .inl ⟨h, fun heq => ?_⟩
    have hout : ¬ c < s.cells.size := fun hlt => hc ⟨heq.symm, hlt⟩
    rw [heq, cell, Array.getElem?_eq_none (Nat.le_of_not_lt hout)] at h
    cases h

theorem enters_withdraw {key : Nat} (h : (s.setCell c ((s.cell c).withdraw (some key))).Enters k party) :
    s.Enters k party ∧ k ≠ (c, key) := by
  rcases enters_setCell h with ⟨h, hc⟩ | ⟨rfl, h⟩
  · exact ⟨h, fun heq => hc (congrArg Prod.fst heq)⟩
  · obtain ⟨hmem, hkey⟩ := Cell.mem_wakers_withdraw h
    exact ⟨hmem, fun heq => hkey (congrArg Prod.snd heq)⟩

end Store

namespace Frame

/-- The frame answers for a registration: its body has the key, or it is about to withdraw it. -/
def Minds (k : CellId × Nat) (party : Party) : Frame V J → Prop
  | .run r | .pause r => r.party = party ∧ k ∈ r.body.held
  | .withdraw c key => (c, key) = k
  | _ => False

variable {s s' : Store V J} {k : CellId × Nat} {party party' : Party} {worker : Option (PoolId × Nat)}

/-- A read that was polled has the key of a waker that it entered, and of any waker that it did not take out. -/
theorem enters_pollWait {w : Wait V} (h : (pollWait s party w).2.Enters k party') :
    (k ∈ (pollWait s party w).1.held ∧ party' = party) ∨
      s.Enters k party' ∧ (k ∈ w.held → k ∈ (pollWait s party w).1.held) := by
  cases w with
  | answered answer => exact .inr ⟨h, id⟩
  | «open» c key =>
    have answered : ∀ answer, (s.setCell c ((s.cell c).withdraw key)).Enters k party' →
        (k ∈ (Wait.answered answer : Wait V).held ∧ party' = party) ∨
          s.Enters k party' ∧ (k ∈ (Wait.open c key : Wait V).held → k ∈ (Wait.answered answer : Wait V).held) := by
      intro answer h
      cases key with
      | none =>
        refine .inr ⟨?_, fun hk => nomatch hk⟩
        rcases Store.enters_setCell h with ⟨h, -⟩ | ⟨hc, h⟩
        · exact h
        · rwa [Store.Enters, hc]
      | some key =>
        obtain ⟨hbefore, hne⟩ := Store.enters_withdraw h
        exact .inr ⟨hbefore, fun hk => absurd (List.mem_singleton.1 hk) hne⟩
    simp only [pollWait, Cell.poll] at h ⊢
    cases hpayload : (s.cell c).payload with
    | full value =>
      rw [hpayload] at h
      exact answered _ h
    | destroyed =>
      rw [hpayload] at h
      exact answered _ h
    | empty =>
      rw [hpayload] at h
      have hheld : k ∈ (Wait.open c key : Wait V).held →
          k ∈ (Wait.open c (some ((s.cell c).register party key).2) : Wait V).held := by
        cases key with
        | none => exact nofun
        | some key =>
          intro hk
          have hsame : ((s.cell c).register party (some key)).2 = key := by
            simp only [Cell.register]
            split <;> rfl
          rwa [hsame]
      rcases Store.enters_setCell h with ⟨h, -⟩ | ⟨hc, h⟩
      · exact .inr ⟨h, hheld⟩
      · rcases Cell.mem_wakers_register h with h | ⟨hkey, hparty⟩
        · exact .inr ⟨by rwa [Store.Enters, hc], hheld⟩
        · exact .inl ⟨List.mem_singleton.2 (Prod.ext hc hkey), hparty⟩

theorem held_get (c : CellId) (key : Option Nat) (next : Except RuntimeError V → Body V J) :
    (Body.get c key next).held = (Wait.open c key : Wait V).held := by
  cases key <;> rfl

/-- Whoever loses one of two reads withdraws it. -/
theorem exists_minds_of_withdraw {c : CellId} {key : Option Nat} {rest : List (Frame V J)}
    (hk : k ∈ (Wait.open c key : Wait V).held) :
    ∃ g ∈ (key.toList.map fun key => withdraw c key) ++ rest, g.Minds k party := by
  cases key with
  | none => cases hk
  | some key => exact ⟨.withdraw c key, by simp, (List.mem_singleton.1 hk).symm⟩

/-- A body that enters a waker has the key, and keeps it, or goes on to withdraw it, until the waker is out. -/
theorem enters_stepRun {r : Run V J} (h : (stepRun worker s r).1.Enters k party) :
    (r.party = party ∧ ∃ g ∈ (stepRun worker s r).2, g.Minds k party) ∨
      s.Enters k party ∧ ((run r).Minds k party → ∃ g ∈ (stepRun worker s r).2, g.Minds k party) := by
  obtain ⟨own, guards, body⟩ := r
  -- what a poll of one read says of the frames that follow it
  have polled : ∀ {w w' : Wait V} {s' : Store V J} {fs : List (Frame V J)}, pollWait s own w = (w', s') →
      s'.Enters k party → (own = party → k ∈ w'.held → ∃ g ∈ fs, g.Minds k party) →
      (own = party → (k ∈ w.held → k ∈ w'.held) → k ∈ body.held → ∃ g ∈ fs, g.Minds k party) →
      (own = party ∧ ∃ g ∈ fs, g.Minds k party) ∨
        s.Enters k party ∧ ((run ⟨own, guards, body⟩).Minds k party → ∃ g ∈ fs, g.Minds k party) := by
    intro w w' s' fs hp hs' hafter hbefore
    have hpoll : (pollWait s own w).2.Enters k party := by rwa [hp]
    rcases enters_pollWait hpoll with ⟨hheld, rfl⟩ | ⟨hs, hkept⟩
    · rw [hp] at hheld
      exact .inl ⟨rfl, hafter rfl hheld⟩
    · rw [hp] at hkept
      exact .inr ⟨hs, fun hminds => hbefore hminds.1 hkept hminds.2⟩
  cases body with
  | get c key next =>
    rw [held_get] at polled
    rcases hp : pollWait s own (.open c key) with ⟨⟨c', key'⟩ | answer, s'⟩ <;> simp only [stepRun, hp] at h ⊢
    · have hpause : own = party → k ∈ (Wait.open c' key' : Wait V).held →
          ∃ g ∈ [(pause ⟨own, guards, .get c' key' next⟩ : Frame V J)], g.Minds k party := fun hown hk =>
        ⟨_, List.mem_singleton_self _, hown, by rwa [held_get]⟩
      exact polled hp h hpause fun hown hkept hk => hpause hown (hkept hk)
    · exact polled hp h (fun _ hk => absurd hk List.not_mem_nil) fun _ hkept hk => absurd (hkept hk) List.not_mem_nil
  | join a b second next =>
    cases second with
    | false =>
      rcases hp : pollWait s own a with ⟨a', s'⟩
      simp only [stepRun, hp] at h ⊢
      have hrun : own = party → k ∈ a'.held ++ b.held →
          ∃ g ∈ [(run ⟨own, guards, .join a' b true next⟩ : Frame V J)], g.Minds k party := fun hown hk =>
        ⟨_, List.mem_singleton_self _, hown, hk⟩
      refine polled hp h (fun hown hk => hrun hown (List.mem_append_left _ hk)) fun hown hkept hk => hrun hown ?_
      exact (List.mem_append.1 hk).elim (fun hk => List.mem_append_left _ (hkept hk)) (List.mem_append_right _)
    | true =>
      rcases hp : pollWait s own b with ⟨b', s'⟩
      have hpause : ∀ g : Frame V J, (g = .pause ⟨own, guards, .join a b' false next⟩) → own = party →
          k ∈ a.held ++ b'.held → g.Minds k party := by
        rintro g rfl hown hk
        exact ⟨hown, hk⟩
      have hkeep : (k ∈ b.held → k ∈ b'.held) → k ∈ a.held ++ b.held → k ∈ a.held ++ b'.held := fun hkept hk =>
        (List.mem_append.1 hk).elim (List.mem_append_left _) fun hk => List.mem_append_right _ (hkept hk)
      cases a with
      | answered x =>
        cases b' with
        | answered y =>
          simp only [stepRun, hp] at h ⊢
          exact polled hp h (fun _ hk => absurd hk List.not_mem_nil) fun _ hkept hk => absurd (hkept hk) List.not_mem_nil
        | «open» c key =>
          simp only [stepRun, hp] at h ⊢
          exact polled hp h (fun hown hk => ⟨_, List.mem_singleton_self _, hpause _ rfl hown (List.mem_append_right _ hk)⟩)
            fun hown hkept hk => ⟨_, List.mem_singleton_self _, hpause _ rfl hown (hkeep hkept hk)⟩
      | «open» c key =>
        simp only [stepRun, hp] at h ⊢
        exact polled hp h (fun hown hk => ⟨_, List.mem_singleton_self _, hpause _ rfl hown (List.mem_append_right _ hk)⟩)
          fun hown hkept hk => ⟨_, List.mem_singleton_self _, hpause _ rfl hown (hkeep hkept hk)⟩
  | select a b second next =>
    obtain ⟨a, ka⟩ := a
    obtain ⟨b, kb⟩ := b
    cases second with
    | false =>
      rcases hp : pollWait s own (.open a ka) with ⟨⟨a', ka'⟩ | answer, s'⟩ <;> simp only [stepRun, hp] at h ⊢
      · have hrun : own = party → k ∈ (Wait.open a' ka' : Wait V).held ++ (Wait.open b kb : Wait V).held →
            ∃ g ∈ [(run ⟨own, guards, .select (a', ka') (b, kb) true next⟩ : Frame V J)], g.Minds k party :=
          fun hown hk => ⟨_, List.mem_singleton_self _, hown, hk⟩
        refine polled hp h (fun hown hk => hrun hown (List.mem_append_left _ hk)) fun hown hkept hk => hrun hown ?_
        exact (List.mem_append.1 hk).elim (fun hk => List.mem_append_left _ (hkept hk)) (List.mem_append_right _)
      · refine polled hp h (fun _ hk => absurd hk List.not_mem_nil) fun _ hkept hk => ?_
        exact (List.mem_append.1 hk).elim (fun hk => absurd (hkept hk) List.not_mem_nil) exists_minds_of_withdraw
    | true =>
      rcases hp : pollWait s own (.open b kb) with ⟨⟨b', kb'⟩ | answer, s'⟩ <;> simp only [stepRun, hp] at h ⊢
      · have hpause : own = party → k ∈ (Wait.open a ka : Wait V).held ++ (Wait.open b' kb' : Wait V).held →
            ∃ g ∈ [(pause ⟨own, guards, .select (a, ka) (b', kb') false next⟩ : Frame V J)], g.Minds k party :=
          fun hown hk => ⟨_, List.mem_singleton_self _, hown, hk⟩
        refine polled hp h (fun hown hk => hpause hown (List.mem_append_right _ hk)) fun hown hkept hk => hpause hown ?_
        exact (List.mem_append.1 hk).elim (List.mem_append_left _) fun hk => List.mem_append_right _ (hkept hk)
      · refine polled hp h (fun _ hk => absurd hk List.not_mem_nil) fun _ hkept hk => ?_
        exact (List.mem_append.1 hk).elim exists_minds_of_withdraw fun hk => absurd (hkept hk) List.not_mem_nil
  | _ =>
    refine .inr ⟨(Store.enters_iff_of_sameWakers ?_).1 h, fun hminds => absurd hminds.2 List.not_mem_nil⟩
    exact sameWakers_stepRun worker s id

variable {start : J → Except RuntimeError (Body V J)} {choice : Nat}

/-- Apart from reads and withdrawals, nothing touches a registration. -/
theorem sameWakers_step {f : Frame V J} (hrun : ∀ r, f ≠ .run r) (hwithdraw : ∀ c key, f ≠ .withdraw c key) :
    s.SameWakers (f.step start worker choice s).1 := by
  have same : ∀ {s' : Store V J}, s'.cells = s.cells → s.SameWakers s' := .of_cells_eq
  cases f with
  | run r => exact absurd rfl (hrun r)
  | withdraw c key => exact absurd rfl (hwithdraw c key)
  | pause r => simp only [step, stepPause]; split <;> exact same rfl
  | drop guards => cases guards <;> exact same rfl
  | fill c value =>
    simp only [step]
    split
    · exact same rfl
    · rename_i x hx
      refine .setCell ?_
      rw [Cell.eq_of_put hx]
      exact ⟨rfl, rfl⟩
  | ended party outcome => cases party <;> exact same rfl
  | blocked c timed next =>
    have hcell : ((s.cell c).recheck (timed && choice != 0)).2.wakers = (s.cell c).wakers ∧
        ((s.cell c).recheck (timed && choice != 0)).2.nextKey = (s.cell c).nextKey := by
      unfold Cell.recheck
      split <;> (try split) <;> exact ⟨rfl, rfl⟩
    simp only [step]
    split <;> exact .setCell hcell
  | spawn p job phase next =>
    cases phase <;> simp only [step, stepSpawn] <;> repeat' split
    all_goals exact same rfl
  | wake party =>
    cases party <;> simp only [step, stepWake] <;> repeat' split
    all_goals exact same rfl
  | exchange p t seen target =>
    simp only [step, stepExchange]
    repeat' split
    all_goals exact same rfl
  | reschedule p t => simp only [step, stepReschedule]; split <;> exact same rfl
  | task p t phase => exact same (stepTask_cells_shelf start worker s p t phase).1
  | work seek =>
    rcases worker with _ | ⟨p, w⟩
    · exact same rfl
    · rcases stepWork_pools choice s p w seek with heq | ⟨g, heq, -⟩ <;> rw [step, heq] <;> exact same rfl
  | shutdown p phase => exact same (stepShutdown_cells_shelf choice s p phase).1
  | _ => exact same rfl

/-- A waker that is there after a step was there before or is entered by a body, which has the key then. A frame
that minded it goes on minding it, or puts its body away. -/
theorem enters_step {f : Frame V J} (h : (f.step start worker choice s).1.Enters k party) :
    (∃ r, f = .run r ∧ r.party = party ∧ ∃ g ∈ (f.step start worker choice s).2, g.Minds k party) ∨
      s.Enters k party ∧ (f.Minds k party → (∃ g ∈ (f.step start worker choice s).2, g.Minds k party) ∨
        ∃ r, f = .pause r) := by
  cases f with
  | run r =>
    rcases enters_stepRun h with ⟨hparty, hg⟩ | ⟨hs, hg⟩
    · exact .inl ⟨r, rfl, hparty, hg⟩
    · exact .inr ⟨hs, fun hminds => .inl (hg hminds)⟩
  | withdraw c key =>
    obtain ⟨hs, hne⟩ := Store.enters_withdraw h
    exact .inr ⟨hs, fun hminds => absurd hminds.symm hne⟩
  | pause r =>
    refine .inr ⟨(Store.enters_iff_of_sameWakers ?_).1 h, fun _ => .inr ⟨r, rfl⟩⟩
    exact sameWakers_step nofun nofun
  | _ =>
    refine .inr ⟨(Store.enters_iff_of_sameWakers ?_).1 h, False.elim⟩
    exact sameWakers_step nofun nofun

end Frame

/-- A stage keeps its keys until it is entered, or replaced by a body that is put away. -/
theorem Change.held_stage {start : J → Except RuntimeError (Body V J)} {p : PoolId} {t : TaskId} {s : Store V J}
    {f : Frame V J} {x y : Option (Task V J)} {d e : Multiset (Hold V J)} (hc : Change start p t s f x d y e)
    (hp : s.Running p) {z : Task V J} (hx : x = some z) {k : CellId × Nat} (hk : k ∈ z.stage.held) :
    (∃ z', y = some z' ∧ k ∈ z'.stage.held) ∨ f = .task p t .enter ∨ ∃ r, .pausing r ∈ d := by
  cases hc with
  | stay | answer | run | handBack | lose => exact .inl ⟨z, hx, hk⟩
  | spawn => cases hx
  | enter => exact .inr (.inl rfl)
  | pause => exact .inr (.inr ⟨_, Multiset.mem_singleton_self _⟩)
  | close hclosed => exact absurd hp hclosed
  | _ =>
    cases hx
    exact .inl ⟨_, rfl, hk⟩

/-- The task is put away with the key. -/
def Store.Stages (s : Store V J) (p : PoolId) (t : TaskId) (k : CellId × Nat) : Prop :=
  ∃ y, s.task? p t = some y ∧ k ∈ y.stage.held

namespace Machine

variable {start : J → Except RuntimeError (Body V J)} {m : Machine V J}

/-- A worker of the pool minds the waker of the task. -/
def WorkerMinds (m : Machine V J) (p : PoolId) (t : TaskId) (k : CellId × Nat) : Prop :=
  ∃ (i : Nat) (w : Nat) (stack : List (Frame V J)), m.threads[i]? = some ⟨some (p, w), stack⟩ ∧
    ∃ f ∈ stack, f.Minds k (.task p t)

/-- Every waker of a task whose pool is still open is minded by the task or by a worker of the pool. -/
def Minded (m : Machine V J) : Prop :=
  ∀ p, ¬ m.store.Closed p → ∀ k t, m.store.Enters k (.task p t) → m.store.Stages p t k ∨ m.WorkerMinds p t k

theorem Minded.initial (n : Nat) : (withCells n : Machine V J).Minded := by
  intro p _ k t h
  have hempty : ((withCells n : Machine V J).store.cell k.1).wakers = [] := by
    simp only [withCells, Store.cell, Array.getElem?_replicate]
    split <;> rfl
  rw [Store.Enters, hempty] at h
  cases h

/-- A task that is entered brings its keys along. -/
theorem minds_of_enter (worker : Option (PoolId × Nat)) {s : Store V J} {p : PoolId} {t : TaskId} {y : Task V J}
    {k : CellId × Nat} (hy : s.task? p t = some y) (hk : k ∈ y.stage.held) :
    ∃ g ∈ (Frame.stepTask start worker s p t .enter).2, g.Minds k (.task p t) := by
  cases hstage : y.stage with
  | unclaimed job | consumed => simp [hstage, Stage.held] at hk
  | started guards body =>
    rw [hstage] at hk
    simp only [Frame.stepTask, hy, hstage]
    exact ⟨_, List.mem_singleton_self _, rfl, hk⟩

/-- A task that is put away keeps its keys. -/
theorem stages_of_pause {s : Store V J} {p : PoolId} {t : TaskId} {y : Task V J} {r : Run V J} {k : CellId × Nat}
    (hy : s.task? p t = some y) (hparty : r.party = .task p t) (hk : k ∈ r.body.held) :
    (Frame.stepPause s r).1.Stages p t k := by
  have hstage : (s.setStage p t (.started r.guards r.body)).task? p t =
      some { y with stage := .started r.guards r.body } := by
    rw [Store.setStage, Store.task?_modifyTask_self, hy]
    rfl
  refine ⟨{ y with stage := .started r.guards r.body }, ?_, hk⟩
  simp only [Frame.stepPause, hparty]
  rw [← hstage]
  exact Store.task?_modifyPool (g := fun pool => { pool with stats := pool.stats.endPoll }) fun _ => rfl

theorem Minded.after (hm : m.Scheduled) (h : m.Minded) (mv : Move V J) : (m.after start mv).Minded := by
  intro p hclosed k t henters
  have hp : ¬ m.store.Closed p := fun hc => hclosed (hc.mono (m.after_keeps start mv))
  -- other moves than steps leave the cells, the tasks and the stacks of workers alone
  have kept : ∀ m' : Machine V J, m.store.Enters k (.task p t) → m'.store.task? p t = m.store.task? p t →
      (∀ (i : Nat) th, m.threads[i]? = some th → m'.threads[i]? = some th) →
      m'.store.Stages p t k ∨ m'.WorkerMinds p t k := by
    intro m' hbefore htask hthreads
    rcases h p hp k t hbefore with ⟨y, hy, hk⟩ | ⟨i, w, stack, hi, hf⟩
    · exact .inl ⟨y, by rw [htask, hy], hk⟩
    · exact .inr ⟨i, w, stack, hthreads i _ hi, hf⟩
  have spawned : ∀ {s : Store V J} {frames : List (Frame V J)} (i : Nat) th, m.threads[i]? = some th →
      (spawnThread ⟨s, m.threads⟩ frames).threads[i]? = some th := by
    intro s frames i th hi
    have hlt := (Array.getElem?_eq_some_iff.1 hi).1
    simpa [spawnThread, Array.getElem?_push, Nat.ne_of_lt hlt] using hi
  cases mv with
  | step i choice =>
    have hchange := m.change start hm.framed (p := p) (t := t) (fun hnone => (hm.sound p t).made hnone) (.step i choice)
    rcases m.after_step start i choice with ⟨heq, -⟩ | ⟨worker, f, rest, hi, -, -, htaken, heq⟩
    · rw [heq] at henters ⊢
      exact h p hp k t henters
    · rw [heq] at henters hchange ⊢
      have hok := hm.framed.frames i _ hi f (List.mem_cons_self ..)
      have onThread : ∀ {w}, worker = some (p, w) → ∀ g ∈ (f.step start worker choice m.store).2 ++ rest,
          g.Minds k (.task p t) →
          WorkerMinds ⟨(f.step start worker choice m.store).1, m.threads.setIfInBounds i
            ⟨worker, (f.step start worker choice m.store).2 ++ rest⟩⟩ p t k := by
        rintro w rfl g hg hminds
        exact ⟨i, w, _, getElem?_setIfInBounds_self hi, g, hg, hminds⟩
      rcases Frame.enters_step henters with ⟨r, rfl, hparty, g, hg, hminds⟩ | ⟨hbefore, hminded⟩
      · have hon : r.party.On worker := hok
        rw [hparty] at hon
        obtain ⟨w, hw⟩ := hon
        exact .inr (onThread hw g (List.mem_append_left _ hg) hminds)
      · rcases h p hp k t hbefore with ⟨y, hy, hk⟩ | ⟨j, w, stack, hj, g, hg, hminds⟩
        · obtain ⟨pool, hpool, -⟩ := Store.exists_pool_of_task? hy
          have hrunning := Store.running_of_not_closed hp hpool
          rcases hchange with ⟨hnone, -⟩ | ⟨_, _, f', d, e, others, htaken', hd, -, hc⟩
          · rw [htaken] at hnone
            cases hnone
          · rw [htaken] at htaken'
            cases htaken'
            rcases hc.held_stage hrunning hy hk with ⟨z, hz, hkz⟩ | rfl | ⟨r, hr⟩
            · exact .inl ⟨z, hz, hkz⟩
            · obtain ⟨w, hw⟩ := hok
              obtain ⟨g, hg, hminds⟩ := minds_of_enter worker hy hk
              exact .inr (onThread hw g (List.mem_append_left _ hg) hminds)
            · have hbody := (hm.sound p t).body y hy (.pausing r) (by rw [hd]; exact Multiset.mem_add.2 (.inl hr)) trivial
              rw [hbody] at hk
              cases hk
        · by_cases hij : i = j
          · subst hij
            rw [hi] at hj
            cases hj
            rcases List.mem_cons.1 hg with rfl | hg
            · rcases hminded hminds with ⟨g', hg', hminds'⟩ | ⟨r, rfl⟩
              · exact .inr (onThread rfl g' (List.mem_append_left _ hg') hminds')
              · obtain ⟨hparty, hk⟩ := hminds
                obtain ⟨y, hy⟩ := hm.made hi (p := p) t (by simp [Frame.holds, hparty])
                exact .inl (stages_of_pause hy hparty hk)
            · exact .inr (onThread rfl g (List.mem_append_right _ hg) hminds)
          · refine .inr ⟨j, w, stack, ?_, g, hg, hminds⟩
            rw [Array.getElem?_setIfInBounds_ne hij]
            exact hj
  | startPool config =>
    rcases m.after_startPool start config with heq | heq
    · rw [heq] at henters ⊢
      exact h p hp k t henters
    · rw [heq] at henters ⊢
      refine kept _ henters (task?_addPool m config) fun i th hi => ?_
      have hlt := (Array.getElem?_eq_some_iff.1 hi).1
      rw [addPool, Array.getElem?_append_left hlt]
      exact hi
  | enter body => exact kept _ henters rfl spawned
  | poll | discard =>
    simp only [Machine.after] at henters ⊢
    split at henters
    · exact kept _ henters rfl spawned
    · exact h p hp k t henters

theorem minded_run (start : J → Except RuntimeError (Body V J)) (mvs : List (Move V J)) :
    (({} : Machine V J).run start mvs).Minded :=
  (run_induction start (P := fun m => m.Scheduled ∧ m.Minded) (fun _ mv ⟨hm, h⟩ => ⟨hm.after mv, h.after hm mv⟩)
    ⟨.initial 0, .initial 0⟩ mvs).2

end Machine
end Dataflow
