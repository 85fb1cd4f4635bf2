import Dataflow.Proofs.Changes

/-!
# How a task is held

While its pool is running, a task is held by exactly one place and in a way that fits its state and its
stage, or it rests: parked with a stage to go on with, or finished (`Exact`). Of a pool that is being shut
down less is known (`Sound`), as its queues are emptied and its tasks released.

Both are checked against the list of changes, and hold of all tasks in every machine that can be reached
(`Machine.scheduled_run`).
-/

namespace Dataflow

variable {V J : Type}

/-- The task was claimed before and has something left to do. -/
def Stage.IsStarted : Stage V J → Prop
  | .started _ _ => True
  | _ => False

theorem Stage.IsStarted.ne_consumed {stage : Stage V J} (h : stage.IsStarted) : stage ≠ .consumed := by
  rintro rfl
  exact h

/-- The task is being polled. -/
def Task.IsPolled (y : Task V J) : Prop := y.state = .running ∨ y.state = .notified

/-- The task is parked, or finished. -/
def Task.Rests (y : Task V J) : Prop :=
  (y.state = .suspended ∧ y.stage.IsStarted) ∨ (y.state.isTerminal = true ∧ y.stage = .consumed)

/-- A task in this state and stage can be held so. -/
def Hold.Fits (y : Task V J) : Hold V J → Prop
  | .ready | .rescheduling => y.state = .queued ∧ y.stage ≠ .consumed
  | .claimed => y.IsPolled ∧ y.stage ≠ .consumed
  | .polling _ | .asking | .pausing _ | .ending _ => y.IsPolled ∧ y.stage = .consumed
  | .parking => y.IsPolled ∧ y.stage.IsStarted
  | .requeue => y.state = .notified ∧ y.stage.IsStarted

theorem Hold.Fits.state {y : Task V J} {k : Hold V J} (h : k.Fits y) : y.state = .queued ∨ y.IsPolled := by
  cases k with
  | ready | rescheduling => exact .inl h.1
  | requeue => exact .inr (.inr h.1)
  | _ => exact .inr h.1

/-- A wake call during the poll changes nothing but the mark. -/
theorem Hold.Fits.notify {y : Task V J} {k : Hold V J} (h : k.Fits y) (hy : y.state = .running) :
    k.Fits { y with state := .notified } := by
  cases k with
  | ready | rescheduling => rw [Fits, hy] at h; cases h.1
  | requeue => rw [Fits, hy] at h; cases h.1
  | _ => exact ⟨.inr rfl, h.2⟩

/-- What is being polled has neither parked nor ended. -/
theorem Task.IsPolled.not_rested {y : Task V J} (h : y.IsPolled) :
    ¬ (y.state = .suspended ∨ y.state.isTerminal = true) := by
  rcases h with h | h <;> rw [h] <;> simp [TaskState.isTerminal]

theorem Hold.HasBody.fits_iff {k : Hold V J} (hk : k.HasBody) (y : Task V J) :
    k.Fits y ↔ y.IsPolled ∧ y.stage = .consumed := by
  cases k <;> first | exact Iff.rfl | exact hk.elim

/-- What is known of a task whether or not its pool is running. -/
structure Sound (x : Option (Task V J)) (T : Multiset (Hold V J)) : Prop where
  /-- Only tasks that were made are held. -/
  made : x = none → T = 0
  /-- By one place at most. -/
  once : Multiset.card T ≤ 1
  /-- A parked task by none. -/
  parked : ∀ y, x = some y → y.state = .suspended → T = 0
  /-- Whoever has the body has taken it out of the stage. -/
  body : ∀ y, x = some y → ∀ k ∈ T, k.HasBody → y.stage = .consumed

/-- What is known of a task of a running pool. -/
def Exact (x : Option (Task V J)) (T : Multiset (Hold V J)) : Prop :=
  match x with
  | none => T = 0
  | some y => (T = 0 ∧ y.Rests) ∨ ∃ k, T = {k} ∧ k.Fits y

namespace Sound

variable {x : Option (Task V J)} {y z : Task V J} {T T' : Multiset (Hold V J)} {k k' : Hold V J}

/-- Who is held is not parked. -/
theorem state_ne (h : Sound (some y) T) (hT : T ≠ 0) : y.state ≠ .suspended :=
  fun hs => hT (h.parked y rfl hs)

theorem of_le (h : Sound x T) (hT : T' ≤ T) : Sound x T' := by
  have hzero : T = 0 → T' = 0 := fun h0 => Multiset.le_zero.1 (h0 ▸ hT)
  exact ⟨fun hx => hzero (h.made hx), (Multiset.card_le_card hT).trans h.once,
    fun y hy hs => hzero (h.parked y hy hs), fun y hy k hk => h.body y hy k (Multiset.mem_of_le hT hk)⟩

/-- Nothing is known of the registry, and little of the state and the stage. -/
theorem of_task (h : Sound (some y) T) (hstate : z.state = .suspended → y.state = .suspended)
    (hstage : y.stage = .consumed → z.stage = .consumed) : Sound (some z) T := by
  refine ⟨nofun, h.once, fun w hw hs => ?_, fun w hw k hk hb => ?_⟩
  · cases hw
    exact h.parked y rfl (hstate hs)
  · cases hw
    exact hstage (h.body y rfl k hk hb)

theorem free (y : Task V J) : Sound (some y) 0 :=
  ⟨nofun, by simp, fun _ _ _ => rfl, by simp⟩

theorem single (hstate : y.state ≠ .suspended) (hbody : k.HasBody → y.stage = .consumed) :
    Sound (some y) {k} := by
  refine ⟨nofun, by simp, fun z hz hs => ?_, fun z hz k' hk' hb => ?_⟩
  · cases hz
    exact absurd hs hstate
  · cases hz
    rw [Multiset.mem_singleton] at hk'
    exact hbody (hk' ▸ hb)

theorem replace (h : Sound x {k}) (hk : k'.HasBody → k.HasBody) : Sound x {k'} := by
  cases x with
  | none => exact absurd (h.made rfl) (Multiset.singleton_ne_zero k)
  | some y =>
    exact single (h.state_ne (Multiset.singleton_ne_zero k)) fun hb => h.body y rfl k (by simp) (hk hb)

end Sound

section change

variable {start : J → Except RuntimeError (Body V J)} {p : PoolId} {t : TaskId} {s : Store V J}
  {f : Frame V J} {x y : Option (Task V J)} {d e rest : Multiset (Hold V J)}

/-- Whichever stage a worker takes, it has the body then. -/
theorem Stage.hasBody_entered (stage : Stage V J) : (stage.entered start p t).HasBody := by
  cases stage with
  | unclaimed job => simp only [entered]; split <;> trivial
  | _ => trivial

theorem eq_zero_of_card_le {k : Hold V J} (h : Multiset.card ({k} + rest) ≤ 1) : rest = 0 := by
  rw [Multiset.card_add, Multiset.card_singleton] at h
  exact Multiset.card_eq_zero.1 (by omega)

theorem Sound.change (hx : Sound x (d + rest)) (h : Change start p t s f x d y e) : Sound y (e + rest) := by
  -- a hold is all there is, so the rest goes wherever one is taken away
  have only : ∀ {k : Hold V J} {z}, Sound z ({k} + rest) → rest = 0 := fun h => eq_zero_of_card_le h.once
  cases h with
  | stay => exact hx
  | spawn hp ht =>
    rw [zero_add] at hx
    rw [hx.made rfl]
    exact single nofun nofun
  | claim hq =>
    rw [only hx]
    exact single nofun nofun
  | refuse hq | settle | park hq =>
    rw [only hx]
    exact free _
  | enter =>
    obtain rfl := only hx
    exact single (hx.state_ne (Multiset.singleton_ne_zero _)) fun _ => rfl
  | run hr hk hend hg hgk =>
    obtain rfl := only hx
    exact hx.replace fun _ => trivial
  | answer hr hf =>
    obtain rfl := only hx
    exact hx.replace fun _ => trivial
  | pause hr =>
    obtain rfl := only hx
    exact single (hx.state_ne (Multiset.singleton_ne_zero _)) nofun
  | unpark hq | handBack hp =>
    obtain rfl := only hx
    exact hx.replace nofun
  | requeue =>
    rw [only hx]
    exact single nofun nofun
  | wake hq =>
    rw [zero_add] at hx
    rw [hx.parked _ rfl hq]
    exact single nofun nofun
  | notify hq => exact hx.of_task nofun id
  | flag => exact hx.of_task id id
  | lose hp hd => exact hx.of_le (by rw [zero_add]; exact Multiset.le_add_left _ _)
  | close hp hstate hstage =>
    refine hx.of_task (fun hs => ?_) fun hc => ?_
    · rcases hstate with h | h
      · rw [← h, hs]
      · rw [hs] at h; cases h
    · rcases hstage with h | h
      · rw [h, hc]
      · exact h

theorem Exact.of_single {k : Hold V J} {z : Task V J} (h : Exact (some z) ({k} + rest)) :
    rest = 0 ∧ k.Fits z := by
  rcases h with ⟨h0, -⟩ | ⟨k', hT, hk'⟩
  · exact absurd h0 (by simp)
  · have hrest : rest = 0 := eq_zero_of_card_le (k := k) (by rw [hT]; simp)
    subst hrest
    rw [add_zero, Multiset.singleton_inj] at hT
    exact ⟨rfl, hT ▸ hk'⟩

theorem Exact.single {k : Hold V J} {z : Task V J} (h : k.Fits z) : Exact (some z) ({k} + 0) :=
  .inr ⟨k, add_zero _, h⟩

theorem Exact.rests {z : Task V J} (h : z.Rests) : Exact (some z) (0 + 0) := .inl ⟨rfl, h⟩

/-- As long as the pool is running, every change keeps this. -/
theorem Exact.change (hp : s.Running p) (hx : Exact x (d + rest)) (h : Change start p t s f x d y e) :
    Exact y (e + rest) := by
  cases h with
  | stay => exact hx
  | spawn hp ht =>
    obtain rfl : rest = 0 := by simpa [Exact] using hx
    exact .single ⟨rfl, nofun⟩
  | claim hq =>
    obtain ⟨rfl, hfit⟩ := hx.of_single
    exact .single ⟨.inl rfl, hfit.2⟩
  | refuse hq =>
    obtain ⟨rfl, hfit⟩ := hx.of_single
    exact absurd hfit.1 hq
  | enter =>
    obtain ⟨rfl, hfit⟩ := hx.of_single
    exact .single ((Stage.hasBody_entered _).fits_iff _ |>.2 ⟨hfit.1, rfl⟩)
  | @run r x k worker g hr hk hend hg hgk =>
    cases x with
    | none => exact absurd hx (by simp [Exact])
    | some z =>
      obtain ⟨rfl, hfit⟩ := hx.of_single
      exact .single ((hk.fits_iff z).2 hfit)
  | @answer f x r hr hf =>
    cases x with
    | none => exact absurd hx (by simp [Exact])
    | some z =>
      obtain ⟨rfl, hfit⟩ := hx.of_single
      exact .single hfit
  | pause hr =>
    obtain ⟨rfl, hfit⟩ := hx.of_single
    exact .single ⟨hfit.1, trivial⟩
  | @settle outcome z =>
    obtain ⟨rfl, hfit⟩ := hx.of_single
    refine .rests (.inr ⟨?_, hfit.2⟩)
    rcases outcome with ((_ | _) | _) <;> rfl
  | park hq =>
    obtain ⟨rfl, hfit⟩ := hx.of_single
    exact .rests (.inl ⟨rfl, hfit.2⟩)
  | unpark hq =>
    obtain ⟨rfl, hfit⟩ := hx.of_single
    exact .single ⟨hfit.1.resolve_left hq, hfit.2⟩
  | requeue =>
    obtain ⟨rfl, hfit⟩ := hx.of_single
    exact .single ⟨rfl, hfit.2.ne_consumed⟩
  | wake hq =>
    rw [zero_add] at hx
    rcases hx with ⟨rfl, hrests⟩ | ⟨k, -, hk⟩
    · rcases hrests with ⟨-, hstarted⟩ | ⟨hend, -⟩
      · exact .single ⟨rfl, hstarted.ne_consumed⟩
      · rw [hq] at hend; cases hend
    · rcases hk.state with h | h | h <;> rw [hq] at h <;> cases h
  | notify hq =>
    rcases hx with ⟨-, hrests⟩ | ⟨k, hT, hk⟩
    · rcases hrests with ⟨h, -⟩ | ⟨h, -⟩ <;> rw [hq] at h <;> cases h
    · exact .inr ⟨k, hT, hk.notify hq⟩
  | @handBack x hp =>
    cases x with
    | none => exact absurd hx (by simp [Exact])
    | some z =>
      obtain ⟨rfl, hfit⟩ := hx.of_single
      exact .single hfit
  | flag => exact hx
  | lose hp' hd => exact absurd hp hp'
  | close hp' hstate hstage => exact absurd hp hp'

/-- A task that was not there before is as new. -/
theorem Exact.of_none (hx : Sound (none : Option (Task V J)) (d + rest))
    (h : Change start p t s f none d y e) : Exact y (e + rest) := by
  have hT := hx.made rfl
  cases h with
  | stay => exact hT
  | spawn hp ht =>
    rw [zero_add] at hT
    subst hT
    exact .single ⟨rfl, nofun⟩
  | run | answer | handBack => simp at hT
  | lose hp hd =>
    have hle : rest ≤ d + rest := Multiset.le_add_left _ _
    rw [hT, Multiset.le_zero] at hle
    rw [hle]
    rfl

end change

namespace Machine

variable {start : J → Except RuntimeError (Body V J)} {m : Machine V J}

/-- All tasks of all pools are held as they should be. -/
structure Scheduled (m : Machine V J) : Prop where
  framed : m.Framed
  sound : ∀ p t, Sound (m.store.task? p t) (m.holds p t)
  exact : ∀ p t, m.store.Running p → Exact (m.store.task? p t) (m.holds p t)

theorem Scheduled.initial (n : Nat) : (withCells n : Machine V J).Scheduled := by
  have hholds : ∀ p t, (withCells n : Machine V J).holds p t = 0 := fun p t => by
    simp [withCells, holds, Store.holds, Store.waiting]
  have htask : ∀ p t, (withCells n : Machine V J).store.task? p t = none := fun p t => by
    simp [withCells, Store.task?_eq]
  refine ⟨.initial n, fun p t => ?_, fun p t hp => ?_⟩
  · rw [hholds, htask]
    exact ⟨fun _ => rfl, by simp, by simp, by simp⟩
  · rw [hholds, htask]
    rfl

/-- Whatever happens, all tasks stay held as they should be. -/
theorem Scheduled.after (h : m.Scheduled) (mv : Move V J) : (m.after start mv).Scheduled := by
  refine ⟨h.framed.after mv, fun p t => ?_, fun p t hp => ?_⟩
  · rcases change start h.framed (h.sound p t).made mv with ⟨-, hx, hT⟩ | ⟨i, worker, f, d, e, rest, -, hd, he, hc⟩
    · rw [hx, hT]
      exact h.sound p t
    · have hs := h.sound p t
      rw [hd] at hs
      rw [he]
      exact hs.change hc
  · -- a pool that is running now was running before, unless it is new and has no tasks
    have hrunning : ∀ y, m.store.task? p t = some y → m.store.Running p := fun y hy => by
      obtain ⟨pool, hpool, -⟩ := Store.exists_pool_of_task? hy
      exact hp.of_keeps (m.after_keeps start mv) (Array.getElem?_eq_some_iff.1 hpool).1
    have hs := h.sound p t
    rcases change start h.framed (h.sound p t).made mv with ⟨-, hx, hT⟩ | ⟨i, worker, f, d, e, rest, -, hd, he, hc⟩
    · rw [hx, hT]
      cases hy : m.store.task? p t with
      | none => exact hs.made hy
      | some y => exact hy ▸ h.exact p t (hrunning y hy)
    · rw [hd] at hs
      rw [he]
      cases hy : m.store.task? p t with
      | none =>
        rw [hy] at hs hc
        exact Exact.of_none hs hc
      | some y =>
        have hx := h.exact p t (hrunning y hy)
        rw [hd] at hx
        exact hx.change (hrunning y hy) hc

theorem scheduled_run (start : J → Except RuntimeError (Body V J)) (mvs : List (Move V J)) :
    (({} : Machine V J).run start mvs).Scheduled :=
  run_induction start (fun _ mv h => h.after mv) (.initial 0) mvs

/-- Who is held in a running pool is held once, and as befits it. -/
theorem Scheduled.holds_eq_of_mem (hm : m.Scheduled) {p : PoolId} {t : TaskId} (hp : m.store.Running p) {k : Hold V J}
    (hk : k ∈ m.holds p t) : ∃ y, m.store.task? p t = some y ∧ m.holds p t = {k} ∧ k.Fits y := by
  have hx := hm.exact p t hp
  cases hy : m.store.task? p t with
  | none => simp [(hm.sound p t).made hy] at hk
  | some y =>
    rw [hy] at hx
    rcases hx with ⟨hT, -⟩ | ⟨k', hT, hfit⟩
    · simp [hT] at hk
    · rw [hT, Multiset.mem_singleton] at hk
      exact ⟨y, rfl, hk ▸ hT, hk ▸ hfit⟩

/-- Whoever holds a task of a running pool is the only one. -/
theorem Scheduled.holds_eq (hm : m.Scheduled) {p : PoolId} {t : TaskId} (hp : m.store.Running p) {i : Nat}
    {th : Thread V J} (hi : m.threads[i]? = some th) {f : Frame V J} (hf : f ∈ th.stack) {k : Hold V J}
    (hk : k ∈ f.holds th.worker p t) : ∃ y, m.store.task? p t = some y ∧ m.holds p t = {k} ∧ k.Fits y :=
  hm.holds_eq_of_mem hp (mem_holds_of_mem hi hf hk)

/-- While a frame is part of its poll, the task is being polled and its body is out. -/
theorem Scheduled.polled_of_polls (hm : m.Scheduled) {p : PoolId} {t : TaskId} (hp : m.store.Running p) {i : Nat}
    {th : Thread V J} (hi : m.threads[i]? = some th) {f : Frame V J} (hf : f ∈ th.stack) (hpolls : f.Polls p t) :
    ∃ y, m.store.task? p t = some y ∧ y.IsPolled ∧ y.stage = .consumed := by
  obtain ⟨k, hbody, hholds⟩ := hpolls.holds_eq th.worker
  obtain ⟨y, hy, -, hfits⟩ := hm.holds_eq hp hi hf (hholds ▸ Multiset.mem_singleton_self k)
  exact ⟨y, hy, (hbody.fits_iff y).1 hfits⟩

/-- The frame that takes a step has its holds to give. -/
theorem holds_le_of_taken {p : PoolId} {t : TaskId} {mv : Move V J} {e : Taken V J} (h : m.taken mv = some e) :
    e.frame.holds e.worker p t ≤ m.holds p t := by
  obtain ⟨choice, rest, -, -, hi, -⟩ := after_of_taken (fun _ => .error .poolShutDown) h
  obtain ⟨others, hbefore, -⟩ := holds_set hi p t
  rw [hbefore]
  exact (Multiset.le_add_left _ _).trans (Multiset.le_add_right _ _)

/-- A frame that holds a task holds all there is to hold of it. -/
theorem holds_eq_of_taken {p : PoolId} {t : TaskId} (hs : Sound (m.store.task? p t) (m.holds p t))
    {mv : Move V J} {e : Taken V J} (h : m.taken mv = some e) {k : Hold V J}
    (hk : e.frame.holds e.worker p t = {k}) : m.holds p t = {k} := by
  have hle := holds_le_of_taken (p := p) (t := t) h
  rw [hk] at hle
  exact (Multiset.eq_of_le_of_card_le hle (by simpa using hs.once)).symm

/-- And so do the frames that replace it, if the queues stay as they are. -/
theorem holds_after_of_taken (start : J → Except RuntimeError (Body V J)) {p : PoolId} {t : TaskId}
    (hs : Sound (m.store.task? p t) (m.holds p t)) {mv : Move V J} {e : Taken V J}
    (h : m.taken mv = some e) {k : Hold V J} (hk : e.frame.holds e.worker p t = {k}) : ∃ choice,
      (m.after start mv).store = (e.frame.step start e.worker choice m.store).1 ∧
      ((m.after start mv).store.waiting p t = m.store.waiting p t →
        (m.after start mv).holds p t =
          Frame.holdsAll e.worker p t (e.frame.step start e.worker choice m.store).2) := by
  obtain ⟨choice, rest, -, -, hi, heq⟩ := after_of_taken start h
  obtain ⟨others, hbefore, hafter⟩ := holds_set hi p t
  refine ⟨choice, by rw [heq], fun hwait => ?_⟩
  have hnothing : m.store.holds p t + others = 0 := by
    rw [holds_eq_of_taken hs h hk, hk, add_right_comm] at hbefore
    exact left_eq_add.1 (hbefore.trans (add_comm _ _))
  rw [heq] at hwait ⊢
  rw [hafter, Store.holds, hwait, ← Store.holds, add_right_comm, hnothing, zero_add]

end Machine
end Dataflow
