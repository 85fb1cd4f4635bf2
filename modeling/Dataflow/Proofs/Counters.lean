import Dataflow.Proofs.Balance
import Dataflow.Proofs.ExactlyOnce

/-!
# The counters of a pool

Where no frame is in the middle of a booking, all that a pool has counted is exact (`Machine.counted_run`): the
balance of its accounts is what its tasks say. Which tasks were never claimed is told by the steps that led there.
-/

namespace Dataflow

variable {V J : Type}

section unclaimed

variable {start : J → Except RuntimeError (Body V J)} {p : PoolId} {t : TaskId} {s : Store V J} {f : Frame V J}
  {x y : Option (Task V J)} {d e rest T : Multiset (Hold V J)}

/-- Nobody has claimed the task. -/
def IsUnclaimed (x : Option (Task V J)) (T : Multiset (Hold V J)) : Prop :=
  x = none ∨ ∃ y, x = some y ∧ y.stage.isUnclaimed = true ∧ .claimed ∉ T

theorem IsUnclaimed.isUnclaimed {z : Task V J} (h : IsUnclaimed (some z) T) : z.stage.isUnclaimed = true := by
  rcases h with h | ⟨w, hw, hstage, -⟩
  · cases h
  · cases hw
    exact hstage

theorem Stage.IsStarted.isUnclaimed {stage : Stage V J} (h : stage.IsStarted) : stage.isUnclaimed = false := by
  cases stage <;> first | rfl | exact h.elim

/-- Only a claim makes a difference. -/
theorem IsUnclaimed.change_iff (hp : ∀ z, x = some z → s.Running p) (hx : Exact x (d + rest))
    (hc : Change start p t s f x d y e) (hf : f ≠ .task p t .claim) :
    IsUnclaimed x (d + rest) ↔ IsUnclaimed y (e + rest) := by
  have never : ∀ {z w : Task V J} {T T'}, z.stage.isUnclaimed = false → w.stage.isUnclaimed = false →
      (IsUnclaimed (some z) T ↔ IsUnclaimed (some w) T') := by
    intro z w T T' hz hw
    refine iff_of_false (fun h => ?_) fun h => ?_
    · rw [h.isUnclaimed] at hz
      cases hz
    · rw [h.isUnclaimed] at hw
      cases hw
  have same : ∀ {z w : Task V J}, w.stage = z.stage →
      (IsUnclaimed (some z) (0 + rest) ↔ IsUnclaimed (some w) (0 + rest)) := by
    intro z w hstage
    simp [IsUnclaimed, hstage]
  cases hc with
  | stay => exact Iff.rfl
  | spawn =>
    obtain rfl : rest = 0 := by simpa [Exact] using hx
    exact iff_of_true (.inl rfl) (.inr ⟨_, rfl, rfl, by simp⟩)
  | claim | refuse => exact absurd rfl hf
  | enter =>
    refine iff_of_false (fun h => ?_) fun h => ?_
    · rcases h with h | ⟨_, -, -, h⟩
      · cases h
      · simp at h
    · have := h.isUnclaimed
      cases this
  | @run r x k worker g hr hk hend hg hgk =>
    cases x with
    | none => exact absurd hx (by simp [Exact])
    | some z =>
      obtain ⟨rfl, hfit⟩ := hx.of_single
      exact never (by rw [hfit.2]; rfl) (by rw [hfit.2]; rfl)
  | @answer f x r hr =>
    cases x with
    | none => exact absurd hx (by simp [Exact])
    | some z =>
      obtain ⟨rfl, hfit⟩ := hx.of_single
      exact never (by rw [hfit.2]; rfl) (by rw [hfit.2]; rfl)
  | pause => exact never (by rw [hx.of_single.2.2]; rfl) rfl
  | settle => exact never (by rw [hx.of_single.2.2]; rfl) (by rw [hx.of_single.2.2]; rfl)
  | park | unpark | requeue => exact never hx.of_single.2.2.isUnclaimed hx.of_single.2.2.isUnclaimed
  | wake hstate =>
    have hstarted := hx
    rw [zero_add] at hstarted
    rcases hstarted with ⟨-, ⟨-, hstarted⟩ | ⟨hend, -⟩⟩ | ⟨k, -, hk⟩
    · exact never hstarted.isUnclaimed hstarted.isUnclaimed
    · rw [hstate] at hend; cases hend
    · rcases hk.state with h | h | h <;> rw [hstate] at h <;> cases h
  | notify | flag => exact same rfl
  | handBack => simp [IsUnclaimed]
  | lose hp' =>
    cases x with
    | none => exact iff_of_true (.inl rfl) (.inl rfl)
    | some z => exact absurd (hp z rfl) hp'
  | close hp' => exact absurd (hp _ rfl) hp'

end unclaimed

namespace Machine

variable {start : J → Except RuntimeError (Body V J)} {m : Machine V J} {p : PoolId} {t : TaskId}

/-- The steps so far claimed those tasks that are no longer unclaimed. -/
def ClaimsTold (m : Machine V J) (tr : List (Taken V J)) : Prop :=
  ∀ p t, ¬ m.store.Closed p →
    ((∀ e ∈ tr, e.frame ≠ .task p t .claim) ↔ IsUnclaimed (m.store.task? p t) (m.holds p t))

theorem ClaimsTold.after (hm : m.Scheduled) {tr : List (Taken V J)} (h : m.ClaimsTold tr) (mv : Move V J) :
    (m.after start mv).ClaimsTold (tr ++ (m.taken mv).toList) := by
  intro p t hclosed
  have hp : ¬ m.store.Closed p := fun hc => hclosed (hc.mono (m.after_keeps start mv))
  have hs := hm.sound p t
  have hrunning : ∀ z, m.store.task? p t = some z → m.store.Running p := fun z hz => by
    obtain ⟨pool, hpool, -⟩ := Store.exists_pool_of_task? hz
    exact Store.running_of_not_closed hp hpool
  have hx : Exact (m.store.task? p t) (m.holds p t) := by
    cases hz : m.store.task? p t with
    | none => exact hs.made hz
    | some z => exact hz ▸ hm.exact p t (hrunning z hz)
  rcases change start hm.framed hs.made mv with ⟨htaken, hx', hT⟩ | ⟨i, worker, f, d, e, rest, htaken, hd, he, hc⟩
  · rw [htaken, hx', hT, Option.toList_none, List.append_nil]
    exact h p t hp
  · by_cases hf : f = .task p t .claim
    · subst hf
      refine iff_of_false (fun hnone => hnone ⟨i, worker, _, m.store⟩ (by rw [htaken]; simp) rfl) fun hun => ?_
      -- the claim has just gone through
      obtain ⟨y, hy, hstate⟩ := (expected_of_taken (t := t) hm hp htaken).1 rfl
      have hk : (Frame.task p t .claim : Frame V J).holds worker p t = {.ready} := by simp [Frame.holds]
      obtain ⟨choice, hstore, hafter⟩ := holds_after_of_taken start hs htaken hk
      have hstep : (Frame.task p t .claim : Frame V J).step start worker choice m.store =
          (m.store.setState p t .running, [.task p t .begin]) := by
        simp only [Frame.step, Frame.stepTask, hy, TaskState.exchange, hstate, if_true]
      rw [hstep] at hstore hafter
      have hholds := hafter (by rw [hstore]; exact Store.waiting_modifyTask)
      rw [hholds, hstore, Store.setState, Store.task?_modifyTask_self, hy] at hun
      rcases hun with hun | ⟨z, -, -, hun⟩
      · cases hun
      · simp [Frame.holds] at hun
    · rw [htaken, he]
      rw [hd] at hx
      rw [← IsUnclaimed.change_iff hrunning hx hc hf, ← hd, ← h p t hp]
      refine ⟨fun hnone ev hev => hnone ev (List.mem_append_left _ hev), fun hnone ev hev => ?_⟩
      rcases List.mem_append.1 hev with hev | hev
      · exact hnone ev hev
      · rw [List.mem_singleton.1 hev]
        exact hf

theorem claimsTold_run (start : J → Except RuntimeError (Body V J)) (mvs : List (Move V J)) :
    (({} : Machine V J).run start mvs).ClaimsTold (({} : Machine V J).trace start mvs) :=
  (trace_induction start (P := fun m tr => m.Scheduled ∧ m.ClaimsTold tr)
    (fun _ _ mv ⟨hm, h⟩ => ⟨hm.after mv, h.after hm mv⟩)
    ⟨.initial 0, fun p t _ => iff_of_true (by simp) (.inl rfl)⟩ mvs).2

end Machine

namespace Frame

/-- The frame is in the middle of something that the pool counts: a spawn that has reserved its place, a poll that
has begun, an end that is not known everywhere, a wake that has not come back, or a counter about to be changed. -/
def IsMidway (p : PoolId) : Frame V J → Prop
  | .spawn q _ .number _ | .count q _ | .reschedule q _ => q = p
  | .task q _ .begin | .task q _ .enter | .task q _ (.tally _) | .task q _ .unregister | .task q _ .register => q = p
  | _ => False

variable {p : PoolId} {a : Account} {f : Frame V J}

theorem due_of_not_isMidway (h : ¬ f.IsMidway p) : f.due p a = 0 := by
  cases f with
  | spawn q job phase next =>
    cases phase with
    | number => exact if_neg h
    | _ => rfl
  | count q change | reschedule q t => exact if_neg h
  | task q t phase =>
    by_cases hq : q = p
    · cases phase with
      | tally | unregister | register => exact absurd hq h
      | _ => simp [due, TaskPhase.due]
    · exact if_neg hq
  | _ => rfl

/-- A worker that has claimed the task is about to take its stage. -/
def TakesUp (p : PoolId) (t : TaskId) (f : Frame V J) : Prop := f = .task p t .begin ∨ f = .task p t .enter

theorem takesUp_of_mem_holds {worker : Option (PoolId × Nat)} {t : TaskId} (h : .claimed ∈ f.holds worker p t) :
    f.TakesUp p t := by
  have single : ∀ {P : Prop} [Decidable P] {k : Hold V J}, .claimed ∈ (if P then {k} else 0 : Multiset _) →
      P ∧ k = .claimed := by
    intro P _ k hmem
    split at hmem
    · exact ⟨‹P›, (Multiset.mem_singleton.1 hmem).symm⟩
    · cases hmem
  cases f with
  | run | pause | ended | blocked | spawn | reschedule => cases (single h).2
  | task q u phase =>
    cases phase with
    | begin =>
      obtain ⟨⟨rfl, rfl⟩, -⟩ := single h
      exact .inl rfl
    | enter =>
      obtain ⟨⟨rfl, rfl⟩, -⟩ := single h
      exact .inr rfl
    | claim | settle | park | requeue | enqueue => cases (single h).2
    | _ => simp [holds] at h
  | work seek =>
    cases seek with
    | keep first rest =>
      simp only [holds] at h
      split at h
      · cases Multiset.eq_of_mem_replicate h
      · cases h
    | _ => cases h
  | _ => cases h

theorem not_claimed_of_not_isMidway (h : ¬ f.IsMidway p) (worker : Option (PoolId × Nat)) (t : TaskId) :
    .claimed ∉ f.holds worker p t := by
  intro hmem
  rcases takesUp_of_mem_holds hmem with rfl | rfl <;> exact h rfl

end Frame

/-- The counters of a pool are exact, as far as its tasks tell and the steps that led to them. -/
structure Counted (p : PoolId) (pool : Pool V J) (tr : List (Taken V J)) : Prop where
  /-- The queue counter tells how many tasks nobody has begun with. -/
  queued : pool.queued = pool.tasks.toList.countP fun y => y.stage.isUnclaimed
  /-- These are the tasks that were never claimed. -/
  unclaimed : ∀ t y, pool.tasks[t]? = some y → (y.stage.isUnclaimed = true ↔ ∀ e ∈ tr, e.frame ≠ .task p t .claim)
  /-- Active are those that are queued or being polled. -/
  active : pool.active = pool.tasks.toList.countP fun y => y.state = .queued ∨ y.state = .running ∨ y.state = .notified
  /-- Live are those that are neither completed nor failed. -/
  live : pool.live = pool.tasks.toList.countP fun y => y.state ≠ .completed ∧ y.state ≠ .failed
  /-- The registry has the live tasks and no others. -/
  registry : ∀ t, t ∈ pool.registry ↔
    ∃ y, pool.tasks[t]? = some y ∧ y.state ≠ .completed ∧ y.state ≠ .failed
  registry_length : pool.registry.length = pool.live
  /-- Parked are those that are suspended. -/
  parked : pool.parked = pool.tasks.toList.countP fun y => y.state = .suspended
  /-- The statistics tell as many. -/
  resumed : pool.stats.suspended = pool.stats.resumed + pool.parked
  /-- Every task that was accepted has been counted. -/
  accepted : pool.stats.spawned = pool.tasks.size
  completed : pool.stats.completed = pool.tasks.toList.countP fun y => y.state = .completed
  failed : pool.stats.failed = pool.tasks.toList.countP fun y => y.state = .failed
  spawned : pool.stats.spawned = pool.stats.completed + pool.stats.failed + pool.live

theorem TaskState.isActive_eq (state : TaskState) :
    state.isActive = decide (state = .queued ∨ state = .running ∨ state = .notified) := by
  cases state <;> rfl

theorem TaskState.not_isTerminal_eq (state : TaskState) :
    (!state.isTerminal) = decide (state ≠ .completed ∧ state ≠ .failed) := by
  cases state <;> rfl

/-- Live tasks are active or parked. -/
theorem Pool.countP_live (pool : Pool V J) : (pool.tasks.toList.countP fun y => !y.state.isTerminal) =
    (pool.tasks.toList.countP fun y => y.state.isActive) + pool.tasks.toList.countP fun y => y.state = .suspended := by
  induction pool.tasks.toList with
  | nil => rfl
  | cons y ys ih =>
    simp only [List.countP_cons, ih]
    cases y.state <;> simp [TaskState.isActive, TaskState.isTerminal] <;> omega

/-- Whoever was accepted is live or has ended. -/
theorem Pool.countP_ended (pool : Pool V J) : pool.tasks.size =
    (pool.tasks.toList.countP fun y => y.state = .completed) + (pool.tasks.toList.countP fun y => y.state = .failed) +
      pool.tasks.toList.countP fun y => !y.state.isTerminal := by
  rw [← Array.length_toList]
  induction pool.tasks.toList with
  | nil => rfl
  | cons y ys ih =>
    simp only [List.countP_cons, List.length_cons, ih]
    cases y.state <;> simp [TaskState.isTerminal] <;> omega

namespace Machine

variable {start : J → Except RuntimeError (Body V J)}

/-- After any run, the counters of a pool that is running are exact, if nothing that it counts is half done. -/
theorem counted_run (mvs : List (Move V J)) {p : PoolId} {pool : Pool V J}
    (hpool : (({} : Machine V J).run start mvs).store.pools[p]? = some pool) (hrunning : pool.running = true)
    (halive : (({} : Machine V J).run start mvs).store.aborted = false)
    (hmidway : (({} : Machine V J).run start mvs).AllFrames fun _ f => ¬ f.IsMidway p) :
    Counted p pool (({} : Machine V J).trace start mvs) := by
  have hm := scheduled_run start mvs
  obtain ⟨hb, hbal⟩ := balanced_run start mvs
  have htold := claimsTold_run start mvs
  generalize ({} : Machine V J).run start mvs = m at *
  generalize ({} : Machine V J).trace start mvs = tr at *
  have hp : ¬ m.store.Closed p := fun hc => hc.not_running ⟨pool, hpool, hrunning⟩
  -- nothing is left to be booked
  have hzero : ∀ a, (m.frameSum fun _ f => f.due p a) = 0 := fun a =>
    frameSum_eq_zero (hmidway.mono fun _ _ hf => Frame.due_of_not_isMidway hf)
  have hexact := hbal.balance_eq_shares halive hp hpool hzero
  have hregistered : ∀ {t : TaskId} {y : Task V J}, pool.tasks[t]? = some y → y.registered = !y.state.isTerminal :=
    hbal.registered_eq_not_isTerminal halive hp hpool hzero
  have hlength := hbal.registry_length_eq halive hp hpool hzero
  have htask : ∀ {t : TaskId} {y : Task V J}, pool.tasks[t]? = some y → m.store.task? p t = some y := fun hy => by
    rw [Store.task?_eq, hpool]
    exact hy
  have hqueued := hexact .queued
  have hactive := hexact .active
  have hlive := hexact .live
  have hspawned := hexact .spawned
  have hcompleted := hexact .completed
  have hfailed := hexact .failed
  have hparked := hexact .parked
  rw [Pool.shares_queued] at hqueued
  rw [Pool.shares_active] at hactive
  rw [Pool.shares_live] at hlive
  rw [Pool.shares_spawned] at hspawned
  rw [Pool.shares_completed] at hcompleted
  rw [Pool.shares_failed] at hfailed
  rw [Pool.shares_parked] at hparked
  simp only [Pool.balance] at hqueued hactive hlive hspawned hcompleted hfailed hparked
  have hsplit := pool.countP_live
  have hended := pool.countP_ended
  constructor
  case queued => omega
  case unclaimed =>
    intro t y hy
    rw [htold p t hp, htask hy]
    refine ⟨fun hstage => .inr ⟨y, rfl, hstage, fun hmem => ?_⟩, IsUnclaimed.isUnclaimed⟩
    rcases Multiset.mem_add.1 hmem with hmem | hmem
    · cases Multiset.eq_of_mem_replicate hmem
    · have hframes : .claimed ∈ m.frameSum fun worker f => f.holds worker p t := hmem
      obtain ⟨th, hth, f, hf, hheld⟩ := mem_frameSum.1 hframes
      obtain ⟨i, hi⟩ := List.mem_iff_getElem?.1 hth
      exact Frame.not_claimed_of_not_isMidway (hmidway i th (by rw [← Array.getElem?_toList, hi]) f hf) _ t hheld
  case active => simpa only [TaskState.isActive_eq] using Int.ofNat_inj.1 hactive
  case live => simpa only [TaskState.not_isTerminal_eq] using Int.ofNat_inj.1 hlive
  case registry =>
    intro t
    rw [Pool.mem_registry]
    refine exists_congr fun y => and_congr_right fun hy => ?_
    rw [hregistered hy, TaskState.not_isTerminal_eq, decide_eq_true_iff]
  case registry_length => omega
  case parked => rw [Pool.parked]; omega
  case resumed => rw [Pool.parked]; omega
  all_goals omega

instance (p : PoolId) (f : Frame V J) : Decidable (f.IsMidway p) := by
  unfold Frame.IsMidway
  split <;> infer_instance

/-- A job that waits for the first cell, or ends at once. -/
def waitOrEnd : Bool → Except RuntimeError (Body Nat Bool)
  | true => .ok (.get 0 none fun _ => .done (.ok ()))
  | false => .ok (.done (.ok ()))

/-- A pool starts, someone spawns a job of each kind, and the only worker parks one of them and ends the other. -/
def countingMoves : List (Move Nat Bool) :=
  .startPool {} :: .enter (.newCell fun _ => .spawn (some 0) true fun _ => .spawn (some 0) false fun _ =>
      .done (.ok ())) ::
    (List.replicate 20 (.step 1 0) ++ List.replicate 25 (.step 0 0))

set_option maxRecDepth 8000 in
theorem counted_parked : ∃ pool, (({} : Machine Nat Bool).run waitOrEnd countingMoves).store.pools[0]? = some pool ∧
    pool.running = true ∧ (({} : Machine Nat Bool).run waitOrEnd countingMoves).store.aborted = false ∧
    (({} : Machine Nat Bool).run waitOrEnd countingMoves).AllFrames (fun _ f => ¬ f.IsMidway 0) ∧
    pool.parked = 1 ∧ pool.stats.completed = 1 ∧
    Counted 0 pool (({} : Machine Nat Bool).trace waitOrEnd countingMoves) := by
  have hmidway : (({} : Machine Nat Bool).run waitOrEnd countingMoves).AllFrames fun _ f => ¬ f.IsMidway 0 := by
    rw [allFrames_iff, countingMoves, run_startPool startError?_default]
    decide +kernel
  have hpool : ∃ pool, (({} : Machine Nat Bool).run waitOrEnd countingMoves).store.pools[0]? = some pool ∧
      pool.running = true ∧ (({} : Machine Nat Bool).run waitOrEnd countingMoves).store.aborted = false ∧
      pool.parked = 1 ∧ pool.stats.completed = 1 := by
    rw [countingMoves, run_startPool startError?_default]
    exact ⟨_, rfl, rfl, rfl, rfl, rfl⟩
  obtain ⟨pool, hpool, hrunning, halive, hparked, hcompleted⟩ := hpool
  exact ⟨pool, hpool, hrunning, halive, hmidway, hparked, hcompleted,
    counted_run countingMoves hpool hrunning halive hmidway⟩

end Machine
end Dataflow
