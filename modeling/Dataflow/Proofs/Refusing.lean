import Dataflow.Proofs.Releasing

/-!
# Pools that are shut down

Once a shutdown call has returned nobody is in the middle of a call on the pool, and calls that begin come to
nothing: a spawn call is refused, a wake call finds a task that has ended, and another shutdown call finds the pool
stopped (`Store.Refuses`). None of them touches the pool, so it stays as it is for the rest of every run
(`Machine.Shut.run`).
-/

namespace Dataflow

variable {V J : Type}

/-- Calls on the pool come to nothing. -/
structure Store.Refuses (start : J → Except RuntimeError (Body V J)) (p : PoolId) (s : Store V J) : Prop where
  spawn : ∀ (worker : Option (PoolId × Nat)) (choice : Nat) (job : J) (next : Except RuntimeError TaskId → Run V J),
    (Frame.spawn p job .check next).step start worker choice s = (s, [.run (next (.error .poolShutDown))])
  wake : ∀ (worker : Option (PoolId × Nat)) (choice : Nat) (t : TaskId),
    (Frame.wake (.task p t)).step start worker choice s = (s, [])
  shutdown : ∀ (worker : Option (PoolId × Nat)) (choice : Nat),
    (Frame.shutdown p .check).step start worker choice s = (s, [])

namespace Frame

/-- A call on the pool that has not yet looked at it. -/
def Knocks (p : PoolId) : Frame V J → Prop
  | .spawn q _ .check _ | .shutdown q .check => q = p
  | .wake party => ∃ t, party = .task p t
  | _ => False

variable {start : J → Except RuntimeError (Body V J)} {worker : Option (PoolId × Nat)} {choice : Nat}
  {s : Store V J} {p : PoolId} {f : Frame V J}

/-- A stopped pool whose tasks have ended refuses all calls. -/
theorem refuses {pool : Pool V J} (hpool : s.pools[p]? = some pool) (hclosed : pool.running = false)
    (hended : ∀ y ∈ pool.tasks, y.state.isTerminal = true) : s.Refuses start p := by
  have hrunning : ¬ (s.pools[p]?.map (·.running)).getD false = true := by simp [hpool, hclosed]
  refine ⟨fun _ _ _ _ => if_neg hrunning, fun _ _ t => ?_, fun _ _ => if_neg hrunning⟩
  cases hy : s.task? p t with
  | none => simp [step, stepWake, hy]
  | some y =>
    have hmem : y ∈ pool.tasks := by
      rw [Store.task?_eq, hpool] at hy
      exact Array.mem_of_getElem? hy
    have hnone : y.state.wakeTarget? = none := by
      have hterminal := hended y hmem
      cases hstate : y.state <;> rw [hstate] at hterminal <;> first | rfl | cases hterminal
    simp [step, stepWake, hy, hnone]

theorem IsQuiet.knocks (h : f.IsQuiet) (hacts : f.ActsOn p) : f.Knocks p := by
  cases f with
  | wake party => exact hacts
  | shutdown q phase => cases phase <;> first | exact hacts | exact h.elim
  | _ => first | exact hacts.elim | exact h.elim

/-- Whoever does not act on the pool begins a call on it, if anything. -/
theorem knocks_step (hok : f.Ok worker s) (hworker : ∀ w, worker ≠ some (p, w)) (h : ¬ f.ActsOn p) {g : Frame V J}
    (hg : g ∈ (f.step start worker choice s).2) (hacts : g.ActsOn p) : g.Knocks p := by
  have home : ∀ {q t}, Party.On worker (.task q t) → q ≠ p := by
    rintro q t ⟨w, hw⟩ rfl
    exact hworker w hw
  have away : ∀ {fs : List (Frame V J)}, g ∈ fs → (∀ f ∈ fs, ¬ f.ActsOn p) → g.Knocks p :=
    fun hg hfs => absurd hacts (hfs g hg)
  have hgives := gives_step start worker choice s f
  generalize (f.step start worker choice s).2 = fs at hgives hg
  cases hgives with
  | nothing => cases hg
  | @run r =>
    obtain ⟨quiet, g', hfs, hquiet, hcarries⟩ := stepRun_frames worker s r
    rw [hfs] at hg
    rcases List.mem_append.1 hg with hg | hg
    · exact (hquiet g hg).knocks hacts
    · obtain rfl := List.mem_singleton.1 hg
      cases g with
      | spawn q job phase next => exact hcarries.1 ▸ hacts
      | run | pause | ended | blocked => exact hacts.elim
      | _ => exact hcarries.elim
  | @pause r q t hparty =>
    have hon : r.party.On worker := hok
    rw [hparty] at hon
    exact away hg (by simp [ActsOn, home hon])
  | drop hfs => rcases hfs g hg with ⟨c, value, rfl⟩ | ⟨guards, rfl⟩ <;> exact hacts.elim
  | fill => exact (isQuiet_afterPut hg).knocks hacts
  | discarded guards body => exact (isQuiet_dropPending hg).knocks hacts
  | @ended q t outcome =>
    have hq : q ≠ p := home (t := t) hok
    exact away hg (by simp [ActsOn, hq])
  | @wake q t seen target =>
    have hq : q ≠ p := fun hq => h ⟨t, hq ▸ rfl⟩
    exact away hg (by simp [ActsOn, hq])
  | @finds q w seek hw t =>
    have hq : q ≠ p := fun hq => hworker w (hq ▸ hw)
    exact away hg (by simp [ActsOn, hq])
  | freed | blocked | seeks => exact away hg (by simp [ActsOn])
  | @joined q n =>
    have hq : q ≠ p := h
    exact away hg (by simp [ActsOn, hq, or_imp, forall_and])
  | _ =>
    have hq : _ ≠ p := h
    exact away hg (by simp [ActsOn, hq])

end Frame

namespace Machine

variable {start : J → Except RuntimeError (Body V J)} {m : Machine V J} {p : PoolId} {i : Nat} {pool : Pool V J}

/-- The pool is shut down, and nobody is in the middle of a call on it. -/
structure Shut (p : PoolId) (pool : Pool V J) (m : Machine V J) : Prop where
  pool : m.store.pools[p]? = some pool
  frames : m.AllFrames fun _ f => f.ActsOn p → f.Knocks p
  workers : ∀ (j w : Nat) (stack : List (Frame V J)), m.threads[j]? = some ⟨some (p, w), stack⟩ → stack = []

/-- A call on the pool comes to nothing, and whatever else happens leaves the pool alone. -/
theorem Shut.after (h : m.Shut p pool) (hm : m.Framed) (hclosed : pool.running = false)
    (hended : ∀ y ∈ pool.tasks, y.state.isTerminal = true) (mv : Move V J) : (m.after start mv).Shut p pool := by
  have outside : ∀ {s : Store V J} (frames : List (Frame V J)), s.pools = m.store.pools →
      (∀ f ∈ frames, f.ActsOn p → f.Knocks p) → Shut p pool (spawnThread ⟨s, m.threads⟩ frames) := by
    intro s frames hpools hframes
    have hall : AllFrames (fun _ f => f.ActsOn p → f.Knocks p) (⟨s, m.threads⟩ : Machine V J) := h.frames
    exact ⟨by rw [← h.pool]; exact congrArg (·[p]?) hpools, hall.spawnThread hframes,
      fun j w stack hj => h.workers j w stack (thread_of_spawnThread hj)⟩
  cases mv with
  | step j choice =>
    rcases m.after_step start j choice with ⟨heq, -⟩ | ⟨worker, f, below, hj, -, -, -, heq⟩
    · rw [heq]
      exact h
    · have hworker : ∀ w, worker ≠ some (p, w) := by
        rintro w rfl
        cases h.workers j w _ hj
      have hok : f.Ok worker m.store := hm.frames j _ hj f (List.mem_cons_self ..)
      have hstep : (f.step start worker choice m.store).1.pools[p]? = m.store.pools[p]? ∧
          ∀ g ∈ (f.step start worker choice m.store).2, g.ActsOn p → g.Knocks p := by
        by_cases hacts : f.ActsOn p
        · have hrefuses : m.store.Refuses start p := Frame.refuses h.pool hclosed hended
          have hknocks := h.frames j _ hj f (List.mem_cons_self ..) hacts
          cases f with
          | spawn q job phase next =>
            cases phase with
            | check =>
              obtain rfl : q = p := hknocks
              rw [hrefuses.spawn]
              exact ⟨rfl, fun g hg hacts => (List.mem_singleton.1 hg ▸ hacts : Frame.ActsOn q (.run _)).elim⟩
            | _ => exact hknocks.elim
          | wake party =>
            obtain ⟨t, rfl⟩ := hknocks
            rw [hrefuses.wake]
            exact ⟨rfl, nofun⟩
          | shutdown q phase =>
            cases phase with
            | check =>
              obtain rfl : q = p := hknocks
              rw [hrefuses.shutdown]
              exact ⟨rfl, nofun⟩
            | _ => exact hknocks.elim
          | _ => exact hknocks.elim
        · exact ⟨Frame.pools_step_of_not_actsOn hok hworker hacts, fun g hg => Frame.knocks_step hok hworker hacts hg⟩
      rw [heq]
      refine ⟨hstep.1.trans h.pool, h.frames.set hj hstep.2 _, fun j' w stack hj' => ?_⟩
      exact h.workers j' w stack (worker_of_set hj hworker hj' rfl)
  | startPool config =>
    rcases m.after_startPool start config with heq | heq
    · rw [heq]
      exact h
    · rw [heq]
      have hlt : p < m.store.pools.size := (Array.getElem?_eq_some_iff.1 h.pool).1
      exact ⟨pools_addPool h.pool, h.frames.addPool fun _ _ => False.elim,
        fun j w stack hj => h.workers j w stack (thread_of_addPool hlt hj)⟩
  | enter body => exact outside _ rfl fun f hf hacts => (List.mem_singleton.1 hf ▸ hacts : Frame.ActsOn p (.run _)).elim
  | poll =>
    simp only [Machine.after]
    split
    · exact outside _ rfl fun f hf hacts => (List.mem_singleton.1 hf ▸ hacts : Frame.ActsOn p (.run _)).elim
    · exact h
  | discard =>
    simp only [Machine.after]
    split
    · exact outside _ rfl fun f hf => (Frame.isQuiet_dropPending hf).knocks
    · exact h

/-- So it is for the rest of every run. -/
theorem Shut.run (h : m.Shut p pool) (hm : m.Framed) (hclosed : pool.running = false)
    (hended : ∀ y ∈ pool.tasks, y.state.isTerminal = true) (mvs : List (Move V J)) : (m.run start mvs).Shut p pool :=
  (run_induction start (P := fun m => m.Framed ∧ m.Shut p pool)
    (fun _ mv ⟨hm, h⟩ => ⟨hm.after mv, h.after hm hclosed hended mv⟩) ⟨hm, h⟩ mvs).2

/-- Nobody is in the middle of a call on a pool without workers if nobody else acts on it and the thread itself has
come back to where only bodies and workers are below it. -/
theorem Alone.shut (halone : m.Alone p i) (hpool : m.store.pools[p]? = some pool)
    (hworkers : ∀ (j w : Nat) (stack : List (Frame V J)), m.threads[j]? = some ⟨some (p, w), stack⟩ → stack = [])
    (hrest : ∀ f ∈ m.stackOf i, (∃ r, f = .run r) ∨ ∃ seek, f = .work seek) : m.Shut p pool := by
  refine ⟨hpool, fun j th hj f hf hacts => ?_, hworkers⟩
  by_cases hij : j = i
  · subst hij
    rw [stackOf_eq hj] at hrest
    rcases hrest f hf with ⟨r, rfl⟩ | ⟨seek, rfl⟩ <;> exact hacts.elim
  · obtain ⟨⟨w, hw⟩, -⟩ := halone j th hj hij f hf hacts
    have hnil := hworkers j w th.stack (by rw [hj, ← hw])
    rw [hnil] at hf
    cases hf

end Machine
end Dataflow
