import Dataflow.Proofs.Finishing
import Dataflow.Proofs.Refusing

/-!
# Shutdown releases everything

A shutdown call on a running pool, with nobody else acting on the pool meanwhile. When it returns, every task that the
pool ever accepted has ended, every continuation that the pool had when it was stopped was dropped once, and nothing of
the pool is left in its queues, its registry, its counters or the cells; and nothing that happens later changes the pool
any more (`Machine.ReleasedAll`). It does return once the pool has no active task (`Machine.Returns`).
-/

namespace Dataflow

variable {V J : Type}

/-- The frame belongs to a shutdown call. -/
def Frame.shutsDown : Frame V J → Bool
  | .shutdown .. => true
  | _ => false

namespace Machine

/-- A shutdown call has released the pool `d` that it stopped. `tr` are the steps taken so far. -/
structure ReleasedAll (start : J → Except RuntimeError (Body V J)) (p : PoolId) (d : Pool V J) (tr : List (Taken V J))
    (m : Machine V J) : Prop where
  /-- Every task was parked or had ended. -/
  quiet : d.Quiet
  pool : ∃ pool, m.store.pools[p]? = some pool ∧ d.Released pool
  /-- Every continuation that the pool had was dropped, once and in some order. -/
  drops : (tr.filterMap (Taken.drops? p)).Perm d.continuations
  /-- No cell knows a task of the pool. -/
  entries : ∀ k t, ¬ m.store.Enters k (.task p t)
  /-- From now on the pool stays as it is, whoever calls it. -/
  later : ∀ mvs : List (Move V J), (m.run start mvs).store.pools[p]? = m.store.pools[p]? ∧
    (m.run start mvs).store.Refuses start p

/-- A shutdown call of thread `i` returns. -/
structure Returns (start : J → Except RuntimeError (Body V J)) (p : PoolId) (i : Nat) (rest : List (Frame V J))
    (m : Machine V J) : Prop where
  /-- If the pool runs and has no active task, the next step of the thread does not wait for anybody, and will not. -/
  free : m.store.Running p → (∀ pool, m.store.pools[p]? = some pool → pool.active = 0) → ∀ mvs : List (Move V J),
    (∀ k ≤ mvs.length, (m.run start (mvs.take k)).Alone p i) → (∀ e ∈ m.trace start mvs, e.thread ≠ i) →
    (m.run start mvs).store.aborted = false → ∀ choice, (m.run start mvs).canStep i choice = true
  /-- If the call has stopped the pool, it comes to its end in whatever order it and the workers take their steps. -/
  stopped : ¬ m.store.Running p → Inevitable start (Concerns p i) (fun m' => m'.stackOf i = rest) m

variable {start : J → Except RuntimeError (Body V J)} {m : Machine V J} {p : PoolId} {i : Nat}
  {rest : List (Frame V J)} {tr : List (Taken V J)}

/-- Nobody drops a continuation of a pool that was never stopped. -/
theorem drops_eq_nil (mvs : List (Move V J)) (hp : ¬ (({} : Machine V J).run start mvs).store.Closed p) :
    (({} : Machine V J).trace start mvs).filterMap (Taken.drops? p) = [] := by
  have hinv := trace_induction start (P := fun m tr => m.Framed ∧ (¬ m.store.Closed p →
      tr.filterMap (Taken.drops? p) = [])) (m := ({} : Machine V J)) (fun m tr mv ⟨hm, h⟩ => ⟨hm.after mv, fun hp' => ?_⟩)
    ⟨.initial 0, fun _ => rfl⟩ mvs
  · exact hinv.2 hp
  · have hp : ¬ m.store.Closed p := fun hc => hp' (hc.mono (m.after_keeps start mv))
    rw [filterMap_taken, h hp]
    cases he : m.taken mv with
    | none => rfl
    | some e => simp [hm.drops?_eq_none hp he]

/-- The next step of a shutdown call on a pool that runs does not wait for anybody. -/
inductive Free (p : PoolId) (i : Nat) (m : Machine V J) : Prop where
  | asked {worker below} (hi : m.threads[i]? = some ⟨worker, .shutdown p .check :: below⟩)
  | waiting {worker below} (hi : m.threads[i]? = some ⟨worker, .waitIdle p :: below⟩) (h : m.Drained p)
  | drained {worker below} (hi : m.threads[i]? = some ⟨worker, .shutdown p .close :: below⟩) (h : m.Drained p)

namespace Free

theorem canStep (h : m.Free p i) (halive : m.store.aborted = false) (choice : Nat) : m.canStep i choice = true := by
  cases h with
  | asked hi => exact canStep_iff.2 ⟨halive, _, _, _, hi, rfl⟩
  | waiting hi h =>
    obtain ⟨pool, hpool, -, hquiet⟩ := h.pool
    exact canStep_iff.2 ⟨halive, _, _, _, hi, by simp [Frame.isBlocked, hpool, hquiet.active]⟩
  | drained hi h => exact canStep_iff.2 ⟨halive, _, _, _, hi, rfl⟩

theorem after (h : m.Free p i) (hm : m.Framed) (halone : m.Alone p i) (mv : Move V J)
    (hother : ∀ e, m.taken mv = some e → e.thread ≠ i) : (m.after start mv).Free p i := by
  have same : ∀ {worker} {stack : List (Frame V J)}, m.threads[i]? = some ⟨worker, stack⟩ →
      (m.after start mv).threads[i]? = some ⟨worker, stack⟩ := fun hi => by
    rcases thread_after start m mv hi with ⟨hafter, -⟩ | ⟨_, _, _, -, -, -, -, htaken, -⟩
    · exact hafter
    · exact absurd rfl (hother _ htaken)
  cases h with
  | asked hi => exact .asked (same hi)
  | waiting hi h => exact .waiting (same hi) (h.after hm halone mv hother)
  | drained hi h => exact .drained (same hi) (h.after hm halone mv hother)

theorem run (h : m.Free p i) (hm : m.Lawful) (mvs : List (Move V J))
    (halone : ∀ k ≤ mvs.length, (m.run start (mvs.take k)).Alone p i)
    (hother : ∀ e ∈ m.trace start mvs, e.thread ≠ i) : (m.run start mvs).Free p i := by
  induction mvs generalizing m with
  | nil => exact h
  | cons mv mvs ih =>
    have hfirst : ∀ e, m.taken mv = some e → e.thread ≠ i := fun e he =>
      hother e (List.mem_append_left _ (by simp [he]))
    refine ih (h.after hm.scheduled.framed (halone 0 (Nat.zero_le _)) mv hfirst) (hm.after mv) (fun k hk => ?_)
      fun e he => hother e (List.mem_append_right _ he)
    exact halone (k + 1) (Nat.succ_le_succ hk)

end Free

theorem Shutting.free (h : Shutting p i rest m tr) (hm : m.Lawful) (halone : m.Alone p i)
    (halive : m.store.aborted = false) (hrunning : m.store.Running p)
    (hactive : ∀ pool, m.store.pools[p]? = some pool → pool.active = 0) : m.Free p i := by
  cases h with
  | asked hi _ _ => exact .asked hi
  | waiting hi _ _ =>
    obtain ⟨pool, hpool, hrunning⟩ := hrunning
    exact .waiting hi (hm.drained halive hpool hrunning (hactive pool hpool) halone (stackOf_eq hi))
  | drained hi _ h _ => exact .drained hi h
  | winding _ _ h _ =>
    obtain ⟨pool, hpool, hwinds⟩ := h.pool
    exact absurd hrunning (Store.Closed.not_running ⟨pool, hpool, hwinds.closed⟩)

theorem Shutting.stopped (h : Shutting p i rest m tr) (hm : m.Lawful) (halone : m.Alone p i)
    (halive : m.store.aborted = false) (hstopped : ¬ m.store.Running p) :
    Inevitable start (Concerns p i) (fun m' => m'.stackOf i = rest) m := by
  cases h with
  | asked _ hrunning _ => exact absurd hrunning hstopped
  | waiting _ hrunning _ => exact absurd hrunning hstopped
  | drained _ _ h _ =>
    obtain ⟨pool, hpool, hrunning, -⟩ := h.pool
    exact absurd ⟨pool, hpool, hrunning⟩ hstopped
  | winding _ hquiet h _ => exact h.inevitable hm halone halive hquiet.live

/-- From every reachable state in which a thread begins to shut down a running pool, with nobody else acting on the
pool until the call returns: it releases everything, for every order in which the tasks are released and whatever the
values do that are dropped with them. -/
theorem shutdown_releases_everything (mvs during : List (Move V J))
    (hcall : (({} : Machine V J).run start mvs).stackOf i = .shutdown p .check :: rest)
    (hrunning : (({} : Machine V J).run start mvs).store.Running p)
    (halone : ∀ k ≤ during.length, (({} : Machine V J).run start (mvs ++ during.take k)).Alone p i)
    (hgoing : ∀ k < during.length, (({} : Machine V J).run start (mvs ++ during.take k)).stackOf i ≠ rest) :
    let m := ({} : Machine V J).run start (mvs ++ during)
    let tr := ({} : Machine V J).trace start (mvs ++ during)
    (m.stackOf i = rest → ∃ e ∈ tr, ∃ d, e.thread = i ∧ e.frame = .shutdown p .close ∧ e.store.pools[p]? = some d ∧
      m.ReleasedAll start p d tr) ∧
    (m.stackOf i ≠ rest → m.store.aborted = false → m.Returns start p i rest) := by
  intro m tr
  simp only [run_append] at halone hgoing
  have hlaw := lawful_run start mvs
  have hshutting := shutting_run hlaw hcall hrunning (fun k hk => halone k (Nat.le_of_lt hk)) hgoing
  have halone' : (((({} : Machine V J).run start mvs)).run start during).Alone p i := by
    simpa using halone during.length (Nat.le_refl _)
  have hm : m = ((({} : Machine V J).run start mvs)).run start during := run_append ..
  have htr : tr = _ := trace_append ..
  have hnone : (({} : Machine V J).trace start mvs).filterMap (Taken.drops? p) = [] :=
    drops_eq_nil mvs fun hc => hc.not_running hrunning
  rw [hm, htr]
  refine ⟨fun hreturned => ?_, fun _ halive => ⟨fun hrunning hactive mvs' halone'' hother halive' => ?_,
    hshutting.stopped (hlaw.run during) halone' halive⟩⟩
  · obtain ⟨e, he, d, pool, hthread, hframe, hd, hquiet, hpool, hreleased, hdrops, hentries, hended⟩ :=
      hshutting.returned hreturned
    refine ⟨e, List.mem_append_right _ he, d, hthread, hframe, hd, hquiet, ⟨pool, hpool, hreleased⟩, ?_, hentries,
      fun later => ?_⟩
    · rw [List.filterMap_append, hnone]
      exact hdrops
    · have hbelow := hlaw.stacked.below_check hcall
      have hshut : Shut p pool (((({} : Machine V J).run start mvs).run start during).run start later) :=
        (halone'.shut hpool hended (hreturned.symm ▸ hbelow)).run (hlaw.run during).scheduled.framed hreleased.closed
          hreleased.ended later
      exact ⟨hshut.pool.trans hpool.symm, Frame.refuses hshut.pool hreleased.closed hreleased.ended⟩
  · exact ((hshutting.free (hlaw.run during) halone' halive hrunning hactive).run (hlaw.run during) mvs' halone''
      hother).canStep halive'

/-- All other threads are workers of the pool, and none of them shuts anything down. -/
theorem alone_of_workers (h : ∀ j < m.threads.size, j ≠ i →
    ((m.threads[j]?.bind (·.worker)).map (·.1) = some p ∧ ∀ f ∈ m.stackOf j, f.shutsDown = false)) : m.Alone p i := by
  intro j th hj hji f hf _
  obtain ⟨hworker, hstack⟩ := h j (Array.getElem?_eq_some_iff.1 hj).1 hji
  rw [hj, Option.bind_some] at hworker
  obtain ⟨⟨q, w⟩, hw, rfl⟩ := Option.map_eq_some_iff.1 hworker
  refine ⟨⟨w, hw⟩, fun phase hphase => ?_⟩
  have := hstack f (stackOf_eq hj ▸ hf)
  rw [hphase] at this
  cases this

/-- A job that waits for the first cell, with a guard that fills the second one when it is dropped, or a job that waits
for the second cell. -/
def guardOrWait : Bool → Except RuntimeError (Body Nat Bool)
  | true => .ok (.guard { label := "guard", fill := some (1, 7) } (.get 0 none fun _ => .done (.ok ())))
  | false => .ok (.get 1 none fun _ => .done (.ok ()))

/-- A pool with one worker starts, and someone spawns a job of each kind and begins to shut the pool down. -/
def askingMoves : List (Move Nat Bool) :=
  .startPool {} :: .enter (.newCell fun _ => .newCell fun _ => .spawn (some 0) true fun _ =>
    .spawn (some 0) false fun _ => .shutdown 0 (.done (.ok ()))) :: List.replicate 21 (.step 1 0)

/-- The worker parks both tasks, the call stops the pool, the worker ends, and the call goes on to its end. -/
def shuttingMoves : List (Move Nat Bool) :=
  List.replicate 25 (.step 0 0) ++ List.replicate 3 (.step 1 0) ++ List.replicate 3 (.step 0 0) ++
    List.replicate 21 (.step 1 0)

set_option maxRecDepth 8000 in
/-- The guard that is dropped with the first task wakes the second one, which is waiting for its release. -/
theorem shutdown_releases_woken :
    let m := ({} : Machine Nat Bool).run guardOrWait (askingMoves ++ shuttingMoves)
    let tr := ({} : Machine Nat Bool).trace guardOrWait (askingMoves ++ shuttingMoves)
    (tr.filterMap (Taken.drops? 0)).length = 2 ∧ ∃ e ∈ tr, ∃ d, e.thread = 1 ∧ e.frame = .shutdown 0 .close ∧
      e.store.pools[0]? = some d ∧ m.ReleasedAll guardOrWait 0 d tr := by
  have hcall : (({} : Machine Nat Bool).run guardOrWait askingMoves).stackOf 1 =
      [.shutdown 0 .check, .run { party := .outside, body := .done (.ok ()) }] := by
    rw [askingMoves, run_startPool startError?_default]
    rfl
  have hrunning : (({} : Machine Nat Bool).run guardOrWait askingMoves).store.Running 0 := by
    rw [askingMoves, run_startPool startError?_default]
    exact ⟨_, rfl, rfl⟩
  have halone : ∀ k ≤ shuttingMoves.length,
      (({} : Machine Nat Bool).run guardOrWait (askingMoves ++ shuttingMoves.take k)).Alone 0 1 := by
    intro k hk
    refine alone_of_workers ?_
    rw [askingMoves, List.cons_append, run_startPool startError?_default]
    revert k
    decide +kernel
  have hgoing : ∀ k < shuttingMoves.length,
      (({} : Machine Nat Bool).run guardOrWait (askingMoves ++ shuttingMoves.take k)).stackOf 1 ≠
        [.run { party := .outside, body := .done (.ok ()) }] := by
    have hlength : ∀ k < shuttingMoves.length,
        ((({} : Machine Nat Bool).run guardOrWait (askingMoves ++ shuttingMoves.take k)).stackOf 1).length ≠ 1 := by
      intro k hk
      rw [askingMoves, List.cons_append, run_startPool startError?_default]
      revert k
      decide +kernel
    exact fun k hk heq => hlength k hk (congrArg List.length heq)
  have hreturned : (({} : Machine Nat Bool).run guardOrWait (askingMoves ++ shuttingMoves)).stackOf 1 =
      [.run { party := .outside, body := .done (.ok ()) }] := by
    simp only [run_append] at halone hgoing
    have hsuffix := (shutting_run (lawful_run guardOrWait askingMoves) hcall hrunning
      (fun k hk => halone k (Nat.le_of_lt hk)) hgoing).suffix
    rw [← run_append] at hsuffix
    refine (hsuffix.eq_of_length ?_).symm
    rw [askingMoves, List.cons_append, run_startPool startError?_default]
    decide +kernel
  refine ⟨?_, (shutdown_releases_everything askingMoves shuttingMoves hcall hrunning halone hgoing).1 hreturned⟩
  rw [askingMoves, List.cons_append, trace_startPool startError?_default]
  decide +kernel

/-- A thread begins to spawn a job and sees that the pool runs. Another thread shuts the pool down, from the first step
of its call to the last. Then the first thread goes on. -/
def racingMoves : List (Move Nat Bool) :=
  .startPool {} :: .enter (.spawn (some 0) false fun _ => .done (.ok ())) ::
    .enter (.shutdown 0 (.done (.ok ()))) :: (List.replicate 2 (.step 1 0) ++ List.replicate 4 (.step 2 0) ++
      List.replicate 2 (.step 0 0) ++ List.replicate 9 (.step 2 0) ++ List.replicate 10 (.step 1 0))

-- With others acting on the pool meanwhile the conclusion fails: both calls have returned and the worker has ended, but
-- the new task is in the registry of the stopped pool and all three counters count it.
example : (({} : Machine Nat Bool).run guardOrWait racingMoves).threads.all (·.stack.isEmpty) ∧
    (({} : Machine Nat Bool).run guardOrWait racingMoves).store.pools[0]?.map (fun pool =>
      (pool.running, pool.registry, pool.queued, pool.active, pool.live)) = some (false, [0], 1, 1, 1) := by
  rw [racingMoves, run_startPool startError?_default]
  decide +kernel

end Machine
end Dataflow
