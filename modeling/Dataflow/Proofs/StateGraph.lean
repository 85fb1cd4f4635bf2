import Dataflow.Proofs.Desertion

/-!
# The state graph of a task

Three stores set a task's state without a look at what is there: a worker that finds it cannot park a task queues it
again, a worker that comes to the end of a body sets its final state, and a shutdown releases what is left. What they
overwrite depends on who else may change the state at that point. A worker has in hand a task that is being polled,
and about to queue it again one that was woken meanwhile (`Machine.InHand`), whether or not its pool is open, since by
the time tasks are released no worker is left. A shutdown has on its list only tasks that have not ended: a task is
listed or in the registry once at most (`Machine.Filed`), and one that has ended is on no list and is about to leave the
registry (`Machine.Dismissed`).

So every change of a state is an edge of the graph, at every single step of every run (`Machine.state_graph`).
-/

namespace Dataflow

variable {V J : Type}

/-- How often the registry has the task. -/
def Store.enlisted (s : Store V J) (p : PoolId) (t : TaskId) : Nat :=
  match s.task? p t with
  | some x => if x.registered then 1 else 0
  | none => 0

namespace Frame

/-- The edges of the graph: the steps that change the state of a task, with the states before and after. -/
inductive Shifts (p : PoolId) (t : TaskId) : Frame V J → TaskState → TaskState → Prop where
  | claim : Shifts p t (.task p t .claim) .queued .running
  | notify : Shifts p t (.exchange p t .running .notified) .running .notified
  | park : Shifts p t (.task p t .park) .running .suspended
  | wake : Shifts p t (.exchange p t .suspended .queued) .suspended .queued
  | requeue : Shifts p t (.task p t .requeue) .notified .queued
  | complete {outcome : Outcome} {x : TaskState} (hx : x = .running ∨ x = .notified)
      (houtcome : finalState outcome = .completed) : Shifts p t (.task p t (.settle outcome)) x .completed
  | fail {outcome : Outcome} {x : TaskState} (hx : x = .running ∨ x = .notified)
      (houtcome : finalState outcome = .failed) : Shifts p t (.task p t (.settle outcome)) x .failed
  | release {x : TaskState} (hx : x.isTerminal = false) : Shifts p t (.task p t .abandon) x .failed

/-- The step stores a state, whatever the one before was. -/
def Overwrites (p : PoolId) (t : TaskId) (f : Frame V J) : Prop :=
  f = .task p t .requeue ∨ (∃ outcome, f = .task p t (.settle outcome)) ∨ f = .task p t .abandon

variable {p : PoolId} {t : TaskId} {f g : Frame V J} {worker : Option (PoolId × Nat)} {s : Store V J} {x : Task V J}
  {start : J → Except RuntimeError (Body V J)} {choice : Nat}

/-- A step that compares before it stores takes an edge, or leaves the state as it is. -/
theorem shifts_alter (hok : f.Ok worker s) (hf : ¬ f.Overwrites p t) :
    (f.alter p t x).state = x.state ∨ f.Shifts p t x.state (f.alter p t x).state := by
  cases f with
  | pause r =>
    left
    simp only [alter]
    split <;> rfl
  | exchange q u seen target =>
    have htarget : seen.wakeTarget? = some target := hok
    simp only [alter]
    split
    · rename_i hseen
      obtain ⟨rfl, rfl, rfl⟩ := hseen
      right
      cases hstate : x.state with
      | running =>
        rw [hstate] at htarget
        cases htarget
        exact .notify
      | suspended =>
        rw [hstate] at htarget
        cases htarget
        exact .wake
      | _ =>
        rw [hstate] at htarget
        cases htarget
    · exact .inl rfl
  | task q u phase =>
    simp only [alter]
    split
    · rename_i hq
      obtain ⟨rfl, rfl⟩ := hq
      cases phase with
      | claim =>
        simp only [TaskPhase.alter]
        split
        · rename_i hstate
          rw [hstate]
          exact .inr .claim
        · exact .inl rfl
      | park =>
        simp only [TaskPhase.alter]
        split
        · rename_i hstate
          rw [hstate]
          exact .inr .park
        · exact .inl rfl
      | requeue => exact absurd (.inl rfl) hf
      | settle outcome => exact absurd (.inr (.inl ⟨outcome, rfl⟩)) hf
      | abandon => exact absurd (.inr (.inr rfl)) hf
      | _ => exact .inl rfl
    · exact .inl rfl
  | shutdown q phase =>
    left
    cases phase with
    | collect =>
      simp only [alter]
      split <;> rfl
    | _ => rfl
  | _ => exact .inl rfl

/-- No edge leaves a final state. -/
theorem Shifts.isTerminal_eq_false {a b : TaskState} (h : f.Shifts p t a b) : a.isTerminal = false := by
  cases h with
  | complete hx houtcome | fail hx houtcome => rcases hx with rfl | rfl <;> rfl
  | release hx => exact hx
  | _ => rfl

/-! ### What a worker has in hand -/

/-- A task stays in hand if others take their steps, or its worker does before it parks the task, queues it again or
ends it. -/
theorem isPolled_alter (hok : f.Ok worker s) (hx : x.IsPolled) (hpark : f ≠ .task p t .park)
    (hrequeue : f ≠ .task p t .requeue) (hsettle : ∀ outcome, f ≠ .task p t (.settle outcome))
    (habandon : f ≠ .task p t .abandon) :
    (f.alter p t x).IsPolled ∧ (x.state = .notified → (f.alter p t x).state = .notified) := by
  cases f with
  | pause r =>
    simp only [alter]
    split <;> exact ⟨hx, id⟩
  | exchange q u seen target =>
    have htarget : seen.wakeTarget? = some target := hok
    simp only [alter]
    split
    · rename_i hseen
      obtain ⟨-, -, rfl⟩ := hseen
      rcases hx with hstate | hstate
      · rw [hstate] at htarget ⊢
        cases htarget
        exact ⟨.inr rfl, fun _ => rfl⟩
      · rw [hstate] at htarget
        cases htarget
    · exact ⟨hx, id⟩
  | task q u phase =>
    simp only [alter]
    split
    · rename_i hq
      obtain ⟨rfl, rfl⟩ := hq
      cases phase with
      | claim =>
        have hstate : x.state ≠ .queued := by
          rintro hqueued
          rcases hx with h | h <;> rw [hqueued] at h <;> cases h
        simp only [TaskPhase.alter, if_neg hstate]
        exact ⟨hx, id⟩
      | park => exact absurd rfl hpark
      | requeue => exact absurd rfl hrequeue
      | settle outcome => exact absurd rfl (hsettle outcome)
      | abandon => exact absurd rfl habandon
      | _ => exact ⟨hx, id⟩
    · exact ⟨hx, id⟩
  | shutdown q phase =>
    cases phase with
    | collect =>
      simp only [alter]
      split <;> exact ⟨hx, id⟩
    | _ => exact ⟨hx, id⟩
  | _ => exact ⟨hx, id⟩

/-- Who queues a task again did not get to park it. -/
theorem requeue_mem_step (hg : .task p t .requeue ∈ (f.step start worker choice s).2) :
    f = .task p t .park ∧ ∃ x, s.task? p t = some x ∧ x.state ≠ .running := by
  have quiet : ∀ {g : Frame V J}, g = .task p t .requeue → ¬ g.IsQuiet := by
    rintro g rfl
    exact id
  by_cases hpark : f = .task p t .park
  · subst hpark
    refine ⟨rfl, ?_⟩
    simp only [step, stepTask] at hg
    split at hg
    · cases hg
    · rename_i x hx
      refine ⟨x, hx, fun hstate => ?_⟩
      simp [TaskState.exchange, hstate] at hg
  · have hgives := gives_step start worker choice s f
    generalize (f.step start worker choice s).2 = fs at hgives hg
    cases hgives with
    | @run r =>
      obtain ⟨quiets, g', hfs, hquiet, hg'⟩ := stepRun_frames worker s r
      rw [hfs] at hg
      rcases List.mem_append.1 hg with hg | hg
      · exact (quiet rfl (hquiet _ hg)).elim
      · exact (List.mem_singleton.1 hg ▸ hg' : CarriesOn r (.task p t .requeue)).elim
    | drop hfs => rcases hfs _ hg with ⟨_, _, h⟩ | ⟨_, h⟩ <;> cases h
    | fill => exact (quiet rfl (isQuiet_afterPut hg)).elim
    | discarded guards body => exact (quiet rfl (isQuiet_dropPending hg)).elim
    | @notified q u =>
      have hq : p = q ∧ t = u := by simpa using hg
      exact absurd (by rw [hq.1, hq.2]) hpark
    | _ => simp at hg

/-- After it was parked, or queued again, nobody has the task in hand but who queues it again. -/
theorem works_park (hg : g ∈ ((.task p t .park : Frame V J).step start worker choice s).2) (hw : g.Works p t) :
    g = .task p t .requeue := by
  simp only [step, stepTask] at hg
  split at hg
  · cases hg
  · split at hg
    · simp only [List.mem_cons, List.not_mem_nil, or_false] at hg
      rcases hg with rfl | rfl <;> simp [Works, Polls] at hw
    · exact List.mem_singleton.1 hg

theorem not_works_requeue (hg : g ∈ ((.task p t .requeue : Frame V J).step start worker choice s).2) :
    ¬ g.Works p t := by
  obtain rfl : g = .task p t .enqueue := List.mem_singleton.1 hg
  simp [Works, Polls]

/-! ### Lists of tasks to release -/

/-- How often the frame is about to enter the task into the registry, or has it on its list of tasks to release. -/
def enlists (p : PoolId) (t : TaskId) : Frame V J → Nat
  | .task q u .register | .task q u .abandon => if q = p ∧ u = t then 1 else 0
  | .shutdown q (.release ts) => if q = p then ts.count t else 0
  | _ => 0

/-- Nothing but a call enters a task into the registry. -/
theorem registered_alter (hy : (f.alter p t x).registered = true) :
    (x.registered = true ∧ f ≠ .task p t .unregister ∧ f ≠ .shutdown p .collect) ∨ f = .task p t .register := by
  cases f with
  | pause r => simp only [alter] at hy; split at hy <;> exact .inl ⟨hy, by simp⟩
  | exchange q u seen target => simp only [alter] at hy; split at hy <;> exact .inl ⟨hy, by simp⟩
  | task q u phase =>
    simp only [alter] at hy
    split at hy
    · rename_i hq
      obtain ⟨rfl, rfl⟩ := hq
      cases phase with
      | register => exact .inr rfl
      | unregister => cases hy
      | claim | park => simp only [TaskPhase.alter] at hy; split at hy <;> exact .inl ⟨hy, by simp⟩
      | _ => exact .inl ⟨hy, by simp⟩
    · rename_i hq
      refine .inl ⟨hy, fun h => hq ?_, by simp⟩
      cases h
      exact ⟨rfl, rfl⟩
  | shutdown q phase =>
    cases phase with
    | collect =>
      simp only [alter] at hy
      split at hy
      · cases hy
      · rename_i hq
        refine .inl ⟨hy, by simp, fun h => hq ?_⟩
        cases h
        rfl
    | _ => exact .inl ⟨hy, by simp⟩
  | _ => exact .inl ⟨hy, by simp⟩

theorem IsQuiet.enlists_eq_zero (h : f.IsQuiet) : f.enlists p t = 0 := by
  cases f with
  | shutdown q phase => cases phase <;> first | rfl | exact h.elim
  | task q u phase => exact h.elim
  | _ => rfl

theorem CarriesOn.enlists_eq_zero {r : Run V J} (h : f.CarriesOn r) : f.enlists p t = 0 := by
  cases f <;> first | rfl | exact h.elim

/-- Who is on a list is about to enter the registry, or to be released. -/
theorem register_or_clears (h : f.enlists p t ≠ 0) : f = .task p t .register ∨ f.Clears p := by
  cases f with
  | task q u phase =>
    cases phase with
    | register =>
      have hq : q = p ∧ u = t := by simpa [enlists] using h
      exact .inl (by rw [hq.1, hq.2])
    | abandon =>
      have hq : q = p ∧ u = t := by simpa [enlists] using h
      exact .inr hq.1
    | _ => exact absurd rfl h
  | shutdown q phase =>
    cases phase with
    | release ts =>
      refine .inr ?_
      by_contra hq
      exact h (if_neg hq)
    | _ => exact absurd rfl h
  | _ => exact absurd rfl h

theorem sum_enlists_eq_zero {fs : List (Frame V J)} (h : ∀ g ∈ fs, g.enlists p t = 0) :
    (fs.map (enlists p t)).sum = 0 := by
  refine List.sum_eq_zero fun n hn => ?_
  obtain ⟨g, hg, rfl⟩ := List.mem_map.1 hn
  exact h g hg

/-- Lists change hands, but for the task that is made and the registry that is taken over. -/
theorem sum_enlists_step (hmade : ∀ job next, f ≠ .spawn p job .number next) (hcollect : f ≠ .shutdown p .collect) :
    ((f.step start worker choice s).2.map (enlists p t)).sum ≤ f.enlists p t := by
  have none : ∀ {fs : List (Frame V J)}, (∀ g ∈ fs, g.enlists p t = 0) →
      (fs.map (enlists p t)).sum ≤ f.enlists p t := fun h => by
    rw [sum_enlists_eq_zero h]
    exact Nat.zero_le _
  by_cases hrelease : ∃ q ts, f = .shutdown q (.release ts)
  · obtain ⟨q, ts, rfl⟩ := hrelease
    cases ts with
    | nil => exact Nat.zero_le _
    | cons u ts =>
      simp only [step, stepShutdown]
      generalize hchosen : ((u :: ts)[choice % (ts.length + 1)]?).getD u = chosen
      have hmem : chosen ∈ u :: ts := by
        have hlt : choice % (ts.length + 1) < (u :: ts).length := Nat.mod_lt _ (Nat.succ_pos _)
        rw [List.getElem?_eq_getElem hlt, Option.getD_some] at hchosen
        exact hchosen ▸ List.getElem_mem hlt
      by_cases hq : q = p
      · subst hq
        have hcount : (u :: ts).count t = ((u :: ts).erase chosen).count t + if chosen == t then 1 else 0 := by
          rw [(List.perm_cons_erase hmem).count_eq t, List.count_cons]
        by_cases hc : chosen = t
        · simp only [hc, List.map_cons, List.map_nil, List.sum_cons, List.sum_nil, enlists, and_self, if_true,
            beq_self_eq_true] at hcount ⊢
          omega
        · simp only [hc, List.map_cons, List.map_nil, List.sum_cons, List.sum_nil, enlists, and_false, if_false,
            if_true, beq_iff_eq] at hcount ⊢
          omega
      · simp [enlists, hq]
  · have hgives := gives_step start worker choice s f
    generalize (f.step start worker choice s).2 = fs at hgives ⊢
    cases hgives with
    | @run r =>
      obtain ⟨quiet, g, hfs, hquiet, hg⟩ := stepRun_frames worker s r
      refine none fun g' hg' => ?_
      rw [hfs] at hg'
      rcases List.mem_append.1 hg' with hg' | hg'
      · exact (hquiet g' hg').enlists_eq_zero
      · exact List.mem_singleton.1 hg' ▸ hg.enlists_eq_zero
    | drop hfs =>
      refine none fun g hg => ?_
      rcases hfs g hg with ⟨c, value, rfl⟩ | ⟨guards, rfl⟩ <;> rfl
    | fill => exact none fun g hg => (isQuiet_afterPut hg).enlists_eq_zero
    | discarded guards body => exact none fun g hg => (isQuiet_dropPending hg).enlists_eq_zero
    | @made q job next u =>
      have hq : q ≠ p := fun hq => hmade job next (by rw [hq])
      exact none (by simp [enlists, hq])
    | joined n => exact none (by simp [enlists, or_imp, forall_and])
    | @collected q tasks =>
      have hq : q ≠ p := fun hq => hcollect (by rw [hq])
      exact none (by simp [enlists, hq])
    | chosen u tasks => exact absurd ⟨_, _, rfl⟩ hrelease
    | _ => exact none (by simp [enlists])

/-- Whoever takes over the registry has each of its tasks on his list once. -/
theorem sum_enlists_collect :
    (((.shutdown p .collect : Frame V J).step start worker choice s).2.map (enlists p t)).sum = s.enlisted p t := by
  unfold Store.enlisted
  cases hpool : s.pools[p]? with
  | none => simp [step, stepShutdown, hpool, Store.task?_eq]
  | some pool =>
    have hnodup : pool.registry.Nodup := List.nodup_range.filter _
    rw [Store.task?_eq, hpool]
    cases hget : pool.tasks[t]? with
    | none =>
      have hmem : t ∉ pool.registry := by
        rw [Pool.mem_registry, hget]
        simp
      simp [step, stepShutdown, hpool, hget, enlists, List.count_eq_zero.2 hmem]
    | some x =>
      have hmem : t ∈ pool.registry ↔ x.registered = true := by
        rw [Pool.mem_registry, hget]
        simp
      simp [step, stepShutdown, hpool, hget, enlists, hnodup.count, hmem]

/-- A task that is made is about to enter the registry. -/
theorem sum_enlists_made (start : J → Except RuntimeError (Body V J)) (worker : Option (PoolId × Nat)) (choice : Nat)
    (s : Store V J) (job : J) (next : Except RuntimeError TaskId → Run V J) :
    (((.spawn p job .number next : Frame V J).step start worker choice s).2.map (enlists p t)).sum = 0 ∨
      (((.spawn p job .number next : Frame V J).step start worker choice s).2.map (enlists p t)).sum = 1 ∧
        s.task? p t = none ∧ (((.spawn p job .number next : Frame V J).step start worker choice s).1.task? p t).isSome := by
  cases hpool : s.pools[p]? with
  | none => simp [step, stepSpawn, hpool, enlists]
  | some pool =>
    by_cases ht : pool.tasks.size = t
    · subst ht
      simp [step, stepSpawn, hpool, enlists, Store.task?_eq, Store.pools_modifyPool]
    · simp [step, stepSpawn, hpool, enlists, ht]

end Frame

namespace Machine

variable {start : J → Except RuntimeError (Body V J)} {m : Machine V J} {p : PoolId} {t : TaskId}

/-- What a worker has in hand is being polled, and was woken meanwhile if he is about to queue it again. -/
def InHand (m : Machine V J) : Prop :=
  m.AllFrames fun _ f => ∀ p t, f.Works p t →
    ∃ y, m.store.task? p t = some y ∧ y.IsPolled ∧ (f = .task p t .requeue → y.state = .notified)

theorem InHand.after (hm : m.Scheduled) (hvacated : m.Vacated) (h : m.InHand) (mv : Move V J) :
    (m.after start mv).InHand := by
  rcases after_cases start m mv with ⟨harrival, -⟩ | ⟨i, choice, worker, f, rest, hi, -, heq⟩
  · refine harrival.allFrames (hm.framed.after mv) (h.mono fun worker f hf p t hw => ?_)
      (by simp [Frame.Works, Frame.Polls]) (fun f hf p t hw => absurd hw hf.not_works)
      fun r hr p t hw => by simp [Frame.Works, Frame.Polls, hr] at hw
    rw [harrival.task?]
    exact hf p t hw
  · rw [heq]
    have hmem : f ∈ f :: rest := List.mem_cons_self ..
    have hok := hm.framed.frames i _ hi f hmem
    refine AllFrames.of_pop ?_ hi ?_ _
    · intro j th hj g hg p t hw
      obtain ⟨x, hx, hpolled, hnotified⟩ := h.pop hi j th hj g hg p t hw
      -- a step that holds the task as a worker does would be a second one with the task in hand
      have other : f.holds worker p t ≠ 0 → False := fun hholds =>
        hw.holds_ne_zero _ (holds_eq_zero_of_pop (hm.sound p t) hi hholds j th hj g hg)
      obtain ⟨hpolled', hnotified'⟩ := Frame.isPolled_alter (f := f) (p := p) (t := t) hok hpolled
        (by rintro rfl; exact other (by simp [Frame.holds])) (by rintro rfl; exact other (by simp [Frame.holds]))
        (by rintro outcome rfl; exact other (by simp [Frame.holds]))
        (by rintro rfl; exact ((hvacated i _ hi _ hmem p rfl).not_works hm.framed t).pop hi j th hj g hg hw)
      exact ⟨_, Frame.task?_step _ _ _ _ hx, hpolled', fun hg => hnotified' (hnotified hg)⟩
    · intro g hg p t hw
      rcases Frame.works_step hok hg hw with ⟨hwf, hsettle⟩ | ⟨rfl, x, hx, hstate⟩
      · obtain ⟨x, hx, hpolled, -⟩ := h i _ hi f hmem p t hwf
        refine ⟨_, Frame.task?_step _ _ _ _ hx, ?_⟩
        by_cases hpark : f = .task p t .park
        · subst hpark
          obtain rfl := Frame.works_park hg hw
          obtain ⟨-, z, hz, hne⟩ := Frame.requeue_mem_step hg
          rw [hx] at hz
          cases hz
          have hsame : Frame.alter p t (.task p t .park) x = x := by simp [Frame.alter, TaskPhase.alter, hne]
          rw [hsame]
          exact ⟨hpolled, fun _ => hpolled.resolve_left hne⟩
        · have hrequeue : f ≠ .task p t .requeue := by
            rintro rfl
            exact Frame.not_works_requeue hg hw
          have habandon : f ≠ .task p t .abandon := by
            rintro rfl
            simp [Frame.Works, Frame.Polls] at hwf
          refine ⟨(Frame.isPolled_alter hok hpolled hpark hrequeue hsettle habandon).1, ?_⟩
          rintro rfl
          exact absurd (Frame.requeue_mem_step hg).1 hpark
      · refine ⟨_, Frame.task?_step _ _ _ _ hx, ?_, ?_⟩
        · left
          simp [Frame.alter, TaskPhase.alter, hstate]
        · rintro rfl
          cases (Frame.requeue_mem_step hg).1

/-- A task is in the registry or on a list of someone once at most, and one that was not made is on none. -/
def Filed (m : Machine V J) : Prop :=
  ∀ p t, (m.frameSum fun _ f => f.enlists p t) + m.store.enlisted p t ≤ if (m.store.task? p t).isSome then 1 else 0

/-- Lists change hands; the registry is taken over as it is, and a task that is made comes in once. -/
theorem enlists_cases (start : J → Except RuntimeError (Body V J)) (worker : Option (PoolId × Nat)) (choice : Nat)
    (s : Store V J) (f : Frame V J) (p : PoolId) (t : TaskId) {n : Nat}
    (hn : ((f.step start worker choice s).2.map (Frame.enlists p t)).sum = n) :
    n ≤ f.enlists p t ∧ f ≠ .shutdown p .collect ∨ f = .shutdown p .collect ∧ n = s.enlisted p t ∨
      n = 1 ∧ s.task? p t = none ∧ ((f.step start worker choice s).1.task? p t).isSome := by
  subst hn
  by_cases hcollect : f = .shutdown p .collect
  · subst hcollect
    exact .inr (.inl ⟨rfl, Frame.sum_enlists_collect⟩)
  by_cases hmade : ∃ job next, f = .spawn p job .number next
  · obtain ⟨job, next, rfl⟩ := hmade
    rcases Frame.sum_enlists_made start worker choice s job next with hzero | hone
    · exact .inl ⟨hzero.trans_le (Nat.zero_le _), hcollect⟩
    · exact .inr (.inr hone)
  · exact .inl ⟨Frame.sum_enlists_step (fun job next hf => hmade ⟨job, next, hf⟩) hcollect, hcollect⟩

theorem Scheduled.enlists_step (start : J → Except RuntimeError (Body V J)) (hm : m.Scheduled) {i : Nat}
    (choice : Nat) {worker : Option (PoolId × Nat)} {f : Frame V J}
    {rest : List (Frame V J)} (hi : m.threads[i]? = some ⟨worker, f :: rest⟩) (p : PoolId) (t : TaskId) :
    ((f.step start worker choice m.store).2.map (Frame.enlists p t)).sum +
        (f.step start worker choice m.store).1.enlisted p t + (if (m.store.task? p t).isSome then 1 else 0) ≤
      f.enlists p t + m.store.enlisted p t +
        if ((f.step start worker choice m.store).1.task? p t).isSome then 1 else 0 := by
  generalize hsum : ((f.step start worker choice m.store).2.map (Frame.enlists p t)).sum = n
  have hcases := enlists_cases start worker choice m.store f p t hsum
  cases hx : m.store.task? p t with
  | none =>
    have hentry : m.store.enlisted p t = 0 := by
      unfold Store.enlisted
      rw [hx]
    cases hy : (f.step start worker choice m.store).1.task? p t with
    | none =>
      have hentry' : (f.step start worker choice m.store).1.enlisted p t = 0 := by
        unfold Store.enlisted
        rw [hy]
      rw [hx, hy] at hcases
      simp only [Option.isSome_none, Bool.false_eq_true, and_false, or_false, if_false] at hcases ⊢
      omega
    | some y =>
      obtain ⟨⟨job, rfl⟩, -⟩ := hm.made_step hi hx hy
      have hentry' : (f.step start worker choice m.store).1.enlisted p t = 0 := by
        unfold Store.enlisted
        rw [hy]
        rfl
      simp only [Option.isSome_none, Option.isSome_some, Bool.false_eq_true, if_false, if_true]
      omega
  | some x =>
    have hy := Frame.task?_step start worker choice f hx
    rw [hx] at hcases
    simp only [hy, reduceCtorEq, false_and, and_false, or_false, Option.isSome_some, if_true] at hcases ⊢
    unfold Store.enlisted at hcases ⊢
    rw [hx] at hcases
    rw [hx, hy]
    dsimp only at hcases ⊢
    cases hregistered : (f.alter p t x).registered with
    | false =>
      simp only [Bool.false_eq_true, if_false]
      omega
    | true =>
      rcases Frame.registered_alter hregistered with ⟨hbefore, -, hcollect⟩ | rfl
      · simp only [hbefore, if_true] at hcases ⊢
        have hle := (hcases.resolve_right fun h => hcollect h.1).1
        omega
      · -- the entry comes from the frame
        have hzero : n = 0 := by
          rw [← hsum]
          simp [Frame.step, Frame.stepTask]
        have hone : (Frame.task p t .register : Frame V J).enlists p t = 1 := by simp [Frame.enlists]
        simp only [if_true]
        omega

theorem Filed.after (hm : m.Scheduled) (h : m.Filed) (mv : Move V J) : (m.after start mv).Filed := by
  intro p t
  rcases after_cases start m mv with ⟨harrival, -⟩ | ⟨i, choice, worker, f, rest, hi, -, heq⟩
  · have hsame : ((m.after start mv).frameSum fun _ f => f.enlists p t) = m.frameSum fun _ f => f.enlists p t := by
      generalize m.after start mv = m' at harrival ⊢
      cases harrival with
      | nobody => rfl
      | workers config => exact frameSum_addPool (fun _ => rfl) m config
      | @outsider s frames hpools hframes =>
        have hzero : (frames.map (Frame.enlists p t)).sum = 0 := by
          refine Frame.sum_enlists_eq_zero fun g hg => ?_
          rcases hframes g hg with hquiet | ⟨r, rfl⟩
          · exact hquiet.enlists_eq_zero
          · rfl
        rw [frameSum_spawnThread, hzero, add_zero]
        rfl
    unfold Store.enlisted
    rw [hsame, harrival.task?]
    exact h p t
  · obtain ⟨others, hbefore, hafter⟩ := frameSum_set (fun _ f => Frame.enlists p t f) hi
    have hstep := hm.enlists_step start choice hi p t
    have hold := h p t
    rw [hbefore] at hold
    rw [heq, hafter]
    show (List.map (Frame.enlists p t) _).sum + others + (f.step start worker choice m.store).1.enlisted p t ≤
      if ((f.step start worker choice m.store).1.task? p t).isSome then 1 else 0
    omega

/-- The end of a task is booked by a worker of its pool. -/
def Homed (m : Machine V J) : Prop :=
  m.AllFrames fun worker f => ∀ p t, f.EndsEntry p t → ∃ w, worker = some (p, w)

theorem Homed.after (hm : m.Framed) (h : m.Homed) (mv : Move V J) : (m.after start mv).Homed := by
  rcases after_cases start m mv with ⟨harrival, -⟩ | ⟨i, choice, worker, f, rest, hi, -, heq⟩
  · refine harrival.allFrames (hm.after mv) h (by simp [Frame.EndsEntry]) (fun f hf p t hends => ?_)
      (by simp [Frame.EndsEntry])
    rcases hends with ⟨outcome, rfl⟩ | rfl <;> exact hf.elim
  · rw [heq]
    have hmem : f ∈ f :: rest := List.mem_cons_self ..
    refine AllFrames.of_pop (h.pop hi) hi ?_ _
    intro g hg p t hends
    rcases Frame.endsEntry_step hg hends with hends | ⟨outcome, rfl⟩
    · exact h i _ hi f hmem p t hends
    · exact hm.frames i _ hi _ hmem

/-- A task that has ended is on nobody's list, and if the registry has it, a worker is about to strike it out. -/
def Dismissed (m : Machine V J) : Prop :=
  ∀ p t y, m.store.task? p t = some y → y.state.isTerminal = true →
    (m.AllFrames fun _ f => f.enlists p t = 0) ∧
      (y.registered = true → m.store.aborted = false → m.Pending (Frame.EndsEntry p t))

/-- Of a task whose body is at its end nobody has the release on his list. -/
theorem enlists_eq_zero_of_settle (hm : m.Scheduled) (henrolling : m.Enrolling) (hvacated : m.Vacated) {i : Nat}
    {worker : Option (PoolId × Nat)} {outcome : Outcome} {rest : List (Frame V J)}
    (hi : m.threads[i]? = some ⟨worker, .task p t (.settle outcome) :: rest⟩) :
    m.AllFrames fun _ f => f.enlists p t = 0 := by
  have hworks : (Frame.task p t (.settle outcome) : Frame V J).Works p t := by simp [Frame.Works]
  have occupied : ¬ m.Deserted p := fun hdeserted =>
    hdeserted.not_works hm.framed t i _ hi _ (List.mem_cons_self ..) hworks
  intro j th hj g hg
  by_contra hne
  rcases Frame.register_or_clears hne with rfl | hclears
  -- who is about to enter it holds it
  · have henqueue := (henrolling j th hj).enqueue_mem hg
    have hother := holds_eq_zero_of_pop (hm.sound p t) hi (by simp [Frame.holds])
    by_cases hij : i = j
    · subst hij
      rw [hi] at hj
      cases hj
      have hmem : (.task p t .enqueue : Frame V J) ∈ rest := by simpa using henqueue
      have hzero := hother i _ (getElem?_setIfInBounds_self hi) _ hmem
      simp [Frame.holds] at hzero
    · have hzero := hother j th (by rw [Machine.pop, Array.getElem?_setIfInBounds_ne hij, hj]) _ henqueue
      simp [Frame.holds] at hzero
  · exact occupied (hvacated j th hj g hg p hclears)

theorem alive_of_taken {mv : Move V J} {e : Taken V J} (h : m.taken mv = some e) : m.store.aborted = false := by
  cases mv with
  | step i choice =>
    rcases m.after_step (fun _ => .error .poolShutDown) i choice with ⟨-, hnone⟩ | ⟨_, _, _, -, halive, -, -, -⟩
    · rw [hnone] at h
      cases h
    · exact halive
  | _ => cases h

theorem aborted_of_not_taken {mv : Move V J} (h : m.taken mv = none) :
    (m.after start mv).store.aborted = m.store.aborted := by
  cases mv with
  | step i choice =>
    rcases m.after_step start i choice with ⟨heq, -⟩ | ⟨_, _, _, -, -, -, htaken, -⟩
    · rw [heq]
    · rw [htaken] at h
      cases h
  | startPool config => rcases m.after_startPool start config with heq | heq <;> rw [heq]; rfl
  | enter body => rfl
  | poll | discard => simp only [Machine.after]; split <;> rfl

section step

variable {i choice : Nat} {worker : Option (PoolId × Nat)} {f : Frame V J} {rest : List (Frame V J)} {x : Task V J}

/-- Nobody gets a task on his list that is on none, unless he takes over a registry that has it. -/
theorem enlists_step_eq_zero (hx : m.store.task? p t = some x) (hzero : f.enlists p t = 0)
    (hcollect : f = .shutdown p .collect → x.registered = false) :
    ∀ g ∈ (f.step start worker choice m.store).2, g.enlists p t = 0 := by
  intro g hg
  have hle := List.le_sum_of_mem (List.mem_map_of_mem (f := Frame.enlists p t) hg)
  rcases enlists_cases start worker choice m.store f p t rfl with ⟨hsum, -⟩ | ⟨hf, hsum⟩ | ⟨-, hnone, -⟩
  · omega
  · have hentry : m.store.enlisted p t = 0 := by
      unfold Store.enlisted
      rw [hx]
      simp [hcollect hf]
    omega
  · rw [hx] at hnone
    cases hnone

/-- Who has booked the end of a task goes on to strike it out of the registry, unless the process ends. -/
theorem unregister_mem_step {outcome : Outcome} (hx : m.store.task? p t = some x)
    (halive : ((Frame.task p t (.tally outcome) : Frame V J).step start worker choice m.store).1.aborted = false) :
    .task p t .unregister ∈ ((Frame.task p t (.tally outcome) : Frame V J).step start worker choice m.store).2 := by
  obtain ⟨pool, hpool, -⟩ := Store.exists_pool_of_task? hx
  simp only [Frame.step, Frame.stepTask, hpool] at halive ⊢
  split
  · rename_i hfatal
    rw [if_pos hfatal] at halive
    cases halive
  · exact List.mem_cons_self ..

/-- Who releases a task was the only one to have it on his list, and the registry has it no more. -/
theorem Filed.abandon (h : m.Filed) (hi : m.threads[i]? = some ⟨worker, .task p t .abandon :: rest⟩)
    (hx : m.store.task? p t = some x) :
    ((m.pop i worker rest).AllFrames fun _ f => f.enlists p t = 0) ∧ x.registered = false := by
  obtain ⟨others, hbefore, hafter⟩ := frameSum_set (fun _ f => Frame.enlists p t f) hi
  have hold := h p t
  have hone : (Frame.task p t .abandon : Frame V J).enlists p t = 1 := by simp [Frame.enlists]
  have hentry : m.store.enlisted p t = if x.registered then 1 else 0 := by
    unfold Store.enlisted
    rw [hx]
  rw [hbefore, hone, hentry, hx, Option.isSome_some, if_pos rfl] at hold
  have hpop : (m.pop i worker rest).frameSum (fun _ f => Frame.enlists p t f) = 0 := by
    have hrest := hafter m.store []
    rw [List.nil_append, List.map_nil, List.sum_nil] at hrest
    show frameSum _ ⟨m.store, m.threads.setIfInBounds i ⟨worker, rest⟩⟩ = 0
    omega
  refine ⟨allFrames_of_frameSum_eq_zero hpop, ?_⟩
  cases hregistered : x.registered with
  | false => rfl
  | true =>
    rw [hregistered, if_pos rfl] at hold
    omega

end step

theorem Dismissed.after (hm : m.Scheduled) (htidy : m.Tidy) (hfiled : m.Filed) (hhomed : m.Homed) (h : m.Dismissed)
    (mv : Move V J) : (m.after start mv).Dismissed := by
  intro p t y hy hend
  cases htaken : m.taken mv with
  | none =>
    have harrival := arrival_of_not_taken start htaken
    rw [harrival.task?] at hy
    obtain ⟨hzero, hpending⟩ := h p t y hy hend
    refine ⟨harrival.allFrames (hm.framed.after mv) hzero (fun _ => rfl) (fun f hf => hf.enlists_eq_zero)
      fun _ _ => rfl, fun hregistered halive => harrival.pending (hpending hregistered ?_)⟩
    rwa [aborted_of_not_taken htaken] at halive
  | some e =>
    obtain ⟨i, worker, f, s⟩ := e
    obtain ⟨choice, rest, rfl, rfl, hi, heq⟩ := after_of_taken start htaken
    dsimp only at hi heq
    rw [heq] at hy ⊢
    have hmem : f ∈ f :: rest := List.mem_cons_self ..
    have hok := hm.framed.frames i _ hi f hmem
    cases hx : m.store.task? p t with
    | none =>
      obtain ⟨⟨job, rfl⟩, -⟩ := hm.made_step hi hx hy
      cases hend
    | some x =>
      rw [Frame.task?_step _ _ _ _ hx] at hy
      cases hy
      cases hbefore : x.state.isTerminal with
      | true =>
        obtain ⟨hzero, hpending⟩ := h p t x hx hbefore
        have hfzero : f.enlists p t = 0 := hzero i _ hi f hmem
        have pending : x.registered = true → m.Pending (Frame.EndsEntry p t) := fun hregistered =>
          hpending hregistered (alive_of_taken htaken)
        refine ⟨AllFrames.of_pop (hzero.pop hi) hi (enlists_step_eq_zero hx hfzero ?_) _,
          fun hregistered halive => ?_⟩
        · rintro rfl
          by_contra hregistered
          obtain ⟨j, th, hj, g, hg, hends⟩ := pending (by simpa using hregistered)
          obtain ⟨w, hw⟩ := hhomed j th hj g hg p t hends
          -- the worker who would be about to strike it out has ended
          obtain ⟨worker', stack⟩ := th
          dsimp only at hw hg
          rw [htidy.vacated i _ hi _ hmem p rfl j w stack (hw ▸ hj)] at hg
          cases hg
        · rcases Frame.registered_alter hregistered with ⟨hbefore, hunregister, -⟩ | rfl
          · rcases (pending hbefore).set hi with (⟨outcome, rfl⟩ | rfl) | hpending'
            · exact .of_mem hi (unregister_mem_step hx halive) (.inr rfl)
            · exact absurd rfl hunregister
            · exact hpending'
          · simp [Frame.enlists] at hfzero
      | false =>
        rcases Frame.eq_of_isTerminal_alter hok hbefore hend with ⟨outcome, rfl⟩ | rfl
        · have hzero := enlists_eq_zero_of_settle hm htidy.enrolling htidy.vacated hi
          refine ⟨AllFrames.of_pop (hzero.pop hi) hi (fun g hg => ?_) _, fun _ _ => .of_mem hi
            (g := .task p t (.tally outcome)) ?_ (.inl ⟨outcome, rfl⟩)⟩
          · rw [List.mem_singleton.1 hg]
            rfl
          · exact List.mem_singleton_self _
        · obtain ⟨hzero, hregistered⟩ := hfiled.abandon hi hx
          refine ⟨AllFrames.of_pop hzero hi (fun g hg => ?_) _, fun hafter => ?_⟩
          · rw [List.mem_singleton.1 hg]
            rfl
          · rcases Frame.registered_alter hafter with ⟨hbefore, -⟩ | hf
            · rw [hregistered] at hbefore
              cases hbefore
            · cases hf

/-- What every run keeps of the states of tasks. -/
structure Charted (m : Machine V J) : Prop where
  inHand : m.InHand
  filed : m.Filed
  homed : m.Homed
  dismissed : m.Dismissed

theorem Charted.after (hm : m.Scheduled) (htidy : m.Tidy) (h : m.Charted) (mv : Move V J) :
    (m.after start mv).Charted where
  inHand := h.inHand.after hm htidy.vacated mv
  filed := h.filed.after hm mv
  homed := h.homed.after hm.framed mv
  dismissed := h.dismissed.after hm htidy h.filed h.homed mv

theorem Charted.initial : ({} : Machine V J).Charted := by
  have noThread : ∀ {i : Nat} {th : Thread V J}, ({} : Machine V J).threads[i]? ≠ some th := by simp
  have noTask : ∀ {p t}, ({} : Machine V J).store.task? p t = none := by simp [Store.task?_eq]
  refine ⟨fun _ _ hi => absurd hi noThread, fun p t => ?_, fun _ _ hi => absurd hi noThread, fun p t y hy => ?_⟩
  · simp [frameSum, Store.enlisted, noTask]
  · rw [noTask] at hy
    cases hy

theorem charted_run (start : J → Except RuntimeError (Body V J)) (mvs : List (Move V J)) :
    (({} : Machine V J).run start mvs).Charted :=
  (run_induction start (P := fun m => m.Scheduled ∧ m.Staffed ∧ m.Tidy ∧ m.Charted)
    (fun _ mv ⟨hm, hstaffed, htidy, h⟩ =>
      ⟨hm.after mv, hstaffed.after hm.framed mv, htidy.after hm hstaffed mv, h.after hm htidy mv⟩)
    ⟨.initial 0, .initial 0, .initial, .initial⟩ mvs).2.2.2

/-- A store that does not compare takes an edge all the same. -/
theorem Charted.shifts (h : m.Charted) {i : Nat} {worker : Option (PoolId × Nat)} {f : Frame V J}
    {rest : List (Frame V J)} (hi : m.threads[i]? = some ⟨worker, f :: rest⟩) (hf : f.Overwrites p t) {x : Task V J}
    (hx : m.store.task? p t = some x) : f.Shifts p t x.state (f.alter p t x).state := by
  have hmem : f ∈ f :: rest := List.mem_cons_self ..
  have polled : f.Works p t → x.IsPolled ∧ (f = .task p t .requeue → x.state = .notified) := fun hw => by
    obtain ⟨y, hy, hpolled⟩ := h.inHand i _ hi f hmem p t hw
    rw [hx] at hy
    cases hy
    exact hpolled
  rcases hf with rfl | ⟨outcome, rfl⟩ | rfl
  · have hstate := (polled (by simp [Frame.Works])).2 rfl
    simp only [Frame.alter, TaskPhase.alter, and_self, if_true, hstate]
    exact .requeue
  · have hpolled := (polled (by simp [Frame.Works])).1
    simp only [Frame.alter, TaskPhase.alter, and_self, if_true]
    rcases Frame.finalState_eq outcome with hfinal | hfinal <;> rw [hfinal]
    · exact .complete hpolled hfinal
    · exact .fail hpolled hfinal
  · simp only [Frame.alter, TaskPhase.alter, and_self, if_true]
    refine .release (Bool.eq_false_iff.2 fun hend => ?_)
    have hzero := (h.dismissed p t x hx hend).1 i _ hi _ hmem
    simp [Frame.enlists] at hzero

/-- One move takes a task along one edge of the graph, if at all. -/
theorem Charted.after_state (start : J → Except RuntimeError (Body V J)) (hm : m.Scheduled) (h : m.Charted)
    {x : Task V J} (hx : m.store.task? p t = some x) (mv : Move V J) :
    ∃ y, (m.after start mv).store.task? p t = some y ∧
      (y.state = x.state ∨ ∃ e, m.taken mv = some e ∧ e.frame.Shifts p t x.state y.state) ∧
      ∀ e, m.taken mv = some e → e.frame.Overwrites p t → e.frame.Shifts p t x.state y.state := by
  cases htaken : m.taken mv with
  | none =>
    have hsame := (arrival_of_not_taken start htaken).task? p t
    exact ⟨x, hsame.trans hx, .inl rfl, by rintro e he; cases he⟩
  | some e =>
    obtain ⟨i, worker, f, s⟩ := e
    obtain ⟨choice, rest, rfl, rfl, hi, heq⟩ := after_of_taken start htaken
    dsimp only at hi heq
    have hok := hm.framed.frames i _ hi f (List.mem_cons_self ..)
    refine ⟨f.alter p t x, by rw [heq]; exact Frame.task?_step _ _ _ _ hx, ?_, ?_⟩
    · by_cases hf : f.Overwrites p t
      · exact .inr ⟨_, rfl, h.shifts hi hf hx⟩
      · exact (Frame.shifts_alter hok hf).imp_right fun hshifts => ⟨_, rfl, hshifts⟩
    · rintro _ he hf
      cases he
      exact h.shifts hi hf hx

/-- What has ended stays as it is. -/
theorem Charted.run_state (hm : m.Scheduled) (hstaffed : m.Staffed) (htidy : m.Tidy) (h : m.Charted) {x : Task V J}
    (hx : m.store.task? p t = some x) (hend : x.state.isTerminal = true) (mvs : List (Move V J)) :
    ∃ y, (m.run start mvs).store.task? p t = some y ∧ y.state = x.state := by
  induction mvs generalizing m x with
  | nil => exact ⟨x, hx, rfl⟩
  | cons mv mvs ih =>
    obtain ⟨y, hy, hstate, -⟩ := h.after_state start hm hx mv
    have hsame : y.state = x.state := hstate.resolve_right fun ⟨e, _, hshifts⟩ => by
      rw [hshifts.isTerminal_eq_false] at hend
      cases hend
    obtain ⟨z, hz, hzy⟩ := ih (hm.after mv) (hstaffed.after hm.framed mv) (htidy.after hm hstaffed mv)
      (h.after hm htidy mv) hy (hsame ▸ hend)
    exact ⟨z, hz, hzy.trans hsame⟩

/-- At every point of every run, a move takes the state of a task along an edge of the graph or leaves it as it is, a
store that does not compare always finds a state that such an edge leaves, and tasks begin queued. Only a shutdown
that has closed the pool and waited for its workers releases a task, and what has ended stays so for good. -/
theorem state_graph (start : J → Except RuntimeError (Body V J)) (mvs : List (Move V J)) (p : PoolId) (t : TaskId) :
    let m := ({} : Machine V J).run start mvs
    (∀ mv x, m.store.task? p t = some x → ∃ y, (m.after start mv).store.task? p t = some y ∧
      (y.state = x.state ∨ ∃ e, m.taken mv = some e ∧ e.frame.Shifts p t x.state y.state) ∧
      ∀ e, m.taken mv = some e → e.frame.Overwrites p t → e.frame.Shifts p t x.state y.state) ∧
    (∀ mv y, m.store.task? p t = none → (m.after start mv).store.task? p t = some y → y.state = .queued) ∧
    (∀ mv e, m.taken mv = some e → e.frame.Overwrites p t → ∃ x, m.store.task? p t = some x) ∧
    (∀ mv e, m.taken mv = some e → e.frame = .task p t .abandon → m.store.Closed p ∧ m.Deserted p) ∧
    ∀ x, m.store.task? p t = some x → x.state.isTerminal = true → ∀ mvs',
      ∃ y, (({} : Machine V J).run start (mvs ++ mvs')).store.task? p t = some y ∧ y.state = x.state := by
  intro m
  have hm : m.Scheduled := scheduled_run start mvs
  have htidy : m.Tidy := tidy_run start mvs
  have h : m.Charted := charted_run start mvs
  refine ⟨fun mv x hx => h.after_state start hm hx mv, fun mv y hnone hy => ?_, fun mv e htaken hf => ?_, fun mv e htaken hf => ?_,
    fun x hx hend mvs' => ?_⟩
  · cases htaken : m.taken mv with
    | none =>
      rw [(arrival_of_not_taken start htaken).task?, hnone] at hy
      cases hy
    | some e =>
      obtain ⟨choice, rest, rfl, -, hi, heq⟩ := after_of_taken start htaken
      rw [heq] at hy
      obtain ⟨⟨job, rfl⟩, -⟩ := hm.made_step hi hnone hy
      rfl
  · obtain ⟨rest, hi⟩ := thread_of_taken htaken
    have hmem : e.frame ∈ e.frame :: rest := List.mem_cons_self ..
    rcases hf with hf | ⟨outcome, hf⟩ | hf
    · obtain ⟨x, hx, -⟩ := h.inHand _ _ hi _ hmem p t (by simp [hf, Frame.Works])
      exact ⟨x, hx⟩
    · obtain ⟨x, hx, -⟩ := h.inHand _ _ hi _ hmem p t (by simp [hf, Frame.Works])
      exact ⟨x, hx⟩
    · -- who is on a list was made
      obtain ⟨others, hsum, -⟩ := frameSum_set (fun _ f => Frame.enlists p t f) hi
      have hfiled := h.filed p t
      have hone : e.frame.enlists p t = 1 := by simp [hf, Frame.enlists]
      rw [hsum, hone] at hfiled
      refine Option.isSome_iff_exists.1 ?_
      by_contra hnone
      rw [if_neg hnone] at hfiled
      omega
  · obtain ⟨rest, hi⟩ := thread_of_taken htaken
    have hmem : e.frame ∈ e.frame :: rest := List.mem_cons_self ..
    have hclears : e.frame.Clears p := by
      rw [hf]
      rfl
    exact ⟨hclears.closed (hm.framed.frames _ _ hi _ hmem), htidy.vacated _ _ hi _ hmem p hclears⟩
  · rw [run_append]
    have hstaffed : m.Staffed := staffed_run start mvs
    exact h.run_state hm hstaffed htidy hx hend mvs'

end Machine
end Dataflow
