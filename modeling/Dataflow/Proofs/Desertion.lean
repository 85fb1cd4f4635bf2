import Dataflow.Proofs.Alterations
import Dataflow.Proofs.Releasing

/-!
# What a shutdown meets

Whoever calls for a shutdown, and however many do, the part that releases tasks comes after the workers of the pool
have ended (`Machine.Vacated`), so nobody has a task of the pool in hand by then. Hence nothing takes back the end
of a task (`Machine.Unended`), a task that is not in the registry has ended or somebody has it on his list
(`Machine.Enrolled`), and once the registry of a closed pool was taken over, every task with something left to do
has ended or is on a list (`Machine.Swept`). None of this asks that the pool is still open, or that only one
shutdown is under way.
-/

namespace Dataflow

variable {V J : Type}

namespace Frame

/-- The frame is part of the poll of a task, from its claim to what comes of it. -/
def Works (p : PoolId) (t : TaskId) (f : Frame V J) : Prop :=
  f.Polls p t ∨ f = .task p t .begin ∨ f = .task p t .enter ∨ (∃ outcome, f = .task p t (.settle outcome)) ∨
    f = .task p t .park ∨ f = .task p t .requeue

/-- The step belongs to the release of the tasks of the pool. -/
def Clears (p : PoolId) : Frame V J → Prop
  | .shutdown q (.drainOwn _) | .shutdown q .drainShared | .shutdown q .collect | .shutdown q (.release _) => q = p
  | .task q _ .abandon | .task q _ .discard => q = p
  | _ => False

/-- Someone has the task on his list of those to release. -/
def Releases (p : PoolId) (t : TaskId) (f : Frame V J) : Prop :=
  f = .task p t .abandon ∨ ∃ ts, t ∈ ts ∧ f = .shutdown p (.release ts)

/-- A shutdown has yet to take over the registry of the pool. -/
def Sweeps (p : PoolId) (f : Frame V J) : Prop := f = .shutdown p .join ∨ f = .shutdown p .collect

variable {p : PoolId} {t : TaskId} {f g : Frame V J} {worker : Option (PoolId × Nat)} {s : Store V J} {x : Task V J}
  {start : J → Except RuntimeError (Body V J)} {choice : Nat}

theorem Works.holds_ne_zero (h : f.Works p t) (worker : Option (PoolId × Nat)) : f.holds worker p t ≠ 0 := by
  rcases h with h | rfl | rfl | ⟨outcome, rfl⟩ | rfl | rfl
  · obtain ⟨k, -, hk⟩ := h.holds_eq worker
    rw [hk]
    exact Multiset.singleton_ne_zero k
  all_goals simp [holds]

/-- Only a worker of the pool has a task in hand. -/
theorem Works.worker_eq (h : f.Works p t) (hok : f.Ok worker s) : ∃ w, worker = some (p, w) := by
  have home : ∀ {party : Party}, party.On worker → party = .task p t → ∃ w, worker = some (p, w) := by
    rintro party hon rfl
    exact hon
  rcases h with h | rfl | rfl | ⟨outcome, rfl⟩ | rfl | rfl
  · cases f with
    | run r | pause r | ended party outcome => exact home hok h
    | blocked c timed next | spawn q job phase next =>
      obtain ⟨party, hon, hnext⟩ := hok
      exact home hon ((hnext _).symm.trans h)
    | _ => exact h.elim
  all_goals exact hok

theorem Clears.closed (h : f.Clears p) (hok : f.Ok worker s) : s.Closed p := by
  cases f with
  | shutdown q phase => cases phase <;> first | exact (show _ = _ from h) ▸ hok | exact h.elim
  | task q u phase => cases phase <;> first | exact (show _ = _ from h) ▸ hok | exact h.elim
  | _ => exact h.elim

/-- Nothing but the end of its body and a release makes a task end. -/
theorem eq_of_isTerminal_alter (hok : f.Ok worker s) (hx : x.state.isTerminal = false)
    (hy : (f.alter p t x).state.isTerminal = true) :
    (∃ outcome, f = .task p t (.settle outcome)) ∨ f = .task p t .abandon := by
  cases f with
  | pause r => simp only [alter] at hy; split at hy <;> simp [hx] at hy
  | exchange q u seen target =>
    simp only [alter] at hy
    split at hy
    · have hseen : seen.wakeTarget? = some target := hok
      cases seen <;> simp only [TaskState.wakeTarget?, Option.some.injEq, reduceCtorEq] at hseen <;> subst hseen <;>
        cases hy
    · simp [hx] at hy
  | task q u phase =>
    simp only [alter] at hy
    split at hy
    · rename_i hq
      obtain ⟨rfl, rfl⟩ := hq
      cases phase with
      | settle outcome => exact .inl ⟨outcome, rfl⟩
      | abandon => exact .inr rfl
      | claim | park =>
        simp only [TaskPhase.alter] at hy
        split at hy
        · cases hy
        · simp [hx] at hy
      | requeue => cases hy
      | _ => simp [TaskPhase.alter, hx] at hy
    · simp [hx] at hy
  | shutdown q phase =>
    cases phase with
    | collect => simp only [alter] at hy; split at hy <;> simp [hx] at hy
    | _ => simp [alter, hx] at hy
  | _ => simp [alter, hx] at hy

/-- Nothing but a requeue could take back the end of a task. -/
theorem isTerminal_alter (hok : f.Ok worker s) (hx : x.state.isTerminal = true) (hf : f ≠ .task p t .requeue) :
    (f.alter p t x).state.isTerminal = true := by
  cases f with
  | pause r => simp only [alter]; split <;> exact hx
  | exchange q u seen target =>
    simp only [alter]
    split
    · rename_i hq
      obtain ⟨-, -, rfl⟩ := hq
      have hseen : x.state.wakeTarget? = some target := hok
      cases hstate : x.state <;> simp [hstate, TaskState.wakeTarget?, TaskState.isTerminal] at hseen hx
    · exact hx
  | task q u phase =>
    simp only [alter]
    split
    · rename_i hq
      obtain ⟨rfl, rfl⟩ := hq
      cases phase with
      | claim | park =>
        simp only [TaskPhase.alter]
        split
        · rename_i hstate
          rw [hstate] at hx
          cases hx
        · exact hx
      | settle outcome => rcases outcome with ((_ | _) | _) <;> rfl
      | requeue => exact absurd rfl hf
      | abandon => rfl
      | _ => exact hx
    · exact hx
  | shutdown q phase =>
    cases phase with
    | collect => simp only [alter]; split <;> exact hx
    | _ => exact hx
  | _ => exact hx

/-- A task gets something to go on with when its body is put away. -/
theorem isStarted_of_alter (hy : (f.alter p t x).stage.IsStarted) :
    x.stage.IsStarted ∧ f ≠ .task p t .discard ∨ ∃ r, f = .pause r ∧ r.party = .task p t := by
  cases f with
  | pause r =>
    simp only [alter] at hy
    split at hy
    · exact .inr ⟨r, rfl, ‹_›⟩
    · exact .inl ⟨hy, by simp⟩
  | exchange q u seen target => simp only [alter] at hy; split at hy <;> exact .inl ⟨hy, by simp⟩
  | task q u phase =>
    simp only [alter] at hy
    split at hy
    · cases phase with
      | enter | discard => exact hy.elim
      | claim | park => simp only [TaskPhase.alter] at hy; split at hy <;> exact .inl ⟨hy, by simp⟩
      | _ => exact .inl ⟨hy, by simp⟩
    · rename_i hq
      refine .inl ⟨hy, fun h => hq ?_⟩
      cases h
      exact ⟨rfl, rfl⟩
  | shutdown q phase =>
    cases phase with
    | collect => simp only [alter] at hy; split at hy <;> exact .inl ⟨hy, by simp⟩
    | _ => exact .inl ⟨hy, by simp⟩
  | _ => exact .inl ⟨hy, by simp⟩

theorem IsQuiet.not_works (h : f.IsQuiet) : ¬ f.Works p t :=
  fun hw => hw.holds_ne_zero none (h.holds_eq_zero none p t)

theorem IsQuiet.not_clears (h : f.IsQuiet) : ¬ f.Clears p := by
  cases f with
  | shutdown q phase => cases phase <;> first | exact id | exact h.elim
  | _ => first | exact id | exact h.elim

/-- Whoever goes on with a run has the same task in hand. -/
theorem CarriesOn.party_eq {r : Run V J} (h : f.CarriesOn r) (hw : f.Works p t) : r.party = .task p t := by
  have hpolls : f.Polls p t := by
    rcases hw with hw | rfl | rfl | ⟨outcome, rfl⟩ | rfl | rfl
    · exact hw
    all_goals exact h.elim
  cases f with
  | run r' | pause r' | ended party outcome => exact h.symm.trans hpolls
  | blocked c timed next => exact (h _).symm.trans hpolls
  | spawn q job phase next => exact (h.2 _).symm.trans hpolls
  | _ => exact h.elim

/-- Whoever has a task in hand after a step had it before, or has just claimed it. -/
theorem works_step (hok : f.Ok worker s) (hg : g ∈ (f.step start worker choice s).2) (hw : g.Works p t) :
    f.Works p t ∧ (∀ outcome, f ≠ .task p t (.settle outcome)) ∨
      f = .task p t .claim ∧ ∃ x, s.task? p t = some x ∧ x.state = .queued := by
  by_cases hclaim : f = .task p t .claim
  · subst hclaim
    refine .inr ⟨rfl, ?_⟩
    simp only [step, stepTask] at hg
    split at hg
    · cases hg
    · rename_i x hx
      simp only [TaskState.exchange] at hg
      split at hg
      · cases hg
      · rename_i hstate
        split at hstate
        · exact ⟨x, hx, ‹_›⟩
        · cases hstate
  · refine .inl ?_
    have hgives := gives_step start worker choice s f
    generalize (f.step start worker choice s).2 = fs at hgives hg
    cases hgives with
    | nothing => cases hg
    | @run r =>
      obtain ⟨quiet, g', hfs, hquiet, hg'⟩ := stepRun_frames worker s r
      rw [hfs] at hg
      rcases List.mem_append.1 hg with hg | hg
      · exact absurd hw (hquiet g hg).not_works
      · rw [List.mem_singleton.1 hg] at hw
        exact ⟨.inl (hg'.party_eq hw), by simp⟩
    | drop hfs => rcases hfs g hg with ⟨c, value, rfl⟩ | ⟨guards, rfl⟩ <;> simp [Works, Polls] at hw
    | fill => exact absurd hw (isQuiet_afterPut hg).not_works
    | discarded guards body => exact absurd hw (isQuiet_dropPending hg).not_works
    | freed answer | refused e =>
      obtain ⟨party, -, hnext⟩ := hok
      rw [List.mem_singleton.1 hg] at hw
      simp only [Works, Polls, hnext] at hw ⊢
      simpa using hw
    | blocked | admitted | reserved =>
      rw [List.mem_singleton.1 hg] at hw
      simpa [Works, Polls] using hw
    | made u =>
      obtain ⟨party, -, hnext⟩ := hok
      simp only [List.mem_cons, List.not_mem_nil, or_false] at hg
      rcases hg with rfl | rfl | rfl | rfl | rfl | rfl <;> simp_all [Works, Polls]
    | @pause r q u hparty =>
      rw [List.mem_singleton.1 hg] at hw
      have hq : q = p ∧ u = t := by simpa [Works, Polls] using hw
      refine ⟨.inl ?_, by simp⟩
      rw [Polls, hparty, hq.1, hq.2]
    | @claimed q u =>
      rw [List.mem_singleton.1 hg] at hw
      have hq : q = p ∧ u = t := by simpa [Works, Polls] using hw
      exact absurd (by rw [hq.1, hq.2]) hclaim
    | @entered q u y guards body hy hbody =>
      rw [List.mem_singleton.1 hg] at hw
      simpa [Works, Polls] using hw
    | void | ended | begun | notified =>
      rw [List.mem_singleton.1 hg] at hw
      simpa [Works, Polls] using hw
    | _ =>
      refine absurd hw ?_
      revert hg
      clear hw
      revert g
      simp [Works, Polls, or_imp, forall_and]

/-- The end of a task is booked after its final state is set. -/
theorem endsEntry_step (hg : g ∈ (f.step start worker choice s).2) (hends : g.EndsEntry p t) :
    f.EndsEntry p t ∨ ∃ outcome, f = .task p t (.settle outcome) := by
  have hgives := gives_step start worker choice s f
  generalize (f.step start worker choice s).2 = fs at hgives hg
  have quiet : g.IsQuiet → False := by
    intro hquiet
    rcases hends with ⟨outcome, rfl⟩ | rfl <;> exact hquiet
  cases hgives with
  | @run r =>
    obtain ⟨quiets, g', hfs, hquiet, hg'⟩ := stepRun_frames worker s r
    rw [hfs] at hg
    rcases List.mem_append.1 hg with hg | hg
    · exact (quiet (hquiet g hg)).elim
    · rw [List.mem_singleton.1 hg] at hends
      rcases hends with ⟨outcome, rfl⟩ | rfl <;> exact hg'.elim
  | drop hfs => rcases hfs g hg with ⟨c, value, rfl⟩ | ⟨guards, rfl⟩ <;> simp [EndsEntry] at hends
  | fill => exact (quiet (isQuiet_afterPut hg)).elim
  | discarded guards body => exact (quiet (isQuiet_dropPending hg)).elim
  | @settled q u outcome =>
    rw [List.mem_singleton.1 hg] at hends
    have hq : q = p ∧ u = t := by simpa [EndsEntry] using hends
    exact .inr ⟨outcome, by rw [hq.1, hq.2]⟩
  | @tallied q u outcome =>
    refine .inl (.inl ⟨outcome, ?_⟩)
    simp only [List.mem_cons, List.not_mem_nil, or_false] at hg
    rcases hg with rfl | rfl | rfl
    · have hq : q = p ∧ u = t := by simpa [EndsEntry] using hends
      rw [hq.1, hq.2]
    all_goals simp [EndsEntry] at hends
  | _ =>
    refine absurd hends ?_
    clear hends quiet
    revert g
    simp [EndsEntry, or_imp, forall_and]

/-- A call enters a task into the registry that was not there before the call. -/
theorem task?_eq_none_of_register (hg : .task p t .register ∈ (f.step start worker choice s).2) :
    s.task? p t = none := by
  have quiet : ∀ {g : Frame V J}, g = .task p t .register → ¬ g.IsQuiet := by
    rintro g rfl
    exact id
  by_cases hmade : ∃ job next, f = .spawn p job .number next
  · obtain ⟨job, next, rfl⟩ := hmade
    simp only [step, stepSpawn] at hg
    split at hg
    · simp at hg
    · rename_i pool hpool
      have ht : t = pool.tasks.size := by simpa using hg
      simp [Store.task?_eq, hpool, ht]
  · have hgives := gives_step start worker choice s f
    generalize (f.step start worker choice s).2 = fs at hgives hg
    cases hgives with
    | @run r =>
      obtain ⟨quiets, g', hfs, hquiet, hg'⟩ := stepRun_frames worker s r
      rw [hfs] at hg
      rcases List.mem_append.1 hg with hg | hg
      · exact (hquiet _ hg).elim
      · exact (List.mem_singleton.1 hg ▸ hg' : CarriesOn r (.task p t .register)).elim
    | drop hfs => rcases hfs _ hg with ⟨_, _, h⟩ | ⟨_, h⟩ <;> cases h
    | fill => exact (quiet rfl (isQuiet_afterPut hg)).elim
    | discarded guards body => exact (quiet rfl (isQuiet_dropPending hg)).elim
    | @made q job next u =>
      have hq : p = q ∧ t = u := by simpa using hg
      exact absurd ⟨job, next, by rw [hq.1]⟩ hmade
    | _ => simp at hg

/-- Whoever has a task on his list releases it, or keeps it there. -/
theorem releases_step (h : f.Releases p t) :
    f = .task p t .abandon ∨ ∃ g ∈ (f.step start worker choice s).2, g.Releases p t := by
  rcases h with h | ⟨ts, ht, rfl⟩
  · exact .inl h
  · cases ts with
    | nil => cases ht
    | cons u ts =>
      refine .inr ?_
      simp only [step, stepShutdown]
      generalize ((u :: ts)[choice % (ts.length + 1)]?).getD u = chosen
      by_cases hchosen : chosen = t
      · exact ⟨_, List.mem_cons_self .., .inl (by rw [hchosen])⟩
      · exact ⟨_, List.mem_cons_of_mem _ (List.mem_singleton_self _), .inr ⟨_, (List.mem_erase_of_ne (Ne.symm hchosen)).2 ht, rfl⟩⟩

/-- A task leaves the registry when its end was booked, or when a shutdown takes the registry over. -/
theorem registered_of_alter (hy : (f.alter p t x).registered = false) :
    x.registered = false ∧ f ≠ .task p t .register ∨ f = .task p t .unregister ∨ f = .shutdown p .collect := by
  cases f with
  | pause r => simp only [alter] at hy; split at hy <;> exact .inl ⟨hy, by simp⟩
  | exchange q u seen target => simp only [alter] at hy; split at hy <;> exact .inl ⟨hy, by simp⟩
  | task q u phase =>
    simp only [alter] at hy
    split at hy
    · rename_i hq
      obtain ⟨rfl, rfl⟩ := hq
      cases phase with
      | register => cases hy
      | unregister => exact .inr (.inl rfl)
      | claim | park => simp only [TaskPhase.alter] at hy; split at hy <;> exact .inl ⟨hy, by simp⟩
      | _ => exact .inl ⟨hy, by simp⟩
    · rename_i hq
      refine .inl ⟨hy, fun h => hq ?_⟩
      cases h
      exact ⟨rfl, rfl⟩
  | shutdown q phase =>
    cases phase with
    | collect =>
      simp only [alter] at hy
      split at hy
      · rename_i hq
        exact .inr (.inr (by rw [hq]))
      · exact .inl ⟨hy, by simp⟩
    | _ => exact .inl ⟨hy, by simp⟩
  | _ => exact .inl ⟨hy, by simp⟩

/-- A worker ends with its own loop, whatever is above it. -/
theorem anchored_step {below : List (Frame V J)}
    (h : ∀ g, (f :: below).getLast? = some g → ∃ seek, g = .work seek) :
    ∀ g, ((f.step start worker choice s).2 ++ below).getLast? = some g → ∃ seek, g = .work seek := by
  cases below with
  | cons b below => simpa [List.getLast?_append] using h
  | nil =>
    obtain ⟨seek, rfl⟩ := h f rfl
    have hgives := gives_step start worker choice s (.work seek)
    generalize ((.work seek : Frame V J).step start worker choice s).2 = fs at hgives ⊢
    cases hgives <;> simp

/-- The release of the tasks of a pool begins when its workers have ended, and goes on from there. -/
theorem clears_step (hg : g ∈ (f.step start worker choice s).2) (hclears : g.Clears p) :
    f.Clears p ∨ f = .shutdown p .join := by
  have hgives := gives_step start worker choice s f
  generalize (f.step start worker choice s).2 = fs at hgives hg
  cases hgives with
  | @run r =>
    obtain ⟨quiet, g', hfs, hquiet, hg'⟩ := stepRun_frames worker s r
    rw [hfs] at hg
    rcases List.mem_append.1 hg with hg | hg
    · exact absurd hclears (hquiet g hg).not_clears
    · rw [List.mem_singleton.1 hg] at hclears
      cases g' <;> first | exact hg'.elim | exact hclears.elim
  | drop hfs => rcases hfs g hg with ⟨c, value, rfl⟩ | ⟨guards, rfl⟩ <;> exact hclears.elim
  | fill => exact absurd hclears (isQuiet_afterPut hg).not_clears
  | discarded guards body => exact absurd hclears (isQuiet_dropPending hg).not_clears
  | @joined q n =>
    have hq : ∀ g ∈ (List.range n).map (fun w => (.shutdown q (.drainOwn w) : Frame V J)) ++
        [.shutdown q .drainShared, .shutdown q .collect], g.Clears p → q = p := by
      simp [Clears, or_imp, forall_and]
    exact .inr (by rw [hq g hg hclears])
  | abandoned | drained =>
    rw [List.mem_singleton.1 hg] at hclears
    exact .inl hclears
  | collected tasks =>
    rcases List.mem_cons.1 hg with rfl | hg
    · exact .inl hclears
    · rw [List.mem_singleton.1 hg] at hclears
      exact hclears.elim
  | chosen u tasks =>
    rcases List.mem_cons.1 hg with rfl | hg
    · exact .inl hclears
    · rw [List.mem_singleton.1 hg] at hclears
      exact .inl hclears
  | _ =>
    refine absurd hclears ?_
    revert hg
    clear hclears
    revert g
    simp [Clears, or_imp, forall_and]

/-- The registry is entered in the same call that enqueues the task. -/
def EnrollsFirst : List (Frame V J) → Prop
  | [] => True
  | f :: below => (∀ p t, f = .task p t .register → .task p t .enqueue ∈ below) ∧ EnrollsFirst below

theorem EnrollsFirst.append {fs below : List (Frame V J)} (h : EnrollsFirst below)
    (hfs : ∀ f ∈ fs, ∀ p t, f ≠ .task p t .register) : EnrollsFirst (fs ++ below) := by
  induction fs with
  | nil => exact h
  | cons f fs ih =>
    exact ⟨fun p t hf => absurd hf (hfs f (List.mem_cons_self ..) p t),
      ih fun g hg => hfs g (List.mem_cons_of_mem _ hg)⟩

theorem EnrollsFirst.enqueue_mem {stack : List (Frame V J)} (h : EnrollsFirst stack)
    (hf : .task p t .register ∈ stack) : .task p t .enqueue ∈ stack := by
  induction stack with
  | nil => cases hf
  | cons f below ih =>
    rcases List.mem_cons.1 hf with rfl | hf
    · exact List.mem_cons_of_mem _ (h.1 p t rfl)
    · exact List.mem_cons_of_mem _ (ih h.2 hf)

theorem enrollsFirst_step {below : List (Frame V J)} (h : EnrollsFirst (f :: below)) :
    EnrollsFirst ((f.step start worker choice s).2 ++ below) := by
  have quiet : ∀ {g : Frame V J}, g.IsQuiet → ∀ p t, g ≠ .task p t .register := by
    rintro g hg p t rfl
    exact hg
  have hgives := gives_step start worker choice s f
  generalize (f.step start worker choice s).2 = fs at hgives ⊢
  cases hgives with
  | @run r =>
    obtain ⟨quiets, g, hfs, hquiet, hg⟩ := stepRun_frames worker s r
    rw [hfs]
    refine h.2.append fun f' hf' p t => ?_
    rcases List.mem_append.1 hf' with hf' | hf'
    · exact quiet (hquiet f' hf') p t
    · rw [List.mem_singleton.1 hf']
      rintro rfl
      exact hg
  | drop hfs =>
    refine h.2.append fun f' hf' p t => ?_
    rcases hfs f' hf' with ⟨c, value, rfl⟩ | ⟨guards, rfl⟩ <;> simp
  | fill => exact h.2.append fun f' hf' => quiet (isQuiet_afterPut hf')
  | discarded guards body => exact h.2.append fun f' hf' => quiet (isQuiet_dropPending hf')
  | made u =>
    refine ⟨by simp, by simp, fun p t hpt => ?_, by simp, by simp, by simp, h.2⟩
    cases hpt
    simp
  | joined n => exact h.2.append (by simp [or_imp, forall_and])
  | _ => exact h.2.append (by simp)

end Frame

namespace Machine

variable {start : J → Except RuntimeError (Body V J)} {m m' : Machine V J} {p : PoolId} {t : TaskId}

section pop

variable {P : Option (PoolId × Nat) → Frame V J → Prop} {i : Nat} {worker : Option (PoolId × Nat)} {f : Frame V J}
  {fs rest : List (Frame V J)}

/-- The machine without the frame whose step is taken. -/
def pop (m : Machine V J) (i : Nat) (worker : Option (PoolId × Nat)) (rest : List (Frame V J)) : Machine V J :=
  ⟨m.store, m.threads.setIfInBounds i ⟨worker, rest⟩⟩

theorem AllFrames.pop (h : m.AllFrames P) (hi : m.threads[i]? = some ⟨worker, f :: rest⟩) :
    (m.pop i worker rest).AllFrames P :=
  show AllFrames P ⟨m.store, m.threads.setIfInBounds i ⟨worker, [] ++ rest⟩⟩ from h.set hi (by simp) m.store

theorem AllFrames.of_pop (h : (m.pop i worker rest).AllFrames P) (hi : m.threads[i]? = some ⟨worker, f :: rest⟩)
    (hfs : ∀ g ∈ fs, P worker g) (s : Store V J) :
    AllFrames P ⟨s, m.threads.setIfInBounds i ⟨worker, fs ++ rest⟩⟩ := by
  intro j th hj g hg
  rcases thread_of_set hi hj with ⟨rfl, rfl⟩ | ⟨hij, hj⟩
  · rcases List.mem_append.1 hg with hg | hg
    · exact hfs g hg
    · exact h i _ (getElem?_setIfInBounds_self hi) g hg
  · exact h j th (by rw [Machine.pop, Array.getElem?_setIfInBounds_ne hij, hj]) g hg

/-- If the frame holds a task, no other frame does. -/
theorem holds_eq_zero_of_pop (hs : Sound (m.store.task? p t) (m.holds p t))
    (hi : m.threads[i]? = some ⟨worker, f :: rest⟩) (hf : f.holds worker p t ≠ 0) :
    (m.pop i worker rest).AllFrames fun worker g => g.holds worker p t = 0 := by
  obtain ⟨others, hbefore, hafter⟩ := holds_set hi p t
  have hothers : others = 0 := by
    have honce := hs.once
    have hcard : 0 < Multiset.card (f.holds worker p t) := Multiset.card_pos.2 hf
    rw [hbefore, Multiset.card_add, Multiset.card_add] at honce
    exact Multiset.card_eq_zero.1 (by omega)
  have hrest : (m.pop i worker rest).holds p t = m.store.holds p t := by
    have := hafter m.store []
    rwa [hothers, Frame.holdsAll_nil, add_zero, add_zero] at this
  have hzero : (m.pop i worker rest).frameSum (fun worker g => g.holds worker p t) = 0 := add_eq_left.1 hrest
  intro j th hj g hg
  refine Multiset.eq_zero_of_forall_notMem fun k hk => ?_
  have hmem : k ∈ (m.pop i worker rest).frameSum fun worker g => g.holds worker p t :=
    mem_frameSum.2 ⟨th, List.mem_iff_getElem?.2 ⟨j, by rw [Array.getElem?_toList, hj]⟩, g, hg, hk⟩
  rw [hzero] at hmem
  exact Multiset.notMem_zero k hmem

end pop

/-- Every worker ends with its own loop. -/
def Anchored (m : Machine V J) : Prop :=
  m.AllStacks fun worker stack => worker ≠ none → ∀ f, stack.getLast? = some f → ∃ seek, f = .work seek

theorem Anchored.after (hm : m.Framed) (h : m.Anchored) (mv : Move V J) : (m.after start mv).Anchored :=
  AllStacks.after (P := fun worker stack => worker ≠ none → ∀ f, stack.getLast? = some f → ∃ seek, f = .work seek)
    hm h (fun _ _ _ _ _ _ _ hstack hworker => Frame.anchored_step (hstack hworker)) (fun _ _ => by simp)
    (fun _ hworker => absurd rfl hworker) (fun _ _ hworker => absurd rfl hworker) mv

/-- On every thread, whoever enters a task into the registry goes on to enqueue it. -/
def Enrolling (m : Machine V J) : Prop := m.AllStacks fun _ => Frame.EnrollsFirst

theorem Enrolling.after (hm : m.Framed) (h : m.Enrolling) (mv : Move V J) : (m.after start mv).Enrolling := by
  refine AllStacks.after (P := fun _ => Frame.EnrollsFirst) hm h (fun _ _ _ _ _ _ _ => Frame.enrollsFirst_step)
    (fun _ => ⟨by simp, trivial⟩) (fun _ => ⟨by simp, trivial⟩) (fun guards body => ?_) mv
  rw [← List.append_nil (Frame.dropPending guards body)]
  refine Frame.EnrollsFirst.append trivial fun f hf p t => ?_
  rintro rfl
  exact Frame.isQuiet_dropPending hf

/-- All workers of the pool have ended. -/
def Deserted (m : Machine V J) (p : PoolId) : Prop :=
  ∀ (i w : Nat) (stack : List (Frame V J)), m.threads[i]? = some ⟨some (p, w), stack⟩ → stack = []

namespace Deserted

theorem set (h : m.Deserted p) {i : Nat} {worker : Option (PoolId × Nat)} {f : Frame V J} {fs rest : List (Frame V J)}
    (hi : m.threads[i]? = some ⟨worker, f :: rest⟩) (s : Store V J) :
    Deserted ⟨s, m.threads.setIfInBounds i ⟨worker, fs ++ rest⟩⟩ p := by
  intro j w stack hj
  have hworker : ∀ w, worker ≠ some (p, w) := by
    rintro w rfl
    cases h i w _ hi
  exact h j w stack (worker_of_set hi hworker hj rfl)

theorem arrival (h : m.Deserted p) (harrival : Arrival m m') (hp : m.store.Closed p) : m'.Deserted p := by
  obtain ⟨pool, hpool, -⟩ := hp
  cases harrival with
  | nobody => exact h
  | workers config => exact fun i w stack hi => h i w stack (thread_of_addPool (Array.getElem?_eq_some_iff.1 hpool).1 hi)
  | outsider => exact fun i w stack hi => h i w stack (thread_of_spawnThread hi)

/-- Nobody has a task of the pool in hand. -/
theorem not_works (h : m.Deserted p) (hm : m.Framed) (t : TaskId) : m.AllFrames fun _ f => ¬ f.Works p t := by
  rintro i ⟨worker, stack⟩ hi f hf hw
  obtain ⟨w, rfl⟩ := hw.worker_eq (hm.frames i _ hi f hf)
  rw [h i w stack hi] at hf
  cases hf

end Deserted

/-- Whoever waited for the workers of a pool has waited for all of them. -/
theorem deserted_of_join (hstaffed : m.Staffed) (hanchored : m.Anchored) {pool : Pool V J}
    (hpool : m.store.pools[p]? = some pool) (hstopped : pool.config.numWorkers ≤ pool.stopped) : m.Deserted p := by
  have hsum := hstaffed p pool hpool
  have hzero := allFrames_of_frameSum_eq_zero (g := Frame.workOf p) (m := m) (by omega)
  intro i w stack hi
  by_contra hne
  obtain ⟨seek, hlast⟩ := hanchored i _ hi (by simp) _ (List.getLast?_eq_some_getLast hne)
  have hwork := hzero i _ hi _ (List.getLast_mem hne)
  rw [hlast] at hwork
  simp [Frame.workOf] at hwork

/-- Wherever tasks of a pool are released, its workers have ended. -/
def Vacated (m : Machine V J) : Prop := m.AllFrames fun _ f => ∀ p, f.Clears p → m.Deserted p

theorem Vacated.after (hm : m.Framed) (hstaffed : m.Staffed) (hanchored : m.Anchored) (h : m.Vacated) (mv : Move V J) :
    (m.after start mv).Vacated := by
  rcases after_cases start m mv with ⟨harrival, -⟩ | ⟨i, choice, worker, f, rest, hi, hfree, heq⟩
  · have hold : m.AllFrames fun _ f => ∀ p, f.Clears p → (m.after start mv).Deserted p := fun i th hi f hf p hc =>
      (h i th hi f hf p hc).arrival harrival (hc.closed (hm.frames i th hi f hf))
    exact harrival.allFrames (hm.after mv) hold (fun _ _ => False.elim) (fun f hf p hc => absurd hc hf.not_clears)
      fun _ _ _ => False.elim
  · rw [heq]
    have hmem : f ∈ f :: rest := List.mem_cons_self ..
    have hok := hm.frames i _ hi f hmem
    refine AllFrames.of_pop (AllFrames.pop (h.mono fun _ g hg p hc => (hg p hc).set hi _) hi) hi ?_ _
    intro g hg p hc
    rcases Frame.clears_step hg hc with hc | rfl
    · exact (h i _ hi f hmem p hc).set hi _
    · obtain ⟨pool, hpool, -⟩ := hok
      refine (deserted_of_join hstaffed hanchored hpool ?_).set hi _
      simpa [Frame.isBlocked, hpool] using hfree

/-- Whoever has a task in hand, it has not ended. -/
def Unended (m : Machine V J) : Prop :=
  m.AllFrames fun _ f => ∀ p t, f.Works p t → ∃ y, m.store.task? p t = some y ∧ y.state.isTerminal = false

theorem Unended.after (hm : m.Scheduled) (hvacated : m.Vacated) (h : m.Unended) (mv : Move V J) :
    (m.after start mv).Unended := by
  rcases after_cases start m mv with ⟨harrival, -⟩ | ⟨i, choice, worker, f, rest, hi, -, heq⟩
  · refine harrival.allFrames (hm.framed.after mv) (h.mono fun worker f hf p t hw => ?_)
      (by simp [Frame.Works, Frame.Polls]) (fun f hf p t hw => absurd hw hf.not_works)
      fun r hr p t hw => by simp [Frame.Works, Frame.Polls, hr] at hw
    rw [harrival.task?]
    exact hf p t hw
  · rw [heq]
    have hmem : f ∈ f :: rest := List.mem_cons_self ..
    have hok := hm.framed.frames i _ hi f hmem
    -- what a step does to a task that has not ended
    have unended : ∀ {p t}, (∃ x, m.store.task? p t = some x ∧ x.state.isTerminal = false) →
        (∀ outcome, f ≠ .task p t (.settle outcome)) → f ≠ .task p t .abandon →
        ∃ y, (f.step start worker choice m.store).1.task? p t = some y ∧ y.state.isTerminal = false := by
      rintro p t ⟨x, hx, hstate⟩ hsettle habandon
      refine ⟨_, Frame.task?_step _ _ _ _ hx, Bool.eq_false_iff.2 fun hend => ?_⟩
      rcases Frame.eq_of_isTerminal_alter hok hstate hend with ⟨outcome, hf⟩ | hf
      · exact hsettle outcome hf
      · exact habandon hf
    refine AllFrames.of_pop ?_ hi ?_ _
    · intro j th hj g hg p t hw
      refine unended (h.pop hi j th hj g hg p t hw) ?_ ?_
      · rintro outcome rfl
        have hzero := holds_eq_zero_of_pop (hm.sound p t) hi (by simp [Frame.holds]) j th hj g hg
        exact hw.holds_ne_zero _ hzero
      · rintro rfl
        exact ((hvacated i _ hi _ hmem p rfl).not_works hm.framed t).pop hi j th hj g hg hw
    · intro g hg p t hw
      rcases Frame.works_step hok hg hw with ⟨hwf, hsettle⟩ | ⟨rfl, x, hx, hstate⟩
      · refine unended (h i _ hi f hmem p t hwf) hsettle ?_
        rintro rfl
        simp [Frame.Works, Frame.Polls] at hwf
      · refine ⟨_, Frame.task?_step _ _ _ _ hx, ?_⟩
        simp [Frame.alter, TaskPhase.alter, hstate]
        rfl

/-- The end of a task is not taken back. -/
theorem Unended.isTerminal_alter (h : m.Unended) {i : Nat} {worker : Option (PoolId × Nat)} {f : Frame V J}
    {rest : List (Frame V J)} (hi : m.threads[i]? = some ⟨worker, f :: rest⟩) (hok : f.Ok worker m.store)
    {x : Task V J} (hx : m.store.task? p t = some x) (hend : x.state.isTerminal = true) :
    (f.alter p t x).state.isTerminal = true := by
  refine Frame.isTerminal_alter hok hend ?_
  rintro rfl
  obtain ⟨y, hy, hstate⟩ := h i _ hi _ (List.mem_cons_self ..) p t (by simp [Frame.Works])
  rw [hx] at hy
  cases hy
  rw [hend] at hstate
  cases hstate

/-- Whose end is being booked has ended. -/
def EndsBooked (m : Machine V J) : Prop := m.AllFrames fun _ f => ∀ p t, f.EndsEntry p t → m.store.HasEnded p t

theorem EndsBooked.after (hm : m.Framed) (hunended : m.Unended) (h : m.EndsBooked) (mv : Move V J) :
    (m.after start mv).EndsBooked := by
  rcases after_cases start m mv with ⟨harrival, -⟩ | ⟨i, choice, worker, f, rest, hi, -, heq⟩
  · refine harrival.allFrames (hm.after mv) (h.mono fun worker f hf p t hends => ?_) (by simp [Frame.EndsEntry])
      (fun f hf p t hends => ?_) (by simp [Frame.EndsEntry])
    · rw [Store.HasEnded, harrival.task?]
      exact hf p t hends
    · rcases hends with ⟨outcome, rfl⟩ | rfl <;> exact hf.elim
  · rw [heq]
    have hmem : f ∈ f :: rest := List.mem_cons_self ..
    have hok := hm.frames i _ hi f hmem
    have ended : ∀ {p t}, m.store.HasEnded p t → (f.step start worker choice m.store).1.HasEnded p t := by
      rintro p t ⟨x, hx, hend⟩
      exact ⟨_, Frame.task?_step _ _ _ _ hx, hunended.isTerminal_alter hi hok hx hend⟩
    refine AllFrames.of_pop ((h.pop hi).mono fun _ g hg p t hends => ended (hg p t hends)) hi ?_ _
    intro g hg p t hends
    rcases Frame.endsEntry_step hg hends with hends | ⟨outcome, rfl⟩
    · exact ended (h i _ hi f hmem p t hends)
    · obtain ⟨x, hx, -⟩ := hunended i _ hi _ hmem p t (.inr (.inr (.inr (.inl ⟨outcome, rfl⟩))))
      refine ⟨_, Frame.task?_step _ _ _ _ hx, ?_⟩
      rw [Frame.alter, if_pos ⟨rfl, rfl⟩]
      rcases outcome with ((_ | _) | _) <;> rfl

/-- A task that is about to enter the registry was not put away yet. -/
def Fresh (m : Machine V J) : Prop :=
  m.AllFrames fun _ f => ∀ p t, f = .task p t .register → ∀ y, m.store.task? p t = some y → ¬ y.stage.IsStarted

/-- What a spawn call makes has not begun. -/
theorem Scheduled.made_step (hm : m.Scheduled) {i choice : Nat} {worker : Option (PoolId × Nat)} {f : Frame V J}
    {rest : List (Frame V J)} (hi : m.threads[i]? = some ⟨worker, f :: rest⟩) (hx : m.store.task? p t = none)
    {y : Task V J} (hy : (f.step start worker choice m.store).1.task? p t = some y) :
    (∃ job, y = { stage := .unclaimed job }) ∧ .task p t .register ∈ (f.step start worker choice m.store).2 := by
  refine Frame.task?_step_of_none (hm.framed.frames i _ hi f (List.mem_cons_self ..)) ?_ hx hy
  by_contra hholds
  obtain ⟨z, hz⟩ := hm.made hi t hholds
  rw [hx] at hz
  cases hz

theorem Fresh.after (hm : m.Scheduled) (henrolling : m.Enrolling) (h : m.Fresh) (mv : Move V J) :
    (m.after start mv).Fresh := by
  rcases after_cases start m mv with ⟨harrival, -⟩ | ⟨i, choice, worker, f, rest, hi, -, heq⟩
  · refine harrival.allFrames (hm.framed.after mv) (h.mono fun worker f hf p t hreg => ?_) (by simp)
      (fun f hf p t hreg => ?_) (by simp)
    · rw [harrival.task?]
      exact hf p t hreg
    · subst hreg
      exact hf.elim
  · rw [heq]
    have hpop : AllStacks (fun _ => Frame.EnrollsFirst) (m.pop i worker rest) := by
      intro j th hj
      rcases thread_of_set hi hj with ⟨-, rfl⟩ | ⟨-, hj⟩
      · exact (henrolling i _ hi).2
      · exact henrolling j th hj
    refine AllFrames.of_pop ?_ hi ?_ _
    · intro j th hj g hg p t hreg y hy hstarted
      subst hreg
      cases hx : m.store.task? p t with
      | none =>
        obtain ⟨⟨job, rfl⟩, -⟩ := hm.made_step hi hx hy
        exact hstarted
      | some x =>
        rw [Frame.task?_step _ _ _ _ hx] at hy
        cases hy
        rcases Frame.isStarted_of_alter hstarted with ⟨hbefore, -⟩ | ⟨r, rfl, hparty⟩
        · exact h.pop hi j th hj _ hg p t rfl x hx hbefore
        · -- the call that made the task still holds it
          have hzero := holds_eq_zero_of_pop (hm.sound p t) hi (by simp [Frame.holds, hparty]) j th hj _
            ((hpop j th hj).enqueue_mem hg)
          simp [Frame.holds] at hzero
    · intro g hg p t hreg y hy
      subst hreg
      obtain ⟨⟨job, rfl⟩, -⟩ := hm.made_step hi (Frame.task?_eq_none_of_register hg) hy
      exact id

/-- A task that is not in the registry has ended, or is about to enter it, or someone has it on his list. -/
def Enrolled (m : Machine V J) : Prop :=
  ∀ p t y, m.store.task? p t = some y → y.registered = false →
    y.state.isTerminal = true ∨ m.Pending (· = .task p t .register) ∨ m.Pending (Frame.Releases p t)

section step

variable {i choice : Nat} {worker : Option (PoolId × Nat)} {f : Frame V J} {rest : List (Frame V J)} {x : Task V J}

/-- A task on a list ends or stays there. -/
theorem Pending.releases_step (h : m.Pending (Frame.Releases p t)) (hi : m.threads[i]? = some ⟨worker, f :: rest⟩) :
    (f.alter p t x).state.isTerminal = true ∨
      Pending (Frame.Releases p t) ⟨(f.step start worker choice m.store).1, m.threads.setIfInBounds i
        ⟨worker, (f.step start worker choice m.store).2 ++ rest⟩⟩ := by
  rcases h.set hi with hf | hpending
  · rcases Frame.releases_step hf with rfl | ⟨g, hg, hreleases⟩
    · exact .inl (by simp [Frame.alter, TaskPhase.alter, TaskState.isTerminal])
    · exact .inr (.of_mem hi hg hreleases)
  · exact .inr hpending

/-- Whoever takes over the registry has all its tasks on his list. -/
theorem releases_of_collect (start : J → Except RuntimeError (Body V J)) (worker : Option (PoolId × Nat)) (choice : Nat)
    {x : Task V J} (hx : m.store.task? p t = some x) (hregistered : x.registered = true) :
    ∃ g ∈ ((.shutdown p .collect : Frame V J).step start worker choice m.store).2, g.Releases p t := by
  obtain ⟨pool, hpool, hy⟩ := Store.exists_pool_of_task? hx
  simp only [Frame.step, Frame.stepShutdown, hpool]
  exact ⟨_, List.mem_cons_self .., .inr ⟨_, (Pool.mem_registry _).2 ⟨x, hy, hregistered⟩, rfl⟩⟩

end step

theorem Enrolled.after (hm : m.Scheduled) (hunended : m.Unended) (hbooked : m.EndsBooked) (h : m.Enrolled)
    (mv : Move V J) : (m.after start mv).Enrolled := by
  rcases after_cases start m mv with ⟨harrival, -⟩ | ⟨i, choice, worker, f, rest, hi, -, heq⟩
  · intro p t y hy hregistered
    rw [harrival.task?] at hy
    exact (h p t y hy hregistered).imp_right (Or.imp harrival.pending harrival.pending)
  · intro p t y hy hregistered
    have hmem : f ∈ f :: rest := List.mem_cons_self ..
    have hok := hm.framed.frames i _ hi f hmem
    have hset : ∀ {P : Frame V J → Prop}, m.Pending P → P f ∨ (m.after start mv).Pending P := fun hP => by
      rw [heq]
      exact hP.set hi
    have hnew : ∀ {P : Frame V J → Prop} {g}, g ∈ (f.step start worker choice m.store).2 → P g →
        (m.after start mv).Pending P := fun hg hP => by
      rw [heq]
      exact .of_mem hi hg hP
    rw [heq] at hy
    cases hx : m.store.task? p t with
    | none =>
      obtain ⟨-, hg⟩ := hm.made_step hi hx hy
      exact .inr (.inl (hnew hg rfl))
    | some x =>
      rw [Frame.task?_step _ _ _ _ hx] at hy
      cases hy
      have ended : x.state.isTerminal = true → (f.alter p t x).state.isTerminal = true :=
        hunended.isTerminal_alter hi hok hx
      -- a task that was not in the registry before
      have kept : x.registered = false → f ≠ .task p t .register → (f.alter p t x).state.isTerminal = true ∨
          (m.after start mv).Pending (· = .task p t .register) ∨ (m.after start mv).Pending (Frame.Releases p t) := by
        intro hbefore hreg
        rcases h p t x hx hbefore with hend | hpending | hpending
        · exact .inl (ended hend)
        · exact .inr (.inl ((hset hpending).resolve_left hreg))
        · rw [heq]
          exact (hpending.releases_step hi).imp_right .inr
      rcases Frame.registered_of_alter hregistered with ⟨hbefore, hreg⟩ | rfl | rfl
      · exact kept hbefore hreg
      · obtain ⟨z, hz, hend⟩ := hbooked i _ hi _ hmem p t (.inr rfl)
        rw [hx] at hz
        cases hz
        exact .inl (ended hend)
      · cases hbefore : x.registered with
        | false => exact kept hbefore (by simp)
        | true =>
          obtain ⟨g, hg, hreleases⟩ := releases_of_collect start worker choice hx hbefore
          exact .inr (.inr (hnew hg hreleases))

/-- If a pool is closed, a shutdown has yet to take over its registry, or its workers have ended and every task that
was put away has ended or is on a list. -/
def Swept (m : Machine V J) : Prop :=
  ∀ p, m.store.Closed p → m.Pending (Frame.Sweeps p) ∨
    m.Deserted p ∧ ∀ t y, m.store.task? p t = some y → y.stage.IsStarted →
      y.state.isTerminal = true ∨ m.Pending (Frame.Releases p t)

/-- A pool that is closed now was closed before, or is being closed. -/
theorem closed_of_step {choice : Nat} {worker : Option (PoolId × Nat)} {f : Frame V J}
    (h : (f.step start worker choice m.store).1.Closed p) (hclose : f ≠ .shutdown p .close) : m.store.Closed p := by
  by_contra hopen
  obtain ⟨pool', hpool', -⟩ := id h
  obtain ⟨pool, hpool⟩ := Frame.hasPool_of_step hpool'
  exact h.not_running (Frame.running_step hclose (Store.running_of_not_closed hopen hpool))

theorem Arrival.closed (h : Arrival m m') (hp : m'.store.Closed p) : m.store.Closed p := by
  cases h with
  | nobody => exact hp
  | workers config =>
    obtain ⟨pool, hpool, hrunning⟩ := hp
    simp only [addPool, Array.getElem?_push] at hpool
    split at hpool
    · cases hpool
      cases hrunning
    · exact ⟨pool, hpool, hrunning⟩
  | outsider hpools => rwa [Store.Closed, ← hpools]

theorem Swept.after (hm : m.Scheduled) (hvacated : m.Vacated) (hunended : m.Unended) (hfresh : m.Fresh)
    (henrolled : m.Enrolled) (h : m.Swept) (mv : Move V J) : (m.after start mv).Swept := by
  rcases after_cases start m mv with ⟨harrival, -⟩ | ⟨i, choice, worker, f, rest, hi, -, heq⟩
  · intro p hclosed
    have hp : m.store.Closed p := harrival.closed hclosed
    refine (h p hp).imp harrival.pending fun ⟨hdeserted, htasks⟩ => ⟨hdeserted.arrival harrival hp, fun t y hy hstarted => ?_⟩
    rw [harrival.task?] at hy
    exact (htasks t y hy hstarted).imp_right harrival.pending
  · intro p hclosed
    have hmem : f ∈ f :: rest := List.mem_cons_self ..
    have hok := hm.framed.frames i _ hi f hmem
    have hset : ∀ {P : Frame V J → Prop}, m.Pending P → P f ∨ (m.after start mv).Pending P := fun hP => by
      rw [heq]
      exact hP.set hi
    have hnew : ∀ {P : Frame V J → Prop} {g}, g ∈ (f.step start worker choice m.store).2 → P g →
        (m.after start mv).Pending P := fun hg hP => by
      rw [heq]
      exact .of_mem hi hg hP
    -- once the workers have ended, it is enough to look at the tasks that were put away before
    have swept : m.Deserted p →
        (∀ t x, m.store.task? p t = some x → x.stage.IsStarted →
          (f.alter p t x).state.isTerminal = true ∨ (m.after start mv).Pending (Frame.Releases p t)) →
        (m.after start mv).Deserted p ∧ ∀ t y, (m.after start mv).store.task? p t = some y → y.stage.IsStarted →
          y.state.isTerminal = true ∨ (m.after start mv).Pending (Frame.Releases p t) := by
      intro hdeserted htasks
      refine ⟨heq ▸ hdeserted.set hi _, fun t y hy hstarted => ?_⟩
      rw [heq] at hy
      cases hx : m.store.task? p t with
      | none =>
        obtain ⟨⟨job, rfl⟩, -⟩ := hm.made_step hi hx hy
        exact hstarted.elim
      | some x =>
        rw [Frame.task?_step _ _ _ _ hx] at hy
        cases hy
        rcases Frame.isStarted_of_alter hstarted with ⟨hbefore, -⟩ | ⟨r, rfl, hparty⟩
        · exact htasks t x hx hbefore
        · exact absurd (.inl hparty) (hdeserted.not_works hm.framed t i _ hi _ hmem)
    by_cases hclose : f = .shutdown p .close
    · subst hclose
      exact .inl (hnew (List.mem_singleton_self _) (.inl rfl))
    · have hp : m.store.Closed p := by
        rw [heq] at hclosed
        exact closed_of_step hclosed hclose
      rcases h p hp with hpending | ⟨hdeserted, htasks⟩
      · rcases hset hpending with (rfl | rfl) | hpending
        · obtain ⟨pool, hpool, -⟩ := hok
          refine .inl (hnew (g := .shutdown p .collect) ?_ (.inr rfl))
          simp [Frame.step, Frame.stepShutdown, hpool]
        · refine .inr (swept (hvacated i _ hi _ hmem p rfl) fun t x hx hstarted => ?_)
          have hend : x.state.isTerminal = true → (Frame.alter p t (.shutdown p .collect) x).state.isTerminal = true :=
            hunended.isTerminal_alter hi hok hx
          cases hregistered : x.registered with
          | true =>
            obtain ⟨g, hg, hreleases⟩ := releases_of_collect start worker choice hx hregistered
            exact .inr (hnew hg hreleases)
          | false =>
            rcases henrolled p t x hx hregistered with hx' | hpending | hpending
            · exact .inl (hend hx')
            · obtain ⟨j, th, hj, g, hg, hreg⟩ := hpending
              exact absurd hstarted (hfresh j th hj g hg p t hreg x hx)
            · exact .inr ((hset hpending).resolve_left (by simp [Frame.Releases]))
        · exact .inl hpending
      · refine .inr (swept hdeserted fun t x hx hstarted => ?_)
        rcases htasks t x hx hstarted with hend | hpending
        · exact .inl (hunended.isTerminal_alter hi hok hx hend)
        · rw [heq]
          exact hpending.releases_step hi

/-- What every run keeps of the ends of tasks and of the releases of pools. -/
structure Tidy (m : Machine V J) : Prop where
  anchored : m.Anchored
  enrolling : m.Enrolling
  vacated : m.Vacated
  unended : m.Unended
  booked : m.EndsBooked
  fresh : m.Fresh
  enrolled : m.Enrolled
  swept : m.Swept

theorem Tidy.after (hm : m.Scheduled) (hstaffed : m.Staffed) (h : m.Tidy) (mv : Move V J) :
    (m.after start mv).Tidy where
  anchored := h.anchored.after hm.framed mv
  enrolling := h.enrolling.after hm.framed mv
  vacated := h.vacated.after hm.framed hstaffed h.anchored mv
  unended := h.unended.after hm h.vacated mv
  booked := h.booked.after hm.framed h.unended mv
  fresh := h.fresh.after hm h.enrolling mv
  enrolled := h.enrolled.after hm h.unended h.booked mv
  swept := h.swept.after hm h.vacated h.unended h.fresh h.enrolled mv

theorem Tidy.initial : ({} : Machine V J).Tidy := by
  have noThread : ∀ {i : Nat} {th : Thread V J}, ({} : Machine V J).threads[i]? ≠ some th := by simp
  have noTask : ∀ {p t} {y : Task V J}, ({} : Machine V J).store.task? p t ≠ some y := by simp [Store.task?_eq]
  exact {
    anchored := fun _ _ hi => absurd hi noThread
    enrolling := fun _ _ hi => absurd hi noThread
    vacated := fun _ _ hi => absurd hi noThread
    unended := fun _ _ hi => absurd hi noThread
    booked := fun _ _ hi => absurd hi noThread
    fresh := fun _ _ hi => absurd hi noThread
    enrolled := fun _ _ _ hy => absurd hy noTask
    swept := fun _ ⟨_, hpool, _⟩ => by simp at hpool }

theorem tidy_run (start : J → Except RuntimeError (Body V J)) (mvs : List (Move V J)) :
    (({} : Machine V J).run start mvs).Tidy :=
  (run_induction start (P := fun m => m.Scheduled ∧ m.Staffed ∧ m.Tidy)
    (fun _ mv ⟨hm, hstaffed, h⟩ => ⟨hm.after mv, hstaffed.after hm.framed mv, h.after hm hstaffed mv⟩)
    ⟨.initial 0, .initial 0, .initial⟩ mvs).2.2

end Machine
end Dataflow
