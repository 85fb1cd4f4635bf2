import Dataflow.Proofs.Places

/-!
# Which frames a thread can have

`Frame.Ok` says what is known of a frame from where it came: a worker has only bodies of its own pool in
hand, a call made from a body goes on with that body, an exchange is one that a wake call makes, and
whatever a shutdown does after the workers are told to stop, it does to a closed pool. Every step keeps to
this (`Frame.step_ok`), since a step only adds pools and closes them (`Frame.step_keeps`). `Frame.Gives` says which
frames can come in place of a frame; what else is kept along a stack is read off from it, case by case.
-/

namespace Dataflow

/-- The party may run on the thread: a task only on a worker of its pool, and all else on no worker. -/
def Party.On (worker : Option (PoolId × Nat)) : Party → Prop
  | .outside => worker = none
  | .task p _ => ∃ w, worker = some (p, w)

/-- The pool has been closed. -/
def Store.Closed {V J : Type} (s : Store V J) (p : PoolId) : Prop :=
  ∃ pool, s.pools[p]? = some pool ∧ pool.running = false

theorem Store.Closed.mono {V J : Type} {s s' : Store V J} {p : PoolId} (h : s.Closed p)
    (hs : s.Keeps s') : s'.Closed p := by
  obtain ⟨pool, hp, hr⟩ := h
  obtain ⟨pool', hp', hr', -⟩ := hs p pool hp
  exact ⟨pool', hp', by simpa [hr] using hr'⟩

theorem Store.Closed.not_running {V J : Type} {s : Store V J} {p : PoolId} (h : s.Closed p) :
    ¬ s.Running p := by
  obtain ⟨pool, hp, hr⟩ := h
  rintro ⟨pool', hp', hr'⟩
  rw [hp] at hp'
  cases hp'
  rw [hr] at hr'
  cases hr'

theorem Store.running_of_not_closed {V J : Type} {s : Store V J} {p : PoolId} {pool : Pool V J}
    (h : ¬ s.Closed p) (hp : s.pools[p]? = some pool) : s.Running p :=
  ⟨pool, hp, by cases hr : pool.running <;> first | rfl | exact absurd ⟨pool, hp, hr⟩ h⟩

theorem Store.Running.of_keeps {V J : Type} {s s' : Store V J} {p : PoolId} (hs : s.Keeps s')
    (hp : p < s.pools.size) (h : s'.Running p) : s.Running p := by
  obtain ⟨pool', hp', hr'⟩ := h
  obtain ⟨pool'', hp'', hr'', -⟩ := hs p s.pools[p] (Array.getElem?_eq_getElem hp)
  rw [hp'] at hp''
  cases hp''
  exact ⟨_, Array.getElem?_eq_getElem hp, hr'' hr'⟩

namespace Frame

variable {V J : Type}

/-- What is known of a frame on a thread. -/
def Ok (worker : Option (PoolId × Nat)) (s : Store V J) : Frame V J → Prop
  | .run r | .pause r => r.party.On worker
  | .ended party _ => party.On worker
  | .blocked _ _ next => ∃ party, party.On worker ∧ ∀ answer, (next answer).party = party
  | .spawn _ _ _ next => ∃ party, party.On worker ∧ ∀ answer, (next answer).party = party
  | .exchange _ _ seen target => seen.wakeTarget? = some target
  | .task p _ phase =>
    match phase with
    | .claim | .begin | .enter | .settle _ | .park | .requeue => ∃ w, worker = some (p, w)
    | .abandon | .discard => s.Closed p
    | _ => True
  | .work _ => ∃ p w pool, worker = some (p, w) ∧ s.pools[p]? = some pool ∧ w < pool.locals.workers
  | .shutdown p phase =>
    match phase with
    | .check => True
    | .close => ∃ pool, s.pools[p]? = some pool
    | _ => s.Closed p
  | _ => True

theorem Ok.mono {worker : Option (PoolId × Nat)} {s s' : Store V J} {f : Frame V J}
    (h : f.Ok worker s) (hs : s.Keeps s') : f.Ok worker s' := by
  cases f with
  | task p t phase => cases phase <;> first | exact h | exact Store.Closed.mono h hs
  | work seek =>
    obtain ⟨p, w, pool, hw, hp, hlt⟩ := h
    obtain ⟨pool', hp', -, -, hw'⟩ := hs p pool hp
    exact ⟨p, w, pool', hw, hp', hw' ▸ hlt⟩
  | shutdown p phase =>
    cases phase with
    | check => exact h
    | close =>
      obtain ⟨pool, hp⟩ := h
      obtain ⟨pool', hp', -⟩ := hs p pool hp
      exact ⟨pool', hp'⟩
    | join | drainOwn | drainShared | collect | release => exact Store.Closed.mono h hs
  | _ => exact h

/-- The frame has nothing to do with the body that left it. -/
def IsQuiet : Frame V J → Prop
  | .drop _ | .withdraw .. | .signal _ | .wake _ | .waitIdle _ | .shutdown _ .check => True
  | _ => False

/-- The frame goes on with a run, or ends it. -/
def CarriesOn (r : Run V J) : Frame V J → Prop
  | .run r' | .pause r' => r'.party = r.party
  | .ended party _ => party = r.party
  | .blocked _ _ next => ∀ answer, (next answer).party = r.party
  | .spawn _ _ phase next => phase = .check ∧ ∀ answer, (next answer).party = r.party
  | _ => False

theorem isQuiet_afterPut {c : CellId} {before : Cell V Party} {f : Frame V J}
    (h : f ∈ afterPut c before) : f.IsQuiet := by
  simp only [afterPut, List.mem_append, List.mem_map] at h
  rcases h with h | ⟨party, -, rfl⟩
  · split at h <;> simp_all [IsQuiet]
  · trivial

/-- An instruction touches no pool, and does not put anything on the shelf. -/
theorem stepRun_pools_shelf_aborted (worker : Option (PoolId × Nat)) (s : Store V J) (r : Run V J) :
    (stepRun worker s r).1.pools = s.pools ∧ (stepRun worker s r).1.shelf = s.shelf ∧
      (stepRun worker s r).1.aborted = s.aborted := by
  obtain ⟨party, guards, body⟩ := r
  have polled : ∀ w, (pollWait s party w).2.pools = s.pools ∧ (pollWait s party w).2.shelf = s.shelf ∧
      (pollWait s party w).2.aborted = s.aborted := by
    rintro (_ | _) <;> exact ⟨rfl, rfl, rfl⟩
  cases body with
  | get c key next =>
    simp only [stepRun]
    split <;> exact polled _
  | join a b second next =>
    cases second with
    | false => exact polled _
    | true =>
      simp only [stepRun]
      split <;> exact polled _
  | select a b second next =>
    cases second <;> simp only [stepRun] <;> split <;> exact polled _
  | _ => refine ⟨?_, ?_, ?_⟩ <;> simp only [stepRun] <;> (try split) <;> rfl

theorem stepRun_pools (worker : Option (PoolId × Nat)) (s : Store V J) (r : Run V J) :
    (stepRun worker s r).1.pools = s.pools := (stepRun_pools_shelf_aborted worker s r).1

/-- An instruction leaves quiet frames, and below them one that carries on the run. -/
theorem stepRun_frames (worker : Option (PoolId × Nat)) (s : Store V J) (r : Run V J) :
    ∃ quiet g, (stepRun worker s r).2 = quiet ++ [g] ∧ (∀ f ∈ quiet, f.IsQuiet) ∧ g.CarriesOn r := by
  obtain ⟨party, guards, body⟩ := r
  have alone : ∀ g : Frame V J, g.CarriesOn ⟨party, guards, body⟩ →
      ∃ quiet g', [g] = quiet ++ [g'] ∧ (∀ f ∈ quiet, f.IsQuiet) ∧ g'.CarriesOn ⟨party, guards, body⟩ :=
    fun g hg => ⟨[], g, rfl, by simp, hg⟩
  cases body with
  | done result => exact ⟨[_], _, rfl, by simp [IsQuiet], rfl⟩
  | panic message => exact ⟨[_], _, rfl, by simp [IsQuiet], rfl⟩
  | get c key next => simp only [stepRun]; split <;> exact alone _ rfl
  | join a b second next =>
    cases second with
    | false => exact alone _ rfl
    | true => simp only [stepRun]; split <;> exact alone _ rfl
  | select a b second next =>
    cases second <;> simp only [stepRun] <;> split <;>
      first
      | exact alone _ rfl
      | exact ⟨_, _, rfl, by simp [IsQuiet], rfl⟩
  | yield times next => exact ⟨_, _, rfl, by simp [IsQuiet], rfl⟩
  | put c value next =>
    simp only [stepRun]
    split
    · exact alone _ rfl
    · exact ⟨_, _, rfl, fun f => isQuiet_afterPut, rfl⟩
  | destroy c next => simp only [stepRun]; split <;> exact alone _ rfl
  | getBlocking c next =>
    simp only [stepRun]
    split
    · exact alone _ rfl
    · refine alone _ fun answer => ?_
      rcases answer with e | _ | value <;> rfl
  | getTimeout c next =>
    simp only [stepRun]
    split
    · exact alone _ rfl
    · exact alone _ fun _ => rfl
  | spawn pool job next =>
    simp only [stepRun]
    split
    · exact alone _ rfl
    · exact alone _ ⟨rfl, fun _ => rfl⟩
  | wakeStashed index next => exact ⟨_, _, rfl, by simp [IsQuiet], rfl⟩
  | waitIdle p next => exact ⟨[_], _, rfl, by simp [IsQuiet], rfl⟩
  | shutdown p next => exact ⟨[_], _, rfl, by simp [IsQuiet], rfl⟩
  | _ => exact alone _ rfl

theorem IsQuiet.holds_eq_zero {f : Frame V J} (h : f.IsQuiet) (worker : Option (PoolId × Nat))
    (p : PoolId) (t : TaskId) : f.holds worker p t = 0 := by
  cases f <;> first | rfl | exact h.elim

theorem IsQuiet.ok {f : Frame V J} (h : f.IsQuiet) (worker : Option (PoolId × Nat)) (s : Store V J) :
    f.Ok worker s := by
  cases f with
  | shutdown p phase => cases phase <;> trivial
  | _ => trivial

theorem CarriesOn.holds_eq {r : Run V J} {g : Frame V J} (h : g.CarriesOn r)
    (worker : Option (PoolId × Nat)) (p : PoolId) (t : TaskId) :
    ∃ k : Hold V J, k.HasBody ∧ g.holds worker p t = if r.party = .task p t then {k} else 0 := by
  cases g with
  | run r' => exact ⟨.polling r', trivial, by rw [holds, show r'.party = r.party from h]⟩
  | pause r' => exact ⟨.pausing r', trivial, by rw [holds, show r'.party = r.party from h]⟩
  | ended party outcome => exact ⟨.ending outcome, trivial, by rw [holds, show party = r.party from h]⟩
  | blocked c timed next => exact ⟨.asking, trivial, by rw [holds, h]⟩
  | spawn q job phase next => exact ⟨.asking, trivial, by rw [holds, h.2]⟩
  | _ => exact h.elim

/-- The frame is part of a poll of the task. -/
def Polls (p : PoolId) (t : TaskId) : Frame V J → Prop
  | .run r | .pause r => r.party = .task p t
  | .ended party _ => party = .task p t
  | .blocked _ _ next => (next (.ok none)).party = .task p t
  | .spawn _ _ _ next => (next (.error .poolShutDown)).party = .task p t
  | _ => False

theorem Polls.holds_eq {p : PoolId} {t : TaskId} {f : Frame V J} (h : f.Polls p t)
    (worker : Option (PoolId × Nat)) : ∃ k : Hold V J, k.HasBody ∧ f.holds worker p t = {k} := by
  cases f with
  | run r => exact ⟨.polling r, trivial, if_pos h⟩
  | pause r => exact ⟨.pausing r, trivial, if_pos h⟩
  | ended party outcome => exact ⟨.ending outcome, trivial, if_pos h⟩
  | blocked c timed next => exact ⟨.asking, trivial, if_pos h⟩
  | spawn q job phase next => exact ⟨.asking, trivial, if_pos h⟩
  | _ => exact h.elim

theorem CarriesOn.polls {r : Run V J} {g : Frame V J} (h : g.CarriesOn r) {p : PoolId} {t : TaskId}
    (hr : r.party = .task p t) : g.Polls p t := by
  cases g with
  | run r' | pause r' | ended party outcome => exact h.trans hr
  | blocked c timed next => exact (h _).trans hr
  | spawn q job phase next => exact (h.2 _).trans hr
  | _ => exact h.elim

theorem CarriesOn.ok {r : Run V J} {g : Frame V J} (h : g.CarriesOn r)
    {worker : Option (PoolId × Nat)} (hr : r.party.On worker) (s : Store V J) : g.Ok worker s := by
  cases g with
  | run r' | pause r' => exact show Party.On worker r'.party from h.symm ▸ hr
  | ended party outcome => exact show Party.On worker party from h.symm ▸ hr
  | blocked c timed next => exact ⟨r.party, hr, h⟩
  | spawn q job phase next => exact ⟨r.party, hr, h.2⟩
  | _ => exact h.elim

/-- An instruction holds the task of its body once, before and after. -/
theorem holdsAll_stepRun (worker : Option (PoolId × Nat)) (s : Store V J) (r : Run V J) (p : PoolId)
    (t : TaskId) : ∃ k : Hold V J, k.HasBody ∧ (r.body.IsEnd → k.IsEnding) ∧
      holdsAll worker p t (stepRun worker s r).2 = (if r.party = .task p t then {k} else 0) ∧
      (r.party = .task p t → ∃ g ∈ (stepRun worker s r).2, g.holds worker p t = {k}) := by
  obtain ⟨quiet, g, hfs, hquiet, hg⟩ := stepRun_frames worker s r
  obtain ⟨k, hk, hholds⟩ := hg.holds_eq worker p t
  have hall : holdsAll worker p t (stepRun worker s r).2 = if r.party = .task p t then {k} else 0 := by
    rw [hfs, holdsAll_append, holdsAll_eq_zero fun f hf => (hquiet f hf).holds_eq_zero worker p t,
      holdsAll_cons, hholds]
    simp
  by_cases hr : r.party = .task p t
  · refine ⟨k, hk, fun hend => ?_, hall, fun _ => ⟨g, by rw [hfs]; simp, by rw [hholds, if_pos hr]⟩⟩
    obtain ⟨party, guards, body⟩ := r
    obtain rfl : party = .task p t := hr
    cases body with
    | done result | panic message =>
      simp only [stepRun, holdsAll_cons, holds, holdsAll_nil, if_true, zero_add, add_zero,
        Multiset.singleton_inj] at hall
      exact hall ▸ trivial
    | _ => exact hend.elim
  · exact ⟨.ending (.panicked none), trivial, fun _ => trivial, by rw [hall, if_neg hr, if_neg hr],
      fun h => absurd h hr⟩

/-- The pool with one more task counted as ended so. -/
def tallied (outcome : Outcome) (pool : Pool V J) : Pool V J :=
  match finalState outcome with
  | .completed => { pool with stats.completed := pool.stats.completed + 1 }
  | _ => { pool with stats.failed := pool.stats.failed + 1 }

theorem stepTask_tally (start : J → Except RuntimeError (Body V J)) (worker : Option (PoolId × Nat))
    (s : Store V J) (p : PoolId) (t : TaskId) (outcome : Outcome) :
    stepTask start worker s p t (.tally outcome) =
      match s.pools[p]? with
      | none => (s, [])
      | some pool =>
        if isFatal pool.config outcome then ({ s.modifyPool p (tallied outcome) with aborted := true }, [])
        else (s.modifyPool p (tallied outcome),
          [.task p t .unregister, .count p (.liveDown 1), .count p .activeDown]) := rfl

/-- Only the statistics tell of it. -/
theorem tallied_eq (outcome : Outcome) (pool : Pool V J) :
    tallied outcome pool = { pool with stats := (tallied outcome pool).stats } := by
  unfold tallied
  split <;> rfl

section step

variable (start : J → Except RuntimeError (Body V J)) (worker : Option (PoolId × Nat)) (choice : Nat)
  (s : Store V J)

/-- A task's frame adds no pool and closes none. -/
theorem stepTask_keeps (p : PoolId) (t : TaskId) (phase : TaskPhase) :
    s.Keeps (stepTask start worker s p t phase).1 := by
  have counted : ∀ (s' : Store V J) (g : Pool V J → Pool V J),
      (∀ pool, (g pool).running = pool.running ∧ (g pool).config = pool.config ∧
        (g pool).locals = pool.locals) → s'.Keeps (s'.modifyPool p g) := fun s' g hg =>
    .modifyPool fun pool _ => ⟨fun h => (hg pool).1 ▸ h, (hg pool).2.1, by rw [(hg pool).2.2]⟩
  cases phase with
  | claim | park =>
    simp only [stepTask]
    split
    · exact .refl s
    · split
      · first | exact .modifyTask | exact .refl s
      · first | exact .modifyTask | exact .refl s
  | begin => exact counted s _ fun _ => ⟨rfl, rfl, rfl⟩
  | enter =>
    simp only [stepTask]
    split
    · exact .refl s
    · split
      · have : s.Keeps ((s.setStage p t .consumed).modifyPool p fun pool =>
            { pool with queued := pool.queued - 1 }) :=
          Store.Keeps.modifyTask.trans (counted _ _ fun _ => ⟨rfl, rfl, rfl⟩)
        split <;> exact this
      · exact .modifyTask
      · exact .modifyTask
  | settle outcome => exact .modifyTask
  | tally outcome =>
    have tallying : s.Keeps (s.modifyPool p (tallied outcome)) :=
      counted s _ fun pool => by rw [tallied_eq]; exact ⟨rfl, rfl, rfl⟩
    rw [stepTask_tally]
    split
    · exact .refl s
    · split
      · exact tallying.trans (.of_pools_eq rfl)
      · exact tallying
  | unregister | requeue | register | abandon => exact .modifyTask
  | enqueue =>
    refine .modifyPool fun pool _ => ?_
    unfold enqueue
    split
    · split
      · split
        · obtain ⟨q, -, rfl⟩ := LocalQueues.push?_eq_some ‹_›
          simp
        · simp
      · simp
    · simp
  | discard =>
    simp only [stepTask]
    split
    · exact .refl s
    · exact .modifyTask

/-- A worker on its way to a task adds no pool and closes none. -/
theorem stepWork_keeps (p : PoolId) (w : Nat) (seek : Seek) :
    s.Keeps (stepWork choice s p w seek).1 := by
  cases seek with
  | loop =>
    simp only [stepWork]
    split
    · exact .refl s
    · exact .modifyPool fun _ _ => ⟨id, rfl, rfl⟩
  | own =>
    simp only [stepWork]
    split
    · exact .refl s
    · rename_i pool hp
      split
      · rename_i t locals hpop
        refine .modifyPool fun pool' hp' => ⟨id, rfl, ?_⟩
        rw [hp] at hp'
        cases hp'
        have := LocalQueues.workers_popLocal pool.locals w
        rwa [hpop] at this
      · exact .refl s
  | shared =>
    simp only [stepWork]
    split
    · exact .refl s
    · split
      · exact .modifyPool fun _ _ => ⟨id, rfl, rfl⟩
      · split <;> exact .refl s
  | theft victims =>
    cases victims with
    | nil => exact .modifyPool fun _ _ => ⟨id, rfl, rfl⟩
    | cons victim victims =>
      simp only [stepWork]
      split
      · exact .refl s
      · rename_i pool hp
        split
        · exact .refl s
        · rename_i first rest locals hsteal
          refine .modifyPool fun pool' hp' => ⟨id, rfl, ?_⟩
          rw [hp] at hp'
          cases hp'
          have := LocalQueues.workers_stealFrom pool.locals victim pool.config.stealBatch
          rwa [hsteal] at this
  | keep first rest =>
    exact .modifyPool fun pool _ => ⟨id, rfl, LocalQueues.workers_extend? pool.locals w rest⟩
  | idle => exact .refl s

/-- A shutdown closes its pool and changes no other. -/
theorem stepShutdown_keeps (p : PoolId) (phase : ShutdownPhase) :
    s.Keeps (stepShutdown choice s p phase).1 := by
  cases phase with
  | check => simp only [stepShutdown]; split <;> exact .refl s
  | close => exact .modifyPool fun _ _ => ⟨fun h => (by cases h), rfl, rfl⟩
  | join => simp only [stepShutdown]; split <;> exact .refl s
  | drainOwn w => exact .modifyPool fun _ _ => ⟨id, rfl, LocalQueues.workers_setQueue ..⟩
  | drainShared =>
    simp only [stepShutdown]
    split
    · exact .refl s
    · split
      · exact .modifyPool fun _ _ => ⟨id, rfl, rfl⟩
      · exact .refl s
  | collect =>
    simp only [stepShutdown]
    split
    · exact .refl s
    · exact .modifyPool fun _ _ => ⟨id, rfl, rfl⟩
  | release tasks => cases tasks <;> exact .refl s

/-- A step adds no pool and opens none. -/
theorem step_keeps (f : Frame V J) : s.Keeps (f.step start worker choice s).1 := by
  cases f with
  | run r => exact .of_pools_eq (stepRun_pools worker s r)
  | pause r =>
    simp only [step, stepPause]
    split
    · exact .of_pools_eq rfl
    · exact Store.Keeps.modifyTask.trans (.modifyPool fun _ _ => ⟨id, rfl, rfl⟩)
  | drop guards => cases guards <;> exact .of_pools_eq rfl
  | fill c value => simp only [step]; split <;> exact .of_pools_eq rfl
  | ended party outcome =>
    simp only [step, stepEnded]
    split
    · exact .of_pools_eq rfl
    · exact .modifyPool fun _ _ => ⟨id, rfl, rfl⟩
  | blocked c timed next => simp only [step]; split <;> exact .of_pools_eq rfl
  | spawn p job phase next =>
    cases phase with
    | check => simp only [step, stepSpawn]; split <;> exact .refl s
    | reserve =>
      simp only [step, stepSpawn]
      split
      · exact .refl s
      · split <;> exact .modifyPool fun _ _ => ⟨id, rfl, rfl⟩
    | number =>
      simp only [step, stepSpawn]
      split
      · exact .refl s
      · exact .modifyPool fun _ _ => ⟨id, rfl, rfl⟩
  | wake party =>
    cases party with
    | outside => exact .of_pools_eq rfl
    | task p t =>
      simp only [step, stepWake]
      split
      · exact .refl s
      · split <;> exact .refl s
  | exchange p t seen target =>
    simp only [step, stepExchange]
    split
    · exact .refl s
    · split
      · exact .refl s
      · exact .modifyTask
  | reschedule p t => simp only [step, stepReschedule]; split <;> exact .refl s
  | task p t phase => exact stepTask_keeps start worker s p t phase
  | count p change =>
    refine .modifyPool fun pool _ => ?_
    cases change <;> exact ⟨id, rfl, rfl⟩
  | work seek =>
    cases worker with
    | none => exact .refl s
    | some home => exact stepWork_keeps choice s home.1 home.2 seek
  | shutdown p phase => exact stepShutdown_keeps choice s p phase
  | _ => exact .of_pools_eq rfl

theorem isQuiet_dropPending {guards : List (Guard V)} {body : Body V J} {f : Frame V J}
    (h : f ∈ dropPending guards body) : f.IsQuiet := by
  simp only [dropPending, List.mem_append, List.mem_map, List.mem_singleton] at h
  rcases h with ⟨_, -, rfl⟩ | rfl <;> trivial

/-- What replaces a frame when a thread takes its step: nothing, or what belongs to the next part of the same call. -/
inductive Gives (start : J → Except RuntimeError (Body V J)) (worker : Option (PoolId × Nat)) (s : Store V J) :
    Frame V J → List (Frame V J) → Prop where
  | nothing {f} : Gives start worker s f []
  | run {r} : Gives start worker s (.run r) (stepRun worker s r).2
  | pause {r p t} (hparty : r.party = .task p t) : Gives start worker s (.pause r) [.task p t .park]
  | drop {guards fs} (hfs : ∀ g ∈ fs, (∃ c value, g = .fill c value) ∨ ∃ guards, g = .drop guards) :
      Gives start worker s (.drop guards) fs
  | fill {c value} : Gives start worker s (.fill c value) (afterPut c (s.cell c))
  | ended {p t outcome} : Gives start worker s (.ended (.task p t) outcome) [.task p t (.settle outcome)]
  | freed {c timed next} (answer) : Gives start worker s (.blocked c timed next) [.run (next answer)]
  | blocked {c timed next} : Gives start worker s (.blocked c timed next) [.blocked c timed next]
  | refused {p job phase next} (e) : Gives start worker s (.spawn p job phase next) [.run (next (.error e))]
  | admitted {p job next} : Gives start worker s (.spawn p job .check next) [.spawn p job .reserve next]
  | reserved {p pool job next} (hpool : s.pools[p]? = some pool) :
      Gives start worker s (.spawn p job .reserve next) [.spawn p job .number next]
  | made {p job next} (t) : Gives start worker s (.spawn p job .number next)
      [.count p .activeUp, .count p .liveUp, .task p t .register, .count p .spawned, .task p t .enqueue,
        .run (next (.ok t))]
  | wake {p t seen target} (htarget : seen.wakeTarget? = some target) :
      Gives start worker s (.wake (.task p t)) [.exchange p t seen target]
  | missed {p t seen target} : Gives start worker s (.exchange p t seen target) [.wake (.task p t)]
  | woken {p t seen target} : Gives start worker s (.exchange p t seen target) [.reschedule p t]
  | handedBack {p t} (hp : s.Running p) : Gives start worker s (.reschedule p t)
      [.count p .activeUp, .count p .resumed, .task p t .enqueue]
  | claimed {p t} : Gives start worker s (.task p t .claim) [.task p t .begin]
  | begun {p t} : Gives start worker s (.task p t .begin) [.task p t .enter]
  | entered {p t y guards body} (hy : s.task? p t = some y)
      (hbody : (∃ job, y.stage = .unclaimed job ∧ start job = .ok body) ∨ y.stage = .started guards body) :
      Gives start worker s (.task p t .enter) [.run { party := .task p t, guards, body }]
  | void {p t} (outcome) : Gives start worker s (.task p t .enter) [.ended (.task p t) outcome]
  | settled {p t outcome} : Gives start worker s (.task p t (.settle outcome)) [.task p t (.tally outcome)]
  | tallied {p t outcome} : Gives start worker s (.task p t (.tally outcome))
      [.task p t .unregister, .count p (.liveDown 1), .count p .activeDown]
  | parked {p t pool} (hpool : s.pools[p]? = some pool) :
      Gives start worker s (.task p t .park) [.count p .suspended, .count p .activeDown]
  | notified {p t} : Gives start worker s (.task p t .park) [.task p t .requeue]
  | requeued {p t} : Gives start worker s (.task p t .requeue) [.task p t .enqueue]
  | abandoned {p t} : Gives start worker s (.task p t .abandon) [.task p t .discard]
  | discarded {p t} (guards body) : Gives start worker s (.task p t .discard) (dropPending guards body)
  | seeks {seek} (seek') : Gives start worker s (.work seek) [.work seek']
  | finds {p w seek} (hworker : worker = some (p, w)) (t) :
      Gives start worker s (.work seek) [.task p t .claim, .work .loop]
  | asked {p} (hp : s.Running p) : Gives start worker s (.shutdown p .check) [.waitIdle p, .shutdown p .close]
  | closed {p} : Gives start worker s (.shutdown p .close) [.shutdown p .join]
  | joined {p} (n : Nat) : Gives start worker s (.shutdown p .join)
      ((List.range n).map (fun w => .shutdown p (.drainOwn w)) ++ [.shutdown p .drainShared, .shutdown p .collect])
  | drained {p} : Gives start worker s (.shutdown p .drainShared) [.shutdown p .drainShared]
  | collected {p} (tasks) : Gives start worker s (.shutdown p .collect)
      [.shutdown p (.release tasks), .count p (.liveDown tasks.length)]
  | chosen {p tasks} (t tasks') : Gives start worker s (.shutdown p (.release tasks))
      [.task p t .abandon, .shutdown p (.release tasks')]

theorem gives_stepTask (p : PoolId) (t : TaskId) (phase : TaskPhase) :
    Gives start worker s (.task p t phase) (stepTask start worker s p t phase).2 := by
  cases phase with
  | claim =>
    simp only [stepTask]
    split
    · exact .nothing
    · split
      · exact .nothing
      · exact .claimed
  | enter =>
    simp only [stepTask]
    split
    · exact .nothing
    · rename_i y hy
      split
      · rename_i job hstage
        split
        · exact .void _
        · rename_i body hbody
          exact .entered hy (.inl ⟨job, hstage, hbody⟩)
      · rename_i guards body hstage
        exact .entered hy (.inr hstage)
      · exact .void _
  | tally outcome =>
    rw [stepTask_tally]
    split
    · exact .nothing
    · split
      · exact .nothing
      · exact .tallied
  | park =>
    simp only [stepTask]
    split
    · exact .nothing
    · rename_i y hy
      split
      · obtain ⟨pool, hpool, -⟩ := Store.exists_pool_of_task? hy
        exact .parked hpool
      · exact .notified
  | discard =>
    simp only [stepTask]
    split
    · exact .nothing
    · dsimp only
      split
      · exact .discarded _ _
      · exact .nothing
  | begin => exact .begun
  | settle outcome => exact .settled
  | requeue => exact .requeued
  | abandon => exact .abandoned
  | unregister | enqueue | register => exact .nothing

theorem gives_stepWork (p : PoolId) (w : Nat) (seek : Seek) :
    Gives start (some (p, w)) s (.work seek) (stepWork choice s p w seek).2 := by
  cases seek with
  | loop =>
    simp only [stepWork]
    split
    · exact .seeks _
    · exact .nothing
  | own =>
    simp only [stepWork]
    split
    · exact .nothing
    · split
      · exact .finds rfl _
      · exact .seeks _
  | shared =>
    simp only [stepWork]
    split
    · exact .nothing
    · split
      · exact .finds rfl _
      · split
        · exact .seeks _
        · exact .seeks _
  | theft victims =>
    cases victims with
    | nil => exact .seeks _
    | cons victim victims =>
      simp only [stepWork]
      split
      · exact .nothing
      · split
        · exact .seeks _
        · exact .seeks _
  | keep first rest => exact .finds rfl _
  | idle => exact .seeks _

theorem gives_stepShutdown (p : PoolId) (phase : ShutdownPhase) :
    Gives start worker s (.shutdown p phase) (stepShutdown choice s p phase).2 := by
  cases phase with
  | check =>
    simp only [stepShutdown]
    split
    · rename_i hrunning
      exact .asked ((s.running_iff p).2 hrunning)
    · exact .nothing
  | close => exact .closed
  | join =>
    simp only [stepShutdown]
    split
    · exact .nothing
    · exact .joined _
  | drainOwn w => exact .nothing
  | drainShared =>
    simp only [stepShutdown]
    split
    · exact .nothing
    · split
      · exact .drained
      · exact .nothing
  | collect =>
    simp only [stepShutdown]
    split
    · exact .nothing
    · exact .collected _
  | release tasks =>
    cases tasks with
    | nil => exact .nothing
    | cons t tasks => exact .chosen _ _

/-- What a step can give, said once for all that follows from it. -/
theorem gives_step (f : Frame V J) : Gives start worker s f (f.step start worker choice s).2 := by
  cases f with
  | run r => exact .run
  | pause r =>
    simp only [step, stepPause]
    split
    · exact .nothing
    · exact .pause ‹_›
  | drop guards =>
    cases guards with
    | nil => exact .nothing
    | cons guard guards =>
      refine .drop fun g hg => ?_
      rcases List.mem_append.1 hg with hg | hg
      · obtain ⟨_, -, rfl⟩ := List.mem_map.1 hg
        exact .inl ⟨_, _, rfl⟩
      · exact .inr ⟨_, List.mem_singleton.1 hg⟩
  | fill c value =>
    simp only [step]
    split
    · exact .nothing
    · exact .fill
  | ended party outcome =>
    cases party with
    | outside => exact .nothing
    | task p t => exact .ended
  | blocked c timed next =>
    simp only [step]
    split
    · exact .freed _
    · exact .blocked
  | spawn p job phase next =>
    cases phase with
    | check =>
      simp only [step, stepSpawn]
      split
      · exact .admitted
      · exact .refused _
    | reserve =>
      simp only [step, stepSpawn]
      split
      · exact .refused _
      · rename_i pool hpool
        split
        · exact .refused _
        · exact .reserved hpool
    | number =>
      simp only [step, stepSpawn]
      split
      · exact .refused _
      · exact .made _
  | wake party =>
    cases party with
    | outside => exact .nothing
    | task p t =>
      simp only [step, stepWake]
      split
      · exact .nothing
      · split
        · exact .nothing
        · exact .wake ‹_›
  | exchange p t seen target =>
    simp only [step, stepExchange]
    split
    · exact .nothing
    · split
      · exact .missed
      · split
        · exact .woken
        · exact .nothing
  | reschedule p t =>
    simp only [step, stepReschedule]
    split
    · rename_i hrunning
      exact .handedBack ((s.running_iff p).2 hrunning)
    · exact .nothing
  | task p t phase => exact gives_stepTask start worker s p t phase
  | work seek =>
    rcases worker with _ | ⟨p, w⟩
    · exact .nothing
    · exact gives_stepWork start choice s p w seek
  | shutdown p phase => exact gives_stepShutdown start worker choice s p phase
  | withdraw | signal | count | waitIdle => exact .nothing

/-- A worker goes on looking, or takes up a task of its own pool. -/
theorem stepWork_frames {p : PoolId} {w : Nat} {seek : Seek} {g : Frame V J}
    (hg : g ∈ (stepWork choice s p w seek).2) : (∃ seek', g = work seek') ∨ ∃ t, g = task p t .claim := by
  revert hg
  cases seek with
  | loop => simp only [stepWork]; split <;> simp +contextual
  | own =>
    simp only [stepWork]
    split
    · simp
    · split <;> simp +contextual [or_imp]
  | shared =>
    simp only [stepWork]
    split
    · simp
    · split
      · simp +contextual [or_imp]
      · split <;> simp +contextual
  | theft victims =>
    cases victims with
    | nil => simp +contextual [stepWork]
    | cons victim victims =>
      simp only [stepWork]
      split
      · simp
      · split <;> simp +contextual
  | keep first rest => simp +contextual [stepWork, or_imp]
  | idle => simp +contextual [stepWork]

/-- A worker on its way to a task changes its own pool only, and none of its tasks. -/
theorem stepWork_pools (p : PoolId) (w : Nat) (seek : Seek) :
    (stepWork choice s p w seek).1 = s ∨
      ∃ g, (stepWork choice s p w seek).1 = s.modifyPool p g ∧ ∀ pool, (g pool).tasks = pool.tasks := by
  cases seek with
  | loop =>
    simp only [stepWork]
    split
    · exact .inl rfl
    · exact .inr ⟨_, rfl, fun _ => rfl⟩
  | own =>
    simp only [stepWork]
    split
    · exact .inl rfl
    · split
      · exact .inr ⟨_, rfl, fun _ => rfl⟩
      · exact .inl rfl
  | shared =>
    simp only [stepWork]
    split
    · exact .inl rfl
    · split
      · exact .inr ⟨_, rfl, fun _ => rfl⟩
      · split <;> exact .inl rfl
  | theft victims =>
    cases victims with
    | nil => exact .inr ⟨_, rfl, fun _ => rfl⟩
    | cons victim victims =>
      simp only [stepWork]
      split
      · exact .inl rfl
      · split
        · exact .inl rfl
        · exact .inr ⟨_, rfl, fun _ => rfl⟩
  | keep first rest => exact .inr ⟨_, rfl, fun _ => rfl⟩
  | idle => exact .inl rfl

/-- What is known of a frame is known of the frames that replace it. -/
theorem step_ok {f : Frame V J} (h : f.Ok worker s) :
    ∀ g ∈ (f.step start worker choice s).2, g.Ok worker (f.step start worker choice s).1 := by
  have hkeeps := step_keeps start worker choice s f
  have hclosed : ∀ p, f = .shutdown p .close → (f.step start worker choice s).1.Closed p := by
    rintro p rfl
    obtain ⟨pool, hp⟩ := h
    exact ⟨{ pool with running := false }, by simp [step, stepShutdown, Store.pools_modifyPool, hp], rfl⟩
  have hgives := gives_step start worker choice s f
  generalize (f.step start worker choice s).1 = s' at hkeeps hclosed ⊢
  generalize (f.step start worker choice s).2 = fs at hgives ⊢
  cases hgives with
  | @run r =>
    obtain ⟨quiet, g, hfs, hquiet, hg⟩ := stepRun_frames worker s r
    intro f hf
    rw [hfs] at hf
    rcases List.mem_append.1 hf with hf | hf
    · exact (hquiet f hf).ok _ _
    · exact List.mem_singleton.1 hf ▸ hg.ok h _
  | @pause r p t hparty =>
    have hon : r.party.On worker := h
    rw [hparty] at hon
    simpa [Ok, Party.On] using hon
  | drop hfs =>
    intro g hg
    rcases hfs g hg with ⟨c, value, rfl⟩ | ⟨guards, rfl⟩ <;> trivial
  | fill => exact fun g hg => (isQuiet_afterPut hg).ok _ _
  | discarded guards body => exact fun g hg => (isQuiet_dropPending hg).ok _ _
  | freed | refused =>
    obtain ⟨party, hon, hnext⟩ := h
    simpa [Ok, hnext] using hon
  | made t =>
    obtain ⟨party, hon, hnext⟩ := h
    simpa [Ok, hnext] using hon
  | wake htarget => simpa [Ok] using htarget
  | seeks seek' =>
    have hwork : Ok worker s' (.work seek' : Frame V J) := Ok.mono (f := .work seek') h hkeeps
    simpa using hwork
  | finds hworker t =>
    have hwork : Ok worker s' (.work .loop : Frame V J) := Ok.mono (f := .work .loop) h hkeeps
    simpa [Ok, hworker] using hwork
  | @asked p hp =>
    obtain ⟨pool, hpool, -⟩ := hp
    obtain ⟨pool', hpool', -⟩ := hkeeps p pool hpool
    simp [Ok, hpool']
  | closed => simpa [Ok] using hclosed _ rfl
  | abandoned | joined | drained | collected | chosen =>
    have hstill := Store.Closed.mono h hkeeps
    simp [Ok, hstill, or_imp, forall_and]
  | nothing | missed | woken | handedBack | settled | tallied | parked | requeued => simp [Ok]
  | _ => simpa [Ok, Party.On] using h

/-- What has to do with tasks does not touch cells and the shelf. -/
theorem stepTask_cells_shelf (p : PoolId) (t : TaskId) (phase : TaskPhase) :
    (stepTask start worker s p t phase).1.cells = s.cells ∧
      (stepTask start worker s p t phase).1.shelf = s.shelf := by
  cases phase with
  | enter =>
    simp only [stepTask]
    split
    · exact ⟨rfl, rfl⟩
    · split <;> (try split) <;> exact ⟨rfl, rfl⟩
  | tally outcome | claim | park => simp only [stepTask]; split <;> (try split) <;> exact ⟨rfl, rfl⟩
  | discard => simp only [stepTask]; split <;> exact ⟨rfl, rfl⟩
  | _ => exact ⟨rfl, rfl⟩

/-- Neither does a shutdown. -/
theorem stepShutdown_cells_shelf (p : PoolId) (phase : ShutdownPhase) :
    (stepShutdown choice s p phase).1.cells = s.cells ∧ (stepShutdown choice s p phase).1.shelf = s.shelf := by
  cases phase with
  | check | join | collect => simp only [stepShutdown]; split <;> exact ⟨rfl, rfl⟩
  | drainShared => simp only [stepShutdown]; split <;> (try split) <;> exact ⟨rfl, rfl⟩
  | release tasks => cases tasks <;> exact ⟨rfl, rfl⟩
  | _ => exact ⟨rfl, rfl⟩

/-- Only an outsider that is left pending gets onto the shelf. -/
theorem shelf_step (f : Frame V J) : (f.step start worker choice s).1.shelf = s.shelf ∨
    ∃ r, f = .pause r ∧ r.party = .outside ∧ (f.step start worker choice s).1.shelf = some r := by
  cases f with
  | run r => exact .inl (stepRun_pools_shelf_aborted worker s r).2.1
  | pause r =>
    simp only [step, stepPause]
    split
    · exact .inr ⟨r, rfl, ‹_›, rfl⟩
    · exact .inl rfl
  | drop guards => cases guards <;> exact .inl rfl
  | fill c value => simp only [step]; split <;> exact .inl rfl
  | ended party outcome => cases party <;> exact .inl rfl
  | blocked c timed next => simp only [step]; split <;> exact .inl rfl
  | spawn p job phase next =>
    cases phase <;> simp only [step, stepSpawn] <;> split <;> (try split) <;> exact .inl rfl
  | wake party =>
    cases party with
    | outside => exact .inl rfl
    | task p t => simp only [step, stepWake]; split <;> (try split) <;> exact .inl rfl
  | exchange p t seen target => simp only [step, stepExchange]; split <;> (try split) <;> exact .inl rfl
  | reschedule p t => simp only [step, stepReschedule]; split <;> exact .inl rfl
  | task p t phase => exact .inl (stepTask_cells_shelf start worker s p t phase).2
  | work seek =>
    rcases worker with _ | ⟨p, w⟩
    · exact .inl rfl
    · rcases stepWork_pools choice s p w seek with heq | ⟨g, heq, -⟩ <;> rw [step, heq] <;> exact .inl rfl
  | shutdown p phase => exact .inl (stepShutdown_cells_shelf choice s p phase).2
  | _ => exact .inl rfl

end step

end Frame

namespace Machine

variable {V J : Type} {start : J → Except RuntimeError (Body V J)}

/-- Every frame is on a thread that can have it, and nobody's body lies on the shelf but an outsider's. -/
structure Framed (m : Machine V J) : Prop where
  frames : m.AllFrames fun worker f => f.Ok worker m.store
  shelf : ∀ r, m.store.shelf = some r → r.party = .outside

/-- Whatever happens, no pool is given up, and none opened again. -/
theorem after_keeps (start : J → Except RuntimeError (Body V J)) (m : Machine V J) (mv : Move V J) :
    m.store.Keeps (m.after start mv).store := by
  cases mv with
  | step i choice =>
    rcases m.after_step start i choice with ⟨heq, -⟩ | ⟨worker, f, rest, -, -, -, -, heq⟩
    · rw [heq]; exact .refl _
    · rw [heq]; exact Frame.step_keeps start worker choice m.store f
  | startPool config =>
    rcases m.after_startPool start config with heq | heq
    · rw [heq]; exact .refl _
    · rw [heq]; exact .push
  | enter body => exact .of_pools_eq rfl
  | poll | discard => simp only [Machine.after]; split <;> exact .of_pools_eq rfl

/-- What a move does that is no step: nothing, or the workers of a new pool come, or one thread from outside. -/
inductive Arrival (m : Machine V J) : Machine V J → Prop where
  | nobody : Arrival m m
  | workers (config : PoolConfig) : Arrival m (m.addPool config)
  | outsider {s : Store V J} {frames : List (Frame V J)} (hpools : s.pools = m.store.pools)
      (hframes : ∀ f ∈ frames, f.IsQuiet ∨ ∃ r, f = .run r) : Arrival m (spawnThread ⟨s, m.threads⟩ frames)

theorem arrival_of_not_taken (start : J → Except RuntimeError (Body V J)) {m : Machine V J} {mv : Move V J}
    (h : m.taken mv = none) : Arrival m (m.after start mv) := by
  have runs : ∀ {s : Store V J} {r : Run V J}, s.pools = m.store.pools →
      Arrival m (spawnThread ⟨s, m.threads⟩ [.run r]) := fun hpools =>
    .outsider hpools fun f hf => .inr ⟨_, List.mem_singleton.1 hf⟩
  cases mv with
  | step i choice =>
    rcases m.after_step start i choice with ⟨heq, -⟩ | ⟨_, _, _, -, -, -, htaken, -⟩
    · rw [heq]
      exact .nobody
    · rw [htaken] at h
      cases h
  | startPool config =>
    rcases m.after_startPool start config with heq | heq
    · rw [heq]
      exact .nobody
    · rw [heq]
      exact .workers config
  | enter body => exact runs rfl
  | poll =>
    simp only [Machine.after]
    split
    · exact runs rfl
    · exact .nobody
  | discard =>
    simp only [Machine.after]
    split
    · exact .outsider rfl fun f hf => .inl (Frame.isQuiet_dropPending hf)
    · exact .nobody

theorem run_keeps (start : J → Except RuntimeError (Body V J)) (m : Machine V J) (mvs : List (Move V J)) :
    m.store.Keeps (m.run start mvs).store :=
  run_induction start (P := fun m' => m.store.Keeps m'.store) (fun m' mv h => h.trans (m'.after_keeps start mv))
    (.refl _) mvs

theorem Framed.initial (n : Nat) : (withCells n : Machine V J).Framed :=
  ⟨fun i th hi => by simp [withCells] at hi, fun r hr => by cases hr⟩

/-- Whatever happens, every frame stays on a thread that can have it. -/
theorem Framed.after {m : Machine V J} (h : m.Framed) (mv : Move V J) : (m.after start mv).Framed := by
  have keeps := m.after_keeps start mv
  cases mv with
  | step i choice =>
    rcases m.after_step start i choice with ⟨heq, -⟩ | ⟨worker, f, rest, hi, -, -, -, heq⟩
    · rwa [heq]
    · rw [heq] at keeps ⊢
      refine ⟨?_, fun r hr => ?_⟩
      · refine AllFrames.set ?_ hi (Frame.step_ok start worker choice m.store (h.frames i _ hi f (by simp))) _
        exact h.frames.mono fun worker' g hg => hg.mono keeps
      · rcases Frame.shelf_step start worker choice m.store f with hs | ⟨r', -, hparty, hs⟩
        · exact h.shelf r (hs ▸ hr)
        · rw [hs] at hr
          cases hr
          exact hparty
  | startPool config =>
    rcases m.after_startPool start config with heq | heq
    · rwa [heq]
    · rw [heq] at keeps ⊢
      refine ⟨?_, h.shelf⟩
      refine AllFrames.addPool (h.frames.mono fun worker f hf => hf.mono keeps) fun w hw => ?_
      exact ⟨_, w, .new config, rfl, by simp [addPool], by simpa [Pool.new, LocalQueues.new, LocalQueues.workers] using hw⟩
  | enter body => exact ⟨h.frames.spawnThread (by simp [Frame.Ok, Party.On]), h.shelf⟩
  | poll =>
    simp only [Machine.after]
    split
    · rename_i r hr
      refine ⟨AllFrames.spawnThread ?_ ?_, fun r' hr' => by cases hr'⟩
      · exact h.frames.clearShelf.mono fun worker f hf => hf.mono (.of_pools_eq rfl)
      · simp [Frame.Ok, h.shelf r hr, Party.On]
    · exact h
  | discard =>
    simp only [Machine.after]
    split
    · rename_i r hr
      refine ⟨AllFrames.spawnThread ?_ ?_, fun r' hr' => by cases hr'⟩
      · exact h.frames.clearShelf.mono fun worker f hf => hf.mono (.of_pools_eq rfl)
      · exact fun f hf => (Frame.isQuiet_dropPending hf).ok _ _
    · exact h

end Machine
end Dataflow
