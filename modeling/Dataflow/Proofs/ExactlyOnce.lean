import Dataflow.Proofs.Scheduling

/-!
# Exactly once

A task of a running pool that is not parked and not finished is met at exactly one place, which is one of
its own pool, and any other task at none (`Machine.sites`). What follows for the steps that were taken is
said of the trace: its job is started at most once and as it was spawned, nobody polls it while somebody
else does or after its body has ended, and a worker never finds a task it takes up in the wrong state or
without its stage.

The trace is followed by `Chronicle`, which every move keeps.
-/

namespace Dataflow

variable {V J : Type}

/-- A frame that holds a task is one of the task's own pool, if it is there by right. -/
theorem Frame.isOf_of_mem_sites {worker : Option (PoolId × Nat)} {s : Store V J} {f : Frame V J} {p : PoolId}
    {t : TaskId} (hf : f.Ok worker s) {site : Site} (h : site ∈ f.sites worker p t) : site.IsOf p := by
  have hand : ∀ {party : Party}, party.On worker → site ∈ (if party = .task p t then [.hand worker] else []) →
      site.IsOf p := by
    intro party hon hmem
    split at hmem
    · rename_i hparty
      rw [List.mem_singleton.1 hmem]
      rw [hparty] at hon
      exact hon
    · cases hmem
  cases f with
  | run r => exact hand hf h
  | pause r => exact hand hf h
  | ended party outcome => exact hand hf h
  | blocked c timed next =>
    obtain ⟨party, hon, hnext⟩ := hf
    exact hand hon (by simpa [sites, hnext] using h)
  | spawn q job phase next =>
    obtain ⟨party, hon, hnext⟩ := hf
    exact hand hon (by simpa [sites, hnext] using h)
  | reschedule q u =>
    simp only [sites] at h
    split at h
    · rw [List.mem_singleton.1 h]
      trivial
    · cases h
  | task q u phase =>
    simp only [sites] at h
    split at h
    · rename_i hq
      obtain ⟨rfl, rfl⟩ := hq
      cases phase with
      | claim | begin | enter | settle | park | requeue =>
        rw [List.mem_singleton.1 h]
        exact hf
      | enqueue =>
        rw [List.mem_singleton.1 h]
        trivial
      | _ => cases h
    · cases h
  | work seek =>
    cases seek with
    | keep first rest =>
      obtain ⟨q, w, pool, hw, -⟩ := hf
      simp only [sites, hw, Option.map_some, Option.some.injEq] at h
      split at h
      · rename_i hq
        rw [List.eq_of_mem_replicate h, ← hq]
        exact ⟨w, rfl⟩
      · cases h
    | _ => cases h
  | _ => cases h

/-- A queue in which a task is met is one of its pool. -/
theorem Store.isOf_of_mem_sites {s : Store V J} {p : PoolId} {t : TaskId} {site : Site}
    (h : site ∈ s.sites p t) : site.IsOf p := by
  unfold sites at h
  split at h
  · cases h
  · simp only [List.mem_append, List.mem_flatMap, List.mem_replicate, Prod.exists] at h
    rcases h with ⟨-, rfl⟩ | ⟨_, _, -, -, rfl⟩ <;> trivial

theorem Machine.Framed.isOf_of_mem_sites {m : Machine V J} (hm : m.Framed) {p : PoolId} {t : TaskId}
    {site : Site} (h : site ∈ m.sites p t) : site.IsOf p := by
  simp only [Machine.sites, List.mem_append, List.mem_flatMap] at h
  rcases h with h | ⟨th, hth, f, hf, h⟩
  · exact Store.isOf_of_mem_sites h
  · obtain ⟨i, hi⟩ := List.mem_iff_getElem?.1 hth
    rw [Array.getElem?_toList] at hi
    exact Frame.isOf_of_mem_sites (hm.frames i th hi f hf) h

namespace Taken

variable (p : PoolId) (t : TaskId) (e : Taken V J)

/-- The step starts the job of the task. -/
def Starts (job : J) : Prop :=
  e.frame = .task p t .enter ∧ ∃ y, e.store.task? p t = some y ∧ y.stage = .unclaimed job

/-- The body of the task takes a step. -/
def Runs : Prop := ∃ r, e.frame = .run r ∧ r.party = .task p t

/-- The body of the task returns in the step, or panics. -/
def Ends : Prop := ∃ r, e.frame = .run r ∧ r.party = .task p t ∧ r.body.IsEnd

end Taken

/-- The job of the task has been started or dropped. -/
def IsClaimed (x : Option (Task V J)) : Prop := ∃ y, x = some y ∧ ∀ job, y.stage ≠ .unclaimed job

/-- The body of the task has ended. -/
def IsOver (x : Option (Task V J)) (T : Multiset (Hold V J)) : Prop :=
  ∃ y, x = some y ∧ y.stage = .consumed ∧
    ((T = 0 ∧ y.state.isTerminal = true) ∨ ∃ outcome, T = {.ending outcome})

section change

variable {start : J → Except RuntimeError (Body V J)} {p : PoolId} {t : TaskId} {s : Store V J}
  {f : Frame V J} {x y : Option (Task V J)} {d e rest : Multiset (Hold V J)}

theorem IsClaimed.change (h : IsClaimed x) (hc : Change start p t s f x d y e) : IsClaimed y := by
  obtain ⟨z, rfl, hz⟩ := h
  cases hc with
  | enter | pause => exact ⟨_, rfl, nofun⟩
  | @close f z z' hp hstate hstage =>
    refine ⟨z', rfl, fun job hjob => ?_⟩
    rcases hstage with h | h
    · exact hz job (h.symm.trans hjob)
    · rw [h] at hjob; cases hjob
  | _ => exact ⟨_, rfl, hz⟩

/-- An unclaimed job is the one that the task was spawned with. -/
theorem Change.unclaimed (hc : Change start p t s f x d y e) {z : Task V J} {job : J} (hy : y = some z)
    (hz : z.stage = .unclaimed job) :
    (∃ w, x = some w ∧ w.stage = .unclaimed job) ∨
      ∃ next pool, f = .spawn p job .number next ∧ s.pools[p]? = some pool ∧ pool.tasks.size = t := by
  cases hc with
  | @spawn job' next pool hp ht =>
    cases hy
    cases hz
    exact .inr ⟨next, pool, rfl, hp, ht⟩
  | enter | pause =>
    cases hy
    cases hz
  | @close f w w' hp hstate hstage =>
    cases hy
    rcases hstage with h | h
    · exact .inl ⟨w, rfl, h.symm.trans hz⟩
    · rw [h] at hz; cases hz
  | run | answer | handBack | lose | stay => exact .inl ⟨z, hy, hz⟩
  | _ =>
    cases hy
    exact .inl ⟨_, rfl, hz⟩

theorem IsOver.change (hs : Sound x (d + rest)) (h : IsOver x (d + rest))
    (hc : Change start p t s f x d y e) : IsOver y (e + rest) := by
  obtain ⟨z, rfl, hstage, hT⟩ := h
  have ending : ∀ {k : Hold V J}, d = {k} → k.IsEnding := by
    rintro k rfl
    rcases hT with ⟨hT, -⟩ | ⟨outcome, hT⟩
    · simp at hT
    · have hrest : rest = 0 := eq_zero_of_card_le hs.once
      rw [hrest, add_zero, Multiset.singleton_inj] at hT
      rw [hT]
      trivial
  cases hc with
  | stay => exact ⟨z, rfl, hstage, hT⟩
  | claim | refuse | enter | run | answer | pause | park | unpark | requeue | handBack =>
    exact (ending rfl).elim
  | settle =>
    obtain rfl : rest = 0 := eq_zero_of_card_le hs.once
    refine ⟨_, rfl, hstage, .inl ⟨rfl, ?_⟩⟩
    rename_i outcome
    rcases outcome with ((_ | _) | _) <;> rfl
  | wake hq =>
    rw [hs.parked _ rfl hq] at hT
    rcases hT with ⟨-, hend⟩ | ⟨outcome, hT⟩
    · rw [hq] at hend; cases hend
    · exact absurd hT.symm (Multiset.singleton_ne_zero _)
  | notify hq =>
    refine ⟨_, rfl, hstage, hT.imp_left ?_⟩
    rintro ⟨-, hend⟩
    rw [hq] at hend; cases hend
  | flag => exact ⟨_, rfl, hstage, hT⟩
  | lose hp hd =>
    refine ⟨z, rfl, hstage, ?_⟩
    rcases hT with ⟨hT, hend⟩ | ⟨outcome, hT⟩
    · have hle : rest ≤ d + rest := Multiset.le_add_left _ _
      rw [hT, Multiset.le_zero] at hle
      exact .inl ⟨by rw [hle]; rfl, hend⟩
    · have hzero : d = 0 := by
        refine Multiset.eq_zero_of_forall_notMem fun k hk => ?_
        have hmem : k ∈ d + rest := Multiset.mem_add.2 (.inl hk)
        rw [hT, Multiset.mem_singleton] at hmem
        subst hmem
        exact hd _ hk
      exact .inr ⟨outcome, hzero ▸ hT⟩
  | @close f z z' hp hstate hstage' =>
    refine ⟨z', rfl, ?_, hT.imp_left ?_⟩
    · rcases hstage' with h | h
      · rw [h, hstage]
      · exact h
    · rintro ⟨hzero, hend⟩
      refine ⟨hzero, ?_⟩
      rcases hstate with h | h
      · rw [h, hend]
      · rw [h]; rfl

end change

namespace Machine

variable {start : J → Except RuntimeError (Body V J)} {m : Machine V J} {p : PoolId} {t : TaskId}

/-- What the trace tells of a task. -/
structure Chronicle (p : PoolId) (t : TaskId) (m : Machine V J) (tr : List (Taken V J)) : Prop where
  /-- An unclaimed job is one that the task was spawned with. -/
  spawned : ∀ y job, m.store.task? p t = some y → y.stage = .unclaimed job → ∃ e ∈ tr, e.Spawns p t job
  /-- A started job is no longer unclaimed. -/
  claimed : ∀ e ∈ tr, ∀ job, e.Starts p t job → IsClaimed (m.store.task? p t)
  /-- Jobs are started once. -/
  once : tr.Pairwise fun e e' => ∀ job job', e.Starts p t job → ¬ e'.Starts p t job'
  /-- And as they were spawned before. -/
  packed : ∀ (k : Nat) (e : Taken V J) job, tr[k]? = some e → e.Starts p t job →
    ∃ (j : Nat) (e' : Taken V J), j < k ∧ tr[j]? = some e' ∧ e'.Spawns p t job
  /-- A body that has ended is over. -/
  ended : ∀ e ∈ tr, e.Ends p t → IsOver (m.store.task? p t) (m.holds p t)
  /-- And takes no steps. -/
  silent : tr.Pairwise fun e e' => e.Ends p t → ¬ e'.Runs p t

theorem Chronicle.initial : Chronicle p t ({} : Machine V J) [] :=
  ⟨fun y job hy => by simp [Store.task?_eq] at hy, by simp, .nil, by simp, by simp, .nil⟩

/-- Starting a job takes it out of the stage. -/
theorem isClaimed_of_starts {mv : Move V J} {e : Taken V J} (h : m.taken mv = some e) {job : J}
    (he : e.Starts p t job) : IsClaimed ((m.after start mv).store.task? p t) := by
  obtain ⟨choice, rest, -, hstore, -, heq⟩ := after_of_taken start h
  obtain ⟨hframe, y, hy, hstage⟩ := he
  rw [hstore] at hy
  rw [heq, hframe]
  refine ⟨{ y with stage := .consumed }, ?_, nofun⟩
  simp only [Frame.step, Frame.stepTask, hy, hstage]
  have htask : ((m.store.setStage p t .consumed).modifyPool p fun pool =>
      { pool with queued := pool.queued - 1 }).task? p t = some { y with stage := .consumed } := by
    refine (Store.task?_modifyPool fun _ => ?_).trans ?_
    · rfl
    · rw [Store.setStage, Store.task?_modifyTask_self, hy]
      rfl
  split <;> exact htask

/-- A body that ends leaves its worker with the outcome and nothing else. -/
theorem isOver_of_ends (hs : Sound (m.store.task? p t) (m.holds p t)) {mv : Move V J} {e : Taken V J}
    (h : m.taken mv = some e) (he : e.Ends p t) :
    IsOver ((m.after start mv).store.task? p t) ((m.after start mv).holds p t) := by
  obtain ⟨r, hframe, hparty, hend⟩ := he
  have hk : e.frame.holds e.worker p t = {.polling r} := by rw [hframe]; exact if_pos hparty
  have hall := holds_eq_of_taken hs h hk
  obtain ⟨choice, hstore, hafter⟩ := holds_after_of_taken start hs h hk
  obtain ⟨k, -, hending, hfs, -⟩ := Frame.holdsAll_stepRun e.worker m.store r p t
  rw [hframe] at hstore hafter
  have hpools : (m.after start mv).store.pools = m.store.pools := by
    rw [hstore]
    exact Frame.stepRun_pools e.worker m.store r
  have hT : (m.after start mv).holds p t = {k} := by
    rw [hafter (Frame.waiting_of_pools_eq hpools)]
    exact hfs.trans (if_pos hparty)
  have hx : (m.after start mv).store.task? p t = m.store.task? p t := Frame.task?_of_pools_eq hpools
  rw [hT, hx]
  cases hy : m.store.task? p t with
  | none => exact absurd (hall.symm.trans (hs.made hy)) (Multiset.singleton_ne_zero _)
  | some y =>
    refine ⟨y, rfl, hs.body y hy (.polling r) (by simp [hall]) trivial, .inr ?_⟩
    cases k with
    | ending outcome => exact ⟨outcome, rfl⟩
    | _ => exact (hending hend).elim

/-- Every move keeps the chronicle. -/
theorem Chronicle.after (hm : m.Scheduled) {tr : List (Taken V J)} (h : Chronicle p t m tr) (mv : Move V J) :
    Chronicle p t (m.after start mv) (tr ++ (m.taken mv).toList) := by
  have hs := hm.sound p t
  rcases change start hm.framed hs.made mv with
    ⟨htaken, hx, hT⟩ | ⟨i, worker, f, d, e, rest, htaken, hd, he, hc⟩
  · rw [htaken, Option.toList_none, List.append_nil]
    exact ⟨fun y job hy => h.spawned y job (hx ▸ hy), fun e' he' job hj => hx.symm ▸ h.claimed e' he' job hj,
      h.once, h.packed, fun e' he' hend => by rw [hx, hT]; exact h.ended e' he' hend, h.silent⟩
  · rw [htaken, Option.toList_some]
    -- the step itself, as the trace shows it
    generalize hev : (⟨i, worker, f, m.store⟩ : Taken V J) = ev at htaken
    have hpast : ∀ e' ∈ tr, e'.Ends p t → ¬ ev.Runs p t := by
      rintro e' he' hend ⟨r, hframe, hparty⟩
      obtain ⟨y, -, -, hover⟩ := h.ended e' he' hend
      have hle := holds_le_of_taken (p := p) (t := t) htaken
      rw [hframe, show (Frame.run r).holds ev.worker p t = {.polling r} from if_pos hparty] at hle
      have hmem := Multiset.mem_of_le hle (Multiset.mem_singleton_self _)
      rcases hover with ⟨hzero, -⟩ | ⟨outcome, hending⟩
      · simp [hzero] at hmem
      · simp [hending] at hmem
    have hunclaimed : ∀ job, ev.Starts p t job → ∃ y, m.store.task? p t = some y ∧ y.stage = .unclaimed job := by
      rintro job ⟨-, y, hy, hjob⟩
      exact ⟨y, by rw [← hy, ← hev], hjob⟩
    constructor
    · intro y job hy hjob
      rcases hc.unclaimed hy hjob with ⟨w, hw, hwjob⟩ | ⟨next, pool, hf, hp, ht⟩
      · obtain ⟨e', he', hspawn⟩ := h.spawned w job hw hwjob
        exact ⟨e', List.mem_append_left _ he', hspawn⟩
      · refine ⟨ev, by simp, next, pool, ?_⟩
        rw [← hev]
        exact ⟨hf, hp, ht⟩
    · intro e' he' job hj
      rcases List.mem_append.1 he' with he' | he'
      · exact (h.claimed e' he' job hj).change hc
      · rw [List.mem_singleton.1 he'] at hj
        exact isClaimed_of_starts htaken hj
    · refine List.pairwise_append.2 ⟨h.once, by simp, fun e' he' e'' he'' job job' hj hj' => ?_⟩
      rw [List.mem_singleton.1 he''] at hj'
      obtain ⟨y, hy, hjob⟩ := hunclaimed job' hj'
      obtain ⟨z, hz, hnot⟩ := h.claimed e' he' job hj
      rw [hy] at hz
      cases hz
      exact hnot job' hjob
    · intro k e' job hk hj
      rcases getElem?_concat_eq_some_iff.1 hk with hk | ⟨rfl, rfl⟩
      · obtain ⟨j, e'', hjk, hget, hspawn⟩ := h.packed k e' job hk hj
        exact ⟨j, e'', hjk, getElem?_concat_eq_some_iff.2 (.inl hget), hspawn⟩
      · obtain ⟨y, hy, hjob⟩ := hunclaimed job hj
        obtain ⟨e', he', hspawn⟩ := h.spawned y job hy hjob
        obtain ⟨j, hget⟩ := List.mem_iff_getElem?.1 he'
        exact ⟨j, e', (List.getElem?_eq_some_iff.1 hget).1, getElem?_concat_eq_some_iff.2 (.inl hget), hspawn⟩
    · intro e' he' hend
      rcases List.mem_append.1 he' with he' | he'
      · rw [he]
        have hover := h.ended e' he' hend
        rw [hd] at hover hs
        exact hover.change hs hc
      · rw [List.mem_singleton.1 he'] at hend
        exact isOver_of_ends hs htaken hend
    · refine List.pairwise_append.2 ⟨h.silent, by simp, fun e' he' e'' he'' hend => ?_⟩
      rw [List.mem_singleton.1 he'']
      exact hpast e' he' hend

/-- What a worker meets when it takes up a task, or its stage, is as it should be. -/
def Expected (p : PoolId) (t : TaskId) (e : Taken V J) : Prop :=
  (e.frame = .task p t .claim → ∃ y, e.store.task? p t = some y ∧ y.state = .queued) ∧
    (e.frame = .task p t .enter → ∃ y, e.store.task? p t = some y ∧ y.stage ≠ .consumed)

theorem expected_of_taken (hm : m.Scheduled) (hp : ¬ m.store.Closed p) {mv : Move V J} {e : Taken V J}
    (h : m.taken mv = some e) : Expected p t e := by
  have hstore : e.store = m.store := by
    obtain ⟨_, _, -, hstore, -⟩ := after_of_taken (fun _ => .error .poolShutDown) h
    exact hstore
  have held : ∀ {k : Hold V J}, e.frame.holds e.worker p t = {k} →
      ∃ y, e.store.task? p t = some y ∧ k.Fits y := by
    intro k hk
    have hall := holds_eq_of_taken (hm.sound p t) h hk
    rw [hstore]
    cases hy : m.store.task? p t with
    | none => exact absurd (hall.symm.trans ((hm.sound p t).made hy)) (Multiset.singleton_ne_zero _)
    | some y =>
      obtain ⟨pool, hpool, -⟩ := Store.exists_pool_of_task? hy
      have hx := hm.exact p t (Store.running_of_not_closed hp hpool)
      rw [hall, hy, ← add_zero ({k} : Multiset (Hold V J))] at hx
      exact ⟨y, rfl, hx.of_single.2⟩
  refine ⟨fun hf => ?_, fun hf => ?_⟩
  · obtain ⟨y, hy, hfit⟩ := held (k := .ready) (by rw [hf]; simp [Frame.holds])
    exact ⟨y, hy, hfit.1⟩
  · obtain ⟨y, hy, hfit⟩ := held (k := .claimed) (by rw [hf]; simp [Frame.holds])
    exact ⟨y, hy, hfit.2⟩

/-- All steps so far have met what they should, unless the pool has been closed. -/
theorem expected_run (mvs : List (Move V J)) (hp : ¬ (({} : Machine V J).run start mvs).store.Closed p) :
    ∀ e ∈ ({} : Machine V J).trace start mvs, Expected p t e := by
  have h := trace_induction start (P := fun m tr => m.Scheduled ∧ (¬ m.store.Closed p → ∀ e ∈ tr, Expected p t e))
    (fun m tr mv ⟨hm, htr⟩ => by
      refine ⟨hm.after mv, fun hp e he => ?_⟩
      have hp' : ¬ m.store.Closed p := fun hc => hp (hc.mono (m.after_keeps start mv))
      rcases List.mem_append.1 he with he | he
      · exact htr hp' e he
      · exact expected_of_taken hm hp' (Option.mem_toList.1 he))
    ⟨.initial 0, by simp⟩ mvs
  exact h.2 hp

/-- Two frames that hold a task are on one thread. -/
theorem eq_of_holds (hs : Sound (m.store.task? p t) (m.holds p t)) {i j : Nat} {th th' : Thread V J}
    {f g : Frame V J} (hi : m.threads[i]? = some th) (hj : m.threads[j]? = some th') (hf : f ∈ th.stack)
    (hg : g ∈ th'.stack) {k k' : Hold V J} (hk : f.holds th.worker p t = {k})
    (hk' : g.holds th'.worker p t = {k'}) : i = j := by
  by_contra hij
  have part : ∀ {worker} {fs : List (Frame V J)} {f : Frame V J}, f ∈ fs →
      Multiset.card (f.holds worker p t) ≤ Multiset.card (Frame.holdsAll worker p t fs) := by
    intro worker fs f hf
    obtain ⟨before, after, rfl⟩ := List.append_of_mem hf
    simp only [Frame.holdsAll_append, Frame.holdsAll_cons, Multiset.card_add]
    omega
  have hi' : m.threads.toList[i]? = some th := by rw [Array.getElem?_toList, hi]
  obtain ⟨others, hsum, hset⟩ := exists_sum_set (Thread.holds p t) hi'
  have hj' : (m.threads.toList.set i {})[j]? = some th' := by
    rw [List.getElem?_set_ne hij, Array.getElem?_toList, hj]
  obtain ⟨others', hsum', -⟩ := exists_sum_set (Thread.holds p t) hj'
  rw [hset] at hsum'
  have hcard : Multiset.card (m.holds p t) ≤ 1 := hs.once
  have h1 : Multiset.card (f.holds th.worker p t) ≤ Multiset.card (th.holds p t) := part hf
  have h2 : Multiset.card (g.holds th'.worker p t) ≤ Multiset.card (th'.holds p t) := part hg
  have h3 := congrArg Multiset.card hsum'
  rw [holds, hsum] at hcard
  simp only [hk, hk', Thread.holds, Multiset.card_singleton] at h1 h2
  simp only [Thread.holds, Frame.holdsAll_nil, Multiset.card_add, Multiset.card_zero] at h3 hcard
  omega

end Machine

/-- A task is scheduled exactly once, as far as the machine tells now and the steps that led to it. -/
structure ExactlyOnce (p : PoolId) (t : TaskId) (y : Task V J) (m : Machine V J) (tr : List (Taken V J)) :
    Prop where
  /-- An unfinished task that is not parked is met once, at a place of its own pool. -/
  met : y.state ≠ .suspended → y.state.isTerminal = false → ∃ site, m.sites p t = [site] ∧ site.IsOf p
  /-- A parked or finished task is met nowhere. -/
  rests : y.state = .suspended ∨ y.state.isTerminal = true → m.sites p t = []
  /-- Its job is started at most once. -/
  once : tr.Pairwise fun e e' => ∀ job job', e.Starts p t job → ¬ e'.Starts p t job'
  /-- And as it was spawned before. -/
  packed : ∀ (k : Nat) (e : Taken V J) job, tr[k]? = some e → e.Starts p t job →
    ∃ (j : Nat) (e' : Taken V J), j < k ∧ tr[j]? = some e' ∧ e'.Spawns p t job
  /-- Two frames of its polls are on one thread. -/
  alone : ∀ (i j : Nat) (th th' : Thread V J), m.threads[i]? = some th → m.threads[j]? = some th' →
    (∃ f ∈ th.stack, f.Polls p t) → (∃ f ∈ th'.stack, f.Polls p t) → i = j
  /-- Its body takes no step after it has returned or panicked. -/
  silent : tr.Pairwise fun e e' => e.Ends p t → ¬ e'.Runs p t
  /-- No worker ever takes it up in another state than queued. -/
  claims : ∀ e ∈ tr, e.frame = .task p t .claim → ∃ y, e.store.task? p t = some y ∧ y.state = .queued
  /-- No worker ever finds that its stage is gone. -/
  stages : ∀ e ∈ tr, e.frame = .task p t .enter → ∃ y, e.store.task? p t = some y ∧ y.stage ≠ .consumed

namespace Machine

variable {start : J → Except RuntimeError (Body V J)}

/-- After any run, every task of a pool that is running is scheduled exactly once. -/
theorem exactlyOnce_run (mvs : List (Move V J)) {p : PoolId} {t : TaskId} {y : Task V J}
    (hp : (({} : Machine V J).run start mvs).store.Running p)
    (hy : (({} : Machine V J).run start mvs).store.task? p t = some y) :
    ExactlyOnce p t y (({} : Machine V J).run start mvs) (({} : Machine V J).trace start mvs) := by
  have hm := scheduled_run start mvs
  have hs := hm.sound p t
  have hx := hm.exact p t hp
  have hexp := expected_run (t := t) mvs fun hc => hc.not_running hp
  have hlen := (({} : Machine V J).run start mvs).length_sites p t
  rw [hy] at hx
  have chronicle := (trace_induction start (P := fun m tr => m.Scheduled ∧ Chronicle p t m tr)
    (fun _ _ mv ⟨hm, h⟩ => ⟨hm.after mv, h.after hm mv⟩) ⟨.initial 0, .initial⟩ mvs).2
  refine ⟨fun hne hend => ?_, fun hrest => ?_, chronicle.once, chronicle.packed, ?_, chronicle.silent,
    fun e he => (hexp e he).1, fun e he => (hexp e he).2⟩
  · rcases hx with ⟨-, ⟨h, -⟩ | ⟨h, -⟩⟩ | ⟨k, hT, -⟩
    · exact absurd h hne
    · rw [h] at hend; cases hend
    · rw [hT, Multiset.card_singleton, List.length_eq_one_iff] at hlen
      obtain ⟨site, hsite⟩ := hlen
      exact ⟨site, hsite, hm.framed.isOf_of_mem_sites (by rw [hsite]; simp)⟩
  · rcases hx with ⟨hT, -⟩ | ⟨k, -, hk⟩
    · rw [hT, Multiset.card_zero] at hlen
      exact List.length_eq_zero_iff.1 hlen
    · exfalso
      rcases hk.state with h | h | h <;> rcases hrest with h' | h' <;> rw [h] at h' <;> cases h'
  · rintro i j th th' hi hj ⟨f, hf, hpoll⟩ ⟨g, hg, hpoll'⟩
    obtain ⟨k, -, hk⟩ := hpoll.holds_eq th.worker
    obtain ⟨k', -, hk'⟩ := hpoll'.holds_eq th'.worker
    exact eq_of_holds hs hi hj hf hg hk hk'

/-- A pool starts, someone spawns a job that waits, and the only worker begins to poll it. -/
def pollingMoves : List (Move Nat Unit) :=
  .startPool {} :: .enter (.spawn (some 0) () fun _ => .done (.ok ())) ::
    (List.replicate 10 (.step 1 0) ++ List.replicate 6 (.step 0 0))

theorem exactlyOnce_polling :
    (({} : Machine Nat Unit).run waitingJob pollingMoves).store.Running 0 ∧
      (({} : Machine Nat Unit).run waitingJob pollingMoves).store.task? 0 0 =
        some { state := .running, stage := .consumed, registered := true } ∧
      ExactlyOnce 0 0 { state := .running, stage := .consumed, registered := true }
        (({} : Machine Nat Unit).run waitingJob pollingMoves)
        (({} : Machine Nat Unit).trace waitingJob pollingMoves) := by
  have hp : (({} : Machine Nat Unit).run waitingJob pollingMoves).store.Running 0 := by
    rw [pollingMoves, run_startPool startError?_default]
    exact ⟨_, rfl, rfl⟩
  have hy : (({} : Machine Nat Unit).run waitingJob pollingMoves).store.task? 0 0 =
      some { state := .running, stage := .consumed, registered := true } := by
    rw [pollingMoves, run_startPool startError?_default]
    rfl
  exact ⟨hp, hy, exactlyOnce_run pollingMoves hp hy⟩

end Machine
end Dataflow
