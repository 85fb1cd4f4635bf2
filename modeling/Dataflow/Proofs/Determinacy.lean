import Dataflow.Proofs.Standing

/-!
# Determinacy

A run that has come to rest has brought every task as far as the values of the cells go
(`Machine.CompleteRun.rests`). Along any other run with the same jobs and the same puts from outside, what the
tasks put is among these values: a task that has come to a put has come there on values that the first run has
too, so its job came there in the first run as well, and went on (`Machine.DataflowRun.extends`). So two runs
that have both come to rest have the same values, and every job the same outcome (`Machine.determinacy`).
-/

namespace Dataflow

variable {V J : Type}

/-- The task of the job has come to rest in this state. -/
def JobRests (start : J → Except RuntimeError (Body V J)) (σ : CellId → Option V) (job : J) (state : TaskState) :
    Prop :=
  (∃ err, start job = .error err ∧ state = .failed) ∨
    ∃ b₀ b, start job = .ok b₀ ∧ Body.AdvancesTo σ b₀ b ∧ b.Rests σ state

section

variable {start : J → Except RuntimeError (Body V J)} {σ σ' : CellId → Option V} {job : J} {state state' : TaskState}

theorem JobRests.eq_state (h : JobRests start σ job state) (h' : JobRests start σ job state') : state = state' := by
  rcases h with ⟨err, herr, rfl⟩ | ⟨b₀, b, hb₀, hb, hrests⟩
  · rcases h' with ⟨-, -, rfl⟩ | ⟨b₀', b', hb₀', -, -⟩
    · rfl
    · rw [herr] at hb₀'
      cases hb₀'
  · rcases h' with ⟨err, herr, -⟩ | ⟨b₀', b', hb₀', hb', hrests'⟩
    · rw [hb₀] at herr
      cases herr
    · rw [hb₀] at hb₀'
      cases hb₀'
      rcases (hrests.advancesTo hb hb').cases_head with rfl | ⟨b'', hstep, -⟩
      · exact hrests.eq_state hrests'
      · exact absurd hstep hrests'.not_advances

theorem JobEnds.rests {outcome : Outcome} (h : JobEnds start σ job outcome) :
    JobRests start σ job (Frame.finalState outcome) := by
  rcases h with ⟨err, herr, rfl⟩ | ⟨b₀, hb₀, b, hb, hend⟩
  · exact .inl ⟨err, herr, rfl⟩
  · exact .inr ⟨b₀, b, hb₀, hb, .of_outcome? hend⟩

/-- Where the job has come to rest, it has gone past every put that it comes to where there are fewer values. -/
theorem JobRests.value_of_put (h : JobRests start σ' job state) (hσ : Extends σ σ') {c : CellId} {v : V}
    {next : Except RuntimeError Unit → Body V J} (hput : JobReaches start σ job (.put c v next)) : σ' c = some v := by
  obtain ⟨b₀, hb₀, b, hb, hfollows⟩ := hput
  obtain rfl : b = .put c v next := by cases hfollows; rfl
  rcases h with ⟨err, herr, -⟩ | ⟨b₀', b', hb₀', hb', hrests⟩
  · rw [hb₀] at herr
    cases herr
  · rw [hb₀] at hb₀'
    cases hb₀'
    rcases (hrests.advancesTo hb' (hb.mono hσ)).cases_head with rfl | ⟨b'', hstep, -⟩
    · exact hrests.elim
    · cases hstep with
      | put hv => exact hv

end

namespace Taken

variable {e : Taken V J}

/-- The put call that somebody other than the body of a task is about to make. -/
def outsidePut? (e : Taken V J) : Option (CellId × V) :=
  match e.frame with
  | .run ⟨.task .., _, _⟩ => none
  | f => f.put?

theorem put?_of_outsidePut? {put : CellId × V} (h : e.outsidePut? = some put) : e.frame.put? = some put := by
  unfold outsidePut? at h
  split at h
  · cases h
  · exact h

/-- A put call is one from outside, or that of the body of a task. -/
theorem outsidePut?_or_of_put? {c : CellId} {v : V} (h : e.frame.put? = some (c, v)) :
    e.outsidePut? = some (c, v) ∨
      ∃ p t guards next, e.frame = .run ⟨.task p t, guards, .put c v next⟩ := by
  unfold outsidePut?
  split
  · rename_i p t guards body hf
    rw [hf] at h
    cases body with
    | put c' v' next =>
      cases h
      exact .inr ⟨p, t, guards, next, hf⟩
    | _ => cases h
  · exact .inl h

/-- The task that the step makes, with its job. -/
def spawned? (e : Taken V J) : Option (PoolId × TaskId × J) :=
  match e.frame with
  | .spawn p job .number _ => e.store.pools[p]?.map fun pool => (p, pool.tasks.size, job)
  | _ => none

theorem spawned?_eq_some_iff {e : Taken V J} {p : PoolId} {t : TaskId} {job : J} :
    e.spawned? = some (p, t, job) ↔ e.Spawns p t job := by
  constructor
  · intro h
    unfold spawned? at h
    split at h
    · rename_i p' job' next hf
      obtain ⟨pool, hpool, heq⟩ := Option.map_eq_some_iff.1 h
      cases heq
      exact ⟨next, pool, hf, hpool, rfl⟩
    · cases h
  · rintro ⟨next, pool, hf, hpool, rfl⟩
    rw [spawned?, hf]
    simp only [hpool, Option.map_some]

end Taken

theorem Frame.Wakes.isErrand {p : PoolId} {t : TaskId} {f : Frame V J} (h : f.Wakes p t) : f.IsErrand := by
  cases f <;> trivial

namespace Machine

/-- A run from the beginning, of jobs that only await cells and put. Nobody destroys a cell, no cell is the target
of two put calls, and no pool is shut down. -/
structure DataflowRun (start : J → Except RuntimeError (Body V J)) (mvs : List (Move V J)) : Prop where
  wellMade : WellMade start mvs
  dataflow : ∀ job body, start job = .ok body → body.IsDataflow
  opened : ∀ p, ¬ (({} : Machine V J).run start mvs).store.Closed p
  kept : ∀ e ∈ ({} : Machine V J).trace start mvs, e.frame.destroy? = none
  made : ∀ e ∈ ({} : Machine V J).trace start mvs, ∀ put ∈ e.frame.put?, put.1 < e.store.cells.size
  once : ((({} : Machine V J).trace start mvs).filterMap fun e => e.frame.put?.map (·.1)).Nodup

/-- Such a run of these jobs and with these puts from outside that is complete: every task is parked or finished,
and outside the pools no put has wake calls left to make. -/
structure CompleteRun (start : J → Except RuntimeError (Body V J)) (jobs : List J) (puts : List (CellId × V))
    (mvs : List (Move V J)) : Prop extends DataflowRun start mvs where
  spawned : ∀ job, job ∈ jobs ↔ ∃ p t, ∃ e ∈ ({} : Machine V J).trace start mvs, e.Spawns p t job
  driven : ∀ put, put ∈ puts ↔ ∃ e ∈ ({} : Machine V J).trace start mvs, e.outsidePut? = some put
  rested : ∀ p t y, (({} : Machine V J).run start mvs).store.task? p t = some y →
    y.state = .suspended ∨ y.state.isTerminal = true
  returned : ∀ (i : Nat) (th : Thread V J), (({} : Machine V J).run start mvs).threads[i]? = some th → th.worker = none →
    ∀ f ∈ th.stack, ∀ p t, ¬ f.Wakes p t

variable {start : J → Except RuntimeError (Body V J)} {jobs : List J} {puts : List (CellId × V)}
  {mvs mvs' : List (Move V J)} {mv : Move V J}

namespace DataflowRun

theorem of_append (h : DataflowRun start (mvs ++ mvs')) : DataflowRun start mvs := by
  obtain ⟨hmade, hdata, hopen, hkept, hcells, honce⟩ := h
  rw [trace_append] at hkept hcells honce
  rw [run_append] at hopen
  rw [List.filterMap_append] at honce
  refine ⟨hmade.of_append, hdata, fun p hp => hopen p (hp.mono (run_keeps start _ _)), ?_, ?_, ?_⟩
  · exact fun e he => hkept e (List.mem_append_left _ he)
  · exact fun e he => hcells e (List.mem_append_left _ he)
  · exact honce.of_append_left

/-- No step of it is a second put. -/
theorem isFirst (h : DataflowRun start (mvs ++ [mv])) {e : Taken V J}
    (he : (({} : Machine V J).run start mvs).taken mv = some e) : e.IsFirst (({} : Machine V J).trace start mvs) := by
  have htrace : ({} : Machine V J).trace start (mvs ++ [mv]) = ({} : Machine V J).trace start mvs ++ [e] := by
    rw [trace_append, trace, trace, he]
    rfl
  obtain ⟨-, -, -, hkept, hcells, honce⟩ := h
  rw [htrace] at hkept hcells honce
  have hmem : e ∈ ({} : Machine V J).trace start mvs ++ [e] := by simp
  refine ⟨hkept e hmem, fun c v hput => hcells e hmem _ hput, fun c v v' hput e' he' hput' => ?_⟩
  rw [List.filterMap_append] at honce
  refine (List.nodup_append.1 honce).2.2 c ?_ c ?_ rfl
  · exact List.mem_filterMap.2 ⟨e', he', by rw [hput']; rfl⟩
  · exact List.mem_filterMap.2 ⟨e, List.mem_singleton_self e, by rw [hput]; rfl⟩

theorem followed (h : DataflowRun start mvs) :
    (({} : Machine V J).run start mvs).Followed start (({} : Machine V J).trace start mvs) := by
  induction mvs using List.reverseRecOn with
  | nil => exact .initial
  | append_singleton mvs mv ih =>
    have hbefore := h.of_append
    have horderly := h.wellMade.orderly
    have hfirst := fun e => h.isFirst (e := e)
    rw [run_append] at horderly ⊢
    rw [trace_append]
    simp only [run, trace, List.append_nil] at horderly ⊢
    exact (ih hbefore).after h.wellMade.jobs h.dataflow hbefore.wellMade.orderly horderly hbefore.opened hfirst

end DataflowRun
namespace CompleteRun

variable {p : PoolId} {t : TaskId} {job : J}

/-- Nobody is being polled any more. -/
theorem not_hasBody (h : CompleteRun start jobs puts mvs) {k : Hold V J}
    (hk : k ∈ (({} : Machine V J).run start mvs).holds p t) : ¬ k.HasBody := by
  intro hbody
  have hscheduled := h.wellMade.orderly.scheduled
  cases hy : (({} : Machine V J).run start mvs).store.task? p t with
  | none =>
    rw [(hscheduled.sound p t).made hy] at hk
    exact absurd hk (Multiset.notMem_zero k)
  | some y =>
    obtain ⟨pool, hpool, -⟩ := Store.exists_pool_of_task? hy
    have hrunning := Store.running_of_not_closed (h.opened p) hpool
    obtain ⟨z, hz, -, hfits⟩ := hscheduled.holds_eq_of_mem hrunning hk
    exact ((hbody.fits_iff z).1 hfits).1.not_rested (h.rested p t z hz)

/-- Nobody waits for a full cell: whoever put the value has told everyone. -/
theorem not_awaits (h : CompleteRun start jobs puts mvs) {c : CellId}
    (hc : ((({} : Machine V J).run start mvs).store.cell c).payload ≠ .empty) :
    ¬ (({} : Machine V J).run start mvs).Awaits c p t := by
  obtain ⟨i, back, -, ⟨above, hstack, hall⟩ | hnone⟩ := h.followed.told c hc
  · intro hawaits
    obtain ⟨f, hf, hwakes⟩ := hall p t hawaits
    have hmem : f ∈ (({} : Machine V J).run start mvs).stackOf i := hstack ▸ List.mem_append_left _ hf
    obtain ⟨th, hth, heq⟩ := exists_of_stackOf_ne_nil (List.ne_nil_of_mem hmem)
    rw [heq] at hmem
    by_cases hworker : th.worker = none
    · exact h.returned i th hth hworker f hmem p t hwakes
    · obtain ⟨p', t', k, hk, hbody⟩ := (manned_run start mvs).exists_hold hth hworker hmem hwakes.isErrand
      exact h.not_hasBody hk hbody
  · exact hnone p t

/-- Every task has come to rest. -/
theorem rests (h : CompleteRun start jobs puts mvs)
    (hspawned : ∃ e ∈ ({} : Machine V J).trace start mvs, e.Spawns p t job) :
    ∃ y, (({} : Machine V J).run start mvs).store.task? p t = some y ∧
      JobRests start (({} : Machine V J).run start mvs).store.value? job y.state := by
  obtain ⟨y, hy, hstands⟩ := h.followed.stands p t job hspawned
  refine ⟨y, hy, ?_⟩
  rcases h.rested p t y hy with hsuspended | hend
  · obtain ⟨pool, hpool, -⟩ := Store.exists_pool_of_task? hy
    have hscheduled := h.wellMade.orderly.scheduled
    have hexact := hscheduled.exact p t (Store.running_of_not_closed (h.opened p) hpool)
    rw [hy] at hexact
    have hstarted : y.stage.IsStarted := by
      rcases hexact with ⟨-, ⟨-, hstarted⟩ | ⟨hend, -⟩⟩ | ⟨k, -, hfits⟩
      · exact hstarted
      · rw [hsuspended] at hend
        cases hend
      · rcases hfits.state with hstate | hstate | hstate <;> rw [hsuspended] at hstate <;> cases hstate
    rw [hsuspended]
    cases hstage : y.stage with
    | started guards body =>
      obtain ⟨⟨b₀, hb₀, b, hb, hfollows⟩, -, hheld⟩ := hstands.started guards body hstage
      refine .inr ⟨b₀, b, hb₀, hb, .of_follows ((h.dataflow job b₀ hb₀).advancesTo hb) hfollows hheld ?_⟩
      intro c key hkey
      by_contra hvalue
      obtain ⟨v, hv⟩ := Option.ne_none_iff_exists'.1 hvalue
      rw [Store.value?_eq_some_iff] at hv
      refine h.not_awaits (c := c) (p := p) (t := t) (by rw [hv]; exact nofun) ?_
      exact ⟨y, hy, .inl ⟨hsuspended, key, by rw [hstage]; exact hkey⟩⟩
    | _ => rw [hstage] at hstarted; exact hstarted.elim
  · obtain ⟨outcome, hends, hstate⟩ := hstands.ended hend
    rw [hstate]
    exact hends.rests

end CompleteRun

/-- Where no cell is destroyed the values tell all. -/
theorem Followed.payload_eq {m : Machine V J} {tr : List (Taken V J)} (h : m.Followed start tr) (c : CellId) :
    (m.store.cell c).payload = ((m.store.value? c).map .full).getD .empty := by
  have hkept := h.kept c
  unfold Store.value?
  cases hp : (m.store.cell c).payload with
  | destroyed => exact absurd hp hkept
  | _ => rfl

/-- Who is about to put is a task that has been brought to that put. -/
theorem Followed.reaches_of_taken {m : Machine V J} {tr : List (Taken V J)} (h : m.Followed start tr)
    (hm : m.Scheduled) {e : Taken V J} (he : m.taken mv = some e) {p : PoolId} {t : TaskId} {r : Run V J}
    (hf : e.frame = .run r) (hparty : r.party = .task p t) :
    ∃ job, (∃ e ∈ tr, e.Spawns p t job) ∧ JobReaches start m.store.value? job r.body := by
  have hk : .polling r ∈ m.holds p t := by
    refine Multiset.mem_of_le (holds_le_of_taken he) ?_
    rw [hf, Frame.holds, if_pos hparty]
    exact Multiset.mem_singleton_self _
  cases hy : m.store.task? p t with
  | none =>
    rw [(hm.sound p t).made hy] at hk
    exact absurd hk (Multiset.notMem_zero _)
  | some y =>
    obtain ⟨job, hspawned⟩ := h.made p t y hy
    obtain ⟨y', -, hstands⟩ := h.stands p t job hspawned
    exact ⟨job, hspawned, (hstands.held _ hk).1⟩

/-- The values of a run are among those of a complete run with the same jobs and the same puts from outside. -/
theorem DataflowRun.extends (h : DataflowRun start mvs)
    (hspawned : ∀ job p t, ∀ e ∈ ({} : Machine V J).trace start mvs, e.Spawns p t job → job ∈ jobs)
    (hdriven : ∀ put, ∀ e ∈ ({} : Machine V J).trace start mvs, e.outsidePut? = some put → put ∈ puts)
    (h' : CompleteRun start jobs puts mvs') :
    Extends (({} : Machine V J).run start mvs).store.value? (({} : Machine V J).run start mvs').store.value? := by
  induction mvs using List.reverseRecOn with
  | nil =>
    intro c v hv
    cases hv
  | append_singleton mvs mv ih =>
    have hbefore := h.of_append
    have htrace : ({} : Machine V J).trace start (mvs ++ [mv]) =
        ({} : Machine V J).trace start mvs ++ ((({} : Machine V J).run start mvs).taken mv).toList := by
      rw [trace_append, trace, trace, List.append_nil]
    rw [htrace] at hspawned hdriven
    have hextends := ih hbefore (fun job p t e he => hspawned job p t e (List.mem_append_left _ he))
      (fun put e he => hdriven put e (List.mem_append_left _ he))
    intro c v hv
    have hput : ∃ e ∈ ({} : Machine V J).trace start (mvs ++ [mv]), e.frame.put? = some (c, v) :=
      (h.followed.values c v).1 hv
    obtain ⟨e, he, hput⟩ := hput
    rw [htrace] at he
    rcases List.mem_append.1 he with hold | hnew
    · exact hextends c v ((hbefore.followed.values c v).2 ⟨e, hold, hput⟩)
    · rcases Taken.outsidePut?_or_of_put? hput with houtside | ⟨p, t, guards, next, hf⟩
      · obtain ⟨e', he', hput'⟩ := (h'.driven (c, v)).1 (hdriven (c, v) e he houtside)
        exact (h'.followed.values c v).2 ⟨e', he', Taken.put?_of_outsidePut? hput'⟩
      · obtain ⟨job, ⟨e', he', hspawns⟩, hreaches⟩ :=
          hbefore.followed.reaches_of_taken hbefore.wellMade.orderly.scheduled (by simpa using hnew) hf rfl
        have hjob := hspawned job p t e' (List.mem_append_left _ he') hspawns
        obtain ⟨p', t', hspawned'⟩ := (h'.spawned job).1 hjob
        obtain ⟨y, -, hrests⟩ := h'.rests hspawned'
        exact hrests.value_of_put hextends hreaches

/-- What has been put is there to the end. -/
theorem CompleteRun.extends (h : CompleteRun start jobs puts mvs) (h' : CompleteRun start jobs puts mvs') :
    Extends (({} : Machine V J).run start mvs).store.value? (({} : Machine V J).run start mvs').store.value? := by
  refine h.toDataflowRun.extends (fun job p t e he hspawns => ?_) (fun put e he hput => ?_) h'
  · exact (h.spawned job).2 ⟨p, t, e, he, hspawns⟩
  · exact (h.driven put).2 ⟨e, he, hput⟩

/-- Two complete runs of the same jobs and with the same puts from outside leave the same in every cell, and
every job ends the same in both. -/
theorem determinacy (h : CompleteRun start jobs puts mvs) (h' : CompleteRun start jobs puts mvs') :
    (∀ c, ((({} : Machine V J).run start mvs).store.cell c).payload =
      ((({} : Machine V J).run start mvs').store.cell c).payload) ∧
    ∀ (job : J) (p : PoolId) (t : TaskId) (p' : PoolId) (t' : TaskId),
      (∃ e ∈ ({} : Machine V J).trace start mvs, e.Spawns p t job) →
      (∃ e ∈ ({} : Machine V J).trace start mvs', e.Spawns p' t' job) →
      ∃ y y', (({} : Machine V J).run start mvs).store.task? p t = some y ∧
        (({} : Machine V J).run start mvs').store.task? p' t' = some y' ∧ y.state = y'.state := by
  have hvalues : (({} : Machine V J).run start mvs).store.value? = (({} : Machine V J).run start mvs').store.value? := by
    funext c
    refine Option.ext fun v => ?_
    exact ⟨h.extends h' c v, h'.extends h c v⟩
  constructor
  · intro c
    rw [h.followed.payload_eq, h'.followed.payload_eq, hvalues]
  · intro job p t p' t' hspawned hspawned'
    obtain ⟨y, hy, hrests⟩ := h.rests hspawned
    obtain ⟨y', hy', hrests'⟩ := h'.rests hspawned'
    rw [hvalues] at hrests
    exact ⟨y, y', hy, hy', hrests.eq_state hrests'⟩

/-- What can be seen of a machine where nothing is left to do. -/
def IsAtRest (m : Machine V J) : Prop :=
  (∀ pool ∈ m.store.pools.toList, pool.running = true ∧
      ∀ y ∈ pool.tasks.toList, y.state = .suspended ∨ y.state.isTerminal = true) ∧
    ∀ th ∈ m.threads.toList, th.worker = none → th.stack.isEmpty = true

instance (m : Machine V J) : Decidable m.IsAtRest := inferInstanceAs (Decidable (_ ∧ _))

theorem IsAtRest.opened {m : Machine V J} (h : m.IsAtRest) (p : PoolId) : ¬ m.store.Closed p := by
  rintro ⟨pool, hpool, hclosed⟩
  have hrunning := (h.1 pool (Array.mem_toList_iff.2 (Array.mem_of_getElem? hpool))).1
  rw [hclosed] at hrunning
  cases hrunning

theorem IsAtRest.rested {m : Machine V J} (h : m.IsAtRest) {p : PoolId} {t : TaskId} {y : Task V J}
    (hy : m.store.task? p t = some y) : y.state = .suspended ∨ y.state.isTerminal = true := by
  obtain ⟨pool, hpool, ht⟩ := Store.exists_pool_of_task? hy
  exact (h.1 pool (Array.mem_toList_iff.2 (Array.mem_of_getElem? hpool))).2 y
    (Array.mem_toList_iff.2 (Array.mem_of_getElem? ht))

/-- Such a run is complete, if nothing is left to do. -/
theorem DataflowRun.complete (h : DataflowRun start mvs) (hrest : (({} : Machine V J).run start mvs).IsAtRest)
    (hspawned : ∀ job, job ∈ jobs ↔ job ∈ ((({} : Machine V J).trace start mvs).filterMap (·.spawned?)).map (·.2.2))
    (hdriven : (({} : Machine V J).trace start mvs).filterMap (·.outsidePut?) = puts) :
    CompleteRun start jobs puts mvs := by
  refine ⟨h, fun job => ?_, fun put => ?_, fun p t y hy => ?_, fun i th hth hworker f hf => ?_⟩
  · rw [hspawned]
    simp only [List.mem_map, List.mem_filterMap, Taken.spawned?_eq_some_iff, Prod.exists, exists_eq_right]
  · rw [← hdriven, List.mem_filterMap]
  · exact hrest.rested hy
  · have hempty := hrest.2 th (Array.mem_toList_iff.2 (Array.mem_of_getElem? hth)) hworker
    rw [List.isEmpty_iff.1 hempty] at hf
    cases hf

/-- A relay of two: one takes the first value and hands on the next to the other, who takes that and waits for
one more. -/
def relay : Bool → Except RuntimeError (Body Nat Bool)
  | true => .ok (.get 0 none fun
    | .ok v => .put 1 (v + 1) fun _ => .done (.ok ())
    | .error err => .done (.error err))
  | false => .ok (.get 1 none fun _ => .get 2 none fun _ => .done (.ok ()))

theorem completeRun_relay {mvs : List (Move Nat Bool)} (hfresh : ∀ mv ∈ mvs, mv.Fresh)
    (h : (({} : Machine Nat Bool).run relay mvs).IsAtRest ∧
      (∀ e ∈ ({} : Machine Nat Bool).trace relay mvs,
        e.Known ∧ e.frame.destroy? = none ∧ ∀ put ∈ e.frame.put?, put.1 < e.store.cells.size) ∧
      ((({} : Machine Nat Bool).trace relay mvs).filterMap fun e => e.frame.put?.map (·.1)).Nodup ∧
      (∀ job, job ∈ [true, false] ↔
        job ∈ ((({} : Machine Nat Bool).trace relay mvs).filterMap (·.spawned?)).map (·.2.2)) ∧
      (({} : Machine Nat Bool).trace relay mvs).filterMap (·.outsidePut?) = [(0, 41)]) :
    CompleteRun relay [true, false] [(0, 41)] mvs := by
  obtain ⟨hrest, htrace, honce, hspawned, hdriven⟩ := h
  have hjobs : ∀ job body, relay job = .ok body → body.Fresh ∧ body.IsDataflow := by
    rintro (_ | _) body ⟨⟩
    · exact ⟨⟨rfl, fun _ => ⟨rfl, fun _ => trivial⟩⟩, fun _ _ => trivial⟩
    · refine ⟨⟨rfl, fun answer => ?_⟩, fun answer => ?_⟩ <;> cases answer <;> first | trivial | exact fun _ => trivial
  refine DataflowRun.complete ⟨⟨fun job body h => (hjobs job body h).1, hfresh, fun e he => (htrace e he).1⟩,
    fun job body h => (hjobs job body h).2, hrest.opened, fun e he => (htrace e he).2.1,
    fun e he => (htrace e he).2.2, honce⟩ hrest hspawned hdriven

/-- Someone makes three cells and goes on. -/
def withThreeCells (next : Body Nat Bool) : Body Nat Bool := .newCell fun _ => .newCell fun _ => .newCell fun _ => next

/-- On one worker, the second is spawned first, and the first value comes last. -/
def relayMoves : List (Move Nat Bool) :=
  .startPool {} :: .enter (withThreeCells (.spawn (some 0) false fun _ => .spawn (some 0) true fun _ =>
      .put 0 41 fun _ => .done (.ok ()))) ::
    (List.replicate 26 (.step 1 0) ++ List.replicate 70 (.step 0 0))

/-- Two workers that do not steal. -/
def twoWorkers : PoolConfig := { numWorkers := 2, useWorkStealing := false }

/-- On two workers, the first value comes first. -/
def pairMoves : List (Move Nat Bool) :=
  .startPool twoWorkers ::
    .enter (withThreeCells (.put 0 41 fun _ => .spawn (some 0) true fun _ => .spawn (some 0) false fun _ =>
      .done (.ok ()))) ::
    (List.replicate 26 (.step 2 0) ++ (List.replicate 40 [.step 0 0, .step 1 0]).flatten)

theorem completeRun_relayMoves : CompleteRun relay [true, false] [(0, 41)] relayMoves := by
  refine completeRun_relay (by simp [relayMoves, withThreeCells, Move.Fresh, Body.Fresh]) ?_
  rw [relayMoves, run_startPool startError?_default, trace_startPool startError?_default]
  decide +kernel

theorem completeRun_pairMoves : CompleteRun relay [true, false] [(0, 41)] pairMoves := by
  have hconfig : twoWorkers.startError? = none := by cbv
  refine completeRun_relay (by simp [pairMoves, withThreeCells, Move.Fresh, Body.Fresh]) ?_
  rw [pairMoves, run_startPool hconfig, trace_startPool hconfig]
  decide +kernel

theorem determinacy_relay :
    CompleteRun relay [true, false] [(0, 41)] relayMoves ∧ CompleteRun relay [true, false] [(0, 41)] pairMoves ∧
      (∀ c, ((({} : Machine Nat Bool).run relay relayMoves).store.cell c).payload =
        ((({} : Machine Nat Bool).run relay pairMoves).store.cell c).payload) ∧
      ∀ (job : Bool) (p : PoolId) (t : TaskId) (p' : PoolId) (t' : TaskId),
        (∃ e ∈ ({} : Machine Nat Bool).trace relay relayMoves, e.Spawns p t job) →
        (∃ e ∈ ({} : Machine Nat Bool).trace relay pairMoves, e.Spawns p' t' job) →
        ∃ y y', (({} : Machine Nat Bool).run relay relayMoves).store.task? p t = some y ∧
          (({} : Machine Nat Bool).run relay pairMoves).store.task? p' t' = some y' ∧ y.state = y'.state :=
  ⟨completeRun_relayMoves, completeRun_pairMoves, determinacy completeRun_relayMoves completeRun_pairMoves⟩

end Machine
end Dataflow
