import Dataflow.Proofs.Errands
import Dataflow.Proofs.NoLostWakeup
import Dataflow.Proofs.Residuals

/-!
# How far the jobs have come

The jobs are dataflow bodies, nobody destroys a cell and no cell is the target of two puts. Then what a task has
done is told by its job and the values of the cells, whoever polled it and when (`Task.Stands`), and the values
of the cells are those that were put (`Machine.Followed`).
-/

namespace Dataflow

variable {V J : Type}

/-- The body of the job has been brought to this one. -/
def JobReaches (start : J → Except RuntimeError (Body V J)) (σ : CellId → Option V) (job : J)
    (body : Body V J) : Prop :=
  ∃ b₀, start job = .ok b₀ ∧ Body.Reaches σ b₀ body

/-- The job has ended so, or could not be started. -/
def JobEnds (start : J → Except RuntimeError (Body V J)) (σ : CellId → Option V) (job : J)
    (outcome : Outcome) : Prop :=
  (∃ err, start job = .error err ∧ outcome = .returned (.error err)) ∨
    ∃ b₀, start job = .ok b₀ ∧ Body.Ends σ b₀ outcome

/-- Who holds the task holds its job, brought as far as it should. -/
def Hold.Stands (start : J → Except RuntimeError (Body V J)) (σ : CellId → Option V) (job : J) : Hold V J → Prop
  | .polling r => JobReaches start σ job r.body ∧ r.body.IsTurned
  | .pausing r => JobReaches start σ job r.body ∧ r.body.IsTurned ∧ r.body.held ≠ []
  | .ending outcome => JobEnds start σ job outcome
  | .asking => False
  | _ => True

/-- The task has the job, and the job has been brought as far as it should. -/
structure Task.Stands (start : J → Except RuntimeError (Body V J)) (σ : CellId → Option V) (job : J) (y : Task V J)
    (T : Multiset (Hold V J)) : Prop where
  unclaimed : ∀ job', y.stage = .unclaimed job' → job' = job
  started : ∀ guards body, y.stage = .started guards body →
    JobReaches start σ job body ∧ body.IsTurned ∧ body.held ≠ []
  held : ∀ k ∈ T, k.Stands start σ job
  ended : y.state.isTerminal = true → ∃ outcome, JobEnds start σ job outcome ∧ y.state = Frame.finalState outcome

section

variable {start : J → Except RuntimeError (Body V J)} {σ σ' : CellId → Option V} {job : J} {body : Body V J}

theorem JobReaches.mono (h : JobReaches start σ job body) (hσ : Extends σ σ') : JobReaches start σ' job body := by
  obtain ⟨b₀, hb₀, h⟩ := h
  exact ⟨b₀, hb₀, h.mono hσ⟩

theorem JobEnds.mono {outcome : Outcome} (h : JobEnds start σ job outcome) (hσ : Extends σ σ') :
    JobEnds start σ' job outcome := by
  rcases h with h | ⟨b₀, hb₀, h⟩
  · exact .inl h
  · exact .inr ⟨b₀, hb₀, h.mono hσ⟩

theorem Hold.Stands.mono {k : Hold V J} (h : k.Stands start σ job) (hσ : Extends σ σ') :
    k.Stands start σ' job := by
  cases k with
  | polling r | pausing r => exact ⟨h.1.mono hσ, h.2⟩
  | ending outcome => exact JobEnds.mono h hσ
  | asking => exact h
  | _ => trivial

theorem Task.Stands.mono {y : Task V J} {T : Multiset (Hold V J)} (h : y.Stands start σ job T)
    (hσ : Extends σ σ') : y.Stands start σ' job T := by
  refine ⟨h.unclaimed, fun guards body hstage => ?_, fun k hk => (h.held k hk).mono hσ, fun hend => ?_⟩
  · obtain ⟨hreaches, hheld⟩ := h.started guards body hstage
    exact ⟨hreaches.mono hσ, hheld⟩
  · obtain ⟨outcome, hends, hstate⟩ := h.ended hend
    exact ⟨outcome, hends.mono hσ, hstate⟩

theorem Frame.Stands.hold {b₀ : Body V J} (hb₀ : start job = .ok b₀) {f : Frame V J} (h : f.Stands σ b₀)
    {worker : Option (PoolId × Nat)} {p : PoolId} {t : TaskId} (hpolls : f.Polls p t) {k : Hold V J}
    (hk : f.holds worker p t = {k}) : k.Stands start σ job := by
  cases f with
  | run r | pause r =>
    have hparty : r.party = .task p t := hpolls
    rw [holds, if_pos hparty, Multiset.singleton_inj] at hk
    subst hk
    exact ⟨⟨b₀, hb₀, h.1⟩, h.2⟩
  | ended party outcome =>
    have hparty : party = .task p t := hpolls
    rw [holds, if_pos hparty, Multiset.singleton_inj] at hk
    subst hk
    exact .inr ⟨b₀, hb₀, h⟩
  | blocked | spawn => exact h.elim
  | _ => exact hpolls.elim

/-- A worker that takes the stage goes on with the job. -/
theorem Task.Stands.entered {y : Task V J} {T : Multiset (Hold V J)} {p : PoolId} {t : TaskId}
    (h : y.Stands start σ job T) (hstart : ∀ job body, start job = .ok body → body.Fresh)
    (hstage : y.stage ≠ .consumed) : (y.stage.entered start p t).Stands start σ job := by
  obtain ⟨hunclaimed, hstarted, -, -⟩ := h
  cases hy : y.stage with
  | unclaimed job' =>
    obtain rfl := hunclaimed job' hy
    simp only [Stage.entered]
    split
    · rename_i err herr
      exact .inl ⟨err, herr, rfl⟩
    · rename_i b₀ hb₀
      exact ⟨⟨b₀, hb₀, b₀, .refl, .refl _⟩, (hstart _ _ hb₀).isTurned⟩
  | started guards body =>
    obtain ⟨hreaches, hturned, -⟩ := hstarted guards body hy
    exact ⟨hreaches, hturned⟩
  | consumed => exact absurd hy hstage

section change

variable {p : PoolId} {t : TaskId} {s : Store V J} {f : Frame V J} {x : Option (Task V J)} {y : Task V J}
  {d e rest : Multiset (Hold V J)}

/-- A step brings the job further, or leaves it as it is. -/
theorem Task.Stands.change (hstart : ∀ job body, start job = .ok body → body.Fresh)
    (hdata : ∀ job body, start job = .ok body → body.IsDataflow) (hp : s.Running p)
    (hf : f.Proper) (hkept : ∀ c, (s.cell c).payload ≠ .destroyed) (hσ : Extends s.value? σ')
    (hput : ∀ c v, f.put? = some (c, v) → (s.cell c).payload = .empty ∧ σ' c = some v)
    (hx : Exact (some y) (d + rest)) (h : y.Stands start s.value? job (d + rest))
    (hc : Change start p t s f (some y) d x e) : ∃ z, x = some z ∧ z.Stands start σ' job (e + rest) := by
  have h' := h.mono hσ
  have rested : ∀ k ∈ 0 + rest, k.Stands start σ' job := by
    intro k hk
    rw [zero_add] at hk
    exact h'.held k (Multiset.mem_add.2 (.inr hk))
  have swapped : ∀ {k : Hold V J}, k.Stands start σ' job → ∀ k' ∈ {k} + rest, k'.Stands start σ' job := by
    intro k hk k' hmem
    rcases Multiset.mem_add.1 hmem with hmem | hmem
    · rwa [Multiset.mem_singleton.1 hmem]
    · exact rested k' (by rwa [zero_add])
  cases hc with
  | stay => exact ⟨y, rfl, h'⟩
  | claim => exact ⟨_, rfl, h'.unclaimed, h'.started, swapped trivial, nofun⟩
  | refuse => exact ⟨y, rfl, h'.unclaimed, h'.started, rested, h'.ended⟩
  | enter =>
    obtain ⟨-, hfit⟩ := hx.of_single
    exact ⟨_, rfl, nofun, nofun, swapped (h'.entered hstart hfit.2), h'.ended⟩
  | @run r _ k worker g hr hk hend hg hgk =>
    obtain ⟨⟨b₀, hb₀, hreaches⟩, hturned⟩ := h.held (.polling r) (by simp)
    have hstands := Frame.stands_stepRun (hdata job b₀ hb₀) hf hkept hσ hput ⟨hreaches, hturned⟩ g hg
    have hpolls : g.Polls p t := by
      obtain ⟨quiet, g', hfs, hquiet, hg'⟩ := Frame.stepRun_frames worker s r
      rw [hfs] at hg
      rcases List.mem_append.1 hg with hg | hg
      · rw [(hquiet g hg).holds_eq_zero] at hgk
        exact absurd hgk.symm (Multiset.singleton_ne_zero k)
      · rw [List.mem_singleton.1 hg]
        exact hg'.polls hr
    exact ⟨y, rfl, h'.unclaimed, h'.started, swapped (hstands.hold hb₀ hpolls hgk), h'.ended⟩
  | answer => exact (h.held .asking (by simp)).elim
  | @pause r _ hr =>
    obtain ⟨hreaches, hheld⟩ := h'.held (.pausing r) (by simp)
    refine ⟨_, rfl, nofun, fun guards body hstage => ?_, swapped trivial, h'.ended⟩
    cases hstage
    exact ⟨hreaches, hheld⟩
  | @settle outcome =>
    have hends : JobEnds start σ' job outcome := h'.held (.ending outcome) (by simp)
    exact ⟨_, rfl, h'.unclaimed, h'.started, rested, fun _ => ⟨outcome, hends, rfl⟩⟩
  | park => exact ⟨_, rfl, h'.unclaimed, h'.started, rested, nofun⟩
  | unpark => exact ⟨y, rfl, h'.unclaimed, h'.started, swapped trivial, h'.ended⟩
  | requeue => exact ⟨_, rfl, h'.unclaimed, h'.started, swapped trivial, nofun⟩
  | wake => exact ⟨_, rfl, h'.unclaimed, h'.started, swapped trivial, nofun⟩
  | notify => exact ⟨_, rfl, h'.unclaimed, h'.started, rested, nofun⟩
  | handBack => exact ⟨y, rfl, h'.unclaimed, h'.started, swapped trivial, h'.ended⟩
  | flag => exact ⟨_, rfl, h'.unclaimed, h'.started, rested, h'.ended⟩
  | lose hp' hd => exact absurd hp hp'
  | close hp' hstate hstage => exact absurd hp hp'

/-- A task that was not there is made, or is still not there. -/
theorem Change.eq_of_none {z : Task V J} (hc : Change start p t s f none d (some z) e) :
    d = 0 ∧ e = {.ready} ∧ ∃ job next pool, f = .spawn p job .number next ∧ s.pools[p]? = some pool ∧
      pool.tasks.size = t ∧ z = { stage := .unclaimed job } := by
  cases hc with
  | @spawn job next pool hp ht => exact ⟨rfl, rfl, job, next, pool, rfl, hp, ht, rfl⟩

end change

end

namespace Taken

variable {tr : List (Taken V J)} {e : Taken V J}

/-- The step destroys no cell, and it puts into one that was made and that nobody has put into before. -/
structure IsFirst (tr : List (Taken V J)) (e : Taken V J) : Prop where
  kept : e.frame.destroy? = none
  made : ∀ c v, e.frame.put? = some (c, v) → c < e.store.cells.size
  first : ∀ c v v', e.frame.put? = some (c, v) → ∀ e' ∈ tr, e'.frame.put? ≠ some (c, v')

/-- A task that is going to be made is not there. -/
theorem Spawns.task?_eq_none {p : PoolId} {t : TaskId} {job : J} (h : e.Spawns p t job) :
    e.store.task? p t = none := by
  obtain ⟨next, pool, -, hp, rfl⟩ := h
  rw [Store.task?_eq, hp, Option.bind_some, Array.getElem?_size]

end Taken

namespace Machine

variable {start : J → Except RuntimeError (Body V J)} {m : Machine V J} {mv : Move V J} {tr : List (Taken V J)}

/-- The values of the cells are those that were put, and the tasks have done with them what they could. -/
structure Followed (start : J → Except RuntimeError (Body V J)) (m : Machine V J) (tr : List (Taken V J)) : Prop where
  kept : ∀ c, (m.store.cell c).payload ≠ .destroyed
  values : ∀ c v, m.store.value? c = some v ↔ ∃ e ∈ tr, e.frame.put? = some (c, v)
  made : ∀ p t y, m.store.task? p t = some y → ∃ job, ∃ e ∈ tr, e.Spawns p t job
  stands : ∀ p t job, (∃ e ∈ tr, e.Spawns p t job) →
    ∃ y, m.store.task? p t = some y ∧ y.Stands start m.store.value? job (m.holds p t)
  told : ∀ c, (m.store.cell c).payload ≠ .empty → ∃ i back, m.Telling c i back

theorem Followed.initial : Followed start ({} : Machine V J) [] := by
  have hcell : ∀ c, ((({} : Machine V J).store.cell c)).payload = .empty := fun c => rfl
  refine ⟨fun c h => ?_, fun c v => ?_, fun p t y h => ?_, fun p t job h => ?_, fun c h => ?_⟩
  · cases h
  · simp [Store.value?, hcell]
  · simp [Store.task?_eq] at h
  · obtain ⟨e, he, -⟩ := h
    cases he
  · exact absurd (hcell c) h

/-- Who has not been put into is empty. -/
theorem Followed.payload_eq_empty (h : m.Followed start tr) {c : CellId}
    (hc : ∀ v, ∀ e ∈ tr, e.frame.put? ≠ some (c, v)) : (m.store.cell c).payload = .empty := by
  cases hp : (m.store.cell c).payload with
  | empty => rfl
  | full v =>
    obtain ⟨e, he, hput⟩ := (h.values c v).1 (Store.value?_eq_some_iff.2 hp)
    exact absurd hput (hc v e he)
  | destroyed => exact absurd hp (h.kept c)

/-- A move adds the value that it puts, and no other. -/
theorem value?_after_iff (hkept : ∀ e, m.taken mv = some e → e.frame.destroy? = none)
    (hempty : ∀ e, m.taken mv = some e → ∀ c v, e.frame.put? = some (c, v) → e.Fills c) (c : CellId) (v : V) :
    (m.after start mv).store.value? c = some v ↔
      m.store.value? c = some v ∨ ∃ e, m.taken mv = some e ∧ e.frame.put? = some (c, v) := by
  simp only [Store.value?_eq_some_iff]
  constructor
  · intro hv
    rcases m.payload_after start mv c with heq | ⟨i, worker, f, htaken, heq | ⟨v', hput, -, heq⟩ | ⟨hgone, -⟩⟩
    · exact .inl (heq ▸ hv)
    · exact .inl (heq ▸ hv)
    · rw [hv] at heq
      cases heq
      exact .inr ⟨_, htaken, hput⟩
    · have hnone := hkept _ htaken
      rw [hgone] at hnone
      cases hnone
  · rintro (hv | ⟨e, htaken, hput⟩)
    · rcases m.payload_after start mv c with heq | ⟨i, worker, f, htaken, heq | ⟨v', hput, hc, -⟩ | ⟨hgone, -⟩⟩
      · rw [heq, hv]
      · rw [heq, hv]
      · rw [hv] at hc
        cases hc
      · have hnone := hkept _ htaken
        rw [hgone] at hnone
        cases hnone
    · obtain ⟨hlt, hc, -⟩ := hempty e htaken c v hput
      obtain ⟨choice, rest, -, hstore, -, heq⟩ := after_of_taken start htaken
      rw [hstore] at hlt hc
      rw [heq, (Frame.step_of_puts start e.worker choice hput hc).1, Store.cell_setCell, if_pos ⟨rfl, hlt⟩]

/-- Whoever is told of a full cell is still being told of it, and those who wait for a new one are. -/
theorem Followed.told_after (hstart : ∀ job body, start job = .ok body → body.Fresh) (hm : m.Orderly)
    (hm' : (m.after start mv).Orderly) (h : m.Followed start tr)
    (hkept : ∀ e, m.taken mv = some e → e.frame.destroy? = none)
    (hempty : ∀ e, m.taken mv = some e → ∀ c v, e.frame.put? = some (c, v) → e.Fills c) {c : CellId}
    (hc : ((m.after start mv).store.cell c).payload ≠ .empty) : ∃ i back, (m.after start mv).Telling c i back := by
  by_cases hbefore : (m.store.cell c).payload = .empty
  · rcases m.payload_after start mv c with heq | ⟨i, worker, f, htaken, heq | ⟨v, hput, -, -⟩ | ⟨hgone, -⟩⟩
    · rw [heq] at hc
      exact absurd hbefore hc
    · rw [heq] at hc
      exact absurd hbefore hc
    · obtain ⟨choice, rest, -, -, hi, heq⟩ := after_of_taken start htaken
      obtain ⟨-, fs, hfs⟩ := Frame.step_of_puts start worker choice hput hbefore
      have hstack : (m.after start mv).stackOf i = Frame.afterPut c (m.store.cell c) ++ (fs ++ rest) := by
        rw [heq, stackOf_eq (getElem?_setIfInBounds_self hi), hfs, List.append_assoc]
      exact ⟨i, fs ++ rest, telling_of_fills hm'.booked htaken (hempty _ htaken c v hput) hstack⟩
    · have hnone := hkept _ htaken
      rw [hgone] at hnone
      cases hnone
  · obtain ⟨i, back, htelling⟩ := h.told c hbefore
    exact ⟨i, back, htelling.after hstart hm.scheduled hm.proper mv⟩

/-- A task that has just been made has its job before it. -/
theorem stands_of_spawns (hm : m.Scheduled) {e : Taken V J} (htaken : m.taken mv = some e) {p : PoolId}
    {t : TaskId} {job : J} (h : e.Spawns p t job) (σ : CellId → Option V) :
    ∃ y, (m.after start mv).store.task? p t = some y ∧ y.Stands start σ job ((m.after start mv).holds p t) := by
  have hnone := h.task?_eq_none
  obtain ⟨next, pool, hf, hp, ht⟩ := h
  obtain ⟨choice, stack, -, hstore, -, heq⟩ := after_of_taken start htaken
  rw [hstore] at hnone hp
  have hy : (m.after start mv).store.task? p t = some { stage := .unclaimed job } := by
    rw [heq, hf]
    simp only [Frame.step, Frame.stepSpawn, hp]
    rw [Store.task?_eq, Store.pools_modifyPool, if_pos rfl, hp, ← ht]
    exact Array.getElem?_push_size
  rcases change start hm.framed (hm.sound p t).made mv with
    ⟨hidle, -, -⟩ | ⟨i, worker, f, d, holds, rest, -, hd, he, hc⟩
  · rw [htaken] at hidle
    cases hidle
  · rw [hnone, hy] at hc
    obtain ⟨rfl, rfl, -⟩ := hc.eq_of_none
    have hrest : rest = 0 := by
      have hholds := (hm.sound p t).made hnone
      rwa [hd, zero_add] at hholds
    rw [he, hrest]
    refine ⟨_, hy, fun job' hjob => ?_, by simp, fun k hk => ?_, by rintro ⟨⟩⟩
    · cases hjob
      rfl
    · rw [add_zero, Multiset.mem_singleton] at hk
      rw [hk]
      trivial

/-- Every move keeps this while all pools are open. -/
theorem Followed.after (hstart : ∀ job body, start job = .ok body → body.Fresh)
    (hdata : ∀ job body, start job = .ok body → body.IsDataflow) (hm : m.Orderly)
    (hm' : (m.after start mv).Orderly) (hopen : ∀ p, ¬ m.store.Closed p)
    (hfirst : ∀ e, m.taken mv = some e → e.IsFirst tr) (h : m.Followed start tr) :
    (m.after start mv).Followed start (tr ++ (m.taken mv).toList) := by
  have hkept : ∀ e, m.taken mv = some e → e.frame.destroy? = none := fun e he => (hfirst e he).kept
  have hempty : ∀ e, m.taken mv = some e → ∀ c v, e.frame.put? = some (c, v) → e.Fills c := by
    intro e he c v hput
    obtain ⟨-, -, -, hstore, -⟩ := after_of_taken start he
    have hc := h.payload_eq_empty fun v' => (hfirst e he).first c v v' hput
    exact ⟨(hfirst e he).made c v hput, hstore ▸ hc, v, hput⟩
  have hvalue : ∀ c v, (m.after start mv).store.value? c = some v ↔
      m.store.value? c = some v ∨ ∃ e, m.taken mv = some e ∧ e.frame.put? = some (c, v) :=
    value?_after_iff hkept hempty
  have hσ : Extends m.store.value? (m.after start mv).store.value? := fun c v hv => (hvalue c v).2 (.inl hv)
  have hrunning : ∀ p t y, m.store.task? p t = some y → m.store.Running p := by
    intro p t y hy
    obtain ⟨pool, hpool, -⟩ := Store.exists_pool_of_task? hy
    exact Store.running_of_not_closed (hopen p) hpool
  constructor
  · intro c hgone
    rcases m.payload_after start mv c with heq | ⟨i, worker, f, htaken, heq | ⟨v, -, -, heq⟩ | ⟨hdestroy, -⟩⟩
    · exact h.kept c (heq ▸ hgone)
    · exact h.kept c (heq ▸ hgone)
    · rw [heq] at hgone
      cases hgone
    · have hnone := hkept _ htaken
      rw [hdestroy] at hnone
      cases hnone
  · intro c v
    simp only [hvalue, h.values, List.mem_append, Option.mem_toList, or_and_right, exists_or]
  · intro p t y hy
    have old : ∀ z, m.store.task? p t = some z →
        ∃ job, ∃ e ∈ tr ++ (m.taken mv).toList, e.Spawns p t job := by
      intro z hz
      obtain ⟨job, e, he, hspawns⟩ := h.made p t z hz
      exact ⟨job, e, List.mem_append_left _ he, hspawns⟩
    rcases change start hm.scheduled.framed (hm.scheduled.sound p t).made mv with
      ⟨-, hx, -⟩ | ⟨i, worker, f, d, e, rest, htaken, -, -, hc⟩
    · exact old y (hx ▸ hy)
    · cases hz : m.store.task? p t with
      | some z => exact old z hz
      | none =>
        rw [hz, hy] at hc
        obtain ⟨-, -, job, next, pool, hf, hpool, ht, -⟩ := hc.eq_of_none
        exact ⟨job, ⟨i, worker, f, m.store⟩, by simp [htaken], next, pool, hf, hpool, ht⟩
  · rintro p t job ⟨e, he, hspawns⟩
    rcases List.mem_append.1 he with he | he
    · obtain ⟨y, hy, hstands⟩ := h.stands p t job ⟨e, he, hspawns⟩
      rcases change start hm.scheduled.framed (hm.scheduled.sound p t).made mv with
        ⟨-, hx, hT⟩ | ⟨i, worker, f, d, e', rest, htaken, hd, he', hc⟩
      · rw [hx, hT]
        exact ⟨y, hy, hstands.mono hσ⟩
      · obtain ⟨choice, stack, -, -, hi, -⟩ := after_of_taken start htaken
        have hexact := hm.scheduled.exact p t (hrunning p t y hy)
        rw [hy, hd] at hexact
        rw [hy] at hc
        rw [hd] at hstands
        rw [he']
        refine hstands.change hstart hdata (hrunning p t y hy) (hm.proper.frames i _ hi f (by simp)) h.kept hσ
          (fun c v hput => ?_) hexact hc
        exact ⟨(hempty _ htaken c v hput).2.1, (hvalue c v).2 (.inr ⟨_, htaken, hput⟩)⟩
    · exact stands_of_spawns hm.scheduled (by simpa using he) hspawns _
  · exact fun c hc => h.told_after hstart hm hm' hkept hempty hc

end Machine
end Dataflow
