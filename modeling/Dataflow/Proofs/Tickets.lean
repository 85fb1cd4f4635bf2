import Dataflow.Proofs.Registrations

/-!
# Tickets

All tickets of a machine together: those of tasks that are put away, of the body on the shelf, and of the
frames of all threads. No step makes a ticket that the cell does not know (`Frame.KeepsBooks`), so whoever
waits is registered (`Machine.Booked`).

That a cell is there when it is polled is up to whoever made the body (`Taken.Known`): handles come from
cells that were made.
-/

namespace Dataflow

variable {V J : Type}

/-- The tickets of what is left of a task. -/
def Stage.tickets (p : PoolId) (t : TaskId) (stage : Stage V J) : Multiset Ticket :=
  ticketsOf (.task p t) stage.held

/-- The tickets of the tasks of a pool. -/
def Pool.tickets (p : PoolId) (pool : Pool V J) : Multiset Ticket :=
  (pool.tasks.toList.mapIdx fun t y => y.stage.tickets p t).sum

/-- One entry of a list changed, as seen by a sum that minds the places. -/
theorem exists_sum_mapIdx_modify {α M : Type} [AddCommMonoid M] (g : Nat → α → M) {xs : List α} {i : Nat} {a : α}
    (h : xs[i]? = some a) :
    ∃ rest, (xs.mapIdx g).sum = g i a + rest ∧ ∀ f, ((xs.modify i f).mapIdx g).sum = g i (f a) + rest := by
  have hi : (xs.mapIdx g)[i]? = some (g i a) := by rw [List.getElem?_mapIdx, h]; rfl
  obtain ⟨rest, h1, h2⟩ := exists_sum_set id hi
  simp only [List.map_id, id] at h1 h2
  refine ⟨rest, h1, fun f => ?_⟩
  have hset : (xs.modify i f).mapIdx g = (xs.mapIdx g).set i (g i (f a)) := by
    refine List.ext_getElem? fun k => ?_
    rw [List.getElem?_mapIdx, List.getElem?_modify, List.getElem?_set, List.length_mapIdx, List.getElem?_mapIdx]
    by_cases hk : i = k
    · subst hk
      rw [h, if_pos rfl, if_pos (List.getElem?_eq_some_iff.1 h).1]
      simp
    · simp [hk]
  rw [hset, h2]

namespace Pool

variable {pool : Pool V J} {p : PoolId} {t : TaskId}

/-- A stage that is replaced gives up its tickets for those of the new one. -/
theorem tickets_modify {y : Task V J} (hy : pool.tasks[t]? = some y) :
    ∃ rest, pool.tickets p = y.stage.tickets p t + rest ∧
      ∀ f, Pool.tickets p { pool with tasks := pool.tasks.modify t f } = (f y).stage.tickets p t + rest := by
  obtain ⟨rest, h1, h2⟩ := exists_sum_mapIdx_modify (fun t (y : Task V J) => y.stage.tickets p t)
    (show pool.tasks.toList[t]? = some y by rw [Array.getElem?_toList, hy])
  exact ⟨rest, h1, fun f => by rw [Pool.tickets, Array.toList_modify, h2]⟩

/-- A task that was never claimed holds nothing. -/
theorem tickets_push {job : J} :
    Pool.tickets p { pool with tasks := pool.tasks.push { stage := .unclaimed job } } = pool.tickets p := by
  simp [Pool.tickets, List.mapIdx_append, Stage.tickets, Stage.held]

theorem tickets_clearRegistry : pool.clearRegistry.tickets p = pool.tickets p := by
  have hsame : (pool.clearRegistry.tasks.toList.mapIdx fun t y => y.stage.tickets p t) =
      pool.tasks.toList.mapIdx fun t y => y.stage.tickets p t :=
    List.ext_getElem? fun k => by simp [clearRegistry, Function.comp_def]
  rw [Pool.tickets, hsame, Pool.tickets]

theorem tickets_of_tasks_eq {pool' : Pool V J} (h : pool'.tasks = pool.tasks) :
    pool'.tickets p = pool.tickets p := by
  rw [Pool.tickets, h, Pool.tickets]

theorem tickets_new (config : PoolConfig) : (Pool.new config : Pool V J).tickets p = 0 := by
  simp [Pool.tickets, Pool.new]

end Pool

namespace Store

variable {s s' : Store V J} {p : PoolId} {t : TaskId}

/-- The tickets of all tasks. -/
def staged (s : Store V J) : Multiset Ticket := (s.pools.toList.mapIdx fun p pool => pool.tickets p).sum

/-- The tickets of the body on the shelf. -/
def shelved (s : Store V J) : Multiset Ticket :=
  match s.shelf with
  | some r => ticketsOf r.party r.body.held
  | none => 0

theorem staged_of_pools_eq (h : s'.pools = s.pools) : s'.staged = s.staged := by
  rw [staged, h, staged]

/-- A pool that is replaced gives up its tickets for those of the new one. -/
theorem staged_modify {pool : Pool V J} (hp : s.pools[p]? = some pool) :
    ∃ rest, s.staged = pool.tickets p + rest ∧ ∀ g, (s.modifyPool p g).staged = (g pool).tickets p + rest := by
  obtain ⟨rest, h1, h2⟩ := exists_sum_mapIdx_modify (fun p (pool : Pool V J) => pool.tickets p)
    (show s.pools.toList[p]? = some pool by rw [Array.getElem?_toList, hp])
  exact ⟨rest, h1, fun g => by rw [staged, modifyPool, Array.toList_modify, h2]⟩

theorem staged_modifyPool {g : Pool V J → Pool V J}
    (hg : ∀ pool, s.pools[p]? = some pool → (g pool).tickets p = pool.tickets p) :
    (s.modifyPool p g).staged = s.staged := by
  cases hp : s.pools[p]? with
  | none =>
    have hsame : s.pools.modify p g = s.pools := by
      refine Array.ext_getElem? fun k => ?_
      rw [Array.getElem?_modify]
      split
      · rename_i hk
        rw [← hk, hp]
        rfl
      · rfl
    exact staged_of_pools_eq hsame
  | some pool =>
    obtain ⟨rest, h1, h2⟩ := staged_modify hp
    rw [h1, h2, hg pool hp]

/-- Whatever changes of a task but its stage has nothing to do with its tickets. -/
theorem staged_modifyTask {f : Task V J → Task V J} (hf : ∀ y, s.task? p t = some y → (f y).stage = y.stage) :
    (s.modifyTask p t f).staged = s.staged := by
  refine staged_modifyPool fun pool hp => ?_
  cases ht : pool.tasks[t]? with
  | none =>
    have hsame : pool.tasks.modify t f = pool.tasks := by
      refine Array.ext_getElem? fun k => ?_
      rw [Array.getElem?_modify]
      split
      · rename_i hk
        rw [← hk, ht]
        rfl
      · rfl
    rw [hsame]
  | some y =>
    obtain ⟨rest, h1, h2⟩ := pool.tickets_modify (p := p) ht
    rw [h1, h2, hf y (by rw [task?_eq, hp]; exact ht)]

/-- A stage that is replaced gives up its tickets for those of the new one. -/
theorem staged_setStage {y : Task V J} (hy : s.task? p t = some y) :
    ∃ rest, s.staged = y.stage.tickets p t + rest ∧
      ∀ stage, (s.setStage p t stage).staged = stage.tickets p t + rest := by
  obtain ⟨pool, hp, ht⟩ := exists_pool_of_task? hy
  obtain ⟨others, h1, h2⟩ := staged_modify hp
  obtain ⟨others', h3, h4⟩ := pool.tickets_modify (p := p) ht
  refine ⟨others' + others, ?_, fun stage => ?_⟩
  · rw [h1, h3, add_assoc]
  · rw [setStage, modifyTask, h2, h4, add_assoc]

/-- A stage that comes in the place of another brings its own tickets at most. -/
theorem staged_setStage_le (stage : Stage V J) : (s.setStage p t stage).staged ≤ s.staged + stage.tickets p t := by
  cases hy : s.task? p t with
  | none =>
    rw [setStage, staged_modifyTask fun y hy' => by rw [hy] at hy'; cases hy']
    exact Multiset.le_add_right _ _
  | some y =>
    obtain ⟨others, h1, h2⟩ := staged_setStage hy
    rw [h1, h2, add_comm, add_comm (y.stage.tickets p t), add_assoc]
    gcongr
    exact Multiset.le_add_left _ _

/-- The tickets of all that a store keeps: tasks, and the body on the shelf. -/
def tickets (s : Store V J) : Multiset Ticket := s.staged + s.shelved

theorem tickets_eq (hstaged : s'.staged = s.staged) (hshelf : s'.shelf = s.shelf) : s'.tickets = s.tickets := by
  rw [tickets, hstaged, shelved, hshelf]
  rfl

end Store

namespace Frame

variable {start : J → Except RuntimeError (Body V J)} {worker : Option (PoolId × Nat)} {s s' : Store V J}
  {T T' rest : Multiset Ticket} {f : Frame V J} {fs : List (Frame V J)} {p : PoolId} {t : TaskId}

/-- The step of a frame on `s` that leads to `s'` and is followed by `fs` keeps the books. -/
def KeepsBooks (s : Store V J) (f : Frame V J) (s' : Store V J) (fs : List (Frame V J)) : Prop :=
  ∀ rest, s.Registers (s.tickets + (f.tickets + rest)) → s'.Registers (s'.tickets + (ticketsAll fs + rest))

/-- Tickets may be lost, and change places. -/
theorem KeepsBooks.of_le (hcell : s.SameWakers s') (hT : s'.tickets + ticketsAll fs ≤ s.tickets + f.tickets) :
    KeepsBooks s f s' fs := by
  intro rest h
  refine h.of_le ?_ hcell
  rw [← add_assoc, ← add_assoc]
  exact add_le_add hT le_rfl

/-- Who neither gets nor gives up a ticket changes nothing. -/
theorem KeepsBooks.idle (hcell : s.SameWakers s') (hs : s'.tickets = s.tickets) (hfs : ticketsAll fs = 0) :
    KeepsBooks s f s' fs :=
  .of_le hcell (by rw [hs, hfs, add_zero]; exact Multiset.le_add_right _ _)

/-- A body that is left pending takes its registrations along. -/
theorem keepsBooks_pause (r : Run V J) : KeepsBooks s (.pause r) (stepPause s r).1 (stepPause s r).2 := by
  obtain ⟨party, guards, body⟩ := r
  refine .of_le (by cases party <;> exact .of_cells_eq rfl) ?_
  cases party with
  | outside =>
    show s.staged + ticketsOf .outside body.held + 0 ≤ s.staged + s.shelved + ticketsOf .outside body.held
    rw [add_zero]
    exact add_le_add (Multiset.le_add_right _ _) le_rfl
  | task p t =>
    have hafter : (stepPause s ⟨.task p t, guards, body⟩).1.tickets =
        (s.setStage p t (.started guards body)).staged + s.shelved :=
      congrArg (· + s.shelved) (Store.staged_modifyPool fun _ _ => rfl)
    rw [hafter]
    show (s.setStage p t (.started guards body)).staged + s.shelved + 0 ≤
      s.staged + s.shelved + ticketsOf (.task p t) body.held
    rw [add_zero, add_right_comm]
    exact add_le_add (Store.staged_setStage_le _) le_rfl

/-- A worker that takes a stage has the registrations of the body. -/
theorem keepsBooks_enter (hstart : ∀ job body, start job = .ok body → body.Fresh) :
    KeepsBooks s (.task p t .enter) (stepTask start worker s p t .enter).1
      (stepTask start worker s p t .enter).2 := by
  simp only [stepTask]
  split
  · exact .idle (.of_cells_eq rfl) rfl rfl
  · rename_i y hy
    obtain ⟨others, h1, h2⟩ := Store.staged_setStage hy
    have hconsumed : (s.setStage p t .consumed).staged = others := by
      rw [h2]
      exact zero_add _
    have hdequeued : ((s.setStage p t .consumed).modifyPool p fun pool =>
        { pool with queued := pool.queued - 1 }).staged = others := by
      rw [← hconsumed]
      exact Store.staged_modifyPool fun pool _ => Pool.tickets_of_tasks_eq rfl
    have moved : ∀ {s' : Store V J} {fs : List (Frame V J)}, s'.cells = s.cells → s'.shelf = s.shelf →
        s'.staged = others → ticketsAll fs ≤ y.stage.tickets p t → KeepsBooks s (.task p t .enter) s' fs := by
      intro s' fs hcells hshelf hstaged hfs
      refine .of_le (.of_cells_eq hcells) ?_
      have hshelved : s'.shelved = s.shelved := by rw [Store.shelved, hshelf, Store.shelved]
      have hnone : (task p t .enter : Frame V J).tickets = 0 := rfl
      rw [Store.tickets, Store.tickets, hstaged, hshelved, h1, hnone, add_zero, add_assoc (y.stage.tickets p t),
        add_comm (y.stage.tickets p t)]
      exact Multiset.add_le_add_left hfs
    split
    · rename_i job hstage
      split
      · exact moved rfl rfl hdequeued (Multiset.zero_le _)
      · rename_i body hbody
        refine moved rfl rfl hdequeued ?_
        rw [ticketsAll_cons, tickets_run_of_fresh (hstart job body hbody)]
        exact Multiset.zero_le _
    · rename_i guards body hstage
      exact moved rfl rfl hconsumed (by rw [hstage]; simp [tickets, Stage.tickets, Stage.held])
    · exact moved rfl rfl hconsumed (Multiset.zero_le _)

/-- The registrations of a body that is released are to be withdrawn. -/
theorem keepsBooks_discard : KeepsBooks s (.task p t .discard) (stepTask start worker s p t .discard).1
    (stepTask start worker s p t .discard).2 := by
  simp only [stepTask]
  split
  · exact .idle (.of_cells_eq rfl) rfl rfl
  · rename_i y hy
    obtain ⟨others, h1, h2⟩ := Store.staged_setStage hy
    intro rest h
    have hbefore : s.Registers (y.stage.tickets p t + (others + s.shelved + rest)) := by
      rw [Store.tickets, h1, show (task p t .discard : Frame V J).tickets = 0 from rfl, zero_add] at h
      rwa [← add_assoc, ← add_assoc]
    have hafter : (s.setStage p t .consumed).tickets = others + s.shelved := by
      rw [Store.tickets, h2, show Stage.tickets p t (.consumed : Stage V J) = 0 from rfl, zero_add]
      rfl
    dsimp only
    rw [hafter, add_left_comm]
    split
    · rename_i guards body hstage
      rw [hstage] at hbefore
      rw [ticketsAll_dropPending]
      exact hbefore.giveUp.of_le le_rfl (.of_cells_eq rfl)
    · rw [ticketsAll_nil, zero_add]
      exact hbefore.of_le (Multiset.le_add_left _ _) (.of_cells_eq rfl)

/-- What has to do with pools and counts does not touch the books. -/
theorem KeepsBooks.modifyPool {g : Pool V J → Pool V J} (hs' : s'.pools = (s.modifyPool p g).pools)
    (hg : ∀ pool, (g pool).tasks = pool.tasks) (hcells : s'.cells = s.cells) (hshelf : s'.shelf = s.shelf)
    (hfs : ticketsAll fs = 0) : KeepsBooks s f s' fs := by
  refine .idle (.of_cells_eq hcells) (Store.tickets_eq ?_ hshelf) hfs
  rw [Store.staged_of_pools_eq hs']
  exact Store.staged_modifyPool fun pool _ => Pool.tickets_of_tasks_eq (hg pool)

/-- Neither do the states of tasks and the registry. -/
theorem KeepsBooks.modifyTask {g : Task V J → Task V J} (hg : ∀ y, (g y).stage = y.stage)
    (hfs : ticketsAll fs = 0) : KeepsBooks s f (s.modifyTask p t g) fs :=
  .idle (.of_cells_eq rfl) (Store.tickets_eq (Store.staged_modifyTask fun y _ => hg y) rfl) hfs

/-- A task's frame takes the registrations of the task where it takes its stage. -/
theorem keepsBooks_task (hstart : ∀ job body, start job = .ok body → body.Fresh) (phase : TaskPhase) :
    KeepsBooks s (.task p t phase) (stepTask start worker s p t phase).1
      (stepTask start worker s p t phase).2 := by
  cases phase with
  | enter => exact keepsBooks_enter hstart
  | discard => exact keepsBooks_discard
  | claim | park =>
    simp only [stepTask]
    split
    · exact .idle (.of_cells_eq rfl) rfl rfl
    · split
      · first | exact .modifyTask (fun _ => rfl) rfl | exact .idle (.of_cells_eq rfl) rfl rfl
      · first | exact .modifyTask (fun _ => rfl) rfl | exact .idle (.of_cells_eq rfl) rfl rfl
  | begin => exact .modifyPool rfl (fun _ => rfl) rfl rfl rfl
  | tally outcome =>
    have hg : ∀ pool : Pool V J, (tallied outcome pool).tasks = pool.tasks := fun pool => by
      rw [tallied_eq]
    rw [stepTask_tally]
    split
    · exact .idle (.of_cells_eq rfl) rfl rfl
    · split
      · exact .modifyPool rfl hg rfl rfl rfl
      · exact .modifyPool rfl hg rfl rfl rfl
  | enqueue => exact .modifyPool rfl tasks_enqueue rfl rfl rfl
  | settle | unregister | requeue | register | abandon => exact .modifyTask (fun _ => rfl) rfl

/-- Every step keeps the books. -/
theorem keepsBooks_step (hstart : ∀ job body, start job = .ok body → body.Fresh)
    (worker : Option (PoolId × Nat)) (choice : Nat)
    (hf : f.Proper) (hlt : ∀ r, f = .run r → ∀ c ∈ r.body.asks, c < s.cells.size) :
    KeepsBooks s f (f.step start worker choice s).1 (f.step start worker choice s).2 := by
  have unchanged : ∀ {s' : Store V J} {fs : List (Frame V J)}, s'.cells = s.cells → s'.pools = s.pools →
      s'.shelf = s.shelf → ticketsAll fs = 0 → KeepsBooks s f s' fs := fun hcells hpools hshelf hfs =>
    .idle (.of_cells_eq hcells) (Store.tickets_eq (Store.staged_of_pools_eq hpools) hshelf) hfs
  have filled : ∀ {c : CellId} {x : Cell V Party} {fs : List (Frame V J)}, x.wakers = (s.cell c).wakers ∧
      x.nextKey = (s.cell c).nextKey → ticketsAll fs = 0 → KeepsBooks s f (s.setCell c x) fs := fun hx hfs =>
    .idle (.setCell hx) rfl hfs
  cases f with
  | run r =>
    intro rest h
    obtain ⟨hpools, hshelf, -⟩ := stepRun_pools_shelf_aborted worker s r
    have hsame : (stepRun worker s r).1.tickets = s.tickets :=
      Store.tickets_eq (Store.staged_of_pools_eq hpools) hshelf
    rw [add_left_comm] at h
    rw [step, hsame, add_left_comm]
    exact registers_stepRun hf (hlt r rfl) h
  | pause r => exact keepsBooks_pause r
  | drop guards =>
    cases guards with
    | nil => exact unchanged rfl rfl rfl rfl
    | cons guard guards =>
      refine unchanged rfl rfl rfl (ticketsAll_eq_zero fun g hg => ?_)
      simp only [step, List.mem_append, List.mem_map, List.mem_singleton] at hg
      rcases hg with ⟨_, -, rfl⟩ | rfl <;> rfl
  | fill c value =>
    simp only [step]
    split
    · exact unchanged rfl rfl rfl rfl
    · rename_i x hx
      refine filled ?_ (ticketsAll_eq_zero fun g hg => tickets_afterPut hg)
      rw [Cell.eq_of_put hx]
      exact ⟨rfl, rfl⟩
  | withdraw c key =>
    intro rest h
    rw [add_left_comm] at h
    rw [show ticketsAll (step start worker choice s (withdraw c key)).2 = 0 from rfl, zero_add]
    exact h.withdraw
  | ended party outcome =>
    cases party with
    | outside => exact unchanged rfl rfl rfl rfl
    | task p t => exact .modifyPool rfl (fun _ => rfl) rfl rfl rfl
  | blocked c timed next =>
    have hnext : ∀ answer, (next answer).body.Fresh := hf
    have hcell : ((s.cell c).recheck (timed && choice != 0)).2.wakers = (s.cell c).wakers ∧
        ((s.cell c).recheck (timed && choice != 0)).2.nextKey = (s.cell c).nextKey := by
      unfold Cell.recheck
      split <;> (try split) <;> exact ⟨rfl, rfl⟩
    simp only [step]
    split
    · refine filled hcell ?_
      rw [ticketsAll_cons, ticketsAll_nil, add_zero]
      exact tickets_run_of_fresh (hnext _)
    · exact filled hcell rfl
  | spawn p job phase next =>
    have hnext : ∀ answer, (next answer).body.Fresh := hf
    have hgone : ∀ answer, ticketsAll [(run (next answer) : Frame V J)] = 0 := fun answer => by
      rw [ticketsAll_cons, ticketsAll_nil, add_zero]
      exact tickets_run_of_fresh (hnext answer)
    cases phase with
    | check =>
      simp only [step, stepSpawn]
      split
      · exact unchanged rfl rfl rfl rfl
      · exact unchanged rfl rfl rfl (hgone _)
    | reserve =>
      simp only [step, stepSpawn]
      split
      · exact unchanged rfl rfl rfl (hgone _)
      · split
        · exact .modifyPool rfl (fun _ => rfl) rfl rfl (hgone _)
        · exact .modifyPool rfl (fun _ => rfl) rfl rfl rfl
    | number =>
      simp only [step, stepSpawn]
      split
      · exact unchanged rfl rfl rfl (hgone _)
      · refine .idle (.of_cells_eq rfl) (Store.tickets_eq ?_ rfl) (hgone _)
        exact Store.staged_modifyPool fun pool _ => Pool.tickets_push
  | wake party =>
    cases party with
    | outside => exact unchanged rfl rfl rfl rfl
    | task p t => simp only [step, stepWake]; split <;> (try split) <;> exact unchanged rfl rfl rfl rfl
  | exchange p t seen target =>
    simp only [step, stepExchange]
    split
    · exact unchanged rfl rfl rfl rfl
    · split
      · exact unchanged rfl rfl rfl rfl
      · refine .modifyTask (fun _ => rfl) ?_
        split <;> rfl
  | reschedule p t => simp only [step, stepReschedule]; split <;> exact unchanged rfl rfl rfl rfl
  | task p t phase => exact keepsBooks_task hstart phase
  | count p change => exact .modifyPool rfl (fun pool => by cases change <;> rfl) rfl rfl rfl
  | work seek =>
    rcases worker with _ | ⟨p, w⟩
    · exact unchanged rfl rfl rfl rfl
    · have hfs : ticketsAll (stepWork choice s p w seek).2 = 0 := ticketsAll_eq_zero fun g hg => by
        rcases stepWork_frames choice s hg with ⟨_, rfl⟩ | ⟨_, rfl⟩ <;> rfl
      rcases stepWork_pools choice s p w seek with heq | ⟨g, heq, hg⟩
      · rw [step, heq]
        exact unchanged rfl rfl rfl hfs
      · rw [step, heq]
        exact .modifyPool rfl hg rfl rfl hfs
  | shutdown p phase =>
    cases phase with
    | check => simp only [step, stepShutdown]; split <;> exact unchanged rfl rfl rfl rfl
    | close => exact .modifyPool rfl (fun _ => rfl) rfl rfl rfl
    | join =>
      simp only [step, stepShutdown]
      split
      · exact unchanged rfl rfl rfl rfl
      · refine unchanged rfl rfl rfl (ticketsAll_eq_zero fun g hg => ?_)
        simp only [List.mem_append, List.mem_map, List.mem_cons, List.not_mem_nil, or_false] at hg
        rcases hg with ⟨_, -, rfl⟩ | rfl | rfl <;> rfl
    | drainOwn w => exact .modifyPool rfl (fun _ => rfl) rfl rfl rfl
    | drainShared =>
      simp only [step, stepShutdown]
      split
      · exact unchanged rfl rfl rfl rfl
      · split
        · exact .modifyPool rfl (fun _ => rfl) rfl rfl rfl
        · exact unchanged rfl rfl rfl rfl
    | collect =>
      simp only [step, stepShutdown]
      split
      · exact unchanged rfl rfl rfl rfl
      · refine .idle (.of_cells_eq rfl) (Store.tickets_eq ?_ rfl) rfl
        exact Store.staged_modifyPool fun pool _ => Pool.tickets_clearRegistry
    | release tasks => cases tasks <;> exact unchanged rfl rfl rfl rfl
  | signal c => exact unchanged rfl rfl rfl rfl
  | waitIdle p => exact unchanged rfl rfl rfl rfl

end Frame

/-- A body that is polled reads only cells that were made. -/
def Taken.Known (e : Taken V J) : Prop :=
  ∀ r, e.frame = .run r → ∀ c ∈ r.body.asks, c < e.store.cells.size

instance (e : Taken V J) : Decidable e.Known :=
  match h : e.frame with
  | .run r => decidable_of_iff (∀ c ∈ r.body.asks, c < e.store.cells.size)
      ⟨fun hr r' hr' => by cases h.symm.trans hr'; exact hr, fun hr => hr r h⟩
  | .pause _ | .drop _ | .fill .. | .withdraw .. | .ended .. | .signal _ | .blocked .. | .spawn .. | .wake _
  | .exchange .. | .reschedule .. | .task .. | .count .. | .work _ | .waitIdle _ | .shutdown .. =>
    .isTrue fun r hr => by cases h.symm.trans hr

namespace Machine

variable {start : J → Except RuntimeError (Body V J)} {m : Machine V J}

/-- All tickets there are. -/
def tickets (m : Machine V J) : Multiset Ticket := m.store.tickets + m.frameSum fun _ f => f.tickets

/-- The cells know all who wait. -/
def Booked (m : Machine V J) : Prop := m.store.Registers m.tickets

theorem frameSum_spawnThread {M : Type} [AddCommMonoid M] (g : Option (PoolId × Nat) → Frame V J → M)
    (m : Machine V J) (frames : List (Frame V J)) :
    (m.spawnThread frames).frameSum g = m.frameSum g + (frames.map (g none)).sum := by
  simp [spawnThread, frameSum]

theorem frameSum_addPool {M : Type} [AddCommMonoid M] {g : Option (PoolId × Nat) → Frame V J → M}
    (hg : ∀ worker, g worker (.work .loop) = 0) (m : Machine V J) (config : PoolConfig) :
    (m.addPool config).frameSum g = m.frameSum g := by
  have hworkers : ((workers m.store.pools.size config.numWorkers : List (Thread V J)).map
      fun th => (th.stack.map (g th.worker)).sum).sum = 0 := by
    refine List.sum_eq_zero fun x hx => ?_
    simp only [workers, List.map_map, List.mem_map, Function.comp_apply] at hx
    obtain ⟨w, -, rfl⟩ := hx
    simp [hg]
  simp [frameSum, addPool, hworkers]

theorem tickets_addPool (m : Machine V J) (config : PoolConfig) : (m.addPool config).tickets = m.tickets := by
  have hstaged : (m.addPool config).store.staged = m.store.staged := by
    simp [Store.staged, addPool, List.mapIdx_append, Pool.tickets_new]
  rw [tickets, Store.tickets_eq hstaged rfl, frameSum_addPool fun _ => rfl, tickets]

/-- The body on the shelf is taken from there, and its tickets with it. -/
theorem tickets_takeShelf {r : Run V J} (hr : m.store.shelf = some r) :
    ∃ rest, m.tickets = ticketsOf r.party r.body.held + rest ∧
      ∀ frames, (m.clearShelf.spawnThread frames).tickets = Frame.ticketsAll frames + rest := by
  refine ⟨m.store.staged + m.frameSum fun _ f => f.tickets, ?_, fun frames => ?_⟩
  · rw [tickets, Store.tickets, Store.shelved, hr, add_right_comm, add_comm]
  · have hcleared : (m.clearShelf.spawnThread frames).store.tickets = m.store.staged := add_zero _
    rw [tickets, frameSum_spawnThread, ← add_assoc, add_comm, hcleared]
    rfl

theorem Booked.initial (n : Nat) : (withCells n : Machine V J).Booked := by
  have hnone : (withCells n : Machine V J).tickets = 0 := rfl
  rw [Booked, hnone]
  exact ⟨fun _ _ _ h => absurd h (Multiset.notMem_zero _), fun _ _ _ h => absurd h (Multiset.notMem_zero _),
    Multiset.nodup_zero⟩

/-- Every move keeps the books, if all bodies read only cells that were made. -/
theorem Booked.after (hstart : ∀ job body, start job = .ok body → body.Fresh) (hm : m.Proper) (h : m.Booked)
    {mv : Move V J} (hmv : mv.Fresh) (hknown : ∀ e, m.taken mv = some e → e.Known) :
    (m.after start mv).Booked := by
  cases mv with
  | step i choice =>
    rcases m.after_step start i choice with ⟨heq, -⟩ | ⟨worker, f, rest, hi, -, -, htaken, heq⟩
    · rwa [heq]
    · obtain ⟨others, h1, h2⟩ := frameSum_set (fun _ f => Frame.tickets f) hi
      have hbooks := Frame.keepsBooks_step hstart worker choice (hm.frames i _ hi f (by simp))
        (hknown _ htaken)
      rw [Booked, tickets, h1] at h
      rw [heq, Booked, tickets, h2]
      exact hbooks others h
  | startPool config =>
    rcases m.after_startPool start config with heq | heq
    · rwa [heq]
    · rw [heq, Booked, tickets_addPool]
      exact Store.Registers.of_le h le_rfl (.of_cells_eq rfl)
  | enter body =>
    have hbody : body.Fresh := hmv
    rw [Machine.after, Booked, tickets, frameSum_spawnThread]
    simp only [List.map_cons, List.map_nil, List.sum_cons, List.sum_nil, Frame.tickets, hbody.held_eq,
      ticketsOf_nil, add_zero]
    exact h
  | poll =>
    simp only [Machine.after]
    split
    · rename_i r hr
      obtain ⟨others, h1, h2⟩ := tickets_takeShelf hr
      rw [Booked, h1] at h
      rw [Booked, h2, Frame.ticketsAll_cons, Frame.ticketsAll_nil, add_zero]
      exact h.of_le le_rfl (.of_cells_eq rfl)
    · exact h
  | discard =>
    simp only [Machine.after]
    split
    · rename_i r hr
      obtain ⟨others, h1, h2⟩ := tickets_takeShelf hr
      rw [Booked, h1] at h
      rw [Booked, h2, Frame.ticketsAll_dropPending]
      exact h.giveUp.of_le le_rfl (.of_cells_eq rfl)
    · exact h

end Machine
end Dataflow
