import Dataflow.Proofs.Families

/-!
# A family that shares a sum

At any moment the tasks of the family of a task that sums a share follow a division, which is sound (`Machine.Family`). A
step of somebody else changes nothing of theirs (`Family.passed`), a step of one of them takes it to its next phase
(`Family.turned`), and a spawn call brings another task with one half (`Family.joined`). Whoever has written its sum
tells those that await it before it goes on, so when all have come to rest nobody awaits a sum that has been written,
and by induction on the length of the ranges all have been (`Family.ended`).
-/

namespace Dataflow

open Share

namespace Machine

/-- The tasks that sum a share, all of one family: what each of them has and how far it has come. -/
structure Family (n : Share) (p : PoolId) (r : TaskId) (P : Division) (tr : List (Taken Datum Job)) (m : Machine Datum Job) :
    Prop where
  sound : P.Sound (tasksFor (n.hi - n.lo)) m.store
  first : P.share r = n
  members : ∀ t, t ∈ P.tasks ↔ Offspring tr p r t
  own : ∀ t ∈ P.tasks, ∀ c ∈ P.claims t, Own tr p r n.out c
  knows : ∀ t ∈ P.tasks, ∃ y, m.store.task? p t = some y ∧ (P.share t).Keeps (P.phase t) y
  frames : ∀ t ∈ P.tasks, m.AllFrames fun _ f => f.OfShare p t (P.share t) (P.phase t)
  /-- Whoever has written a sum tells those that await it, before it goes on. -/
  told : ∀ t ∈ P.tasks, P.phase t = .ends → ∃ i g back, g.Polls p t ∧ m.Telling (P.share t).out i (g :: back)

namespace Family

variable {n : Share} {p : PoolId} {r t : TaskId} {P : Division} {tr : List (Taken Datum Job)} {m : Machine Datum Job}
  {mv : Move Datum Job} {e : Taken Datum Job}

/-- Where nobody takes a step, nothing happens to a family. -/
theorem arrived (hm : m.Orderly) (h : m.Family n p r P tr) (htaken : m.taken mv = none) :
    (m.after Job.start mv).Family n p r P tr := by
  have harrival := arrival_of_not_taken Job.start htaken
  have hcells := cells_after_of_not_taken Job.start htaken
  refine ⟨h.sound.mono (by rw [hcells]) fun _ _ c _ => ?_, h.first, h.members, h.own, fun t ht => ?_, fun t ht => ?_, fun t ht hends => ?_⟩
  · rw [Store.cell, hcells, Store.cell]
  · rw [harrival.task?]
    exact h.knows t ht
  · refine harrival.allFrames (hm.scheduled.framed.after mv) (h.frames t ht) (fun _ => trivial)
      (fun f hf => hf.ofShare p t _ _) fun rr hparty heq => ?_
    rw [hparty] at heq
    cases heq
  · obtain ⟨i, g, back, hpolls, htelling⟩ := h.told t ht hends
    exact ⟨i, g, back, hpolls, htelling.after Job.fresh_start hm.scheduled hm.proper mv⟩

section taken

variable (hm : m.Orderly) (hp : m.store.Running p) (hpeople : m.Peopled tr) (h : m.Family n p r P tr)
  (htaken : m.taken mv = some e)

include hm hpeople h htaken in
/-- The family stays as it is, unless one of it makes a task. -/
theorem mem_iff (hspawns : ∀ t ∈ P.tasks, e.frame.Polls p t → ∀ u job, ¬ e.Spawns p u job) (t : TaskId) :
    t ∈ P.tasks ↔ Offspring (tr ++ [e]) p r t := by
  constructor
  · exact fun ht => ((h.members t).1 ht).mono (List.subset_append_left ..)
  · intro ht
    have hoff : Offspring (tr ++ (m.taken mv).toList) p r t := by rwa [htaken]
    rcases hpeople.offspring_concat hm.scheduled hoff with hold | ⟨e', u, job, htaken', hu, hpolls, hnew⟩
    · exact (h.members t).2 hold
    · rw [htaken] at htaken'
      cases htaken'
      exact absurd hnew (hspawns u ((h.members u).2 hu) hpolls t job)

include hm h in
theorem telling (mv : Move Datum Job) (ht : t ∈ P.tasks) (hends : P.phase t = .ends) :
    ∃ i g back, g.Polls p t ∧ (m.after Job.start mv).Telling (P.share t).out i (g :: back) := by
  obtain ⟨i, g, back, hpolls, htelling⟩ := h.told t ht hends
  exact ⟨i, g, back, hpolls, htelling.after Job.fresh_start hm.scheduled hm.proper mv⟩

include hm hp hpeople h htaken

/-- A step that leaves all phases as they are, and brings nobody. -/
theorem kept (hcells : ∀ t ∈ P.tasks, ∀ c ∈ P.claims t, ¬ e.Writes c)
    (hframes : ∀ choice, ∀ t ∈ P.tasks, ∀ g ∈ (e.frame.step Job.start e.worker choice m.store).2,
      g.OfShare p t (P.share t) (P.phase t))
    (hspawns : ∀ t ∈ P.tasks, e.frame.Polls p t → ∀ u job, ¬ e.Spawns p u job) :
    (m.after Job.start mv).Family n p r P (tr ++ [e]) := by
  obtain ⟨choice, rest, -, hstore, hi, heq⟩ := after_of_taken Job.start htaken
  refine ⟨h.sound.mono ?_ fun t ht c hc => payload_of_not_writes Job.start htaken (hcells t ht c hc), h.first,
    h.mem_iff hm hpeople htaken hspawns, fun t ht c hc => (h.own t ht c hc).mono (List.subset_append_left ..),
    fun t ht => ?_, fun t ht => ?_, fun t ht hends => h.telling hm mv ht hends⟩
  · rw [heq]
    exact Frame.size_step ..
  · obtain ⟨y, hy, hkeeps⟩ := h.knows t ht
    rw [heq]
    exact ⟨_, Frame.task?_step Job.start e.worker choice e.frame hy,
      hkeeps.alter hp (hm.scheduled.framed.frames _ _ hi _ (List.mem_cons_self ..))
        (h.frames t ht _ _ hi _ (List.mem_cons_self ..))⟩
  · rw [heq]
    exact (h.frames t ht).set hi (hframes choice t ht) _

omit hpeople in
/-- A worker that enters a task finds what is left of its body. -/
theorem ofShare_step (ht : t ∈ P.tasks) (hacts : ¬ e.frame.Acts p t) (choice : Nat) :
    ∀ g ∈ (e.frame.step Job.start e.worker choice m.store).2, g.OfShare p t (P.share t) (P.phase t) := by
  obtain ⟨rest, hi⟩ := thread_of_taken htaken
  have hmem : e.frame ∈ e.frame :: rest := List.mem_cons_self ..
  refine Frame.OfShare.step (h.sound.valid t ht) (hm.scheduled.framed.frames _ _ hi _ hmem) hacts
    (h.frames t ht _ _ hi _ hmem) fun henter => ?_
  obtain ⟨y, hy, hkeeps⟩ := h.knows t ht
  have hk : Hold.claimed ∈ e.frame.holds e.worker p t := by simp [henter, Frame.holds]
  obtain ⟨z, hz, -, hfits⟩ := hm.scheduled.holds_eq hp hi hmem hk
  rw [hy] at hz
  cases hz
  exact ⟨y, hy, hkeeps, hfits.2⟩

/-- A step of somebody else. -/
theorem passed (hacts : ∀ t ∈ P.tasks, ¬ e.frame.Acts p t)
    (halone : ∀ c, e.Writes c → Own tr p r n.out c → ∃ t, Offspring tr p r t ∧ e.frame.Polls p t) :
    (m.after Job.start mv).Family n p r P (tr ++ [e]) := by
  refine h.kept hm hp hpeople htaken (fun t ht c hc hwrites => ?_)
    (fun choice t ht => h.ofShare_step hm hp htaken ht (hacts t ht) choice) fun t ht hpolls u job hspawns => ?_
  · obtain ⟨u, hu, hpolls⟩ := halone c hwrites (h.own t ht c hc)
    exact hacts u ((h.members u).2 hu) (hwrites.acts hpolls)
  · obtain ⟨next, pool, hf, -⟩ := hspawns
    refine hacts t ht ?_
    rw [hf] at hpolls ⊢
    exact hpolls

omit hpeople h in
/-- While a task is polled its record says nothing more. -/
theorem polled (hpolls : e.frame.Polls p t) (n : Share) (ph : Phase) : ∃ y, m.store.task? p t = some y ∧ n.Keeps ph y := by
  obtain ⟨rest, hi⟩ := thread_of_taken htaken
  obtain ⟨y, hy, hpolled, hstage⟩ := hm.scheduled.polled_of_polls hp hi (List.mem_cons_self ..) hpolls
  exact ⟨y, hy, .of_polled hpolled hstage _ _⟩

omit hpeople in
/-- The task that is polled may go to any phase, while the others stay in theirs. -/
theorem knows_turn (hpolls : e.frame.Polls p t) (ph : Phase) :
    ∀ u ∈ P.tasks, ∃ y, m.store.task? p u = some y ∧ (P.share u).Keeps ((P.turn t ph).phase u) y := by
  intro u hu
  rcases eq_or_ne u t with rfl | hut
  · exact polled hm hp htaken hpolls _ _
  · rw [Division.phase_turn_of_ne hut]
    exact h.knows u hu

omit hp hpeople h in
/-- No other frame than the one that takes the step has anything of the task. -/
theorem others (hpolls : e.frame.Polls p t) {rest fs : List (Frame Datum Job)}
    (hi : m.threads[e.thread]? = some ⟨e.worker, e.frame :: rest⟩) {ph : Phase} (hfs : ∀ g ∈ fs, g.OfShare p t n ph)
    (s : Store Datum Job) :
    AllFrames (fun _ f => f.OfShare p t n ph) ⟨s, m.threads.setIfInBounds e.thread ⟨e.worker, fs ++ rest⟩⟩ := by
  obtain ⟨k, -, hholds⟩ := hpolls.holds_eq e.worker
  have hothers := holds_others_eq_zero (hm.scheduled.sound p t) htaken hholds hi s
  have free : ∀ {worker} {f : Frame Datum Job}, f.holds worker p t = 0 → f.OfShare p t n ph := fun hzero =>
    Frame.ofShare_of_not_hasBody (by rw [hzero]; exact fun k hk => absurd hk (Multiset.notMem_zero k)) n ph
  intro j th hj g hg
  rcases thread_of_set hi hj with ⟨rfl, rfl⟩ | ⟨hne, hj⟩
  · rcases List.mem_append.1 hg with hg | hg
    · exact hfs g hg
    · exact free (hothers e.thread _ (getElem?_setIfInBounds_self hi) g hg)
  · exact free (hothers j th (by rw [Array.getElem?_setIfInBounds_ne hne, hj]) g hg)

omit hp in
/-- A step of a body brings nobody. -/
theorem mem_iff_of_run {rr : Run Datum Job} (hf : e.frame = .run rr) (u : TaskId) :
    u ∈ P.tasks ↔ Offspring (tr ++ [e]) p r u := by
  refine h.mem_iff hm hpeople htaken (fun u _ _ v job hspawns => ?_) u
  obtain ⟨next, pool, hf', -⟩ := hspawns
  rw [hf] at hf'
  cases hf'

omit hp hpeople in
/-- A task that has written, now or before, is telling of it. -/
theorem told_turned (hm' : (m.after Job.start mv).Orderly) (ht : t ∈ P.tasks) {key : Option Nat}
    (hf : e.frame = .run ((P.share t).run p t key (P.phase t))) {s' : Store Datum Job}
    (hturn : Turn (P.share t) m.store (P.phase t) s' .ends) :
    ∃ i g back, g.Polls p t ∧ (m.after Job.start mv).Telling (P.share t).out i (g :: back) := by
  generalize hph : P.phase t = ph at hf hturn
  cases hturn with
  | stay => exact h.telling hm mv ht hph
  | write =>
    obtain ⟨choice, rest, -, hstore, hi, heq⟩ := after_of_taken Job.start htaken
    have hempty : (m.store.cell (P.share t).out).payload = .empty :=
      h.sound.blank t ht _ (List.mem_cons_self ..) fun _ => by simp [hph]
    have hlt := h.sound.room t ht _ (List.mem_cons_self ..)
    refine ⟨e.thread, .run ((P.share t).run p t none .ends), rest, rfl, telling_of_fills hm'.booked htaken
      ⟨by rwa [hstore], by rwa [hstore], _, by rw [hf]; rfl⟩ ?_⟩
    rw [heq, stackOf_eq (getElem?_setIfInBounds_self hi), hf, Frame.step, stepRun_writes _ hempty, hstore]
    simp

/-- The body of a task takes a step. -/
theorem turned (hm' : (m.after Job.start mv).Orderly) (ht : t ∈ P.tasks) {rr : Run Datum Job}
    (hf : e.frame = .run rr) (hparty : rr.party = .task p t) :
    ∃ P', (m.after Job.start mv).Family n p r P' (tr ++ [e]) := by
  obtain ⟨choice, rest, -, hstore, hi, heq⟩ := after_of_taken Job.start htaken
  have hmem : e.frame ∈ e.frame :: rest := List.mem_cons_self ..
  have hpolls : e.frame.Polls p t := by rw [hf]; exact hparty
  have hshare := h.frames t ht _ _ hi _ hmem
  have hok := hm.scheduled.framed.frames _ _ hi _ hmem
  rw [hf] at hshare hok
  obtain ⟨key, rfl⟩ := hshare hparty
  obtain ⟨w, hw⟩ : ∃ w, e.worker = some (p, w) := hok
  have hstep : e.frame.step Job.start e.worker choice m.store =
      Frame.stepRun (some (p, w)) m.store ((P.share t).run p t key (P.phase t)) := by rw [hf, hw]; rfl
  obtain ⟨ph, hturn, hfs⟩ := h.sound.exists_turn ht p w key
  have hother : ∀ {u}, u ≠ t → ¬ e.frame.Acts p u := fun hut hacts => hut (hacts.polls.eq hpolls).2
  refine ⟨P.turn t ph, ⟨?_, h.first, fun u => h.mem_iff_of_run hm hpeople htaken hf u, fun u hu c hc => ?_, fun u hu => ?_,
    fun u hu => ?_, fun u hu hends => ?_⟩⟩
  · rw [heq, hstep]
    exact h.sound.turned ht hturn
  · rcases eq_or_ne u t with rfl | hut
    · rw [Division.claims_turn_self] at hc
      have hold : ∀ c ∈ P.claims u, Own (tr ++ [e]) p r n.out c := fun c hc =>
        (h.own u hu c hc).mono (List.subset_append_left ..)
      rcases List.mem_cons.1 hc with rfl | hc
      · exact hold _ (List.mem_cons_self ..)
      · rcases hturn.spare hc with hc | ⟨rfl, hbody⟩
        · exact hold c (List.mem_cons_of_mem _ hc)
        · obtain ⟨next, hnext⟩ := hbody key
          refine .made (((h.members u).1 hu).mono (List.subset_append_left ..)) (by simp) hpolls ⟨.task p u, [], next, ?_, by rw [hstore]⟩
          rw [hf, Share.run, hnext]
    · rw [Division.claims_turn_of_ne hut] at hc
      exact (h.own u hu c hc).mono (List.subset_append_left ..)
  · rw [heq, hstep, Store.task?_eq, Frame.stepRun_pools, ← Store.task?_eq]
    exact h.knows_turn hm hp htaken hpolls ph u hu
  · rw [heq]
    rcases eq_or_ne u t with rfl | hut
    · rw [Division.phase_turn_self, hstep]
      exact others hm htaken hpolls hi hfs _
    · rw [Division.phase_turn_of_ne hut]
      exact (h.frames u hu).set hi (h.ofShare_step hm hp htaken hu (hother hut) choice) _
  · rcases eq_or_ne u t with rfl | hut
    · rw [Division.phase_turn_self] at hends
      subst hends
      exact (h.told_turned hm htaken hm' ht hf hturn :)
    · rw [Division.phase_turn_of_ne hut] at hends
      exact h.telling hm mv hu hends

/-- A spawn call of a task has another step to take. -/
theorem asks {q : PoolId} {job : Job} {phase : SpawnPhase} (phase' : SpawnPhase) {next : Except RuntimeError TaskId → Run Datum Job}
    (hf : e.frame = .spawn q job phase next) (hphase : phase ≠ .number)
    (hstep : ∀ choice, (e.frame.step Job.start e.worker choice m.store).2 = [.spawn q job phase' next]) :
    (m.after Job.start mv).Family n p r P (tr ++ [e]) := by
  obtain ⟨rest, hi⟩ := thread_of_taken htaken
  refine h.kept hm hp hpeople htaken (fun _ _ c _ hwrites => ?_) (fun choice u hu g hg => ?_) fun _ _ _ u job' hspawns => ?_
  · rw [Taken.Writes, hf] at hwrites
    rcases hwrites with ⟨_, hput⟩ | hdestroy
    · cases hput
    · cases hdestroy
  · have hshare := h.frames u hu _ _ hi _ (List.mem_cons_self ..)
    rw [hf] at hshare
    rw [hstep, List.mem_singleton] at hg
    rw [hg]
    exact hshare
  · obtain ⟨next', pool, hf', -⟩ := hspawns
    rw [hf] at hf'
    cases hf'
    exact hphase rfl

/-- A spawn call brings a task, which has one half. -/
theorem joined (ht : t ∈ P.tasks) {child : Share} {ph : Phase} {next : Except RuntimeError TaskId → Run Datum Job}
    (hf : e.frame = .spawn p child.job .number next) (hpolls : e.frame.Polls p t)
    (hhands : (P.share t).Hands (P.phase t) ph child) (hnext : ∀ u, next (.ok u) = (P.share t).run p t none ph) :
    ∃ P', (m.after Job.start mv).Family n p r P' (tr ++ [e]) := by
  obtain ⟨choice, rest, -, hstore, hi, heq⟩ := after_of_taken Job.start htaken
  have ⟨pool, hpool, _⟩ := hp
  have hstep : e.frame.step Job.start e.worker choice m.store =
      (m.store.modifyPool p fun pool => { pool with tasks := pool.tasks.push { stage := .unclaimed child.job } },
        [.count p .activeUp, .count p .liveUp, .task p pool.tasks.size .register, .count p .spawned,
          .task p pool.tasks.size .enqueue, .run (next (.ok pool.tasks.size))]) := by
    rw [hf]
    simp only [Frame.step, Frame.stepSpawn, hpool]
  rw [hstep] at heq
  have hnew : ∀ {u}, u ∈ P.tasks → u ≠ pool.tasks.size := by
    rintro u hu rfl
    obtain ⟨y, hy, -⟩ := h.knows _ hu
    rw [Store.task?_eq, hpool, Option.bind_some, Array.getElem?_size] at hy
    cases hy
  have hnone : m.store.task? p pool.tasks.size = none := by
    rw [Store.task?_eq, hpool, Option.bind_some, Array.getElem?_size]
  have hfs : ∀ (v : TaskId) (n' : Share) (ph' : Phase), (v = t → n' = P.share t ∧ ph' = ph) →
      ∀ g ∈ [(.count p .activeUp : Frame Datum Job), .count p .liveUp, .task p pool.tasks.size .register, .count p .spawned,
        .task p pool.tasks.size .enqueue, .run (next (.ok pool.tasks.size))], g.OfShare p v n' ph' := by
    intro v n' ph' hv g hg
    simp only [List.mem_cons, List.not_mem_nil, or_false] at hg
    rcases hg with rfl | rfl | rfl | rfl | rfl | rfl
    · trivial
    · trivial
    · trivial
    · trivial
    · trivial
    · rw [hnext]
      intro hparty
      obtain ⟨-, rfl⟩ := Party.task.inj hparty
      obtain ⟨rfl, rfl⟩ := hv rfl
      exact ⟨none, rfl⟩
  have hfresh : pool.tasks.size ∉ P.tasks := fun hu => hnew hu rfl
  have hspawns : e.Spawns p pool.tasks.size child.job := ⟨next, pool, hf, hstore ▸ hpool, rfl⟩
  refine ⟨(P.turn t ph).join pool.tasks.size child, ⟨?_, ?_, fun u => ?_, fun u hu c hc => ?_, fun u hu => ?_,
    fun u hu => ?_, fun u hu hends => ?_⟩⟩
  · rw [heq]
    exact (h.sound.joined ht hhands hfresh).mono (Nat.le_refl _) fun _ _ _ _ => rfl
  · rw [Division.share_join_of_ne (hnew ((h.members r).2 .first))]
    exact h.first
  · constructor
    · intro hu
      rcases Finset.mem_insert.1 hu with rfl | hu
      · exact (((h.members t).1 ht).mono (List.subset_append_left ..)).spawned (by simp) hpolls hspawns
      · exact ((h.members u).1 hu).mono (List.subset_append_left ..)
    · intro hoff
      have hoff' : Offspring (tr ++ (m.taken mv).toList) p r u := by rwa [htaken]
      rcases hpeople.offspring_concat hm.scheduled hoff' with hold | ⟨e', v, job, htaken', -, -, hspawns'⟩
      · exact Finset.mem_insert_of_mem ((h.members u).2 hold)
      · rw [htaken] at htaken'
        cases htaken'
        obtain ⟨next', pool', -, hpool', rfl⟩ := hspawns'
        rw [hstore, hpool] at hpool'
        cases hpool'
        exact Finset.mem_insert_self ..
  · have hold : ∀ v ∈ P.tasks, ∀ c ∈ P.claims v, Own (tr ++ [e]) p r n.out c := fun v hv c hc =>
      (h.own v hv c hc).mono (List.subset_append_left ..)
    rcases Finset.mem_insert.1 hu with rfl | hu
    · rw [Division.claims_join_self, List.mem_singleton] at hc
      exact hc ▸ hold t ht _ (h.sound.given ht hhands).1
    · rw [Division.claims_join_of_ne (hnew hu)] at hc
      exact hold u hu c ((h.sound.claims_handed ht hhands hu).1.subset hc)
  · rw [heq]
    rcases Finset.mem_insert.1 hu with rfl | hu
    · rw [Division.share_join_self, Division.phase_join_self]
      refine ⟨{ stage := .unclaimed child.job }, ?_, .of_unclaimed rfl rfl⟩
      rw [Store.task?_eq, Store.pools_modifyPool, if_pos rfl, hpool]
      exact Array.getElem?_push_size
    · rw [Division.share_join_of_ne (hnew hu), Division.phase_join_of_ne (hnew hu)]
      obtain ⟨y, hy, hkeeps⟩ := h.knows_turn hm hp htaken hpolls ph u hu
      have hy' := Frame.task?_step Job.start e.worker choice e.frame hy
      rw [hstep, hf] at hy'
      exact ⟨y, hy', hkeeps⟩
  · rw [heq]
    rcases Finset.mem_insert.1 hu with rfl | hu
    · rw [Division.share_join_self, Division.phase_join_self]
      refine (allFrames_ofShare ?_ child _).set hi (hfs _ _ _ fun hut => absurd hut.symm (hnew ht)) _
      rw [(hm.scheduled.sound p _).made hnone]
      exact fun k hk => absurd hk (Multiset.notMem_zero k)
    · rw [Division.share_join_of_ne (hnew hu), Division.phase_join_of_ne (hnew hu)]
      rcases eq_or_ne u t with rfl | hut
      · rw [Division.phase_turn_self]
        exact others hm htaken hpolls hi (hfs _ _ _ fun _ => ⟨rfl, rfl⟩) _
      · rw [Division.phase_turn_of_ne hut]
        exact (h.frames u hu).set hi (hfs _ _ _ fun heq => absurd heq hut) _
  · rcases Finset.mem_insert.1 hu with rfl | hu
    · rw [Division.phase_join_self] at hends
      exact absurd hends child.entry_ne_ends
    · rw [Division.phase_join_of_ne (hnew hu), Division.Sound.phase_handed hhands] at hends
      rw [Division.share_join_of_ne (hnew hu)]
      exact h.telling hm mv hu hends

/-- A spawn call of a task goes on. -/
theorem asked (hroom : ∃ pool, m.store.pools[p]? = some pool ∧ pool.config.maxQueueSize = 0) (ht : t ∈ P.tasks)
    {q : PoolId} {job : Job} {phase : SpawnPhase} {next : Except RuntimeError TaskId → Run Datum Job}
    (hf : e.frame = .spawn q job phase next) (hparty : (next (.error .poolShutDown)).party = .task p t) :
    ∃ P', (m.after Job.start mv).Family n p r P' (tr ++ [e]) := by
  obtain ⟨rest, hi⟩ := thread_of_taken htaken
  have hshare := h.frames t ht _ _ hi _ (List.mem_cons_self ..)
  rw [hf] at hshare
  obtain ⟨rfl, ph, child, hhands, rfl, hnext⟩ := hshare hparty
  obtain ⟨pool, hpool, hbound⟩ := hroom
  cases phase with
  | check =>
    have hrunning := (m.store.running_iff _).1 hp
    exact ⟨P, h.asks hm hp hpeople htaken .reserve hf (by simp) fun _ => by
      simp only [hf, Frame.step, Frame.stepSpawn, hrunning, if_true]⟩
  | reserve =>
    exact ⟨P, h.asks hm hp hpeople htaken .number hf (by simp) fun _ => by
      simp [hf, Frame.step, Frame.stepSpawn, hpool, hbound]⟩
  | number => exact h.joined hm hp hpeople htaken ht hf (by rw [hf]; exact hparty) hhands hnext

end taken

/-- Every move keeps the family together. -/
theorem after (hm : m.Orderly) (hm' : (m.after Job.start mv).Orderly) (hp : m.store.Running p)
    (hroom : ∃ pool, m.store.pools[p]? = some pool ∧ pool.config.maxQueueSize = 0) (hpeople : m.Peopled tr)
    (h : m.Family n p r P tr) (halone : ∀ e, m.taken mv = some e → ∀ c, e.Writes c → Own tr p r n.out c →
      ∃ t, Offspring tr p r t ∧ e.frame.Polls p t) :
    ∃ P', (m.after Job.start mv).Family n p r P' (tr ++ (m.taken mv).toList) := by
  cases htaken : m.taken mv with
  | none => exact ⟨P, by simpa using h.arrived hm htaken⟩
  | some e =>
    by_cases hacts : ∃ t ∈ P.tasks, e.frame.Acts p t
    · obtain ⟨t, ht, hacts⟩ := hacts
      cases hf : e.frame with
      | run rr =>
        rw [hf] at hacts
        exact h.turned hm hp hpeople htaken hm' ht hf hacts
      | spawn q job phase next =>
        rw [hf] at hacts
        exact h.asked hm hp hpeople htaken hroom ht hf hacts
      | blocked c timed next =>
        obtain ⟨rest, hi⟩ := thread_of_taken htaken
        have hshare := h.frames t ht _ _ hi _ (List.mem_cons_self ..)
        rw [hf] at hacts hshare
        exact absurd hacts hshare
      | _ =>
        rw [hf] at hacts
        exact hacts.elim
    · exact ⟨P, h.passed hm hp hpeople htaken (fun t ht hacts' => hacts ⟨t, ht, hacts'⟩) (halone e htaken)⟩

/-- All along a run the family is together. -/
theorem run (hm : m.Orderly) (hroom : ∃ pool, m.store.pools[p]? = some pool ∧ pool.config.maxQueueSize = 0)
    (h : m.Family n p r P []) {mvs : List (Move Datum Job)} (hfresh : ∀ mv ∈ mvs, mv.Fresh)
    (hknown : ∀ e ∈ m.trace Job.start mvs, e.Known) (hp : (m.run Job.start mvs).store.Running p)
    (halone : ∀ tr e tr', m.trace Job.start mvs = tr ++ e :: tr' → ∀ c, e.Writes c → Own tr p r n.out c →
      ∃ t, Offspring tr p r t ∧ e.frame.Polls p t) :
    ∃ P', (m.run Job.start mvs).Family n p r P' (m.trace Job.start mvs) := by
  have hall := @trace_induction_of_mem _ _ Job.start (fun m' tr => m'.Orderly ∧ m'.Peopled tr ∧
    (∃ pool, m'.store.pools[p]? = some pool ∧ pool.config.maxQueueSize = 0) ∧
    (m'.store.Running p → ∃ P', m'.Family n p r P' tr)) m mvs ?_ ⟨hm, .nil, hroom, fun _ => ⟨P, h⟩⟩
  · exact hall.2.2.2 hp
  · intro m' tr mv hmv hpre ⟨hm, hpeople, ⟨pool, hpool, hbound⟩, hfamily⟩
    have hkeeps := m'.after_keeps Job.start mv
    have hm' := hm.after Job.fresh_start (hfresh mv hmv) fun e he => hknown e (mem_of_taken he hpre)
    refine ⟨hm', hpeople.after hm.scheduled mv, ?_, fun hp' => ?_⟩
    · obtain ⟨pool', hpool', -, hconfig, -⟩ := hkeeps p pool hpool
      exact ⟨pool', hpool', by rw [hconfig, hbound]⟩
    · -- a pool that is open now was open before
      have hp := hp'.of_keeps hkeeps (Array.getElem?_eq_some_iff.1 hpool).1
      obtain ⟨P', hP⟩ := hfamily hp
      refine hP.after hm hm' hp ⟨pool, hpool, hbound⟩ hpeople fun e htaken => ?_
      obtain ⟨tr', htr⟩ := hpre
      rw [htaken, List.append_assoc] at htr
      exact halone tr e tr' htr.symm

/-- A task that nobody has claimed yet is a family of one. -/
theorem single (hm : m.Scheduled) (hp : m.store.Running p) (hvalid : n.Valid)
    (hy : ∃ y, m.store.task? p r = some y ∧ y.stage = .unclaimed n.job) (hlt : n.out < m.store.cells.size)
    (hempty : (m.store.cell n.out).payload = .empty) : m.Family n p r (.single r n) [] := by
  obtain ⟨y, hy, hstage⟩ := hy
  have hexact := hm.exact p r hp
  rw [hy] at hexact
  have hheld : ∃ k, m.holds p r = {k} ∧ k.Fits y := by
    rcases hexact with ⟨-, ⟨-, hstarted⟩ | ⟨-, hconsumed⟩⟩ | hheld
    · rw [hstage] at hstarted
      exact hstarted.elim
    · rw [hstage] at hconsumed
      cases hconsumed
    · exact hheld
  obtain ⟨k, hholds, hfits⟩ := hheld
  have hbody : ¬ k.HasBody := fun hbody => by
    have hconsumed := ((hbody.fits_iff y).1 hfits).2
    rw [hstage] at hconsumed
    cases hconsumed
  refine ⟨.single hvalid hlt hempty r, rfl, fun t => ?_, fun t _ c hc => ?_, fun t ht => ?_, fun t ht => ?_,
    fun t _ hends => absurd hends n.entry_ne_ends⟩
  · constructor
    · intro ht
      rw [Finset.mem_singleton.1 ht]
      exact .first
    · intro ht
      cases ht with
      | first => exact Finset.mem_singleton_self r
      | spawned _ he => cases he
  · rw [Division.claims, Division.single, spare_entry, List.mem_singleton] at hc
    rw [hc]
    exact .out
  · obtain rfl := Finset.mem_singleton.1 ht
    refine ⟨y, hy, .of_unclaimed hstage ?_⟩
    rcases hfits.state with hstate | hstate | hstate <;> rw [hstate] <;> rfl
  · obtain rfl := Finset.mem_singleton.1 ht
    refine allFrames_ofShare (fun k' hk' => ?_) _ _
    rw [hholds, Multiset.mem_singleton] at hk'
    exact hk' ▸ hbody

/-- There are no more of them than it takes. -/
theorem card_le (h : m.Family n p r P tr) : P.tasks.card ≤ tasksFor (n.hi - n.lo) := by
  rw [← h.sound.total, Finset.card_eq_sum_ones]
  exact Finset.sum_le_sum fun t _ => Nat.le_add_left ..

section rest

variable (hm : m.Orderly) (hp : m.store.Running p) (h : m.Family n p r P tr)
  (hrest : ∀ t ∈ P.tasks, ∀ y, m.store.task? p t = some y → y.state = .suspended ∨ y.state.isTerminal = true)

include hm hp h hrest

/-- Once all have come to rest nobody awaits a sum that has been written. -/
theorem not_awaits (ht : t ∈ P.tasks) (hends : P.phase t = .ends) (u : TaskId) : ¬ m.Awaits (P.share t).out p u := by
  obtain ⟨i, g, back, hpolls, -, ⟨above, hstack, -⟩ | hnone⟩ := h.told t ht hends
  · have hmem : g ∈ m.stackOf i := by simp [hstack]
    obtain ⟨th, hth, heq⟩ := exists_of_stackOf_ne_nil (List.ne_nil_of_mem hmem)
    rw [heq] at hmem
    obtain ⟨y, hy, hpolled, -⟩ := hm.scheduled.polled_of_polls hp hth hmem hpolls
    exact absurd (hrest t ht y hy) hpolled.not_rested
  · exact hnone p u

/-- And by then all have ended, those with the shortest shares first. -/
theorem ended (ht : t ∈ P.tasks) : P.phase t = .ends ∧ ∃ y, m.store.task? p t = some y ∧ y.state = .completed := by
  induction hk : (P.share t).hi - (P.share t).lo using Nat.strong_induction_on generalizing t with
  | _ k ih =>
    obtain ⟨y, hy, hkeeps⟩ := h.knows t ht
    rcases hrest t ht y hy with hsuspended | hend
    · exfalso
      have hexact := hm.scheduled.exact p t hp
      rw [hy] at hexact
      have hstarted : y.stage.IsStarted := by
        rcases hexact with ⟨-, ⟨-, hstarted⟩ | ⟨hend, -⟩⟩ | ⟨k, -, hfits⟩
        · exact hstarted
        · rw [hsuspended] at hend
          cases hend
        · rcases hfits.state with hstate | hstate | hstate <;> rw [hsuspended] at hstate <;> cases hstate
      cases hstage : y.stage with
      | started guards body =>
        obtain ⟨-, hawaits, key, hbody⟩ := hkeeps.started guards body hstage
        have waits : ∀ c, (c, key) ∈ ((P.share t).body (some key) (P.phase t)).held → m.Awaits c p t := fun c hc =>
          ⟨y, hy, .inl ⟨hsuspended, key, by rw [hstage, Stage.held, hbody]; exact hc⟩⟩
        have half : ∀ {u : TaskId}, u ∈ P.tasks → (P.share u).hi - (P.share u).lo < k → ¬ m.Awaits (P.share u).out p t :=
          fun hu hless => h.not_awaits hm hp hrest hu (ih _ hless hu rfl).1 t
        cases hph : P.phase t with
        | both l r' =>
          obtain ⟨u, hu, hul⟩ := h.sound.left t ht l (by rw [hph]; rfl)
          have hless := left_lt l (h.sound.long t ht (by rw [hph]; trivial))
          rw [← hul, hk] at hless
          refine half hu hless (waits _ ?_)
          rw [hph, hul]
          exact List.mem_singleton_self _
        | half l r' =>
          obtain ⟨u, hu, hur⟩ := h.sound.right t ht r' (by rw [hph]; rfl)
          have hless := right_lt r' (h.sound.long t ht (by rw [hph]; trivial))
          rw [← hur, hk] at hless
          refine half hu hless (waits _ ?_)
          rw [hph, hur]
          exact List.mem_singleton_self _
        | _ =>
          rw [hph] at hawaits
          exact hawaits rfl
      | _ => rw [hstage] at hstarted; exact hstarted.elim
    · obtain ⟨hstate, hends⟩ := hkeeps.ended hend
      exact ⟨hends, y, hy, hstate⟩

end rest

end Family

end Machine
end Dataflow
