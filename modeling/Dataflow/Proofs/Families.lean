import Dataflow.Proofs.Alterations
import Dataflow.Proofs.Divisions
import Dataflow.Proofs.Standing

/-!
# Families of tasks

A task and all that it spawns, directly or through others, are a family (`Offspring`), and the cells that they make are
their own (`Own`). Nobody joins a family but by a spawn call of one that belongs to it
(`Machine.Peopled.offspring_concat`).

Of the family of a task that sums a share every task has a share of its own. What is known of such a task is said of its
record (`Share.Keeps`) and of the frames of its poll (`Frame.OfShare`), and no step but that of its own body touches
either (`Share.Keeps.alter`, `Frame.OfShare.step`).
-/

namespace Dataflow

variable {V J : Type}

namespace Frame

/-- The party whose poll the frame is part of. -/
def party? : Frame V J → Option Party
  | .run r | .pause r => some r.party
  | .ended party _ => some party
  | .blocked _ _ next => some (next (.ok none)).party
  | .spawn _ _ _ next => some (next (.error .poolShutDown)).party
  | _ => none

theorem polls_iff {f : Frame V J} {p : PoolId} {t : TaskId} : f.Polls p t ↔ f.party? = some (.task p t) := by
  cases f <;> simp [Polls, party?]

instance (f : Frame V J) (p : PoolId) (t : TaskId) : Decidable (f.Polls p t) := decidable_of_iff _ polls_iff.symm

/-- A frame is part of a poll of one task. -/
theorem Polls.eq {p q : PoolId} {t u : TaskId} {f : Frame V J} (h : f.Polls p t) (h' : f.Polls q u) : p = q ∧ t = u := by
  have hparty := (polls_iff.1 h).symm.trans (polls_iff.1 h')
  exact Party.task.inj (Option.some.inj hparty)

/-- The frame belongs to the body of the task, which acts now or is answered. -/
def Acts (p : PoolId) (t : TaskId) : Frame V J → Prop
  | .run r => r.party = .task p t
  | .blocked _ _ next => (next (.ok none)).party = .task p t
  | .spawn _ _ _ next => (next (.error .poolShutDown)).party = .task p t
  | _ => False

theorem Acts.polls {p : PoolId} {t : TaskId} {f : Frame V J} (h : f.Acts p t) : f.Polls p t := by
  cases f <;> first | exact h | exact h.elim

end Frame

namespace Taken

variable {e : Taken V J} {c : CellId}

/-- The step of a body makes the cell. -/
def Makes (e : Taken V J) (c : CellId) : Prop :=
  ∃ party guards next, e.frame = .run ⟨party, guards, .newCell next⟩ ∧ e.store.cells.size = c

/-- The step puts into the cell, or destroys it. -/
def Writes (e : Taken V J) (c : CellId) : Prop := (∃ v, e.frame.put? = some (c, v)) ∨ e.frame.destroy? = some c

/-- If it is one of a poll, then of the body itself. -/
theorem Writes.acts (h : e.Writes c) {p : PoolId} {t : TaskId} (hpolls : e.frame.Polls p t) : e.frame.Acts p t := by
  obtain ⟨thread, worker, frame, store⟩ := e
  cases frame with
  | run | blocked | spawn => exact hpolls
  | pause | ended => rcases h with ⟨_, h⟩ | h <;> cases h
  | _ => exact hpolls.elim

end Taken

/-- The first task, and all that a task of these has spawned on its pool. -/
inductive Offspring (tr : List (Taken V J)) (p : PoolId) (first : TaskId) : TaskId → Prop where
  | first : Offspring tr p first first
  | spawned {t u e job} (ht : Offspring tr p first t) (he : e ∈ tr) (hpolls : e.frame.Polls p t)
    (hspawns : e.Spawns p u job) : Offspring tr p first u

/-- The cell that the first task was given, and all that they have made. -/
inductive Own (tr : List (Taken V J)) (p : PoolId) (first : TaskId) (out : CellId) : CellId → Prop where
  | out : Own tr p first out out
  | made {t e c} (ht : Offspring tr p first t) (he : e ∈ tr) (hpolls : e.frame.Polls p t) (hmakes : e.Makes c) :
    Own tr p first out c

section mono

variable {tr tr' : List (Taken V J)} {p : PoolId} {r t : TaskId} {out c : CellId}

theorem Offspring.mono (h : Offspring tr p r t) (htr : tr ⊆ tr') : Offspring tr' p r t := by
  induction h with
  | first => exact .first
  | spawned _ he hpolls hspawns ih => exact ih.spawned (htr he) hpolls hspawns

theorem Own.mono (h : Own tr p r out c) (htr : tr ⊆ tr') : Own tr' p r out c := by
  cases h with
  | out => exact .out
  | made ht he hpolls hmakes => exact .made (ht.mono htr) (htr he) hpolls hmakes

end mono

namespace Machine

variable {start : J → Except RuntimeError (Body V J)} {m : Machine V J} {p : PoolId} {t u : TaskId} {mv : Move V J}
  {tr : List (Taken V J)} {r : TaskId} {e : Taken V J}

theorem cells_after_of_not_taken (start : J → Except RuntimeError (Body V J)) (h : m.taken mv = none) :
    (m.after start mv).store.cells = m.store.cells := by
  cases mv with
  | step i choice =>
    rcases m.after_step start i choice with ⟨heq, -⟩ | ⟨_, _, _, -, -, -, htaken, -⟩
    · rw [heq]
    · rw [htaken] at h
      cases h
  | startPool config =>
    rcases m.after_startPool start config with heq | heq
    · rw [heq]
    · rw [heq]
      rfl
  | enter body => rfl
  | poll | discard => simp only [after]; split <;> rfl

/-- What is in a cell stays there, if nobody writes. -/
theorem payload_of_not_writes (start : J → Except RuntimeError (Body V J)) (htaken : m.taken mv = some e) {c : CellId}
    (h : ¬ e.Writes c) :
    ((m.after start mv).store.cell c).payload = (m.store.cell c).payload := by
  rcases m.payload_after start mv c with heq | ⟨i, worker, f, htaken', heq | ⟨v, hput, -⟩ | ⟨hdestroy, -⟩⟩
  · exact heq
  · exact heq
  · rw [htaken] at htaken'
    cases htaken'
    exact absurd (.inl ⟨v, hput⟩) h
  · rw [htaken] at htaken'
    cases htaken'
    exact absurd (.inr hdestroy) h

/-- A task that is there stays there. -/
theorem exists_task?_after (start : J → Except RuntimeError (Body V J)) (m : Machine V J) (mv : Move V J)
    (h : ∃ y, m.store.task? p t = some y) : ∃ y, (m.after start mv).store.task? p t = some y := by
  obtain ⟨y, hy⟩ := h
  cases htaken : m.taken mv with
  | none => exact ⟨y, ((arrival_of_not_taken start htaken).task? p t).trans hy⟩
  | some e =>
    obtain ⟨choice, rest, -, -, -, heq⟩ := after_of_taken start htaken
    rw [heq]
    exact ⟨_, Frame.task?_step start e.worker choice e.frame hy⟩

/-- Whoever is polled is there. -/
theorem exists_task?_of_polls (hm : m.Scheduled) (htaken : m.taken mv = some e) (hpolls : e.frame.Polls p t) :
    ∃ y, m.store.task? p t = some y := by
  obtain ⟨k, -, hholds⟩ := hpolls.holds_eq e.worker
  refine Option.ne_none_iff_exists'.1 fun hnone => ?_
  have hle := holds_le_of_taken (p := p) (t := t) htaken
  rw [(hm.sound p t).made hnone, hholds, Multiset.le_zero] at hle
  exact Multiset.singleton_ne_zero k hle

/-- The tasks that have been polled or made by these steps are there. -/
structure Peopled (tr : List (Taken V J)) (m : Machine V J) : Prop where
  polled : ∀ e ∈ tr, ∀ p t, e.frame.Polls p t → ∃ y, m.store.task? p t = some y
  made : ∀ e ∈ tr, ∀ p t job, e.Spawns p t job → ∃ y, m.store.task? p t = some y

theorem Peopled.nil : m.Peopled [] := by
  constructor <;> intro e he <;> cases he

theorem Peopled.after (hm : m.Scheduled) (h : m.Peopled tr) (mv : Move V J) :
    (m.after start mv).Peopled (tr ++ (m.taken mv).toList) := by
  refine ⟨fun e he p t hpolls => ?_, fun e he p t job hspawns => ?_⟩
  · rcases List.mem_append.1 he with he | he
    · exact exists_task?_after start m mv (h.polled e he p t hpolls)
    · exact exists_task?_after start m mv (exists_task?_of_polls hm (by simpa using he) hpolls)
  · rcases List.mem_append.1 he with he | he
    · exact exists_task?_after start m mv (h.made e he p t job hspawns)
    · obtain ⟨next, pool, hf, hpool, rfl⟩ := hspawns
      have htaken : m.taken mv = some e := by simpa using he
      obtain ⟨choice, rest, -, hstore, -, heq⟩ := after_of_taken start htaken
      rw [hstore] at hpool
      rw [heq, hf]
      simp [Frame.step, Frame.stepSpawn, hpool, Store.task?_eq, Store.pools_modifyPool]

/-- The next step adds those to the family that it spawns for one of them. -/
theorem Peopled.offspring_concat (hm : m.Scheduled) (h : m.Peopled tr)
    (hoff : Offspring (tr ++ (m.taken mv).toList) p r u) :
    Offspring tr p r u ∨ ∃ e t job, m.taken mv = some e ∧ Offspring tr p r t ∧ e.frame.Polls p t ∧ e.Spawns p u job := by
  induction hoff with
  | first => exact .inl .first
  | @spawned t u e job ht he hpolls hspawns ih =>
    have hold : (∃ y, m.store.task? p t = some y) → Offspring tr p r t := by
      rintro ⟨y, hy⟩
      rcases ih with ih | ⟨e', t', job', htaken, -, -, hspawns'⟩
      · exact ih
      · obtain ⟨-, -, -, hstore, -⟩ := after_of_taken (fun _ => .error .poolShutDown) htaken
        have hnone := hspawns'.task?_eq_none
        rw [hstore, hy] at hnone
        cases hnone
    rcases List.mem_append.1 he with he | he
    · exact .inl ((hold (h.polled e he p t hpolls)).spawned he hpolls hspawns)
    · have htaken : m.taken mv = some e := by simpa using he
      exact .inr ⟨e, t, job, htaken, hold (exists_task?_of_polls hm htaken hpolls), hpolls, hspawns⟩

/-- Who is held by the frame that takes a step is held by no other. -/
theorem holds_others_eq_zero (hs : Sound (m.store.task? p t) (m.holds p t)) (h : m.taken mv = some e)
    {k : Hold V J} (hk : e.frame.holds e.worker p t = {k}) {rest : List (Frame V J)}
    (hi : m.threads[e.thread]? = some ⟨e.worker, e.frame :: rest⟩) (s : Store V J) :
    AllFrames (fun worker g => g.holds worker p t = 0) ⟨s, m.threads.setIfInBounds e.thread ⟨e.worker, rest⟩⟩ := by
  obtain ⟨others, hbefore, hafter⟩ := holds_set hi p t
  have hnothing : m.store.holds p t + others = 0 := by
    rw [holds_eq_of_taken hs h hk, hk, add_right_comm] at hbefore
    exact left_eq_add.1 (hbefore.trans (add_comm _ _))
  have hzero : Machine.holds ⟨m.store, m.threads.setIfInBounds e.thread ⟨e.worker, rest⟩⟩ p t = 0 := by
    simpa [hnothing] using hafter m.store []
  intro j th hj g hg
  refine Multiset.eq_zero_of_forall_notMem fun k' hk' => ?_
  have hmem : k' ∈ Machine.holds ⟨m.store, m.threads.setIfInBounds e.thread ⟨e.worker, rest⟩⟩ p t :=
    mem_holds_of_mem (m := ⟨m.store, _⟩) hj hg hk'
  rw [hzero] at hmem
  exact absurd hmem (Multiset.notMem_zero k')

end Machine

/-! ### A task of a division -/

open Share

/-- What is known of the task of a share in this phase. -/
structure Share.Keeps (n : Share) (ph : Phase) (y : Task Datum Job) : Prop where
  unclaimed : ∀ job, y.stage = .unclaimed job → job = n.job ∧ ph = n.entry
  started : ∀ guards body, y.stage = .started guards body →
    guards = [] ∧ ph.awaited? ≠ none ∧ ∃ key, body = n.body (some key) ph
  /-- Nothing goes wrong with it, and when it has ended it has written. -/
  ended : y.state.isTerminal = true → y.state = .completed ∧ ph = .ends

section keeps

variable {n : Share} {ph : Phase} {p : PoolId} {t : TaskId} {s : Store Datum Job} {f : Frame Datum Job}
  {y : Task Datum Job} {worker : Option (PoolId × Nat)} {choice : Nat}

/-- A task that nobody has claimed has still to begin. -/
theorem Share.Keeps.of_unclaimed (hstage : y.stage = .unclaimed n.job)
    (hstate : y.state.isTerminal = false) : n.Keeps n.entry y := by
  refine ⟨fun job hjob => ?_, fun guards body hbody => ?_, fun hend => ?_⟩
  · rw [hstage] at hjob
    cases hjob
    exact ⟨rfl, rfl⟩
  · rw [hstage] at hbody
    cases hbody
  · rw [hstate] at hend
    cases hend

/-- While its body acts there is nothing else to know. -/
theorem Share.Keeps.of_polled (h : y.IsPolled) (hstage : y.stage = .consumed) (n : Share) (ph : Phase) : n.Keeps ph y := by
  refine ⟨fun job hjob => ?_, fun guards body hbody => ?_, fun hend => ?_⟩
  · rw [hstage] at hjob
    cases hjob
  · rw [hstage] at hbody
    cases hbody
  · rcases h with h | h <;> rw [h] at hend <;> cases hend

theorem Share.Keeps.of_state {state : TaskState} (h : n.Keeps ph y) (hstate : state.isTerminal = false) :
    n.Keeps ph { y with state } :=
  ⟨h.unclaimed, h.started, fun hend => by rw [hstate] at hend; cases hend⟩

theorem Share.Keeps.consumed (h : n.Keeps ph y) : n.Keeps ph { y with stage := .consumed } :=
  ⟨fun _ hjob => (by cases hjob), fun _ _ hbody => (by cases hbody), h.ended⟩

/-- What a frame makes of the task agrees with its phase. -/
theorem Share.Keeps.alter (h : n.Keeps ph y) (hp : s.Running p) (hf : f.Ok worker s) (hshare : f.OfShare p t n ph) :
    n.Keeps ph (f.alter p t y) := by
  cases f with
  | pause r =>
    simp only [Frame.alter]
    split
    · rename_i hparty
      obtain ⟨key, rfl, hawaits⟩ := hshare hparty
      refine ⟨fun _ hjob => (by cases hjob), fun _ _ hbody => ?_, h.ended⟩
      cases hbody
      exact ⟨rfl, hawaits, key, rfl⟩
    · exact h
  | exchange q u seen target =>
    have hseen : seen.wakeTarget? = some target := hf
    simp only [Frame.alter]
    split
    · refine h.of_state ?_
      cases seen <;> cases hseen <;> rfl
    · exact h
  | task q u phase =>
    simp only [Frame.alter]
    split
    · rename_i hq
      obtain ⟨rfl, rfl⟩ := hq
      cases phase with
      | claim | park =>
        simp only [TaskPhase.alter]
        split
        · exact h.of_state rfl
        · exact h
      | enter | discard => exact h.consumed
      | settle outcome =>
        obtain ⟨rfl, rfl⟩ := hshare rfl rfl
        exact ⟨h.unclaimed, h.started, fun _ => ⟨rfl, rfl⟩⟩
      | requeue => exact h.of_state rfl
      | abandon => exact absurd hp (Store.Closed.not_running hf)
      | unregister | register => exact ⟨h.unclaimed, h.started, h.ended⟩
      | begin | tally | enqueue => exact h
    · exact h
  | shutdown q phase =>
    cases phase with
    | collect =>
      simp only [Frame.alter]
      split
      · exact ⟨h.unclaimed, h.started, h.ended⟩
      · exact h
    | _ => exact h
  | _ => exact h

/-- When the task is entered its body comes, as far as it is. -/
theorem ofShare_enter (worker : Option (PoolId × Nat)) (hvalid : n.Valid) (hy : s.task? p t = some y)
    (h : n.Keeps ph y) (hstage : y.stage ≠ .consumed) :
    ∀ g ∈ (Frame.stepTask Job.start worker s p t .enter).2, g.OfShare p t n ph := by
  simp only [Frame.stepTask, hy]
  cases hstage' : y.stage with
  | unclaimed job =>
    obtain ⟨rfl, rfl⟩ := h.unclaimed job hstage'
    have hstart : Job.start n.job = .ok (n.body none n.entry) := start_job hvalid
    simp only [hstart, List.mem_singleton, forall_eq]
    exact fun _ => ⟨none, rfl⟩
  | started guards body =>
    obtain ⟨rfl, -, key, rfl⟩ := h.started guards body hstage'
    simp only [List.mem_singleton, forall_eq]
    exact fun _ => ⟨some key, rfl⟩
  | consumed => exact absurd hstage' hstage

/-- A step that is not the body's own leaves what belongs to it in its phase. -/
theorem Frame.OfShare.step (hvalid : n.Valid) (hf : f.Ok worker s) (hacts : ¬ f.Acts p t) (h : f.OfShare p t n ph)
    (henter : f = .task p t .enter → ∃ y, s.task? p t = some y ∧ n.Keeps ph y ∧ y.stage ≠ .consumed) :
    ∀ g ∈ (f.step Job.start worker choice s).2, g.OfShare p t n ph := by
  by_cases hself : f = .task p t .enter
  · obtain ⟨y, hy, hkeeps, hstage⟩ := henter hself
    subst hself
    exact ofShare_enter worker hvalid hy hkeeps hstage
  · have hgives := Frame.gives_step Job.start worker choice s f
    generalize (f.step Job.start worker choice s).2 = fs at hgives ⊢
    have other : ∀ {r : Run Datum Job}, r.party ≠ .task p t → ∀ g ∈ [(.run r : Frame Datum Job)], g.OfShare p t n ph :=
      fun hr g hg => List.mem_singleton.1 hg ▸ fun heq => absurd heq hr
    cases hgives with
    | @run r =>
      obtain ⟨quiet, g, hfs, hquiet, hg⟩ := stepRun_frames worker s r
      intro g' hg'
      rw [hfs] at hg'
      rcases List.mem_append.1 hg' with hg' | hg'
      · exact (hquiet g' hg').ofShare p t n ph
      · obtain ⟨k, -, hholds⟩ := hg.holds_eq worker p t
        rw [List.mem_singleton.1 hg']
        have hother : ¬ r.party = .task p t := hacts
        rw [if_neg hother] at hholds
        exact Frame.ofShare_of_not_hasBody (by rw [hholds]; exact fun k hk => absurd hk (Multiset.notMem_zero k)) n ph
    | drop hfs =>
      intro g hg
      rcases hfs g hg with ⟨_, _, rfl⟩ | ⟨_, rfl⟩ <;> trivial
    | fill => exact fun g hg => (isQuiet_afterPut hg).ofShare p t n ph
    | discarded => exact fun g hg => (isQuiet_dropPending hg).ofShare p t n ph
    | freed answer =>
      obtain ⟨party, -, hnext⟩ := hf
      exact other fun heq => hacts ((hnext _).trans ((hnext _).symm.trans heq))
    | blocked => exact fun g hg => List.mem_singleton.1 hg ▸ h
    | refused e =>
      obtain ⟨party, -, hnext⟩ := hf
      exact other fun heq => hacts ((hnext _).trans ((hnext _).symm.trans heq))
    | admitted | reserved => exact fun g hg => List.mem_singleton.1 hg ▸ fun heq => absurd heq hacts
    | @made q job next u =>
      obtain ⟨party, -, hnext⟩ := hf
      have hother : (next (.ok u)).party ≠ .task p t := fun heq => hacts ((hnext _).trans ((hnext _).symm.trans heq))
      intro g hg
      simp only [List.mem_cons, List.not_mem_nil, or_false] at hg
      rcases hg with rfl | rfl | rfl | rfl | rfl | rfl
      · trivial
      · trivial
      · trivial
      · trivial
      · trivial
      · exact fun heq => absurd heq hother
    | @entered q u =>
      refine other fun heq => hself ?_
      cases heq
      rfl
    | @void q u outcome =>
      intro g hg
      rw [List.mem_singleton.1 hg]
      refine fun heq => absurd ?_ hself
      cases heq
      rfl
    | ended =>
      intro g hg
      rw [List.mem_singleton.1 hg]
      rintro rfl rfl
      exact h rfl
    | joined =>
      intro g hg
      simp only [List.mem_append, List.mem_map, List.mem_cons, List.not_mem_nil, or_false] at hg
      rcases hg with ⟨_, -, rfl⟩ | rfl | rfl
      · trivial
      · trivial
      · trivial
    | _ => simp [Frame.OfShare]

/-- Where nobody has the body of a task no frame says anything of it. -/
theorem Machine.allFrames_ofShare {m : Machine Datum Job} (h : ∀ k ∈ m.holds p t, ¬ k.HasBody)
    (n : Share) (ph : Phase) : m.AllFrames fun _ f => f.OfShare p t n ph :=
  fun _ th hi _ hf => Frame.ofShare_of_not_hasBody (fun k (hk : k ∈ Frame.holds th.worker p t _) =>
    h k (Machine.mem_holds_of_mem hi hf hk)) n ph

end keeps
end Dataflow
