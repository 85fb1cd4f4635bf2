import Dataflow.Proofs.Scheduling
import Dataflow.Work.Core

/-!
# Where a body may stand

A body as it was written waits for nothing yet (`Body.Fresh`). What is left of it in the middle of a run
holds registrations in its first instruction only (`Body.Proper`), and between two polls none of these has
been looked at in the poll to come (`Body.polled`). All bodies in a machine stay so, whoever has them
(`Machine.Proper`), if jobs and newcomers bring fresh ones. Cores and scripts do (`Job.fresh_start`).
-/

namespace Dataflow

variable {V J : Type}

namespace Body

/-- The body has not been polled: no instruction holds a registration. -/
def Fresh : Body V J → Prop
  | .done _ | .panic _ => True
  | .get _ key next => key = none ∧ ∀ answer, (next answer).Fresh
  | .join a b second next => (a.held = [] ∧ b.held = [] ∧ second = false) ∧ ∀ x y, (next x y).Fresh
  | .select a b second next => (a.2 = none ∧ b.2 = none ∧ second = false) ∧ ∀ answer, (next answer).Fresh
  | .yield _ next | .stash next | .note _ next | .guard _ next | .wakeStashed _ next | .waitIdle _ next
  | .shutdown _ next => next.Fresh
  | .put _ _ next | .destroy _ next => ∀ answer, (next answer).Fresh
  | .tryGet _ next | .getTimeout _ next => ∀ answer, (next answer).Fresh
  | .look _ next => ∀ state waiters, (next state waiters).Fresh
  | .getBlocking _ next => ∀ answer, (next answer).Fresh
  | .newCell next => ∀ c, (next c).Fresh
  | .spawn _ _ next | .submit _ _ next => ∀ answer, (next answer).Fresh
  | .current next => ∀ running, (next running).Fresh

/-- What is left of a fresh body. -/
def Proper : Body V J → Prop
  | .get _ _ next => ∀ answer, (next answer).Fresh
  | .join _ _ _ next => ∀ x y, (next x y).Fresh
  | .select _ _ _ next => ∀ answer, (next answer).Fresh
  | body => body.Fresh

/-- The registrations of reads that this poll has left pending. -/
def polled : Body V J → List (CellId × Nat)
  | .join a _ true _ => a.held
  | .select (a, ka) _ true _ => (Wait.open a ka : Wait V).held
  | _ => []

variable {body : Body V J}

theorem Fresh.proper (h : body.Fresh) : body.Proper := by
  cases body <;> first | exact h | exact h.2

theorem Fresh.held_eq (h : body.Fresh) : body.held = [] := by
  cases body with
  | get c key next => obtain ⟨rfl, -⟩ := h; rfl
  | join a b second next => obtain ⟨⟨ha, hb, -⟩, -⟩ := h; simp [held, ha, hb]
  | select a b second next =>
    obtain ⟨a, ka⟩ := a
    obtain ⟨b, kb⟩ := b
    obtain ⟨⟨rfl, rfl, -⟩, -⟩ := h
    rfl
  | _ => rfl

theorem Fresh.polled_eq (h : body.Fresh) : body.polled = [] := by
  cases body with
  | join a b second next => obtain ⟨⟨-, -, rfl⟩, -⟩ := h; rfl
  | select a b second next => obtain ⟨⟨-, -, rfl⟩, -⟩ := h; rfl
  | _ => rfl

end Body

/-- The registrations of a task that is put away. -/
def Stage.held : Stage V J → List (CellId × Nat)
  | .started _ body => body.held
  | _ => []

/-- A stage from which the next poll can begin. -/
def Stage.Proper : Stage V J → Prop
  | .started _ body => body.Proper ∧ body.polled = []
  | _ => True

namespace Frame

/-- The bodies in a frame are what is left of fresh ones. -/
def Proper : Frame V J → Prop
  | .run r => r.body.Proper
  | .pause r => r.body.Proper ∧ r.body.polled = []
  | .blocked _ _ next => ∀ answer, (next answer).body.Fresh
  | .spawn _ _ _ next => ∀ answer, (next answer).body.Fresh
  | _ => True

theorem IsQuiet.proper {f : Frame V J} (h : f.IsQuiet) : f.Proper := by
  cases f <;> trivial

variable {start : J → Except RuntimeError (Body V J)} {worker : Option (PoolId × Nat)} {s : Store V J}

/-- An instruction leaves proper bodies. -/
theorem stepRun_proper {r : Run V J} (h : r.body.Proper) : ∀ g ∈ (stepRun worker s r).2, g.Proper := by
  obtain ⟨party, guards, body⟩ := r
  have going : ∀ {body' : Body V J} {guards'}, body'.Fresh →
      ∀ g ∈ [(run ⟨party, guards', body'⟩ : Frame V J)], g.Proper := fun hbody g hg =>
    List.mem_singleton.1 hg ▸ hbody.proper
  have after : ∀ {fs : List (Frame V J)} {body' : Body V J}, (∀ f ∈ fs, f.IsQuiet) → body'.Fresh →
      ∀ g ∈ fs ++ [(run ⟨party, guards, body'⟩ : Frame V J)], g.Proper := by
    intro fs body' hfs hbody g hg
    rcases List.mem_append.1 hg with hg | hg
    · exact (hfs g hg).proper
    · exact going hbody g hg
  have withdrawn : ∀ (c : CellId) (key : Option Nat),
      ∀ f ∈ (key.toList.map fun key => (withdraw c key : Frame V J)), f.IsQuiet := by
    intro c key f hf
    obtain ⟨_, -, rfl⟩ := List.mem_map.1 hf
    trivial
  cases body with
  | done result => simp [stepRun, Proper]
  | panic message => simp [stepRun, Proper]
  | get c key next =>
    simp only [stepRun]
    split
    · exact going (h _)
    · simp only [List.mem_singleton, forall_eq]
      exact ⟨h, rfl⟩
  | join a b second next =>
    cases second with
    | false =>
      simp only [stepRun, List.mem_singleton, forall_eq]
      exact h
    | true =>
      simp only [stepRun]
      split
      · exact going (h _ _)
      · simp only [List.mem_singleton, forall_eq]
        exact ⟨h, rfl⟩
  | select a b second next =>
    cases second with
    | false =>
      simp only [stepRun]
      split
      · exact after (withdrawn _ _) (h _)
      · simp only [List.mem_singleton, forall_eq]
        exact h
    | true =>
      simp only [stepRun]
      split
      · exact after (withdrawn _ _) (h _)
      · simp only [List.mem_singleton, forall_eq]
        exact ⟨h, rfl⟩
  | yield times next =>
    have hnext : next.Fresh := h
    intro g hg
    simp only [stepRun, List.mem_append, List.mem_replicate, List.mem_singleton] at hg
    rcases hg with ⟨-, rfl⟩ | rfl
    · trivial
    · exact ⟨hnext.proper, hnext.polled_eq⟩
  | stash next =>
    have hnext : next.Fresh := h
    simp only [stepRun, List.mem_singleton, forall_eq]
    exact ⟨hnext.proper, hnext.polled_eq⟩
  | put c value next =>
    simp only [stepRun]
    split
    · exact going (h _)
    · exact after (fun f => isQuiet_afterPut) (h _)
  | destroy c next => simp only [stepRun]; split <;> exact going (h _)
  | tryGet c next => exact going (h _)
  | look c next => exact going (h _ _)
  | getBlocking c next =>
    simp only [stepRun]
    split
    · exact going (h _)
    · simp only [List.mem_singleton, forall_eq]
      rintro (e | _ | value)
      · exact h _
      · exact h
      · exact h _
  | getTimeout c next =>
    simp only [stepRun]
    split
    · exact going (h _)
    · simp only [List.mem_singleton, forall_eq]
      exact fun answer => h answer
  | newCell next => exact going (h _)
  | note note next => exact going h
  | guard guard next => exact going h
  | spawn pool job next =>
    simp only [stepRun]
    split
    · exact going (h _)
    · simp only [List.mem_singleton, forall_eq]
      exact fun answer => h answer
  | submit p job next =>
    refine going fun answer => ?_
    rcases answer with e | id
    · dsimp only
      split
      · exact h
      · exact h _
    · exact h _
  | current next => exact going (h _)
  | wakeStashed index next =>
    refine after (fun f hf => ?_) h
    obtain ⟨_, -, rfl⟩ := List.mem_map.1 hf
    trivial
  | waitIdle p next => exact after (show ∀ f ∈ [(.waitIdle p : Frame V J)], f.IsQuiet by simp [IsQuiet]) h
  | shutdown p next => exact after (show ∀ f ∈ [(.shutdown p .check : Frame V J)], f.IsQuiet by simp [IsQuiet]) h

/-- The bodies in the frames that replace a frame are what is left of those it had, or fresh. -/
theorem step_proper (hstart : ∀ job body, start job = .ok body → body.Fresh) {choice : Nat} {f : Frame V J}
    (hf : f.Proper) (hs : ∀ p t y, s.task? p t = some y → y.stage.Proper) :
    ∀ g ∈ (f.step start worker choice s).2, g.Proper := by
  have hgives := gives_step start worker choice s f
  generalize (f.step start worker choice s).2 = fs at hgives ⊢
  cases hgives with
  | run => exact stepRun_proper hf
  | drop hfs =>
    intro g hg
    rcases hfs g hg with ⟨c, value, rfl⟩ | ⟨guards, rfl⟩ <;> trivial
  | fill => exact fun g hg => (isQuiet_afterPut hg).proper
  | discarded guards body => exact fun g hg => (isQuiet_dropPending hg).proper
  | @freed c timed next answer =>
    have hnext : ∀ answer, (next answer).body.Fresh := hf
    simpa [Proper] using (hnext answer).proper
  | @refused p job phase next e =>
    have hnext : ∀ answer, (next answer).body.Fresh := hf
    simpa [Proper] using (hnext (.error e)).proper
  | @made p job next t =>
    have hnext : ∀ answer, (next answer).body.Fresh := hf
    simpa [Proper] using (hnext (.ok t)).proper
  | blocked | admitted | reserved => simpa [Proper] using hf
  | @entered p t y guards body hy hbody =>
    have hstage := hs p t y hy
    rcases hbody with ⟨job, -, hbody⟩ | hstarted
    · simpa [Proper] using (hstart job body hbody).proper
    · rw [hstarted] at hstage
      simpa [Proper] using hstage.1
  | joined n => simp [Proper, or_imp, forall_and]
  | _ => simp [Proper]

end Frame

/-- Only what is left pending gets into a stage. -/
theorem Change.proper {start : J → Except RuntimeError (Body V J)} {p : PoolId} {t : TaskId} {s : Store V J}
    {f : Frame V J} {x y : Option (Task V J)} {d e : Multiset (Hold V J)} (hc : Change start p t s f x d y e)
    (hf : f.Proper) (hx : ∀ z, x = some z → z.stage.Proper) : ∀ z, y = some z → z.stage.Proper := by
  cases hc with
  | stay | run | answer | handBack | lose => exact hx
  | spawn => rintro z ⟨⟩; trivial
  | enter => rintro z ⟨⟩; trivial
  | pause => rintro z ⟨⟩; exact hf
  | @close f z z' hp hstate hstage =>
    rintro w ⟨⟩
    rcases hstage with h | h
    · exact h ▸ hx z rfl
    · rw [h]; trivial
  | _ =>
    have hstage := hx _ rfl
    rintro z ⟨⟩
    exact hstage

/-- Whoever enters brings a fresh body. -/
def Move.Fresh : Move V J → Prop
  | .enter body => body.Fresh
  | _ => True

namespace Machine

variable {start : J → Except RuntimeError (Body V J)} {m : Machine V J}

/-- All bodies in the machine are what is left of fresh ones. -/
structure Proper (m : Machine V J) : Prop where
  frames : m.AllFrames fun _ f => f.Proper
  stages : ∀ p t y, m.store.task? p t = some y → y.stage.Proper
  shelf : ∀ r, m.store.shelf = some r → r.body.Proper ∧ r.body.polled = []

theorem Proper.initial (n : Nat) : (withCells n : Machine V J).Proper :=
  ⟨fun i th hi => by simp [withCells] at hi, fun p t y hy => by simp [withCells, Store.task?_eq] at hy,
    fun r hr => by cases hr⟩

/-- Every move keeps this, if jobs and newcomers are fresh. -/
theorem Proper.after (hstart : ∀ job body, start job = .ok body → body.Fresh) (hm : m.Scheduled) (h : m.Proper)
    {mv : Move V J} (hmv : mv.Fresh) : (m.after start mv).Proper := by
  refine ⟨?_, fun p t => ?_, ?_⟩
  · cases mv with
    | step i choice =>
      rcases m.after_step start i choice with ⟨heq, -⟩ | ⟨worker, f, rest, hi, -, -, -, heq⟩
      · rw [heq]; exact h.frames
      · rw [heq]
        exact h.frames.set hi (Frame.step_proper hstart (h.frames i _ hi f (by simp)) h.stages) _
    | startPool config =>
      rcases m.after_startPool start config with heq | heq
      · rw [heq]; exact h.frames
      · rw [heq]; exact h.frames.addPool fun _ _ => trivial
    | enter body => exact h.frames.spawnThread (by simpa [Frame.Proper] using Body.Fresh.proper hmv)
    | poll =>
      simp only [Machine.after]
      split
      · rename_i r hr
        exact h.frames.clearShelf.spawnThread (by simpa [Frame.Proper] using (h.shelf r hr).1)
      · exact h.frames
    | discard =>
      simp only [Machine.after]
      split
      · exact h.frames.clearShelf.spawnThread fun f hf => (Frame.isQuiet_dropPending hf).proper
      · exact h.frames
  · rcases change start hm.framed (hm.sound p t).made mv with
      ⟨-, hx, -⟩ | ⟨i, worker, f, d, e, rest, htaken, -, -, hc⟩
    · rw [hx]; exact h.stages p t
    · obtain ⟨choice, rest, -, -, hi, -⟩ := after_of_taken start htaken
      exact hc.proper (h.frames _ _ hi f (by simp)) (h.stages p t)
  · cases mv with
    | step i choice =>
      rcases m.after_step start i choice with ⟨heq, -⟩ | ⟨worker, f, rest, hi, -, -, -, heq⟩
      · rw [heq]; exact h.shelf
      · rw [heq]
        intro r hr
        rcases Frame.shelf_step start worker choice m.store f with hs | ⟨r', rfl, -, hs⟩
        · exact h.shelf r (hs ▸ hr)
        · obtain rfl : r' = r := Option.some.inj (hs.symm.trans hr)
          exact h.frames i _ hi _ (List.mem_cons_self ..)
    | startPool config =>
      rcases m.after_startPool start config with heq | heq <;> rw [heq] <;> exact h.shelf
    | enter body => exact h.shelf
    | poll | discard =>
      simp only [Machine.after]
      split
      · intro r hr; cases hr
      · exact h.shelf

end Machine

/-! ### Jobs begin afresh -/

section fresh

variable {α : Type} {t : Tag}

theorem Body.Fresh.orFail {next : α → Body V J} (h : ∀ a, (next a).Fresh) (result : Except RuntimeError α) :
    (Body.orFail next result).Fresh := by
  cases result with
  | error e => trivial
  | ok a => exact h a

namespace Core

theorem fresh_typed {next : t.Value → Body Datum Job} (h : ∀ v, (next v).Fresh) (d : Datum) :
    (typed t next d).Fresh := by
  unfold typed
  split
  · exact h _
  · trivial

theorem fresh_await {next : t.Value → Body Datum Job} (h : ∀ v, (next v).Fresh) (c : CellRef t) :
    (await c next).Fresh := ⟨rfl, .orFail (fresh_typed h)⟩

theorem fresh_finish (c : CellRef t) (v : t.Value) : (finish c v).Fresh := fun _ => trivial

theorem fresh_awaitAll {next : List t.Value → Body Datum Job} (h : ∀ vs, (next vs).Fresh) (cs : List (CellRef t))
    (found : List t.Value) : (awaitAll next cs found).Fresh := by
  induction cs generalizing found with
  | nil => exact h _
  | cons c cs ih => exact fresh_await (fun v => ih _) c

/-- No core begins in the middle of a read. -/
theorem fresh_body (c : Core) (vs : Values c.signature) : (c.body vs).Fresh := by
  cases c with
  | noArgs | fail | explode => trivial
  | concat =>
    obtain ⟨a, b, n, out, ⟨⟩⟩ := vs
    simp only [body]
    split
    · exact fresh_finish _ _
    · trivial
  | divide =>
    obtain ⟨a, b, out, ⟨⟩⟩ := vs
    simp only [body]
    split
    · split
      · trivial
      · exact fresh_finish _ _
    · trivial
  | link => exact fresh_await (fun _ => fresh_finish _ _) _
  | sumPair => exact fresh_await (fun _ => fresh_await (fun _ => fresh_finish _ _) _) _
  | publishInner => exact fun _ => .orFail fun _ => fresh_finish _ _
  | through => exact fresh_await (fun _ => fresh_await (fun _ => fresh_finish _ _) _) _
  | gather => exact fresh_awaitAll (fun _ => fresh_finish _ _) ..
  | waitGate => exact .orFail fun _ => trivial
  | treeSum =>
    obtain ⟨low, high, out, ⟨⟩⟩ := vs
    simp only [body]
    split
    · exact fresh_finish _ _
    · exact fun _ _ => .orFail fun _ => .orFail fun _ =>
        fresh_await (fun _ => fresh_await (fun _ => fresh_finish _ _) _) _
  | _ => exact fresh_finish _ _

end Core

/-- Nor does a script. -/
theorem fresh_scriptBody [ScriptJob J] (instructions : List Instruction) (acc : Word) :
    (scriptBody instructions acc : Body Datum J).Fresh := by
  induction instructions generalizing acc with
  | nil => trivial
  | cons instruction rest ih =>
    cases instruction with
    | log | guard | yield | stash => exact ih _
    | set n | add n => exact ih _
    | get => exact ⟨rfl, .orFail fun _ => ih _⟩
    | getBlocking => exact .orFail fun _ => ih _
    | getTimeout => exact .orFail fun _ => ih _
    | tryGet => exact fun _ => ih _
    | put c tolerant | destroy c tolerant =>
      intro answer
      cases tolerant with
      | true => exact ih _
      | false => exact .orFail (fun _ => ih _) answer
    | state => exact fun _ _ => ih _
    | join => exact ⟨⟨rfl, rfl, rfl⟩, fun x y => .orFail (fun _ => .orFail (fun _ => ih _) y) x⟩
    | select => exact ⟨⟨rfl, rfl, rfl⟩, .orFail fun _ => ih _⟩
    | spawn => exact fun _ => ih _
    | current => exact fun _ => ih _
    | fail | panic => trivial

/-- Whatever the job, its body begins afresh. -/
theorem Job.fresh_start (job : Job) (body : Body Datum Job) (h : job.start = .ok body) : body.Fresh := by
  cases job with
  | script instructions =>
    cases h
    exact fresh_scriptBody ..
  | core c arguments =>
    simp only [Job.start, Arguments.run, Id.run] at h
    split at h
    · cases h
    · cases h
      exact c.fresh_body _

end fresh
end Dataflow
