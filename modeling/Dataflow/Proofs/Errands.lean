import Dataflow.Proofs.Scheduling

/-!
# Errands

Wake calls, and all else that a body asks its thread to do before it goes on, are above the body on the stack of
a worker (`Frame.ErrandsAbove`). So while a worker is in the middle of a wake call, the task that sent it is
still being polled (`Machine.Manned.exists_hold`).
-/

namespace Dataflow

variable {V J : Type}

namespace Frame

/-- A worker does this only for a body, before the body goes on. -/
def IsErrand : Frame V J → Prop
  | .drop _ | .fill .. | .withdraw .. | .signal _ | .wake _ | .exchange .. | .reschedule .. | .waitIdle _ => True
  | .shutdown .. | .task _ _ .abandon | .task _ _ .discard => True
  | _ => False

/-- Below every errand there is the body of a task. -/
def ErrandsAbove : List (Frame V J) → Prop
  | [] => True
  | f :: below => (f.IsErrand → ∃ g ∈ below, ∃ p t, g.Polls p t) ∧ ErrandsAbove below

namespace ErrandsAbove

variable {fs below : List (Frame V J)}

theorem of_polls (h : ErrandsAbove below) (hbody : ∃ g ∈ below, ∃ p t, g.Polls p t) : ErrandsAbove (fs ++ below) := by
  induction fs with
  | nil => exact h
  | cons f fs ih =>
    refine ⟨fun _ => ?_, ih⟩
    obtain ⟨g, hg, hpolls⟩ := hbody
    exact ⟨g, List.mem_append_right _ hg, hpolls⟩

theorem of_not_isErrand (h : ErrandsAbove below) (hfs : ∀ f ∈ fs, ¬ f.IsErrand) : ErrandsAbove (fs ++ below) := by
  induction fs with
  | nil => exact h
  | cons f fs ih =>
    exact ⟨fun hf => absurd hf (hfs f (List.mem_cons_self ..)), ih fun g hg => hfs g (List.mem_cons_of_mem _ hg)⟩

theorem exists_polls (h : ErrandsAbove fs) {f : Frame V J} (hf : f ∈ fs) (herrand : f.IsErrand) :
    ∃ g ∈ fs, ∃ p t, g.Polls p t := by
  induction fs with
  | nil => cases hf
  | cons f' fs ih =>
    have hbelow : ∃ g ∈ fs, ∃ p t, g.Polls p t := by
      rcases List.mem_cons.1 hf with rfl | hf
      · exact h.1 herrand
      · exact ih h.2 hf
    obtain ⟨g, hg, hpolls⟩ := hbelow
    exact ⟨g, List.mem_cons_of_mem _ hg, hpolls⟩

end ErrandsAbove

theorem Polls.not_isErrand {p : PoolId} {t : TaskId} {f : Frame V J} (h : f.Polls p t) : ¬ f.IsErrand := by
  cases f <;> first | exact id | exact h.elim

variable {start : J → Except RuntimeError (Body V J)} {worker : Option (PoolId × Nat)} {choice : Nat}
  {s : Store V J}

/-- Only a body sends its thread on errands. -/
theorem errandsAbove_step {f : Frame V J} {below : List (Frame V J)} (hf : f.Ok worker s) (hworker : worker ≠ none)
    (h : ErrandsAbove (f :: below)) : ErrandsAbove ((f.step start worker choice s).2 ++ below) := by
  by_cases herrand : f.IsErrand
  · exact h.2.of_polls (h.1 herrand)
  · have hgives := gives_step start worker choice s f
    generalize (f.step start worker choice s).2 = fs at hgives ⊢
    cases hgives with
    | @run r =>
      obtain ⟨quiet, g, hfs, -, hg⟩ := stepRun_frames worker s r
      have hparty : ∃ p t, r.party = .task p t := by
        cases hr : r.party with
        | outside =>
          have hon : r.party.On worker := hf
          rw [hr] at hon
          exact absurd hon hworker
        | task p t => exact ⟨p, t, rfl⟩
      obtain ⟨p, t, hr⟩ := hparty
      have hpolls := hg.polls hr
      rw [hfs, List.append_assoc]
      refine ErrandsAbove.of_polls ⟨fun h => absurd h hpolls.not_isErrand, h.2⟩ ?_
      exact ⟨g, List.mem_cons_self .., p, t, hpolls⟩
    | nothing => exact h.2
    | drop | fill | discarded | wake | missed | woken | handedBack | abandoned | asked | closed | joined | drained
    | collected | chosen => exact absurd trivial herrand
    | _ => exact h.2.of_not_isErrand (by simp [IsErrand])

end Frame

namespace Machine

variable {start : J → Except RuntimeError (Body V J)} {m : Machine V J}

/-- Every stack has the property. -/
def AllStacks (P : Option (PoolId × Nat) → List (Frame V J) → Prop) (m : Machine V J) : Prop :=
  ∀ (i : Nat) (th : Thread V J), m.threads[i]? = some th → P th.worker th.stack

/-- What holds of every stack to begin with and is kept by the steps of a thread holds after every move. -/
theorem AllStacks.after {P : Option (PoolId × Nat) → List (Frame V J) → Prop} (hm : m.Framed) (h : m.AllStacks P)
    (hstep : ∀ (i : Nat) worker f below choice, m.threads[i]? = some ⟨worker, f :: below⟩ → f.Ok worker m.store →
      P worker (f :: below) → P worker ((f.step start worker choice m.store).2 ++ below))
    (hwork : ∀ worker, P (some worker) [.work .loop]) (hrun : ∀ r, P none [.run r])
    (hdrop : ∀ guards body, P none (Frame.dropPending guards body)) (mv : Move V J) :
    (m.after start mv).AllStacks P := by
  have outside : ∀ {s : Store V J} {frames}, P none frames → AllStacks P (spawnThread ⟨s, m.threads⟩ frames) := by
    intro s frames hframes i th hi
    simp only [spawnThread, Array.getElem?_push] at hi
    split at hi
    · cases hi
      exact hframes
    · exact h i th hi
  cases mv with
  | step j choice =>
    rcases m.after_step start j choice with ⟨heq, -⟩ | ⟨worker, f, rest, hj, -, -, -, heq⟩
    · rwa [heq]
    · rw [heq]
      intro i th hi
      rcases thread_of_set hj hi with ⟨-, rfl⟩ | ⟨-, hi⟩
      · exact hstep j worker f rest choice hj (hm.frames j _ hj f (by simp)) (h j _ hj)
      · exact h i th hi
  | startPool config =>
    rcases m.after_startPool start config with heq | heq
    · rwa [heq]
    · rw [heq]
      intro i th hi
      simp only [addPool, Array.getElem?_append] at hi
      split at hi
      · exact h i th hi
      · simp only [workers, List.getElem?_toArray, List.getElem?_map, Option.map_eq_some_iff] at hi
        obtain ⟨w, -, rfl⟩ := hi
        exact hwork _
  | enter body => exact outside (hrun _)
  | poll =>
    simp only [Machine.after]
    split
    · exact outside (hrun _)
    · exact h
  | discard =>
    simp only [Machine.after]
    split
    · exact outside (hdrop ..)
    · exact h

/-- On every worker the errands are above a body. -/
def Manned (m : Machine V J) : Prop :=
  ∀ (i : Nat) (th : Thread V J), m.threads[i]? = some th → th.worker ≠ none → Frame.ErrandsAbove th.stack

theorem Manned.initial (n : Nat) : (withCells n : Machine V J).Manned := by
  intro i th hi
  simp [withCells] at hi

theorem Manned.after (hm : m.Framed) (h : m.Manned) (mv : Move V J) : (m.after start mv).Manned :=
  AllStacks.after (P := fun worker stack => worker ≠ none → Frame.ErrandsAbove stack) hm h
    (fun _ _ _ _ _ _ hf hstack hworker => Frame.errandsAbove_step hf hworker (hstack hworker))
    (fun _ _ => ⟨False.elim, trivial⟩) (fun _ hworker => absurd rfl hworker) (fun _ _ hworker => absurd rfl hworker) mv

theorem manned_run (start : J → Except RuntimeError (Body V J)) (mvs : List (Move V J)) :
    (({} : Machine V J).run start mvs).Manned :=
  (run_induction start (P := fun m => m.Framed ∧ m.Manned) (fun _ mv ⟨hm, h⟩ => ⟨hm.after mv, h.after hm mv⟩)
    ⟨.initial 0, .initial 0⟩ mvs).2

/-- While a worker is on an errand a task is being polled. -/
theorem Manned.exists_hold (h : m.Manned) {i : Nat} {th : Thread V J} (hi : m.threads[i]? = some th)
    (hworker : th.worker ≠ none) {f : Frame V J} (hf : f ∈ th.stack) (herrand : f.IsErrand) :
    ∃ p t, ∃ k ∈ m.holds p t, k.HasBody := by
  obtain ⟨g, hg, p, t, hpolls⟩ := (h i th hi hworker).exists_polls hf herrand
  obtain ⟨k, hk, hholds⟩ := hpolls.holds_eq th.worker
  have hmem : k ∈ m.frameSum fun worker f => f.holds worker p t :=
    mem_frameSum.2 ⟨th, List.mem_iff_getElem?.2 ⟨i, by rw [Array.getElem?_toList, hi]⟩, g, hg, by simp [hholds]⟩
  exact ⟨p, t, k, Multiset.mem_add.2 (.inr hmem), hk⟩

end Machine
end Dataflow
