import Dataflow.Proofs.Errands

/-!
# What can be below a frame

A thread works off its stack from the top, and what is below the top was put there by the code that is being
run. Two consequences, both kept by every step: below a body there are only frames of the worker's own loop
(`Frame.Rooted`), so a thread that comes back from a shutdown call goes on with a body or with its own loop
(`Machine.Stacked.below_check`); and a worker is about to count up, or busy with another pool, only for a body
that it is running (`Frame.LeansAbove`).
-/

namespace Dataflow

variable {V J : Type}

namespace Frame

/-- The frame is a body, the way into one, or the loop of a worker. -/
def IsBase : Frame V J → Prop
  | .run _ | .pause _ | .ended .. | .blocked .. | .spawn .. | .work _ => True
  | .task _ _ .claim | .task _ _ .begin | .task _ _ .enter => True
  | _ => False

/-- What may be below a frame. -/
def Bears (below : List (Frame V J)) : Frame V J → Prop
  | .run _ | .pause _ | .ended .. | .blocked .. | .spawn .. | .work _ => ∀ g ∈ below, ∃ seek, g = .work seek
  | .task _ _ .claim | .task _ _ .begin | .task _ _ .enter => ∀ g ∈ below, ∃ seek, g = .work seek
  | .shutdown _ .check => ∀ g ∈ below, (∃ r, g = .run r) ∨ ∃ seek, g = .work seek
  | _ => True

/-- Below every frame there is only what may be there. -/
def Rooted : List (Frame V J) → Prop
  | [] => True
  | f :: below => f.Bears below ∧ Rooted below

variable {f : Frame V J} {fs below : List (Frame V J)}

theorem bears_iff_of_isBase (h : f.IsBase) : f.Bears below ↔ ∀ g ∈ below, ∃ seek, g = .work seek := by
  cases f with
  | task p t phase => cases phase <;> first | exact Iff.rfl | exact h.elim
  | _ => first | exact Iff.rfl | exact h.elim

theorem bears_of_not_isBase (h : ¬ f.IsBase) (hcheck : ∀ p, f ≠ .shutdown p .check) : f.Bears below := by
  cases f with
  | task p t phase => cases phase <;> first | exact trivial | exact absurd trivial h
  | shutdown p phase => cases phase <;> first | exact trivial | exact absurd rfl (hcheck p)
  | _ => first | exact trivial | exact absurd trivial h

namespace Rooted

theorem of_free (h : Rooted below) (hfs : ∀ f ∈ fs, ¬ f.IsBase ∧ ∀ p, f ≠ .shutdown p .check) :
    Rooted (fs ++ below) := by
  induction fs with
  | nil => exact h
  | cons f fs ih =>
    obtain ⟨hbase, hcheck⟩ := hfs f (List.mem_cons_self ..)
    exact ⟨bears_of_not_isBase hbase hcheck, ih fun g hg => hfs g (List.mem_cons_of_mem _ hg)⟩

/-- Errands may be put above a frame that takes the place of a body. -/
theorem of_base (h : Rooted below) (fs : List (Frame V J)) (hbelow : ∀ g ∈ below, ∃ seek, g = .work seek)
    (hf : f.IsBase) (hfs : ∀ f ∈ fs, ¬ f.IsBase ∧ ∀ p, f ≠ .shutdown p .check) : Rooted (fs ++ [f] ++ below) := by
  rw [List.append_assoc]
  have hrooted : Rooted (f :: below) := ⟨(bears_iff_of_isBase hf).2 hbelow, h⟩
  exact hrooted.of_free hfs

end Rooted

theorem CarriesOn.isBase {r : Run V J} (h : f.CarriesOn r) : f.IsBase := by
  cases f <;> first | exact trivial | exact h.elim

theorem IsQuiet.not_isBase (h : f.IsQuiet) : ¬ f.IsBase := by
  cases f with
  | shutdown p phase => exact id
  | _ => first | exact id | exact h.elim

theorem ne_check_afterPut {c : CellId} {before : Cell V Party} (h : f ∈ afterPut c before) (p : PoolId) :
    f ≠ .shutdown p .check := by
  rintro rfl
  simp only [afterPut, List.mem_append, List.mem_map] at h
  rcases h with h | ⟨_, -, h⟩
  · split at h <;> simp at h
  · cases h

theorem ne_check_dropPending {guards : List (Guard V)} {body : Body V J} (h : f ∈ dropPending guards body)
    (p : PoolId) : f ≠ .shutdown p .check := by
  rintro rfl
  simp [dropPending] at h

variable {start : J → Except RuntimeError (Body V J)} {worker : Option (PoolId × Nat)} {choice : Nat}
  {s : Store V J}

/-- A body that calls for a shutdown does nothing else in the same step. -/
theorem stepRun_check {r : Run V J} {p : PoolId} (h : .shutdown p .check ∈ (stepRun worker s r).2) :
    ∃ next, (stepRun worker s r).2 = [.shutdown p .check, .run next] := by
  obtain ⟨party, guards, body⟩ := r
  cases body with
  | shutdown q next =>
    simp only [stepRun, List.mem_cons, shutdown.injEq, and_true, reduceCtorEq, List.not_mem_nil, or_false] at h
    subst h
    exact ⟨_, rfl⟩
  | get c key next => simp only [stepRun] at h; split at h <;> simp at h
  | join a b second next =>
    cases second with
    | false => simp [stepRun] at h
    | true => simp only [stepRun] at h; split at h <;> simp at h
  | select a b second next => cases second <;> simp only [stepRun] at h <;> split at h <;> simp at h
  | put c value next =>
    simp only [stepRun] at h
    split at h
    · simp at h
    · rcases List.mem_append.1 h with h | h
      · exact absurd rfl (ne_check_afterPut h p)
      · simp at h
  | destroy c next | getBlocking c next | getTimeout c next | spawn pool job next =>
    simp only [stepRun] at h
    split at h <;> simp at h
  | _ => simp [stepRun] at h

theorem rooted_stepRun {r : Run V J} (h : Rooted (.run r :: below)) : Rooted ((stepRun worker s r).2 ++ below) := by
  have hbelow : ∀ g ∈ below, ∃ seek, g = .work seek := h.1
  by_cases hcheck : ∃ p, .shutdown p .check ∈ (stepRun worker s r).2
  · obtain ⟨p, hp⟩ := hcheck
    obtain ⟨next, hfs⟩ := stepRun_check hp
    rw [hfs]
    refine ⟨fun g hg => ?_, hbelow, h.2⟩
    rcases List.mem_cons.1 hg with rfl | hg
    · exact .inl ⟨next, rfl⟩
    · exact .inr (hbelow g hg)
  · obtain ⟨quiet, g, hfs, hquiet, hg⟩ := stepRun_frames worker s r
    rw [hfs] at hcheck ⊢
    refine h.2.of_base quiet hbelow hg.isBase fun f hf => ⟨(hquiet f hf).not_isBase, fun p hp => hcheck ⟨p, ?_⟩⟩
    exact List.mem_append_left _ (hp ▸ hf)

theorem rooted_step {f : Frame V J} (h : Rooted (f :: below)) :
    Rooted ((f.step start worker choice s).2 ++ below) := by
  have hgives := gives_step start worker choice s f
  generalize (f.step start worker choice s).2 = fs at hgives ⊢
  cases hgives with
  | nothing => exact h.2
  | run => exact rooted_stepRun h
  | drop hfs =>
    refine h.2.of_free fun g hg => ?_
    rcases hfs g hg with ⟨c, value, rfl⟩ | ⟨guards, rfl⟩ <;> exact ⟨id, nofun⟩
  | fill => exact h.2.of_free fun g hg => ⟨(isQuiet_afterPut hg).not_isBase, ne_check_afterPut hg⟩
  | discarded guards body =>
    exact h.2.of_free fun g hg => ⟨(isQuiet_dropPending hg).not_isBase, ne_check_dropPending hg⟩
  | freed | blocked | refused | admitted | reserved | claimed | begun | entered | void | seeks =>
    have hbelow : ∀ g ∈ below, ∃ seek, g = .work seek := h.1
    exact ⟨hbelow, h.2⟩
  | made t =>
    have hbelow : ∀ g ∈ below, ∃ seek, g = .work seek := h.1
    exact h.2.of_base [_, _, _, _, _] hbelow (f := .run _) trivial (by simp [IsBase])
  | finds hworker t =>
    have hbelow : ∀ g ∈ below, ∃ seek, g = .work seek := h.1
    exact ⟨fun g hg => (List.mem_cons.1 hg).elim (fun h => ⟨_, h⟩) (hbelow g), hbelow, h.2⟩
  | joined n => exact h.2.of_free (by simp [IsBase, or_imp, forall_and])
  | _ => exact h.2.of_free (by simp [IsBase])

/-- A worker of the pool has this to do only for a body: to count a task as active, or to do something for another
pool. -/
def Leans (p : PoolId) : Frame V J → Prop
  | .count q change => change = .activeUp ∨ q ≠ p
  | .task q _ _ => q ≠ p
  | _ => False

/-- Below every such frame there is the body of a task. -/
def LeansAbove (p : PoolId) : List (Frame V J) → Prop
  | [] => True
  | f :: below => (f.Leans p → ∃ g ∈ below, ∃ q t, g.Polls q t) ∧ LeansAbove p below

namespace LeansAbove

variable {p : PoolId}

theorem of_polls (h : LeansAbove p below) (fs : List (Frame V J)) (hbody : ∃ g ∈ below, ∃ q t, g.Polls q t) :
    LeansAbove p (fs ++ below) := by
  induction fs with
  | nil => exact h
  | cons f fs ih =>
    obtain ⟨g, hg, hpolls⟩ := hbody
    exact ⟨fun _ => ⟨g, List.mem_append_right _ hg, hpolls⟩, ih⟩

theorem of_not_leans (h : LeansAbove p below) (hfs : ∀ f ∈ fs, ¬ f.Leans p) : LeansAbove p (fs ++ below) := by
  induction fs with
  | nil => exact h
  | cons f fs ih =>
    exact ⟨fun hf => absurd hf (hfs f (List.mem_cons_self ..)), ih fun g hg => hfs g (List.mem_cons_of_mem _ hg)⟩

theorem exists_polls (h : LeansAbove p fs) (hf : f ∈ fs) (hleans : f.Leans p) : ∃ g ∈ fs, ∃ q t, g.Polls q t := by
  induction fs with
  | nil => cases hf
  | cons f' fs ih =>
    have hbelow : ∃ g ∈ fs, ∃ q t, g.Polls q t := by
      rcases List.mem_cons.1 hf with rfl | hf
      · exact h.1 hleans
      · exact ih h.2 hf
    obtain ⟨g, hg, hpolls⟩ := hbelow
    exact ⟨g, List.mem_cons_of_mem _ hg, hpolls⟩

end LeansAbove

theorem leansAbove_step {f : Frame V J} {p : PoolId} {w : Nat} (hf : f.Ok (some (p, w)) s)
    (herrands : ErrandsAbove (f :: below)) (h : LeansAbove p (f :: below)) :
    LeansAbove p ((f.step start (some (p, w)) choice s).2 ++ below) := by
  by_cases herrand : f.IsErrand
  · exact h.2.of_polls _ (herrands.1 herrand)
  by_cases hleans : f.Leans p
  · exact h.2.of_polls _ (h.1 hleans)
  have hgives := gives_step start (some (p, w)) choice s f
  generalize (f.step start (some (p, w)) choice s).2 = fs at hgives ⊢
  cases hgives with
  | nothing => exact h.2
  | @run r =>
    refine h.2.of_not_leans fun g hg hleans => ?_
    obtain ⟨quiet, g', hfs, hquiet, hg'⟩ := stepRun_frames (some (p, w)) s r
    rw [hfs] at hg
    rcases List.mem_append.1 hg with hg | hg
    · have := hquiet g hg
      cases g <;> first | exact this.elim | exact hleans.elim
    · rw [List.mem_singleton.1 hg] at hleans
      cases g' <;> first | exact hg'.elim | exact hleans.elim
  | @pause r q t hparty =>
    have hon : r.party.On (some (p, w)) := hf
    rw [hparty] at hon
    obtain ⟨_, heq⟩ := hon
    cases heq
    exact h.2.of_not_leans (by simp [Leans])
  | @ended q t outcome =>
    obtain ⟨_, heq⟩ : Party.On (some (p, w)) (.task q t) := hf
    cases heq
    exact h.2.of_not_leans (by simp [Leans])
  | @made q job next t =>
    -- the body that made the call is the last of the frames
    obtain ⟨party, hon, hnext⟩ := hf
    have hpolls : ∃ q u, (.run (next (.ok t)) : Frame V J).Polls q u := by
      cases party with
      | outside => exact absurd hon (by simp [Party.On])
      | task q u => exact ⟨q, u, hnext _⟩
    have hbody : LeansAbove p (.run (next (.ok t)) :: below) := ⟨False.elim, h.2⟩
    exact hbody.of_polls [_, _, _, _, _] ⟨_, List.mem_cons_self .., hpolls⟩
  | claimed | begun | settled | tallied | parked | notified | requeued =>
    exact h.2.of_not_leans (by simpa [Leans] using hleans)
  | finds hworker t =>
    cases hworker
    exact h.2.of_not_leans (by simp [Leans])
  | drop | fill | discarded | wake | missed | woken | handedBack | abandoned | asked | closed | joined | drained
  | collected | chosen => exact absurd trivial herrand
  | _ => exact h.2.of_not_leans (by simp [Leans])

end Frame

namespace Machine

variable {start : J → Except RuntimeError (Body V J)} {m : Machine V J}

/-- What is known of the stacks of a machine. -/
structure Stacked (m : Machine V J) : Prop where
  rooted : m.AllStacks fun _ => Frame.Rooted
  leans : m.AllStacks fun worker stack => ∀ p w, worker = some (p, w) → Frame.LeansAbove p stack

theorem Stacked.initial (n : Nat) : (withCells n : Machine V J).Stacked :=
  ⟨fun i th hi => by simp [withCells] at hi, fun i th hi => by simp [withCells] at hi⟩

theorem Stacked.after (hm : m.Framed) (hmanned : m.Manned) (h : m.Stacked) (mv : Move V J) :
    (m.after start mv).Stacked := by
  constructor
  case rooted =>
    have single : ∀ f : Frame V J, f.IsBase → Frame.Rooted [f] := fun f hf =>
      ⟨(Frame.bears_iff_of_isBase hf).2 (by simp), trivial⟩
    refine h.rooted.after hm (fun _ _ _ _ _ _ _ hstack => Frame.rooted_step hstack)
      (fun _ => single _ trivial) (fun _ => single _ trivial) (fun guards body => ?_) mv
    rw [← List.append_nil (Frame.dropPending guards body)]
    exact Frame.Rooted.of_free trivial fun f hf =>
      ⟨(Frame.isQuiet_dropPending hf).not_isBase, Frame.ne_check_dropPending hf⟩
  case leans =>
    refine h.leans.after hm (fun i worker f below choice hi hf hstack p w hworker => ?_)
      (fun _ _ _ _ => ⟨False.elim, trivial⟩) (fun _ _ _ hworker => nomatch hworker)
      (fun _ _ _ _ hworker => nomatch hworker) mv
    subst hworker
    exact Frame.leansAbove_step hf (hmanned i _ hi nofun) (hstack p w rfl)

theorem stacked_run (start : J → Except RuntimeError (Body V J)) (mvs : List (Move V J)) :
    (({} : Machine V J).run start mvs).Stacked :=
  (run_induction start (P := fun m => m.Framed ∧ m.Manned ∧ m.Stacked)
    (fun _ mv ⟨hm, hmanned, h⟩ => ⟨hm.after mv, hmanned.after hm mv, h.after hm hmanned mv⟩)
    ⟨.initial 0, .initial 0, .initial 0⟩ mvs).2.2

/-- A thread that asks for a shutdown goes on with a body afterwards, or with its own loop. -/
theorem Stacked.below_check (h : m.Stacked) {i : Nat} {p : PoolId} {rest : List (Frame V J)}
    (hi : m.stackOf i = .shutdown p .check :: rest) : ∀ g ∈ rest, (∃ r, g = .run r) ∨ ∃ seek, g = .work seek := by
  obtain ⟨th, hth, hstack⟩ := exists_of_stackOf_ne_nil (m := m) (i := i) (by rw [hi]; exact nofun)
  have hrooted := h.rooted i th hth
  rw [← hstack, hi] at hrooted
  exact hrooted.1

end Machine
end Dataflow
