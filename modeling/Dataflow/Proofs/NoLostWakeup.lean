import Dataflow.Proofs.Tickets
import Dataflow.Proofs.Wakes

/-!
# No wake-up is lost

A task waits for a cell (`IsAwaiting`) if it is parked with a read registered there, or if its poll has left
such a read pending and nobody has told it since. Whoever waits is registered, so the put that fills the cell
has a wake call for each of them before it returns (`Machine.Telling`); and once a cell is full nobody begins
to wait for it, as a poll that looks at a full cell goes on.
-/

namespace Dataflow

variable {V J : Type}

theorem Body.mem_held_of_mem_polled {body : Body V J} {k : CellId × Nat} (h : k ∈ body.polled) : k ∈ body.held := by
  cases body with
  | join a b second next =>
    cases second with
    | false => cases h
    | true => exact List.mem_append_left _ h
  | select a b second next =>
    cases second with
    | false => cases h
    | true => exact List.mem_append_left _ h
  | _ => cases h

/-- The frame has a body of the party that has found the cell empty in this poll. -/
def Frame.IsAwaiting (c : CellId) (party : Party) : Frame V J → Prop
  | .run r => r.party = party ∧ ∃ key, (c, key) ∈ r.body.polled
  | .pause r => r.party = party ∧ ∃ key, (c, key) ∈ r.body.held
  | _ => False

/-- The hold of a task whose body has found the cell empty in this poll. -/
def Hold.IsAwaiting (c : CellId) (y : Task V J) : Hold V J → Prop
  | .polling r => ∃ key, (c, key) ∈ r.body.polled
  | .pausing r => ∃ key, (c, key) ∈ r.body.held
  | .parking => ∃ key, (c, key) ∈ y.stage.held
  | _ => False

/-- The task is parked and waits for the cell, or is going to be parked so unless it is woken. -/
def IsAwaiting (c : CellId) (x : Option (Task V J)) (T : Multiset (Hold V J)) : Prop :=
  ∃ y, x = some y ∧ ((y.state = .suspended ∧ ∃ key, (c, key) ∈ y.stage.held) ∨
    (y.state = .running ∧ ∃ k ∈ T, k.IsAwaiting c y))

/-- Who waits has a ticket. -/
theorem Frame.IsAwaiting.mem_tickets {c : CellId} {party : Party} {f : Frame V J} (h : f.IsAwaiting c party) :
    ∃ key, ((c, key), some party) ∈ f.tickets := by
  cases f with
  | run r =>
    obtain ⟨rfl, key, hkey⟩ := h
    exact ⟨key, mem_ticketsOf (Body.mem_held_of_mem_polled hkey)⟩
  | pause r =>
    obtain ⟨rfl, key, hkey⟩ := h
    exact ⟨key, mem_ticketsOf hkey⟩
  | _ => exact h.elim

/-- Who is woken does not wait. -/
theorem IsWoken.not_isAwaiting {c : CellId} {x : Option (Task V J)} {T : Multiset (Hold V J)} (h : IsWoken x) :
    ¬ IsAwaiting c x T := by
  rintro ⟨y, hy, ⟨hstate, -⟩ | ⟨hstate, -⟩⟩ <;> rcases h y hy with h | h | h <;> rw [hstate] at h <;> cases h

namespace Frame

variable {worker : Option (PoolId × Nat)} {s : Store V J} {c : CellId} {waiter : Party}

/-- A read of a cell that is not empty does not wait. -/
theorem not_mem_held_pollWait (hc : (s.cell c).payload ≠ .empty) (party : Party) (w : Wait V) (key : Nat) :
    (c, key) ∉ (pollWait s party w).1.held := by
  cases w with
  | answered answer => exact List.not_mem_nil
  | «open» c' key' =>
    by_cases h : c' = c
    · subst h
      simp only [pollWait, Cell.poll]
      split
      · exact List.not_mem_nil
      · exact List.not_mem_nil
      · exact absurd ‹_› hc
    · rcases hp : (s.cell c').poll key' party with ⟨_ | answer, x, _ | key''⟩ <;>
        simp [pollWait, hp, Wait.ofPoll, Wait.held, Ne.symm h]

/-- An instruction does not begin to wait for a cell that is not empty. -/
theorem isAwaiting_of_stepRun (hc : (s.cell c).payload ≠ .empty) {r : Run V J} (hproper : r.body.Proper) :
    ∀ g ∈ (stepRun worker s r).2, g.IsAwaiting c waiter → (run r).IsAwaiting c waiter := by
  obtain ⟨party, guards, body⟩ := r
  have goingOn : ∀ {body' : Body V J}, body'.Fresh →
      ¬ (run ⟨party, guards, body'⟩ : Frame V J).IsAwaiting c waiter := by
    rintro body' hbody ⟨-, key, hkey⟩
    rw [hbody.polled_eq] at hkey
    cases hkey
  cases body with
  | get c' key next =>
    have hnot := not_mem_held_pollWait hc party (.open c' key)
    rcases hp : pollWait s party (.open c' key) with ⟨_ | answer, s'⟩ <;> rw [hp] at hnot <;>
      simp only [stepRun, hp, List.mem_singleton, forall_eq]
    · rename_i c'' key''
      rintro ⟨-, key', hkey'⟩
      refine absurd ?_ (hnot key')
      cases key'' with
      | none => cases hkey'
      | some key'' => exact hkey'
    · exact fun h => absurd h (goingOn (hproper answer))
  | join a b second next =>
    cases second with
    | false =>
      have hnot := not_mem_held_pollWait hc party a
      rcases hp : pollWait s party a with ⟨a', s'⟩
      rw [hp] at hnot
      simp only [stepRun, hp, List.mem_singleton, forall_eq]
      rintro ⟨-, key, hkey⟩
      exact absurd hkey (hnot key)
    | true =>
      have hnot := not_mem_held_pollWait hc party b
      rcases hp : pollWait s party b with ⟨b', s'⟩
      rw [hp] at hnot
      have waiting : (pause ⟨party, guards, .join a b' false next⟩ : Frame V J).IsAwaiting c waiter →
          (run ⟨party, guards, .join a b true next⟩ : Frame V J).IsAwaiting c waiter := by
        rintro ⟨hparty, key, hkey⟩
        exact ⟨hparty, key, (List.mem_append.1 hkey).resolve_right (hnot key)⟩
      simp only [stepRun, hp]
      split
      · simp only [List.mem_singleton, forall_eq]
        exact fun h => absurd h (goingOn (hproper _ _))
      · simp only [List.mem_singleton, forall_eq]
        exact waiting
  | select a b second next =>
    obtain ⟨a, ka⟩ := a
    obtain ⟨b, kb⟩ := b
    have answered : ∀ (c' : CellId) (key : Option Nat) (answer : Except RuntimeError V),
        ∀ g ∈ (key.toList.map fun key => withdraw c' key) ++ [(run ⟨party, guards, next answer⟩ : Frame V J)],
          ¬ g.IsAwaiting c waiter := by
      intro c' key answer g hg
      rcases List.mem_append.1 hg with hg | hg
      · obtain ⟨_, -, rfl⟩ := List.mem_map.1 hg
        exact id
      · rw [List.mem_singleton.1 hg]
        exact goingOn (hproper answer)
    cases second with
    | false =>
      have hnot := not_mem_held_pollWait hc party (.open a ka)
      rcases hp : pollWait s party (.open a ka) with ⟨_ | answer, s'⟩ <;> rw [hp] at hnot <;> simp only [stepRun, hp]
      · simp only [List.mem_singleton, forall_eq]
        rintro ⟨-, key, hkey⟩
        exact absurd hkey (hnot key)
      · exact fun g hg h => absurd h (answered _ _ _ g hg)
    | true =>
      have hnot := not_mem_held_pollWait hc party (.open b kb)
      rcases hp : pollWait s party (.open b kb) with ⟨_ | answer, s'⟩ <;> rw [hp] at hnot <;> simp only [stepRun, hp]
      · simp only [List.mem_singleton, forall_eq]
        rintro ⟨hparty, key, hkey⟩
        exact ⟨hparty, key, (List.mem_append.1 hkey).resolve_right (hnot key)⟩
      · exact fun g hg h => absurd h (answered _ _ _ g hg)
  | _ =>
    intro g hg hawaits
    have hnone := tickets_stepRun_idle worker s (r := ⟨party, guards, _⟩) hproper id g hg
    obtain ⟨key, hmem⟩ := hawaits.mem_tickets
    rw [hnone] at hmem
    exact absurd hmem (Multiset.notMem_zero _)

theorem eq_of_polling_mem_holds {p : PoolId} {t : TaskId} {f : Frame V J} {r : Run V J}
    (h : .polling r ∈ f.holds worker p t) : f = .run r ∧ r.party = .task p t := by
  unfold holds at h
  split at h <;> (try split at h) <;> (try split at h) <;> simp_all [Multiset.mem_replicate]

theorem eq_of_pausing_mem_holds {p : PoolId} {t : TaskId} {f : Frame V J} {r : Run V J}
    (h : .pausing r ∈ f.holds worker p t) : f = .pause r ∧ r.party = .task p t := by
  unfold holds at h
  split at h <;> (try split at h) <;> (try split at h) <;> simp_all [Multiset.mem_replicate]

/-- Who holds a task that waits has the body that does, unless the poll is over. -/
theorem isAwaiting_of_mem_holds {p : PoolId} {t : TaskId} {f : Frame V J} {k : Hold V J} {y : Task V J}
    (hk : k ∈ f.holds worker p t) (h : k.IsAwaiting c y) (hparking : k ≠ .parking) :
    f.IsAwaiting c (.task p t) := by
  cases k with
  | polling r =>
    obtain ⟨rfl, hparty⟩ := eq_of_polling_mem_holds hk
    exact ⟨hparty, h⟩
  | pausing r =>
    obtain ⟨rfl, hparty⟩ := eq_of_pausing_mem_holds hk
    exact ⟨hparty, h⟩
  | parking => exact absurd rfl hparking
  | _ => exact h.elim

end Frame

section change

variable {start : J → Except RuntimeError (Body V J)} {p : PoolId} {t : TaskId} {s : Store V J}
  {f : Frame V J} {x y : Option (Task V J)} {d e rest : Multiset (Hold V J)} {c : CellId}

/-- Where a hold of the task awaits the cell depends on its stage only. -/
theorem Hold.IsAwaiting.of_stage {k : Hold V J} {z w : Task V J} (h : k.IsAwaiting c w)
    (hstage : w.stage = z.stage ∨ w.stage = .consumed) : k.IsAwaiting c z := by
  cases k with
  | parking =>
    obtain ⟨key, hkey⟩ := h
    rcases hstage with h | h <;> rw [h] at hkey
    · exact ⟨key, hkey⟩
    · cases hkey
  | _ => exact h

/-- Whoever has just taken a stage has not looked at any cell. -/
theorem Stage.not_isAwaiting_entered (hstart : ∀ job body, start job = .ok body → body.Fresh)
    {stage : Stage V J} (hstage : stage.Proper) (y : Task V J) : ¬ (stage.entered start p t).IsAwaiting c y := by
  cases stage with
  | unclaimed job =>
    simp only [entered]
    split
    · exact id
    · rename_i body hbody
      rintro ⟨key, hkey⟩
      rw [(hstart job body hbody).polled_eq] at hkey
      cases hkey
  | started guards body =>
    rintro ⟨key, hkey⟩
    rw [hstage.2] at hkey
    cases hkey
  | consumed => exact id

/-- Nobody begins to wait for a cell that is not empty. -/
theorem IsAwaiting.of_change (hstart : ∀ job body, start job = .ok body → body.Fresh) (hs : Sound x (d + rest))
    (hf : f.Proper) (hx : ∀ z, x = some z → z.stage.Proper) (hc : (s.cell c).payload ≠ .empty)
    (h : Change start p t s f x d y e) (hy : IsAwaiting c y (e + rest)) : IsAwaiting c x (d + rest) := by
  -- where one hold takes the place of another these are all, and the task is not parked
  have swapped : ∀ {k k' : Hold V J} {z w : Task V J}, Sound (some z) ({k} + rest) →
      IsAwaiting c (some w) ({k'} + rest) → w.state = z.state → (k'.IsAwaiting c w → k.IsAwaiting c z) →
      IsAwaiting c (some z) ({k} + rest) := by
    rintro k k' z w hs ⟨_, ⟨⟩, ⟨hsus, -⟩ | ⟨hrun, k'', hmem, hk''⟩⟩ hstate hk
    · exact absurd (hstate ▸ hsus) (hs.state_ne (by simp))
    · rw [eq_zero_of_card_le hs.once, add_zero, Multiset.mem_singleton] at hmem
      exact ⟨z, rfl, .inr ⟨hstate ▸ hrun, k, by simp, hk (hmem ▸ hk'')⟩⟩
  cases h with
  | stay => exact hy
  | spawn | requeue | wake | notify => rcases hy with ⟨_, ⟨⟩, ⟨hstate, -⟩ | ⟨hstate, -⟩⟩ <;> cases hstate
  | claim =>
    rcases hy with ⟨_, ⟨⟩, ⟨hstate, -⟩ | ⟨-, k, hmem, hk⟩⟩
    · cases hstate
    · rw [eq_zero_of_card_le hs.once, add_zero, Multiset.mem_singleton] at hmem
      subst hmem
      exact hk.elim
  | refuse =>
    obtain ⟨z, hz, h⟩ := hy
    exact ⟨z, hz, h.imp_right fun ⟨hrun, k, hmem, hk⟩ =>
      ⟨hrun, k, Multiset.mem_of_le (add_le_add (Multiset.zero_le _) le_rfl) hmem, hk⟩⟩
  | @enter z =>
    exact swapped hs hy rfl fun hk => absurd hk (Stage.not_isAwaiting_entered hstart (hx z rfl) _)
  | @run r x k worker g hr hk hend hg hgk =>
    cases x with
    | none => obtain ⟨z, hz, -⟩ := hy; cases hz
    | some z =>
      refine swapped hs hy rfl fun hawaits => ?_
      have hmem : k ∈ g.holds worker p t := by rw [hgk]; exact Multiset.mem_singleton_self k
      have hg' := Frame.isAwaiting_of_mem_holds hmem hawaits (by rintro rfl; exact hk)
      exact (Frame.isAwaiting_of_stepRun hc hf g hg hg').2
  | @answer f x r hr hanswers =>
    cases x with
    | none => obtain ⟨z, hz, -⟩ := hy; cases hz
    | some z =>
      refine swapped hs hy rfl fun ⟨key, hkey⟩ => ?_
      have hfresh : r.body.Fresh := by
        cases f with
        | blocked | spawn => obtain ⟨answer, rfl⟩ := hanswers; exact hf answer
        | _ => exact hanswers.elim
      rw [hfresh.polled_eq] at hkey
      cases hkey
  | pause => exact swapped hs hy rfl id
  | @settle outcome =>
    rcases hy with ⟨_, ⟨⟩, ⟨hstate, -⟩ | ⟨hstate, -⟩⟩ <;> rcases outcome with ((_ | _) | _) <;> cases hstate
  | @park z hq =>
    rcases hy with ⟨_, ⟨⟩, ⟨-, hheld⟩ | ⟨hstate, -⟩⟩
    · exact ⟨z, rfl, .inr ⟨hq, .parking, by simp, hheld⟩⟩
    · cases hstate
  | unpark => exact swapped hs hy rfl False.elim
  | @handBack x =>
    cases x with
    | none => obtain ⟨z, hz, -⟩ := hy; cases hz
    | some z => exact swapped hs hy rfl False.elim
  | @flag f z b =>
    obtain ⟨_, ⟨⟩, h⟩ := hy
    exact ⟨z, rfl, h.imp_right fun ⟨hrun, k, hmem, hk⟩ => ⟨hrun, k, hmem, hk.of_stage (.inl rfl)⟩⟩
  | lose =>
    obtain ⟨z, hz, h⟩ := hy
    exact ⟨z, hz, h.imp_right fun ⟨hrun, k, hmem, hk⟩ =>
      ⟨hrun, k, Multiset.mem_of_le (add_le_add (Multiset.zero_le _) le_rfl) hmem, hk⟩⟩
  | @close f z w hp hstate hstage =>
    obtain ⟨_, ⟨⟩, h⟩ := hy
    rcases hstate with hstate | hstate
    · refine ⟨z, rfl, h.imp (fun ⟨hsus, key, hkey⟩ => ⟨hstate ▸ hsus, key, ?_⟩)
        fun ⟨hrun, k, hmem, hk⟩ => ⟨hstate ▸ hrun, k, hmem, hk.of_stage hstage⟩⟩
      rcases hstage with h | h <;> rw [h] at hkey
      · exact hkey
      · cases hkey
    · rcases h with ⟨h, -⟩ | ⟨h, -⟩ <;> rw [hstate] at h <;> cases h

end change

namespace Machine

variable {start : J → Except RuntimeError (Body V J)} {m : Machine V J} {c : CellId} {p : PoolId} {t : TaskId}
  {i : Nat} {back : List (Frame V J)}

/-- The task waits for the cell, or will. -/
def Awaits (m : Machine V J) (c : CellId) (p : PoolId) (t : TaskId) : Prop :=
  IsAwaiting c (m.store.task? p t) (m.holds p t)

/-- Nobody begins to wait for a cell that is not empty. -/
theorem awaits_of_after (hstart : ∀ job body, start job = .ok body → body.Fresh) (hm : m.Scheduled)
    (hp : m.Proper) (hc : (m.store.cell c).payload ≠ .empty) {mv : Move V J}
    (h : (m.after start mv).Awaits c p t) : m.Awaits c p t := by
  rcases change start hm.framed (hm.sound p t).made mv with
    ⟨-, hx, hT⟩ | ⟨i, worker, f, d, e, rest, htaken, hd, he, hchange⟩
  · rwa [Awaits, hx, hT] at h
  · obtain ⟨choice, stack, -, -, hi, -⟩ := after_of_taken start htaken
    have hs := hm.sound p t
    rw [hd] at hs
    rw [Awaits, he] at h
    rw [Awaits, hd]
    exact h.of_change hstart hs (hp.frames _ _ hi f (by simp)) (hp.stages p t) hc hchange

/-- Whoever waits is registered. -/
theorem exists_waker_of_awaits (hm : m.Booked) (h : m.Awaits c p t) :
    ∃ key, (key, .task p t) ∈ (m.store.cell c).wakers := by
  have registered : ∀ {key}, ((c, key), some (.task p t)) ∈ m.tickets →
      ∃ key, (key, .task p t) ∈ (m.store.cell c).wakers := fun hmem => ⟨_, hm.waker _ _ _ hmem⟩
  obtain ⟨y, hy, h⟩ := h
  have put : ∀ {key}, (c, key) ∈ y.stage.held → ((c, key), some (.task p t)) ∈ m.tickets := by
    intro key hkey
    obtain ⟨others, hstaged, -⟩ := Store.staged_setStage hy
    rw [tickets, Store.tickets, hstaged]
    simp only [Multiset.mem_add]
    exact .inl (.inl (.inl (mem_ticketsOf hkey)))
  rcases h with ⟨-, key, hkey⟩ | ⟨-, k, hmem, hk⟩
  · exact registered (put hkey)
  · by_cases hparking : k = .parking
    · subst hparking
      obtain ⟨key, hkey⟩ := hk
      exact registered (put hkey)
    · rcases Multiset.mem_add.1 hmem with hmem | hmem
      · rw [Multiset.eq_of_mem_replicate hmem] at hk
        exact hk.elim
      · obtain ⟨th, hth, f, hf, hkf⟩ := mem_frameSum (g := fun worker f => Frame.holds worker p t f).1 hmem
        obtain ⟨key, hticket⟩ := (Frame.isAwaiting_of_mem_holds hkf hk hparking).mem_tickets
        exact registered (Multiset.mem_add.2 (.inr (mem_frameSum.2 ⟨th, hth, f, hf, hticket⟩)))

/-- The cell is not empty, and until the thread is back at these frames it has a wake call to make, or to
finish, for everyone who waits for the cell. -/
def Telling (m : Machine V J) (c : CellId) (i : Nat) (back : List (Frame V J)) : Prop :=
  (m.store.cell c).payload ≠ .empty ∧
    ((∃ above, m.stackOf i = above ++ back ∧ ∀ p t, m.Awaits c p t → ∃ f ∈ above, f.Wakes p t) ∨
      ∀ p t, ¬ m.Awaits c p t)

/-- Once the thread is back nobody waits for the cell. -/
theorem Telling.not_awaits (h : m.Telling c i back) (hback : m.stackOf i = back) (p : PoolId) (t : TaskId) :
    ¬ m.Awaits c p t := by
  rcases h.2 with ⟨above, habove, hall⟩ | hnone
  · intro hawaits
    obtain ⟨f, hf, -⟩ := hall p t hawaits
    rw [hback] at habove
    have hnil : above = [] := List.append_left_eq_self.1 habove.symm
    rw [hnil] at hf
    cases hf
  · exact hnone p t

/-- Every move keeps this. -/
theorem Telling.after (hstart : ∀ job body, start job = .ok body → body.Fresh) (hm : m.Scheduled)
    (hp : m.Proper) (h : m.Telling c i back) (mv : Move V J) : (m.after start mv).Telling c i back := by
  obtain ⟨hc, h⟩ := h
  refine ⟨payload_ne_empty_after hc mv, ?_⟩
  have before : ∀ {p t}, (m.after start mv).Awaits c p t → m.Awaits c p t := awaits_of_after hstart hm hp hc
  rcases h with ⟨above, hstack, hall⟩ | hnone
  · cases above with
    | nil =>
      refine .inr fun p t h => ?_
      obtain ⟨f, hf, -⟩ := hall p t (before h)
      cases hf
    | cons f above =>
      rw [List.cons_append] at hstack
      have hne : m.stackOf i ≠ [] := by simp [hstack]
      refine .inl ?_
      rcases m.stackOf_after start mv hne with ⟨heq, -⟩ | ⟨worker, choice, f', rest, -, hstack', -, -, heq⟩
      · exact ⟨f :: above, heq.trans hstack, fun p t h => hall p t (before h)⟩
      · obtain ⟨rfl, rfl⟩ := List.cons_eq_cons.1 (hstack'.symm.trans hstack)
        rw [← List.append_assoc] at heq
        refine ⟨_, heq, fun p t h => ?_⟩
        obtain ⟨g, hg, hwakes⟩ := hall p t (before h)
        rcases List.mem_cons.1 hg with rfl | hg
        · have hin : m.InWake i p t (above ++ back) := ⟨g, hstack, hwakes⟩
          rcases hin.after start hm.framed mv with ⟨g', hg', hwakes'⟩ | hwoken
          · rw [heq, List.append_assoc] at hg'
            have hfs := List.append_cancel_right (hg'.trans (List.singleton_append ..).symm)
            exact ⟨g', by simp [hfs], hwakes'⟩
          · exact absurd h hwoken.not_isAwaiting
        · exact ⟨g, List.mem_append_right _ hg, hwakes⟩
  · exact .inr fun p t h => hnone p t (before h)

/-- A put that goes through has a wake call to make for everyone who waits. -/
theorem telling_of_fills {mv : Move V J} (hb : (m.after start mv).Booked) {e : Taken V J}
    (htaken : m.taken mv = some e) (he : e.Fills c)
    (hstack : (m.after start mv).stackOf e.thread = Frame.afterPut c (e.store.cell c) ++ back) :
    (m.after start mv).Telling c e.thread back := by
  obtain ⟨hlt, hempty, value, hputs⟩ := he
  obtain ⟨choice, rest, -, hstore, -, heq⟩ := after_of_taken start htaken
  rw [hstore] at hlt hempty hstack
  have hcell : (m.after start mv).store.cell c = { m.store.cell c with payload := .full value } := by
    rw [heq, (Frame.step_of_puts start e.worker choice hputs hempty).1, Store.cell_setCell, if_pos ⟨rfl, hlt⟩]
  refine ⟨by rw [hcell]; exact nofun, .inl ⟨_, hstack, fun p t h => ?_⟩⟩
  obtain ⟨key, hkey⟩ := exists_waker_of_awaits hb h
  rw [hcell] at hkey
  refine ⟨.wake (.task p t), List.mem_append_right _ (List.mem_map_of_mem ?_), rfl⟩
  exact List.mem_map_of_mem (f := (·.2)) hkey

/-- Tasks are held as they should be, bodies are what is left of fresh ones, and who waits is registered. -/
structure Orderly (m : Machine V J) : Prop where
  scheduled : m.Scheduled
  proper : m.Proper
  booked : m.Booked

theorem Orderly.initial (n : Nat) : (withCells n : Machine V J).Orderly := ⟨.initial n, .initial n, .initial n⟩

theorem Orderly.after (hstart : ∀ job body, start job = .ok body → body.Fresh) (h : m.Orderly) {mv : Move V J}
    (hmv : mv.Fresh) (hknown : ∀ e, m.taken mv = some e → e.Known) : (m.after start mv).Orderly :=
  ⟨h.scheduled.after mv, h.proper.after hstart h.scheduled hmv, h.booked.after hstart h.proper hmv hknown⟩

theorem Orderly.run (hstart : ∀ job body, start job = .ok body → body.Fresh) (h : m.Orderly)
    {mvs : List (Move V J)} (hfresh : ∀ mv ∈ mvs, mv.Fresh) (hknown : ∀ e ∈ m.trace start mvs, e.Known) :
    (m.run start mvs).Orderly :=
  trace_induction_of_mem start (P := fun m' _ => m'.Orderly)
    (fun _ _ mv hmv htr h => h.after hstart (hfresh mv hmv) fun e he => hknown e (mem_of_taken he htr)) h

theorem Telling.run (hstart : ∀ job body, start job = .ok body → body.Fresh) (hm : m.Orderly)
    (h : m.Telling c i back) {mvs : List (Move V J)} (hfresh : ∀ mv ∈ mvs, mv.Fresh)
    (hknown : ∀ e ∈ m.trace start mvs, e.Known) : (m.run start mvs).Telling c i back :=
  (trace_induction_of_mem start (P := fun m' _ => m'.Orderly ∧ m'.Telling c i back)
    (fun _ _ mv hmv htr ⟨hm, h⟩ => ⟨hm.after hstart (hfresh mv hmv) fun e he => hknown e (mem_of_taken he htr),
      h.after hstart hm.scheduled hm.proper mv⟩) ⟨hm, h⟩).2

/-- Nobody waits for the cell again. -/
theorem not_awaits_run (hstart : ∀ job body, start job = .ok body → body.Fresh) (hm : m.Orderly)
    (hc : (m.store.cell c).payload ≠ .empty) (h : ¬ m.Awaits c p t) {mvs : List (Move V J)}
    (hfresh : ∀ mv ∈ mvs, mv.Fresh) (hknown : ∀ e ∈ m.trace start mvs, e.Known) :
    ¬ (m.run start mvs).Awaits c p t :=
  (trace_induction_of_mem start
    (P := fun m' _ => m'.Orderly ∧ (m'.store.cell c).payload ≠ .empty ∧ ¬ m'.Awaits c p t)
    (fun _ _ mv hmv htr ⟨hm, hc, h⟩ => ⟨hm.after hstart (hfresh mv hmv) fun e he => hknown e (mem_of_taken he htr),
      payload_ne_empty_after hc mv, fun h' => h (awaits_of_after hstart hm.scheduled hm.proper hc h')⟩)
    ⟨hm, hc, h⟩).2.2

/-- Jobs and newcomers bring bodies that nobody has polled, and these read only cells that were made. -/
structure WellMade (start : J → Except RuntimeError (Body V J)) (mvs : List (Move V J)) : Prop where
  jobs : ∀ job body, start job = .ok body → body.Fresh
  newcomers : ∀ mv ∈ mvs, mv.Fresh
  known : ∀ e ∈ ({} : Machine V J).trace start mvs, e.Known

/-- The same of a part of the run. -/
theorem WellMade.of_append {mvs mvs' : List (Move V J)} (h : WellMade start (mvs ++ mvs')) : WellMade start mvs :=
  ⟨h.jobs, fun mv hmv => h.newcomers mv (List.mem_append_left _ hmv), fun e he => h.known e (by
    rw [trace_append]
    exact List.mem_append_left _ he)⟩

theorem WellMade.orderly {mvs : List (Move V J)} (h : WellMade start mvs) :
    (({} : Machine V J).run start mvs).Orderly :=
  Orderly.run h.jobs (.initial 0) h.newcomers h.known

/-- No wake-up of a task is lost in a run from the beginning. -/
structure NoLostWakeup (start : J → Except RuntimeError (Body V J)) (p : PoolId) (t : TaskId)
    (mvs : List (Move V J)) : Prop where
  /-- After any wake call that has returned, the task of a pool that is still open is finished or will be polled,
  or a poll of it has begun since the call did. -/
  heeded : ∀ (before during later : List (Move V J)) (i : Nat) (rest : List (Frame V J)),
    mvs = before ++ (during ++ later) →
    (({} : Machine V J).run start before).stackOf i = .wake (.task p t) :: rest →
    (({} : Machine V J).run start (before ++ during)).stackOf i = rest →
    ¬ (({} : Machine V J).run start mvs).store.Closed p →
    IsHeeded p t ((({} : Machine V J).run start mvs).store.task? p t) ((({} : Machine V J).run start mvs).holds p t)
      ((({} : Machine V J).run start before).trace start (during ++ later))
  /-- After a put that has returned, the task is not parked with a read of that cell pending. -/
  filled : WellMade start mvs →
    ∀ (before during later : List (Move V J)) (mv : Move V J) (e : Taken V J) (c : CellId) (back : List (Frame V J)),
      mvs = before ++ mv :: (during ++ later) →
      (({} : Machine V J).run start before).taken mv = some e → e.Fills c →
      (({} : Machine V J).run start (before ++ [mv])).stackOf e.thread = Frame.afterPut c (e.store.cell c) ++ back →
      (({} : Machine V J).run start (before ++ mv :: during)).stackOf e.thread = back →
      ∀ y, (({} : Machine V J).run start mvs).store.task? p t = some y → y.state = .suspended →
        ∀ key, (c, key) ∉ y.stage.held
  /-- Each time it was handed back to its pool it had been parked, and not been handed back since then. -/
  handedBack : ∀ (k : Nat) (e : Taken V J), (({} : Machine V J).trace start mvs)[k]? = some e → e.Reschedules p t →
    ∃ (j : Nat) (e' : Taken V J), j < k ∧ (({} : Machine V J).trace start mvs)[j]? = some e' ∧ e'.Suspends p t ∧
      ∀ (l : Nat) (e'' : Taken V J), j < l → l < k → (({} : Machine V J).trace start mvs)[l]? = some e'' →
        ¬ e''.Reschedules p t

/-- Whatever is run, no wake-up is lost. -/
theorem noLostWakeup_run (start : J → Except RuntimeError (Body V J)) (p : PoolId) (t : TaskId)
    (mvs : List (Move V J)) : NoLostWakeup start p t mvs := by
  refine ⟨?_, ?_, (handedBack_run start p t mvs).parked⟩
  · rintro before during later i rest rfl hwake hreturn hp
    rw [run_append] at hreturn hp ⊢
    exact isHeeded_of_wake (scheduled_run start before) hwake during later hreturn hp
  · rintro hmade before during later mv e c back rfl htaken he hcall hreturn y hy hsuspended key hkey
    have hmade' : WellMade start (before ++ [mv]) :=
      WellMade.of_append (show WellMade start ((before ++ [mv]) ++ (during ++ later)) by simpa using hmade)
    have hafter : ∀ mvs', ({} : Machine V J).run start (before ++ mv :: mvs') =
        (({} : Machine V J).run start (before ++ [mv])).run start mvs' := fun mvs' => by
      rw [← run_append, List.append_assoc, List.singleton_append]
    have hsingle : ({} : Machine V J).run start (before ++ [mv]) =
        (({} : Machine V J).run start before).after start mv := run_append ..
    have horderly := hmade'.orderly
    have htelling : (({} : Machine V J).run start (before ++ [mv])).Telling c e.thread back := by
      have hbooked := horderly.booked
      rw [hsingle] at hcall hbooked ⊢
      exact telling_of_fills hbooked htaken he hcall
    have hfresh : ∀ mv' ∈ during ++ later, mv'.Fresh := fun mv' h =>
      hmade.newcomers mv' (List.mem_append_right _ (List.mem_cons_of_mem _ h))
    have hknown : ∀ e' ∈ (({} : Machine V J).run start (before ++ [mv])).trace start (during ++ later),
        e'.Known := fun e' h => hmade.known e' (by
      rw [← List.singleton_append, ← List.append_assoc, trace_append]
      exact List.mem_append_right _ h)
    rw [trace_append] at hknown
    have hfresh' := fun mv' h => hfresh mv' (List.mem_append_left _ h)
    have hknown' := fun e' h => hknown e' (List.mem_append_left _ h)
    have hreturned := htelling.run hmade.jobs horderly hfresh' hknown'
    have horderly' := horderly.run hmade.jobs hfresh' hknown'
    rw [hafter] at hreturn hy
    rw [run_append] at hy
    refine not_awaits_run hmade.jobs horderly' hreturned.1 (hreturned.not_awaits hreturn p t)
      (fun mv' h => hfresh mv' (List.mem_append_right _ h)) (fun e' h => hknown e' (List.mem_append_right _ h))
      ⟨y, hy, .inl ⟨hsuspended, key, hkey⟩⟩

/-- A pool starts, someone spawns a job that waits, and the only worker parks it. Someone else enters, who is
going to fill the cell. -/
def parkingMoves : List (Move Nat Unit) :=
  .startPool {} :: .enter (.newCell fun _ => .spawn (some 0) () fun _ => .done (.ok ())) ::
    .enter (.put 0 7 fun _ => .done (.ok ())) ::
    (List.replicate 11 (.step 1 0) ++ List.replicate 11 (.step 0 0))

/-- The steps of the wake call that the put makes. -/
def wakingMoves : List (Move Nat Unit) := List.replicate 6 (.step 2 0)

theorem wellMade_parkingMoves : WellMade waitingJob (parkingMoves ++ .step 2 0 :: wakingMoves) := by
  refine ⟨?_, ?_, ?_⟩
  · rintro job body ⟨⟩
    exact ⟨rfl, fun _ => trivial⟩
  · simp [parkingMoves, wakingMoves, Move.Fresh, Body.Fresh]
  · rw [parkingMoves, List.cons_append, trace_startPool startError?_default]
    decide +kernel

set_option maxRecDepth 4000 in
theorem noLostWakeup_waiting :
    (({} : Machine Nat Unit).run waitingJob parkingMoves).store.task? 0 0 =
        some { state := .suspended, stage := .started [] (.get 0 (some 0) fun _ => .done (.ok ())),
               registered := true } ∧
      WellMade waitingJob (parkingMoves ++ .step 2 0 :: wakingMoves) ∧
      (({} : Machine Nat Unit).run waitingJob (parkingMoves ++ [.step 2 0])).stackOf 2 =
        [.wake (.task 0 0), .run ⟨.outside, [], .done (.ok ())⟩] ∧
      (({} : Machine Nat Unit).run waitingJob (parkingMoves ++ .step 2 0 :: wakingMoves)).stackOf 2 =
        [.run ⟨.outside, [], .done (.ok ())⟩] ∧
      NoLostWakeup waitingJob 0 0 (parkingMoves ++ .step 2 0 :: wakingMoves) := by
  refine ⟨?_, wellMade_parkingMoves, ?_, ?_, noLostWakeup_run waitingJob 0 0 _⟩
  · rw [parkingMoves, run_startPool startError?_default]
    rfl
  · rw [parkingMoves, List.cons_append, run_startPool startError?_default]
    rfl
  · rw [parkingMoves, List.cons_append, run_startPool startError?_default]
    rfl

end Machine
end Dataflow
