import Dataflow.Proofs.Scheduling

/-!
# Wake calls

A wake call loads the state of a task and tries to change it, again and again until there is nothing to
change or it has succeeded. Once it has returned the task is heeded (`IsHeeded`): it is finished, or will be
polled, or has been polled since the call began. That stays so whatever happens afterwards, as long as the
pool is running.

A task that was parked is handed back by the one call that took it out of its parking place, and is not
handed back again before it is parked again (`HandedBack`).
-/

namespace Dataflow

variable {V J : Type}

/-- A wake call has nothing to do where the task is finished or will be polled anyway. -/
theorem TaskState.of_wakeTarget?_eq_none {state : TaskState} (h : state.wakeTarget? = none) :
    state.isTerminal = true ∨ state = .queued ∨ state = .notified := by
  cases state <;> first | exact .inl rfl | exact .inr (.inl rfl) | exact .inr (.inr rfl) | cases h

/-- And what it tries to change it to makes it be polled. -/
theorem TaskState.of_wakeTarget?_eq_some {state target : TaskState} (h : state.wakeTarget? = some target) :
    target = .queued ∨ target = .notified := by
  cases state <;> cases h
  · exact .inr rfl
  · exact .inl rfl

/-- The frame is a wake call, or the rest of one. -/
def Frame.Wakes (p : PoolId) (t : TaskId) : Frame V J → Prop
  | .wake party => party = .task p t
  | .exchange q u _ _ => q = p ∧ u = t
  | _ => False

namespace Taken

variable (p : PoolId) (t : TaskId) (e : Taken V J)

/-- A worker claims the task, to poll it. -/
def Claims : Prop := e.frame = .task p t .claim ∧ ∃ y, e.store.task? p t = some y ∧ y.state = .queued

/-- It takes the stage of the task and polls what is there. -/
def Enters : Prop := e.frame = .task p t .enter

/-- The task is parked. -/
def Suspends : Prop := e.frame = .task p t .park ∧ ∃ y, e.store.task? p t = some y ∧ y.state = .running

/-- The task is handed back to its pool. -/
def Reschedules : Prop := e.frame = .reschedule p t

end Taken

/-- The task is finished, or queued or marked as woken, so that it will be polled. -/
def IsWoken (x : Option (Task V J)) : Prop :=
  ∀ y, x = some y → y.state.isTerminal = true ∨ y.state = .queued ∨ y.state = .notified

/-- A worker has claimed the task in the steps of `tr`, and has polled it there or is about to. -/
def IsPolledIn (p : PoolId) (t : TaskId) (T : Multiset (Hold V J)) (tr : List (Taken V J)) : Prop :=
  (∃ e ∈ tr, e.Claims p t) ∧ (T = {.claimed} ∨ ∃ e ∈ tr, e.Enters p t)

/-- The task is finished or will be polled, or a poll of it has begun in the steps of `tr`. -/
def IsHeeded (p : PoolId) (t : TaskId) (x : Option (Task V J)) (T : Multiset (Hold V J))
    (tr : List (Taken V J)) : Prop :=
  ∀ y, x = some y → y.state.isTerminal = true ∨ y.state = .queued ∨ y.state = .notified ∨ IsPolledIn p t T tr

theorem IsWoken.isHeeded {p : PoolId} {t : TaskId} {x : Option (Task V J)} (h : IsWoken x)
    (T : Multiset (Hold V J)) (tr : List (Taken V J)) : IsHeeded p t x T tr := fun y hy =>
  (h y hy).imp_right (.imp_right .inl)

/-- A poll that has begun is not forgotten, once the stage was taken. -/
theorem IsPolledIn.mono {p : PoolId} {t : TaskId} {T T' : Multiset (Hold V J)} {tr tr' : List (Taken V J)}
    (h : IsPolledIn p t T tr) (hT : T = {.claimed} → T' = {.claimed}) (htr : ∀ e ∈ tr, e ∈ tr') :
    IsPolledIn p t T' tr' :=
  ⟨h.1.imp fun _ he => ⟨htr _ he.1, he.2⟩, h.2.imp hT fun ⟨e, he, henters⟩ => ⟨e, htr e he, henters⟩⟩

section change

variable {start : J → Except RuntimeError (Body V J)} {p : PoolId} {t : TaskId} {s : Store V J}
  {f : Frame V J} {x y : Option (Task V J)} {d e rest : Multiset (Hold V J)} {i : Nat}
  {worker : Option (PoolId × Nat)} {tr : List (Taken V J)}

/-- Who is heeded stays so. -/
theorem IsHeeded.change (hp : s.Running p) (hxs : s.task? p t = x) (hx : Exact x (d + rest))
    (h : IsHeeded p t x (d + rest) tr) (hc : Change start p t s f x d y e) :
    IsHeeded p t y (e + rest) (tr ++ [⟨i, worker, f, s⟩]) := by
  have before : ∀ ev ∈ tr, ev ∈ tr ++ [⟨i, worker, f, s⟩] := fun _ => List.mem_append_left _
  have now : (⟨i, worker, f, s⟩ : Taken V J) ∈ tr ++ [⟨i, worker, f, s⟩] := by simp
  -- in the hands of anyone but a worker about to poll it, only its state or the past tell that it is heeded
  have unclaimed : ∀ {k : Hold V J} {z w : Task V J} {T}, Exact (some z) ({k} + rest) →
      IsHeeded p t (some z) ({k} + rest) tr → k ≠ .claimed → w.state = z.state →
      IsHeeded p t (some w) T (tr ++ [⟨i, worker, f, s⟩]) := by
    intro k z w T hx h hk hstate v hv
    cases hv
    rw [hstate]
    refine (h z rfl).imp_right (.imp_right (.imp_right fun h => h.mono (fun hT => ?_) before))
    obtain ⟨rfl, -⟩ := hx.of_single
    exact absurd (Multiset.singleton_inj.1 hT) hk
  have past : ∀ {z w : Task V J}, IsHeeded p t (some z) (0 + rest) tr → w.state = z.state →
      IsHeeded p t (some w) (0 + rest) (tr ++ [⟨i, worker, f, s⟩]) := by
    intro z w h hstate v hv
    cases hv
    rw [hstate]
    exact (h z rfl).imp_right (.imp_right (.imp_right fun h => h.mono id before))
  cases hc with
  | stay =>
    cases x with
    | none => exact nofun
    | some z => exact past h rfl
  | spawn | requeue | wake => rintro _ ⟨⟩; exact .inr (.inl rfl)
  | @claim z hq =>
    obtain ⟨rfl, -⟩ := hx.of_single
    rintro _ ⟨⟩
    exact .inr (.inr (.inr ⟨⟨_, now, rfl, z, hxs, hq⟩, .inl rfl⟩))
  | refuse hq => exact absurd hx.of_single.2.1 hq
  | @enter z =>
    obtain ⟨-, hpolled, -⟩ := hx.of_single
    rintro _ ⟨⟩
    rcases h z rfl with h | h | h | h
    · rcases hpolled with hq | hq <;> rw [hq] at h <;> cases h
    · rcases hpolled with hq | hq <;> rw [hq] at h <;> cases h
    · exact .inr (.inr (.inl h))
    · exact .inr (.inr (.inr ⟨h.1.imp fun _ he => ⟨before _ he.1, he.2⟩, .inr ⟨_, now, rfl⟩⟩))
  | run | answer | handBack =>
    cases x with
    | none => exact nofun
    | some z => exact unclaimed hx h nofun rfl
  | pause | unpark => exact unclaimed hx h nofun rfl
  | @settle outcome =>
    rintro _ ⟨⟩
    rcases outcome with ((_ | _) | _) <;> exact .inl rfl
  | @park z hq =>
    obtain ⟨rfl, -⟩ := hx.of_single
    rintro _ ⟨⟩
    rcases h z rfl with h | h | h | h
    · rw [hq] at h; cases h
    · rw [hq] at h; cases h
    · rw [hq] at h; cases h
    · exact .inr (.inr (.inr (h.mono (fun hT => absurd (Multiset.singleton_inj.1 hT) nofun) before)))
  | notify => rintro _ ⟨⟩; exact .inr (.inr (.inl rfl))
  | flag => exact past h rfl
  | lose hp' | close hp' => exact absurd hp hp'

end change

namespace Machine

variable {start : J → Except RuntimeError (Body V J)} {m : Machine V J} {p : PoolId} {t : TaskId} {i : Nat}
  {rest : List (Frame V J)} {tr : List (Taken V J)}

/-- The thread is in the middle of a wake call, with these frames below it. -/
def InWake (m : Machine V J) (i : Nat) (p : PoolId) (t : TaskId) (rest : List (Frame V J)) : Prop :=
  ∃ f, m.stackOf i = f :: rest ∧ f.Wakes p t

theorem InWake.ne (h : m.InWake i p t rest) : m.stackOf i ≠ rest := by
  obtain ⟨f, h, -⟩ := h
  rw [h]
  exact List.cons_ne_self _ _

/-- A wake call goes on, or the task is woken. -/
theorem InWake.after (start : J → Except RuntimeError (Body V J)) (hm : m.Framed) (h : m.InWake i p t rest) (mv : Move V J) :
    (m.after start mv).InWake i p t rest ∨ IsWoken ((m.after start mv).store.task? p t) := by
  obtain ⟨g, hg, hwakes⟩ := h
  have hne : m.stackOf i ≠ [] := by simp [hg]
  rcases m.stackOf_after start mv hne with ⟨heq, -⟩ | ⟨worker, choice, f, rest', -, hstack, hi, hstore, heq⟩
  · exact .inl ⟨g, heq.trans hg, hwakes⟩
  · obtain ⟨rfl, rfl⟩ := List.cons_eq_cons.1 (hstack.symm.trans hg)
    cases f with
    | wake party =>
      obtain rfl : party = .task p t := hwakes
      simp only [Frame.step, Frame.stepWake] at hstore heq
      split at heq
      · rename_i hx
        simp only [hx] at hstore
        exact .inr (by rw [hstore, hx]; rintro _ ⟨⟩)
      · rename_i x hx
        split at heq
        · rename_i hseen
          simp only [hx, hseen] at hstore
          rw [hstore, hx]
          refine .inr fun y hy => ?_
          cases hy
          exact TaskState.of_wakeTarget?_eq_none hseen
        · exact .inl ⟨_, heq, rfl, rfl⟩
    | exchange q u seen target =>
      obtain ⟨rfl, rfl⟩ := hwakes
      have htarget : seen.wakeTarget? = some target :=
        hm.frames i _ hi (.exchange q u seen target) (List.mem_cons_self ..)
      simp only [Frame.step, Frame.stepExchange] at hstore heq
      split at heq
      · rename_i hx
        simp only [hx] at hstore
        exact .inr (by rw [hstore, hx]; rintro _ ⟨⟩)
      · rename_i x hx
        split at heq
        · exact .inl ⟨_, heq, rfl⟩
        · rename_i state hstate
          simp only [hx, hstate] at hstore
          have hnew : state = target := by
            simp only [TaskState.exchange] at hstate
            split at hstate
            · cases hstate; rfl
            · cases hstate
          rw [hstore, Store.setState, Store.task?_modifyTask_self, hx]
          refine .inr fun y hy => ?_
          cases hy
          exact .inr ((TaskState.of_wakeTarget?_eq_some htarget).imp hnew.trans hnew.trans)
    | _ => exact hwakes.elim

/-- Who is heeded stays so, as long as the pool is not closed. -/
theorem isHeeded_after (hm : m.Scheduled) (mv : Move V J) (hp : ¬ (m.after start mv).store.Closed p)
    (h : IsHeeded p t (m.store.task? p t) (m.holds p t) tr) :
    IsHeeded p t ((m.after start mv).store.task? p t) ((m.after start mv).holds p t)
      (tr ++ (m.taken mv).toList) := by
  rcases change start hm.framed (hm.sound p t).made mv with
    ⟨htaken, hx, hT⟩ | ⟨j, worker, f, d, e, others, htaken, hd, he, hc⟩
  · rw [htaken, hx, hT]
    simpa using h
  · rw [htaken, he]
    rw [hd] at h
    cases hy : m.store.task? p t with
    | none =>
      rw [hy] at hc
      intro z hz
      rw [hz] at hc
      cases hc
      exact .inr (.inl rfl)
    | some y =>
      obtain ⟨pool, hpool, -⟩ := Store.exists_pool_of_task? hy
      have hrun : m.store.Running p :=
        Store.running_of_not_closed (fun hc => hp (hc.mono (m.after_keeps start mv))) hpool
      have hx := hm.exact p t hrun
      rw [hd] at hx
      exact h.change hrun rfl hx hc

/-- Once a wake call has returned, the task is heeded from then on. -/
theorem isHeeded_of_wake (hm : m.Scheduled) (hwake : m.stackOf i = .wake (.task p t) :: rest)
    (mvs mvs' : List (Move V J)) (hreturn : (m.run start mvs).stackOf i = rest)
    (hp : ¬ (m.run start (mvs ++ mvs')).store.Closed p) :
    IsHeeded p t ((m.run start (mvs ++ mvs')).store.task? p t) ((m.run start (mvs ++ mvs')).holds p t)
      (m.trace start (mvs ++ mvs')) := by
  have open_of_after : ∀ {m' : Machine V J} {mv}, ¬ (m'.after start mv).store.Closed p → ¬ m'.store.Closed p :=
    fun {m' mv} hp hc => hp (hc.mono (m'.after_keeps start mv))
  have during := trace_induction start
    (P := fun m' tr => m'.Scheduled ∧ (¬ m'.store.Closed p → m'.InWake i p t rest ∨
      IsHeeded p t (m'.store.task? p t) (m'.holds p t) tr))
    (fun m' tr mv ⟨hm', h⟩ => ⟨hm'.after mv, fun hp => (h (open_of_after hp)).elim
      (fun h => (h.after start hm'.framed mv).imp_right fun h => h.isHeeded _ _) fun h => .inr (isHeeded_after hm' mv hp h)⟩)
    ⟨hm, fun _ => .inl ⟨_, hwake, rfl⟩⟩ mvs
  have later := trace_induction start (m := m.run start mvs)
    (P := fun m' tr => m'.Scheduled ∧ (¬ m'.store.Closed p →
      IsHeeded p t (m'.store.task? p t) (m'.holds p t) (m.trace start mvs ++ tr)))
    (fun m' tr mv ⟨hm', h⟩ => ⟨hm'.after mv, fun hp => by
      rw [← List.append_assoc]
      exact isHeeded_after hm' mv hp (h (open_of_after hp))⟩)
    ⟨during.1, fun hp => by
      rw [List.append_nil]
      exact (during.2 hp).resolve_left fun h => h.ne hreturn⟩ mvs'
  rw [run_append, trace_append] at *
  exact later.2 hp

/-- The task was parked, and has not been handed back since. -/
def ParkedSince (p : PoolId) (t : TaskId) (tr : List (Taken V J)) : Prop :=
  ∃ (j : Nat) (e : Taken V J), tr[j]? = some e ∧ e.Suspends p t ∧
    ∀ (l : Nat) (e' : Taken V J), j < l → tr[l]? = some e' → ¬ e'.Reschedules p t

theorem ParkedSince.concat (h : ParkedSince p t tr) {e : Taken V J} (he : ¬ e.Reschedules p t) :
    ParkedSince p t (tr ++ [e]) := by
  obtain ⟨j, e', hj, hsus, hnot⟩ := h
  refine ⟨j, e', getElem?_concat_eq_some_iff.2 (.inl hj), hsus, fun l e'' hl hget => ?_⟩
  rcases getElem?_concat_eq_some_iff.1 hget with hget | ⟨-, rfl⟩
  · exact hnot l e'' hl hget
  · exact he

theorem ParkedSince.of_suspends {e : Taken V J} (he : e.Suspends p t) : ParkedSince p t (tr ++ [e]) := by
  refine ⟨tr.length, e, getElem?_concat_eq_some_iff.2 (.inr ⟨rfl, rfl⟩), he, fun l e' hl hget => ?_⟩
  have hlt := (List.getElem?_eq_some_iff.1 hget).1
  rw [List.length_append, List.length_singleton] at hlt
  omega

/-- The task is parked, or has just been taken out of its parking place. -/
def IsAside (x : Option (Task V J)) (T : Multiset (Hold V J)) : Prop :=
  (∃ y, x = some y ∧ y.state = .suspended) ∨ T = {.rescheduling}

/-- Only parking brings a task there. -/
theorem IsAside.of_change {s : Store V J} {f : Frame V J} {x y : Option (Task V J)}
    {d e others : Multiset (Hold V J)} (hs : Sound x (d + others)) (hc : Change start p t s f x d y e)
    (h : IsAside y (e + others)) :
    IsAside x (d + others) ∨ f = .task p t .park ∧ ∃ z, x = some z ∧ z.state = .running := by
  -- no other hold is one of a task that is aside, so only its state can make it so
  have swapped : ∀ {k k' : Hold V J} {z w : Option (Task V J)}, Sound z ({k} + others) →
      IsAside w ({k'} + others) → k' ≠ .rescheduling →
      ((∃ y, w = some y ∧ y.state = .suspended) → ∃ y, z = some y ∧ y.state = .suspended) →
      IsAside z ({k} + others) := by
    rintro k k' z w hs (h | h) hk hstate
    · exact .inl (hstate h)
    · rw [eq_zero_of_card_le hs.once, add_zero] at h
      exact absurd (Multiset.singleton_inj.1 h) hk
  have dropped : ∀ {k : Hold V J} {z w : Option (Task V J)}, Sound z ({k} + others) →
      IsAside w (0 + others) →
      ((∃ y, w = some y ∧ y.state = .suspended) → ∃ y, z = some y ∧ y.state = .suspended) →
      IsAside z ({k} + others) := by
    rintro k z w hs (h | h) hstate
    · exact .inl (hstate h)
    · rw [eq_zero_of_card_le hs.once] at h
      exact absurd h.symm (Multiset.singleton_ne_zero _)
  cases hc with
  | stay => exact .inl h
  | flag => exact .inl (h.imp_left fun ⟨_, hy, hstate⟩ => ⟨_, rfl, by cases hy; exact hstate⟩)
  | spawn =>
    rw [zero_add] at hs
    rw [hs.made rfl] at h
    rcases h with ⟨_, ⟨⟩, h⟩ | h
    · cases h
    · exact absurd (Multiset.singleton_inj.1 h) nofun
  | claim | requeue => exact .inl (swapped hs h nofun fun ⟨_, hy, hstate⟩ => by cases hy; cases hstate)
  | @enter z =>
    refine .inl (swapped hs h (fun hk => ?_) fun ⟨_, hy, hstate⟩ => ⟨_, rfl, by cases hy; exact hstate⟩)
    have hbody : (z.stage.entered start p t).HasBody := Stage.hasBody_entered _
    rw [hk] at hbody
    exact hbody
  | run hr hk => exact .inl (swapped hs h (fun h => by subst h; exact hk) id)
  | answer | handBack => exact .inl (swapped hs h nofun id)
  | pause => exact .inl (swapped hs h nofun fun ⟨_, hy, hstate⟩ => ⟨_, rfl, by cases hy; exact hstate⟩)
  | unpark => exact .inl (swapped hs h nofun id)
  | refuse => exact .inl (dropped hs h id)
  | @settle outcome =>
    refine .inl (dropped hs h fun ⟨_, hy, hstate⟩ => ?_)
    cases hy
    rcases outcome with ((_ | _) | _) <;> cases hstate
  | park hq => exact .inr ⟨rfl, _, rfl, hq⟩
  | wake hq => exact .inl (.inl ⟨_, rfl, hq⟩)
  | notify => exact .inl (h.imp_left fun ⟨_, hy, hstate⟩ => by cases hy; cases hstate)
  | lose =>
    refine .inl (h.imp_right fun hT => ?_)
    have hcard := hs.once
    rw [zero_add] at hT
    rw [hT, Multiset.card_add, Multiset.card_singleton] at hcard
    rw [Multiset.card_eq_zero.1 (show Multiset.card d = 0 by omega), hT, zero_add]
  | close hp hstate =>
    refine .inl (h.imp_left fun ⟨_, hy, hsus⟩ => ⟨_, rfl, ?_⟩)
    cases hy
    rcases hstate with h | h
    · rw [← h, hsus]
    · rw [hsus] at h; cases h

/-- What the trace tells of a task that was handed back. -/
structure HandedBack (p : PoolId) (t : TaskId) (m : Machine V J) (tr : List (Taken V J)) : Prop where
  /-- Who is parked now, or about to be handed back, has not been handed back since it was parked. -/
  aside : IsAside (m.store.task? p t) (m.holds p t) → ParkedSince p t tr
  /-- Whoever was handed back had been parked, and not been handed back since then. -/
  parked : ∀ (k : Nat) (e : Taken V J), tr[k]? = some e → e.Reschedules p t →
    ∃ (j : Nat) (e' : Taken V J), j < k ∧ tr[j]? = some e' ∧ e'.Suspends p t ∧
      ∀ (l : Nat) (e'' : Taken V J), j < l → l < k → tr[l]? = some e'' → ¬ e''.Reschedules p t

theorem HandedBack.initial : HandedBack p t ({} : Machine V J) [] := by
  refine ⟨?_, by simp⟩
  rintro (⟨y, hy, -⟩ | hT)
  · simp [Store.task?_eq] at hy
  · simp [holds, Store.holds, Store.waiting] at hT

/-- After it was handed back the task is no longer aside. -/
theorem not_isAside_of_reschedules (start : J → Except RuntimeError (Body V J))
    (hs : Sound (m.store.task? p t) (m.holds p t)) {mv : Move V J} {e : Taken V J} (h : m.taken mv = some e)
    (he : e.Reschedules p t) :
    ¬ IsAside ((m.after start mv).store.task? p t) ((m.after start mv).holds p t) := by
  have he' : e.frame = .reschedule p t := he
  have hk : e.frame.holds e.worker p t = {.rescheduling} := by rw [he']; exact if_pos ⟨rfl, rfl⟩
  have hall := holds_eq_of_taken hs h hk
  obtain ⟨choice, hstore, hafter⟩ := holds_after_of_taken start hs h hk
  have hsame : (m.after start mv).store = m.store := by
    rw [hstore, he', Frame.step, Frame.stepReschedule]
    split <;> rfl
  rintro (⟨y, hy, hstate⟩ | hT)
  · rw [hsame] at hy
    exact absurd (hall.symm.trans (hs.parked y hy hstate)) (Multiset.singleton_ne_zero _)
  · rw [hafter (by rw [hsame]), he', Frame.step, Frame.stepReschedule] at hT
    split at hT
    · simp [Frame.holds] at hT
    · exact absurd hT.symm (Multiset.singleton_ne_zero _)

/-- Every move keeps this. -/
theorem HandedBack.after (hm : m.Scheduled) (h : HandedBack p t m tr) (mv : Move V J) :
    HandedBack p t (m.after start mv) (tr ++ (m.taken mv).toList) := by
  have hs := hm.sound p t
  rcases change start hm.framed hs.made mv with
    ⟨htaken, hx, hT⟩ | ⟨i, worker, f, d, e, others, htaken, hd, he, hc⟩
  · rw [htaken, Option.toList_none, List.append_nil]
    exact ⟨by rw [hx, hT]; exact h.aside, h.parked⟩
  · rw [htaken, Option.toList_some]
    refine ⟨fun haside => ?_, fun k ev hget hev => ?_⟩
    · have hnot : ¬ Taken.Reschedules p t ⟨i, worker, f, m.store⟩ := fun hev =>
        not_isAside_of_reschedules start hs htaken hev haside
      rw [he] at haside
      rw [hd] at hs
      rcases haside.of_change hs hc with hbefore | ⟨rfl, hrunning⟩
      · rw [← hd] at hbefore
        exact (h.aside hbefore).concat hnot
      · exact .of_suspends ⟨rfl, hrunning⟩
    · rcases getElem?_concat_eq_some_iff.1 hget with hget | ⟨rfl, rfl⟩
      · obtain ⟨j, e', hjk, hj, hsus, hnot⟩ := h.parked k ev hget hev
        have hlt : k < tr.length := (List.getElem?_eq_some_iff.1 hget).1
        refine ⟨j, e', hjk, getElem?_concat_eq_some_iff.2 (.inl hj), hsus, fun l e'' hjl hlk hl => ?_⟩
        rcases getElem?_concat_eq_some_iff.1 hl with hl | ⟨rfl, -⟩
        · exact hnot l e'' hjl hlk hl
        · omega
      · have hk : f.holds worker p t = {.rescheduling} := by
          rw [show f = .reschedule p t from hev]
          exact if_pos ⟨rfl, rfl⟩
        obtain ⟨j, e', hj, hsus, hnot⟩ := h.aside (.inr (holds_eq_of_taken hs htaken hk))
        refine ⟨j, e', (List.getElem?_eq_some_iff.1 hj).1, getElem?_concat_eq_some_iff.2 (.inl hj), hsus,
          fun l e'' hjl hlk hl => ?_⟩
        rcases getElem?_concat_eq_some_iff.1 hl with hl | ⟨rfl, -⟩
        · exact hnot l e'' hjl hl
        · omega

theorem handedBack_run (start : J → Except RuntimeError (Body V J)) (p : PoolId) (t : TaskId)
    (mvs : List (Move V J)) :
    HandedBack p t (({} : Machine V J).run start mvs) (({} : Machine V J).trace start mvs) :=
  (trace_induction start (P := fun m tr => m.Scheduled ∧ HandedBack p t m tr)
    (fun _ _ mv ⟨hm, h⟩ => ⟨hm.after mv, h.after hm mv⟩) ⟨.initial 0, .initial⟩ mvs).2

end Machine
end Dataflow
