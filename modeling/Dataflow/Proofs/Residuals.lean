import Dataflow.Proofs.Registrations

/-!
# What is left of a dataflow body

A dataflow body awaits cells and puts, and does nothing else that anyone else could notice. What is left of it
is told by the values of the cells alone: `Body.Advances σ` goes on past everything that `σ` has a value for,
in one way only (`Body.advances_rightUnique`), and the more values there are the further (`Body.Advances.mono`).

The body that a worker has in hand differs from such a rest in the keys it holds and in which of two reads it
has been told already (`Body.Follows`). No instruction leads away from that (`Frame.stands_stepRun`).
-/

namespace Dataflow

variable {V J : Type}

namespace Body

/-- The body awaits cells, puts and says something, and nothing else. -/
def IsDataflow : Body V J → Prop
  | .done _ | .panic _ => True
  | .get _ _ next => ∀ answer, (next answer).IsDataflow
  | .join _ _ _ next => ∀ x y, (next x y).IsDataflow
  | .put _ _ next => ∀ answer, (next answer).IsDataflow
  | .note _ next => next.IsDataflow
  | _ => False

/-- How a body ends that has nothing left to do. -/
def outcome? : Body V J → Option Outcome
  | .done result => some (.returned result)
  | .panic message => some (.panicked message)
  | _ => none

end Body

/-- The answer to a read where the cells have these values. -/
def Wait.value? (σ : CellId → Option V) : Wait V → Option (Except RuntimeError V)
  | .open c _ => (σ c).map .ok
  | .answered answer => some answer

/-- One assignment has all the values of another. -/
def Extends (σ σ' : CellId → Option V) : Prop := ∀ c v, σ c = some v → σ' c = some v

theorem Wait.value?_mono {σ σ' : CellId → Option V} (h : Extends σ σ') {w : Wait V} {x : Except RuntimeError V}
    (hw : w.value? σ = some x) : w.value? σ' = some x := by
  cases w with
  | answered answer => exact hw
  | «open» c key =>
    obtain ⟨v, hv, rfl⟩ := Option.map_eq_some_iff.1 hw
    rw [value?, h c v hv]
    rfl

namespace Body

/-- A dataflow body goes on by one instruction where the cells have these values. A put goes on where its
value is among them. -/
inductive Advances (σ : CellId → Option V) : Body V J → Body V J → Prop where
  | get {c key next v} (h : σ c = some v) : Advances σ (.get c key next) (next (.ok v))
  | join {a b second next x y} (ha : a.value? σ = some x) (hb : b.value? σ = some y) :
    Advances σ (.join a b second next) (next x y)
  | put {c v next} (h : σ c = some v) : Advances σ (.put c v next) (next (.ok ()))
  | note {note next} : Advances σ (.note note next) next

variable {σ σ' : CellId → Option V} {b b' : Body V J}

theorem Advances.mono (h : Advances σ b b') (hσ : Extends σ σ') : Advances σ' b b' := by
  cases h with
  | get h => exact .get (hσ _ _ h)
  | join ha hb => exact .join (Wait.value?_mono hσ ha) (Wait.value?_mono hσ hb)
  | put h => exact .put (hσ _ _ h)
  | note => exact .note

theorem advances_rightUnique : Relator.RightUnique (Advances (V := V) (J := J) σ) := by
  intro b b' b'' h h'
  cases h with
  | get h =>
    cases h' with
    | get h' =>
      rw [h, Option.some.injEq] at h'
      rw [h']
  | join ha hb =>
    cases h' with
    | join ha' hb' =>
      rw [ha, Option.some.injEq] at ha'
      rw [hb, Option.some.injEq] at hb'
      rw [ha', hb']
  | put => cases h'; rfl
  | note => cases h'; rfl

/-- A rest of the body, where the cells have these values. -/
abbrev AdvancesTo (σ : CellId → Option V) : Body V J → Body V J → Prop := Relation.ReflTransGen (Advances σ)

theorem AdvancesTo.mono (h : AdvancesTo σ b b') (hσ : Extends σ σ') : AdvancesTo σ' b b' := by
  induction h with
  | refl => exact .refl
  | tail _ h ih => exact ih.tail (h.mono hσ)

theorem IsDataflow.advances (hb : b.IsDataflow) (h : Advances σ b b') : b'.IsDataflow := by
  cases h with
  | get | put => exact hb _
  | join => exact hb _ _
  | note => exact hb

theorem IsDataflow.advancesTo (hb : b.IsDataflow) (h : AdvancesTo σ b b') : b'.IsDataflow := by
  induction h with
  | refl => exact hb
  | tail _ h ih => exact ih.advances h

end Body

/-- What has become of a read: it may have been told the value. -/
inductive Wait.Follows (σ : CellId → Option V) : Wait V → Wait V → Prop where
  | open {c key key'} : Wait.Follows σ (.open c key) (.open c key')
  | answered {w x} (h : w.value? σ = some x) : Wait.Follows σ w (.answered x)

/-- What has become of the first instruction of a body, in the hands of those who polled it. -/
inductive Body.Follows (σ : CellId → Option V) : Body V J → Body V J → Prop where
  | refl (b) : Body.Follows σ b b
  | get {c key key' next} : Body.Follows σ (.get c key next) (.get c key' next)
  | join {a a' b b' second second' next} (ha : a.Follows σ a') (hb : b.Follows σ b') :
    Body.Follows σ (.join a b second next) (.join a' b' second' next)

namespace Wait.Follows

variable {σ σ' : CellId → Option V} {w w' : Wait V}

theorem refl (w : Wait V) : w.Follows σ w := by
  cases w with
  | «open» c key => exact .open
  | answered answer => exact .answered rfl

theorem mono (h : w.Follows σ w') (hσ : Extends σ σ') : w.Follows σ' w' := by
  cases h with
  | «open» => exact .open
  | answered h => exact .answered (Wait.value?_mono hσ h)

theorem value? (h : w.Follows σ w') {x : Except RuntimeError V} (hw : w'.value? σ = some x) :
    w.value? σ = some x := by
  cases h with
  | «open» => exact hw
  | answered h =>
    rw [h]
    exact hw

end Wait.Follows

namespace Body.Follows

variable {σ σ' : CellId → Option V} {b b' : Body V J}

theorem mono (h : b.Follows σ b') (hσ : Extends σ σ') : b.Follows σ' b' := by
  cases h with
  | refl => exact .refl _
  | get => exact .get
  | join ha hb => exact .join (ha.mono hσ) (hb.mono hσ)

theorem isDataflow (h : b.Follows σ b') (hb : b.IsDataflow) : b'.IsDataflow := by
  cases h <;> exact hb

theorem eq_get {c : CellId} {key : Option Nat} {next : Except RuntimeError V → Body V J}
    (h : b.Follows σ (.get c key next)) : ∃ key', b = .get c key' next := by
  cases h <;> exact ⟨_, rfl⟩

theorem eq_join {a' c' : Wait V} {second' : Bool} {next : Except RuntimeError V → Except RuntimeError V → Body V J}
    (h : b.Follows σ (.join a' c' second' next)) :
    ∃ a c second, b = .join a c second next ∧ a.Follows σ a' ∧ c.Follows σ c' := by
  cases h with
  | refl => exact ⟨_, _, _, rfl, .refl _, .refl _⟩
  | join ha hc => exact ⟨_, _, _, rfl, ha, hc⟩

end Body.Follows

/-- The value of a full cell. -/
def Store.value? (s : Store V J) (c : CellId) : Option V :=
  match (s.cell c).payload with
  | .full value => some value
  | _ => none

theorem Store.value?_eq_some_iff {s : Store V J} {c : CellId} {v : V} :
    s.value? c = some v ↔ (s.cell c).payload = .full v := by
  unfold value?
  cases (s.cell c).payload <;> simp

namespace Body

/-- A worker that began with one body has come to the other. -/
def Reaches (σ : CellId → Option V) (b₀ body : Body V J) : Prop := ∃ b, AdvancesTo σ b₀ b ∧ b.Follows σ body

/-- The body has come to its end. -/
def Ends (σ : CellId → Option V) (b₀ : Body V J) (outcome : Outcome) : Prop :=
  ∃ b, AdvancesTo σ b₀ b ∧ b.outcome? = some outcome

/-- Of two reads that are polled in turn, the first has been polled when it is the turn of the second. -/
def IsTurned : Body V J → Prop
  | .join a _ true _ => (∃ x, a = .answered x) ∨ a.held ≠ []
  | _ => True

variable {σ σ' : CellId → Option V} {b₀ b body : Body V J}

theorem Fresh.isTurned (h : body.Fresh) : body.IsTurned := by
  cases body with
  | join a b second next =>
    obtain ⟨⟨-, -, rfl⟩, -⟩ := h
    trivial
  | _ => trivial

theorem Reaches.mono (h : Reaches σ b₀ body) (hσ : Extends σ σ') : Reaches σ' b₀ body := by
  obtain ⟨b, h, hb⟩ := h
  exact ⟨b, h.mono hσ, hb.mono hσ⟩

theorem Ends.mono {outcome : Outcome} (h : Ends σ b₀ outcome) (hσ : Extends σ σ') : Ends σ' b₀ outcome := by
  obtain ⟨b, h, hb⟩ := h
  exact ⟨b, h.mono hσ, hb⟩

theorem Reaches.isDataflow (h : Reaches σ b₀ body) (hb : b₀.IsDataflow) : body.IsDataflow := by
  obtain ⟨b, h, hfollows⟩ := h
  exact hfollows.isDataflow (hb.advancesTo h)

/-- The body goes no further where the cells have these values, and so its task is in this state. -/
def Rests (σ : CellId → Option V) : Body V J → TaskState → Prop
  | .done result, state => state = Frame.finalState (.returned result)
  | .panic message, state => state = Frame.finalState (.panicked message)
  | .get c _ _, state => σ c = none ∧ state = .suspended
  | .join a b _ _, state => (a.value? σ = none ∨ b.value? σ = none) ∧ state = .suspended
  | _, _ => False

namespace Rests

variable {state state' : TaskState}

theorem not_advances (h : b.Rests σ state) : ¬ Advances σ b b' := by
  intro hb
  cases hb with
  | get hv =>
    rw [h.1] at hv
    cases hv
  | join hx hy =>
    rcases h.1 with hnone | hnone
    · rw [hnone] at hx
      cases hx
    · rw [hnone] at hy
      cases hy
  | put | note => exact h

theorem eq_state (h : b.Rests σ state) (h' : b.Rests σ state') : state = state' := by
  cases b with
  | done | panic => exact Eq.trans h (Eq.symm h')
  | get | join => exact h.2.trans h'.2.symm
  | _ => exact h.elim

/-- All that the body has come to on its way to where it rests leads there. -/
theorem advancesTo (h : b.Rests σ state) (hb : AdvancesTo σ b₀ b) (hb' : AdvancesTo σ b₀ b') : AdvancesTo σ b' b := by
  rcases Relation.ReflTransGen.total_of_right_unique advances_rightUnique hb' hb with hback | hon
  · exact hback
  · rcases hon.cases_head with rfl | ⟨b'', hstep, -⟩
    · exact .refl
    · exact absurd hstep h.not_advances

theorem of_outcome? {outcome : Outcome} (h : b.outcome? = some outcome) : b.Rests σ (Frame.finalState outcome) := by
  cases b <;> cases h <;> rfl

/-- A body with reads registered rests if none of their cells has a value. -/
theorem of_follows (hb : b.IsDataflow) (h : b.Follows σ body) (hheld : body.held ≠ [])
    (hnone : ∀ c key, (c, key) ∈ body.held → σ c = none) : b.Rests σ .suspended := by
  have waiting : ∀ {w w' : Wait V}, w.Follows σ w' → w'.held ≠ [] → (∀ c key, (c, key) ∈ w'.held → σ c = none) →
      w.value? σ = none := by
    intro w w' hw hheld hnone
    cases hw with
    | @«open» c key key' =>
      cases key' with
      | none => exact absurd rfl hheld
      | some key' => rw [Wait.value?, hnone c key' (List.mem_singleton_self _), Option.map_none]
    | answered => exact absurd rfl hheld
  have hbody := h.isDataflow hb
  cases body with
  | get c key next =>
    obtain ⟨key', rfl⟩ := h.eq_get
    cases key with
    | none => exact absurd rfl hheld
    | some key => exact ⟨hnone c key (List.mem_singleton_self _), rfl⟩
  | join a c second next =>
    obtain ⟨a₀, c₀, second₀, rfl, ha, hc⟩ := h.eq_join
    refine ⟨?_, rfl⟩
    by_cases hleft : a.held = []
    · refine .inr (waiting hc (fun hnil => hheld ?_) fun c' key hmem => hnone c' key (List.mem_append_right _ hmem))
      exact List.append_eq_nil_iff.2 ⟨hleft, hnil⟩
    · exact .inl (waiting ha hleft fun c' key hmem => hnone c' key (List.mem_append_left _ hmem))
  | done | panic | put | note => exact absurd rfl hheld
  | _ => exact hbody.elim

end Rests

end Body

namespace Frame

variable {σ σ' : CellId → Option V} {b₀ : Body V J} {worker : Option (PoolId × Nat)} {s : Store V J}

/-- The frame carries on a dataflow body that has been run as it should. -/
def Stands (σ : CellId → Option V) (b₀ : Body V J) : Frame V J → Prop
  | .run r => Body.Reaches σ b₀ r.body ∧ r.body.IsTurned
  | .pause r => Body.Reaches σ b₀ r.body ∧ r.body.IsTurned ∧ r.body.held ≠ []
  | .ended _ outcome => Body.Ends σ b₀ outcome
  | .blocked .. | .spawn .. => False
  | _ => True

theorem follows_pollWait (hkept : ∀ c, (s.cell c).payload ≠ .destroyed) (party : Party) {w w' : Wait V}
    (h : w.Follows s.value? w') : w.Follows s.value? (pollWait s party w').1 := by
  cases w' with
  | answered answer => exact h
  | «open» c key =>
    have hvalue : w.value? s.value? = (Wait.open c key : Wait V).value? s.value? := by
      cases h
      rfl
    simp only [pollWait, Cell.poll]
    split
    · rename_i v hv
      refine .answered (hvalue.trans ?_)
      rw [Wait.value?, Store.value?_eq_some_iff.2 hv]
      rfl
    · rename_i hgone
      exact absurd hgone (hkept c)
    · cases h
      exact .open

/-- A read that was polled is answered or registered. -/
theorem answered_or_held_pollWait (party : Party) (w : Wait V) :
    (∃ x, (pollWait s party w).1 = .answered x) ∨ (pollWait s party w).1.held ≠ [] := by
  cases w with
  | answered answer => exact .inl ⟨answer, rfl⟩
  | «open» c key =>
    simp only [pollWait, Cell.poll]
    split
    · exact .inl ⟨_, rfl⟩
    · exact .inl ⟨_, rfl⟩
    · exact .inr (List.cons_ne_nil _ _)

/-- An instruction of a dataflow body leads on as the values of the cells tell. -/
theorem stands_stepRun {r : Run V J} (hdata : b₀.IsDataflow) (hproper : r.body.Proper)
    (hkept : ∀ c, (s.cell c).payload ≠ .destroyed) (hσ : Extends s.value? σ')
    (hput : ∀ c v, (run r).put? = some (c, v) → (s.cell c).payload = .empty ∧ σ' c = some v)
    (h : (run r).Stands s.value? b₀) : ∀ g ∈ (stepRun worker s r).2, g.Stands σ' b₀ := by
  obtain ⟨party, guards, body⟩ := r
  obtain ⟨hreaches, hturned⟩ := h
  have hdata' := hreaches.isDataflow hdata
  obtain ⟨b, hb, hfollows⟩ := hreaches
  have going : ∀ {body' : Body V J}, body'.Fresh → Body.Advances σ' b body' →
      (run ⟨party, guards, body'⟩ : Frame V J).Stands σ' b₀ := fun hbody h =>
    ⟨⟨_, (hb.mono hσ).tail h, .refl _⟩, hbody.isTurned⟩
  cases body with
  | done result =>
    obtain rfl : b = .done result := by cases hfollows; rfl
    simp only [stepRun, List.mem_cons, List.not_mem_nil, or_false, forall_eq_or_imp, forall_eq]
    exact ⟨trivial, _, hb.mono hσ, rfl⟩
  | panic message =>
    obtain rfl : b = .panic message := by cases hfollows; rfl
    simp only [stepRun, List.mem_cons, List.not_mem_nil, or_false, forall_eq_or_imp, forall_eq]
    exact ⟨trivial, _, hb.mono hσ, rfl⟩
  | get c key next =>
    obtain ⟨key', rfl⟩ := hfollows.eq_get
    have hfollows' := follows_pollWait hkept party (Wait.Follows.refl (.open c key))
    have hasked := answered_or_held_pollWait (s := s) party (.open c key)
    rcases hp : pollWait s party (.open c key) with ⟨_ | answer, s'⟩ <;> rw [hp] at hfollows' hasked <;>
      simp only [stepRun, hp, List.mem_singleton, forall_eq]
    · rename_i c' key''
      cases hfollows'
      refine ⟨⟨_, hb.mono hσ, .get⟩, trivial, ?_⟩
      obtain ⟨x, hx⟩ | hheld := hasked
      · cases hx
      · cases key'' with
        | none => exact absurd rfl hheld
        | some key'' => exact List.cons_ne_nil _ _
    · cases hfollows' with
      | answered hvalue =>
        obtain ⟨v, hv, rfl⟩ := Option.map_eq_some_iff.1 hvalue
        exact going (hproper _) (.get (hσ c v hv))
  | join a c second next =>
    obtain ⟨a₀, c₀, second₀, rfl, ha, hc⟩ := hfollows.eq_join
    cases second with
    | false =>
      have ha' := follows_pollWait hkept party ha
      have hasked := answered_or_held_pollWait (s := s) party a
      rcases hp : pollWait s party a with ⟨a', s'⟩
      rw [hp] at ha' hasked
      simp only [stepRun, hp, List.mem_singleton, forall_eq]
      exact ⟨⟨_, hb.mono hσ, .join (ha'.mono hσ) (hc.mono hσ)⟩, hasked⟩
    | true =>
      have hc' := follows_pollWait hkept party hc
      have hasked := answered_or_held_pollWait (s := s) party c
      rcases hp : pollWait s party c with ⟨c', s'⟩
      rw [hp] at hc' hasked
      have waiting : a.held ≠ [] ∨ c'.held ≠ [] →
          (pause ⟨party, guards, .join a c' false next⟩ : Frame V J).Stands σ' b₀ := by
        intro hheld
        refine ⟨⟨_, hb.mono hσ, .join (ha.mono hσ) (hc'.mono hσ)⟩, trivial, fun hnil => ?_⟩
        obtain ⟨hnil, hnil'⟩ := List.append_eq_nil_iff.1 hnil
        exact hheld.elim (· hnil) (· hnil')
      simp only [stepRun, hp]
      split
      · simp only [List.mem_singleton, forall_eq]
        exact going (hproper _ _) (.join (Wait.value?_mono hσ (ha.value? rfl)) (Wait.value?_mono hσ (hc'.value? rfl)))
      · rename_i hnot
        simp only [List.mem_singleton, forall_eq]
        refine waiting ?_
        obtain ⟨x, rfl⟩ | hheld := hturned
        · obtain ⟨y, rfl⟩ | hheld := hasked
          · exact absurd rfl (hnot x y rfl)
          · exact .inr hheld
        · exact .inl hheld
  | put c v next =>
    obtain rfl : b = .put c v next := by cases hfollows; rfl
    obtain ⟨hempty, hvalue⟩ := hput c v rfl
    intro g hg
    simp only [stepRun, Cell.put_of_empty hempty] at hg
    rcases List.mem_append.1 hg with hg | hg
    · have hquiet := isQuiet_afterPut hg
      cases g <;> trivial
    · rw [List.mem_singleton.1 hg]
      exact going (hproper _) (.put hvalue)
  | note note next =>
    obtain rfl : b = .note note next := by cases hfollows; rfl
    simp only [stepRun, List.mem_singleton, forall_eq]
    exact going hproper .note
  | _ => exact hdata'.elim

end Frame
end Dataflow
