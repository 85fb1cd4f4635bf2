import Dataflow.Arguments
import Dataflow.Pool.Machine
import Dataflow.Proofs.Packing

/-!
# Marshalling is exact

An argument list made by packing values one after the other is taken apart into exactly these values, provided
that there are as many parameters as values and that each has the type its argument was packed from. If the
numbers differ, that is the error, whatever the types are; otherwise it is the first position at which the types
differ. `Argument.take` looks at the value only under an equal tag, and then `unpack_pack` applies: a packed
value is never refused there.

`nextAll_toData` and `exists_mismatch` are the two inductions, both on the parameters along the packed values.
Calling a core on the arguments is put in terms of an arbitrary monad, so that whatever calling it does happens
once or not at all; what it returns, the body of a task, is handed on as it is, and the task that is entered has
all of it still to run.
-/

namespace Dataflow

/-- A task is entered with a job that was never started. -/
theorem Frame.step_enter_of_unclaimed {V J : Type} {start : J → Except RuntimeError (Body V J)} {job : J}
    {s : Store V J} {p : PoolId} {t : TaskId} {found : Task V J} (htask : s.task? p t = some found)
    (hstage : found.stage = .unclaimed job) (worker : Option (PoolId × Nat)) (choice : Nat) :
    (Frame.task p t .enter).step start worker choice s =
      ((s.setStage p t .consumed).modifyPool p (fun pool => { pool with queued := pool.queued - 1 }),
        match start job with
        | .error e => [.ended (.task p t) (.returned (.error e))]
        | .ok body => [.run { party := .task p t, body }]) := by
  unfold Frame.step Frame.stepTask
  simp only [htask, hstage]
  cases start job <;> rfl

variable [SealedTypes]

/-- The packed form of a value with its type. -/
def Datum.argument (d : Datum) : Argument := .ofValue d.tag d.value

/-- The arguments made by packing values one after the other. -/
def Arguments.ofData (data : List Datum) : Arguments := data.foldl (fun a d => a.push d.tag d.value) {}

theorem Arguments.slots_ofData (data : List Datum) : (ofData data).slots = data.map Datum.argument := by
  have h : ∀ a : Arguments, (data.foldl (fun a d => a.push d.tag d.value) a).slots =
      a.slots ++ data.map Datum.argument := by
    induction data with
    | nil =>
      intro a
      simp
    | cons d data ih =>
      intro a
      rw [List.foldl_cons, ih]
      simp [Arguments.push, Datum.argument]
  exact h {}

namespace Values

/-- The values with their types. -/
def toData : {ts : List Tag} → Values ts → List Datum
  | [], () => []
  | t :: _, (v, vs) => ⟨t, v⟩ :: Values.toData vs

theorem map_tag : {ts : List Tag} → (vs : Values ts) → vs.toData.map (·.tag) = ts
  | [], () => rfl
  | t :: _, (_, vs) => congrArg (t :: ·) (map_tag vs)

theorem exists_toData : (data : List Datum) → ∃ vs : Values (data.map (·.tag)), vs.toData = data
  | [] => ⟨(), rfl⟩
  | d :: data => by
    obtain ⟨vs, hvs⟩ := exists_toData data
    exact ⟨(d.value, vs), congrArg (d :: ·) hvs⟩

theorem slots_ofValues : {ts : List Tag} → (vs : Values ts) →
    (Arguments.ofValues ts vs).slots = vs.toData.map Datum.argument
  | [], () => rfl
  | t :: _, (v, vs) => congrArg (Argument.ofValue t v :: ·) (slots_ofValues vs)

/-- Packing all values at once or one after the other is the same. -/
theorem ofValues_eq {ts : List Tag} (vs : Values ts) : Arguments.ofValues ts vs = .ofData vs.toData :=
  congrArg Arguments.mk ((slots_ofValues vs).trans (Arguments.slots_ofData vs.toData).symm)

end Values

/-! ### One argument -/

namespace Argument

theorem take_ofValue (t : Tag) (v : t.Value) (i : Nat) : (ofValue t v).take t i = .ok v := by
  have htag : (ofValue t v).tag = t := rfl
  rw [take, if_neg (not_not_intro htag)]
  simp only [ofValue, unpack_pack]

theorem take_ofValue_of_ne {t t' : Tag} (h : t ≠ t') (v : t.Value) (i : Nat) :
    (ofValue t v).take t' i = .error (.typeMismatch i t' t) := by
  show (if t ≠ t' then Except.error (RuntimeError.typeMismatch i t' t) else _) = _
  rw [if_pos h]

end Argument

/-! ### All arguments -/

namespace ArgumentReader

section

variable {arity i : Nat} {a : Argument} {rest : List Argument} {t : Tag} {ts : List Tag}

theorem nextAll_cons_ok {v : t.Value} (h : a.take t i = .ok v) :
    nextAll ⟨arity, i, a :: rest⟩ (t :: ts) = (nextAll ⟨arity, i + 1, rest⟩ ts).map fun vs => (v, vs) := by
  have hnext : next ⟨arity, i, a :: rest⟩ t = (.ok v, ⟨arity, i + 1, rest⟩) := congrArg (·, _) h
  rw [nextAll, hnext]
  cases hrest : nextAll ⟨arity, i + 1, rest⟩ ts with
  | error e => simp only [hrest]; rfl
  | ok vs => simp only [hrest]; rfl

theorem nextAll_cons_error {e : RuntimeError} (h : a.take t i = .error e) :
    nextAll ⟨arity, i, a :: rest⟩ (t :: ts) = .error e := by
  have hnext : next ⟨arity, i, a :: rest⟩ t = (.error e, ⟨arity, i + 1, rest⟩) := congrArg (·, _) h
  unfold nextAll
  rw [hnext]

end

theorem nextAll_toData (arity : Nat) : ∀ {ts : List Tag} (vs : Values ts) (i : Nat),
    nextAll ⟨arity, i, vs.toData.map Datum.argument⟩ ts = .ok vs
  | [], (), i => rfl
  | t :: ts, (v, vs), i => by
    refine (nextAll_cons_ok (Argument.take_ofValue t v i)).trans ?_
    rw [nextAll_toData arity vs (i + 1)]
    rfl

/-- Reading fails at the first position where the types differ. -/
theorem exists_mismatch (arity : Nat) : ∀ {ts : List Tag} {data : List Datum} (i : Nat),
    data.length = ts.length → data.map (·.tag) ≠ ts →
    ∃ (j : Nat) (d : Datum) (t : Tag), data[j]? = some d ∧ ts[j]? = some t ∧ d.tag ≠ t ∧
      (∀ k < j, data[k]?.map (·.tag) = ts[k]?) ∧
      nextAll ⟨arity, i, data.map Datum.argument⟩ ts = .error (.typeMismatch (i + j) t d.tag)
  | [], [], i, hlen, hne => absurd rfl hne
  | t :: ts, ⟨tag, v⟩ :: data, i, hlen, hne => by
    by_cases htag : tag = t
    · subst htag
      have hne' : data.map (·.tag) ≠ ts := by
        intro h
        exact hne (congrArg (tag :: ·) h)
      -- the reader has gone on by one, so it reports the same position that is one further from here
      obtain ⟨j, d, t, hd, ht, hdiff, hbefore, herr⟩ :=
        exists_mismatch arity (i + 1) (Nat.succ.inj hlen) hne'
      refine ⟨j + 1, d, t, hd, ht, hdiff, ?_, ?_⟩
      · intro k hk
        cases k with
        | zero => rfl
        | succ k => exact hbefore k (by omega)
      · refine (nextAll_cons_ok (Argument.take_ofValue tag v i)).trans ?_
        rw [herr, Nat.add_right_comm]
        rfl
    · refine ⟨0, ⟨tag, v⟩, t, rfl, rfl, htag, ?_, ?_⟩
      · intro k hk
        exact absurd hk (Nat.not_lt_zero k)
      · exact nextAll_cons_error (Argument.take_ofValue_of_ne htag v i)

end ArgumentReader

namespace Arguments

theorem size_ofData (data : List Datum) : (ofData data).size = data.length := by
  unfold size
  rw [slots_ofData, List.length_map]

theorem unpack_ofData {data : List Datum} {ts : List Tag} (h : data.length = ts.length) :
    (ofData data).unpack ts = ArgumentReader.nextAll ⟨ts.length, 0, data.map Datum.argument⟩ ts := by
  unfold unpack reader
  rw [if_neg (by rw [size_ofData, h]; exact not_not_intro rfl), slots_ofData]

theorem unpack_toData {ts : List Tag} (vs : Values ts) : (ofData vs.toData).unpack ts = .ok vs := by
  have hlen := congrArg List.length vs.map_tag
  rw [List.length_map] at hlen
  rw [unpack_ofData hlen, ArgumentReader.nextAll_toData]

theorem unpack_of_length_ne {data : List Datum} {ts : List Tag} (h : data.length ≠ ts.length) :
    (ofData data).unpack ts = .error (.arityMismatch ts.length data.length) := by
  unfold unpack reader
  rw [if_pos (by rwa [size_ofData]), size_ofData]

theorem exists_error_of_ne {data : List Datum} {ts : List Tag} (h : data.map (·.tag) ≠ ts) :
    ∃ e, (ofData data).unpack ts = .error e := by
  by_cases hlen : data.length = ts.length
  · obtain ⟨j, d, t, -, -, -, -, herr⟩ := ArgumentReader.exists_mismatch ts.length 0 hlen h
    exact ⟨_, (unpack_ofData hlen).trans herr⟩
  · exact ⟨_, unpack_of_length_ne hlen⟩

theorem unpack_eq_ok_iff {data : List Datum} {ts : List Tag} {vs : Values ts} :
    (ofData data).unpack ts = .ok vs ↔ vs.toData = data := by
  constructor
  · intro h
    by_cases htags : data.map (·.tag) = ts
    · subst htags
      obtain ⟨ws, hws⟩ := Values.exists_toData data
      have hok := unpack_toData ws
      rw [hws, h] at hok
      cases hok
      exact hws
    · obtain ⟨e, he⟩ := exists_error_of_ne htags
      rw [he] at h
      cases h
  · rintro rfl
    exact unpack_toData vs

theorem exists_ok_iff {data : List Datum} {ts : List Tag} :
    (∃ vs, (ofData data).unpack ts = .ok vs) ↔ data.map (·.tag) = ts := by
  constructor
  · rintro ⟨vs, h⟩
    rw [← unpack_eq_ok_iff.mp h, vs.map_tag]
  · rintro rfl
    obtain ⟨vs, hvs⟩ := Values.exists_toData data
    exact ⟨vs, unpack_eq_ok_iff.mpr hvs⟩

section

variable {m : Type → Type} [Monad m] {F : Type} {data : List Datum} {ts : List Tag}

theorem run_of_toData {vs : Values ts} (h : vs.toData = data) (core : Values ts → m F) :
    (ofData data).run ts core = Except.ok <$> core vs := by
  unfold run
  rw [unpack_eq_ok_iff.mpr h]

theorem run_of_error {e : RuntimeError} (h : (ofData data).unpack ts = .error e) (core : Values ts → m F) :
    (ofData data).run ts core = pure (.error e) := by
  unfold run
  rw [h]

end

end Arguments

/-! ### Marshalling -/

open Arguments

/-- Packing values and unpacking them as parameters of given types. -/
structure ExactMarshalling : Prop where
  /-- It makes no difference whether the values are packed all at once or one after the other. -/
  packed : ∀ (ts : List Tag) (vs : Values ts), ofValues ts vs = ofData vs.toData
  /-- The value under a tag is never refused as a value of that type. -/
  value : ∀ (t : Tag) (v : t.Value), unpack (Argument.ofValue t v).tag (Argument.ofValue t v).value = some v
  slot : ∀ (t : Tag) (v : t.Value) (i : Nat), (Argument.ofValue t v).take t i = .ok v
  otherSlot : ∀ (t t' : Tag) (v : t.Value) (i : Nat), t ≠ t' →
    (Argument.ofValue t v).take t' i = .error (.typeMismatch i t' t)
  /-- Exactly the packed values come out, in order. -/
  exact : ∀ (data : List Datum) (ts : List Tag) (vs : Values ts),
    (ofData data).unpack ts = .ok vs ↔ vs.toData = data
  accepted : ∀ (data : List Datum) (ts : List Tag),
    (∃ vs, (ofData data).unpack ts = .ok vs) ↔ data.map (·.tag) = ts
  arity : ∀ (data : List Datum) (ts : List Tag), data.length ≠ ts.length →
    (ofData data).unpack ts = .error (.arityMismatch ts.length data.length)
  /-- With as many values as parameters, the first position where the types differ is reported. -/
  mismatch : ∀ (data : List Datum) (ts : List Tag), data.length = ts.length → data.map (·.tag) ≠ ts →
    ∃ (i : Nat) (d : Datum) (t : Tag), data[i]? = some d ∧ ts[i]? = some t ∧ d.tag ≠ t ∧
      (∀ j < i, data[j]?.map (·.tag) = ts[j]?) ∧
      (ofData data).unpack ts = .error (.typeMismatch i t d.tag)
  /-- The core is called once, on these values, and whatever it returns is handed on. -/
  called : ∀ {m : Type → Type} [Monad m] {F : Type} (data : List Datum) (ts : List Tag)
    (core : Values ts → m F) (vs : Values ts), vs.toData = data →
    (ofData data).run ts core = Except.ok <$> core vs
  /-- Or it is not called, and nothing happens at all. -/
  uncalled : ∀ {m : Type → Type} [Monad m] {F : Type} (data : List Datum) (ts : List Tag)
    (core : Values ts → m F), data.map (·.tag) ≠ ts →
    ∃ e, (ofData data).unpack ts = .error e ∧ (ofData data).run ts core = pure (.error e)
  /-- When the task is entered whose job that is, its body has not run at all: the store is as it was, but for
  the task, and the whole of the body comes next. -/
  unrun : ∀ {V J : Type} (start : J → Except RuntimeError (Body V J)) (job : J) (data : List Datum)
    (ts : List Tag) (body : Values ts → Body V J),
    start job = Id.run ((ofData data).run ts fun vs => pure (body vs)) →
    ∀ (worker : Option (PoolId × Nat)) (choice : Nat) (s : Store V J) (p : PoolId) (t : TaskId)
      (found : Task V J), s.task? p t = some found → found.stage = .unclaimed job →
    ((Frame.task p t .enter).step start worker choice s).1 =
      (s.setStage p t .consumed).modifyPool p (fun pool => { pool with queued := pool.queued - 1 }) ∧
    (∀ vs : Values ts, vs.toData = data →
      ((Frame.task p t .enter).step start worker choice s).2 = [.run { party := .task p t, body := body vs }]) ∧
    (data.map (·.tag) ≠ ts → ∃ e, (ofData data).unpack ts = .error e ∧
      ((Frame.task p t .enter).step start worker choice s).2 = [.ended (.task p t) (.returned (.error e))])

theorem exactMarshalling : ExactMarshalling where
  packed ts vs := Values.ofValues_eq vs
  value := unpack_pack
  slot := Argument.take_ofValue
  otherSlot t t' v i h := Argument.take_ofValue_of_ne h v i
  exact data ts vs := unpack_eq_ok_iff
  accepted data ts := exists_ok_iff
  arity data ts := unpack_of_length_ne
  mismatch data ts hlen hne := by
    obtain ⟨i, d, t, hd, ht, hdiff, hbefore, herr⟩ := ArgumentReader.exists_mismatch ts.length 0 hlen hne
    rw [Nat.zero_add] at herr
    exact ⟨i, d, t, hd, ht, hdiff, hbefore, (unpack_ofData hlen).trans herr⟩
  called data ts core vs h := run_of_toData h core
  uncalled data ts core h := by
    obtain ⟨e, he⟩ := exists_error_of_ne h
    exact ⟨e, he, run_of_error he core⟩
  unrun start job data ts body hstart worker choice s p t found htask hstage := by
    rw [Frame.step_enter_of_unclaimed htask hstage, hstart]
    refine ⟨rfl, ?_, ?_⟩
    · intro vs h
      rw [run_of_toData h]
      rfl
    · intro h
      obtain ⟨e, he⟩ := exists_error_of_ne h
      refine ⟨e, he, ?_⟩
      rw [run_of_error he]
      rfl

end Dataflow
