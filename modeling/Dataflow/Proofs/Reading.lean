import Dataflow.Proofs.Marshalling

/-!
# Reading goes on after errors

Arguments may be taken one at a time, at any types, and a call that fails does not end it: the next call is answered
for the next argument, and past the last one every call is told how many there were. The position that a reader counts
and the arguments it has left are kept apart, so that what is to be shown is that they never part ways. `after_eq` says
so of any reader and any calls, by induction on the calls; it leaves no trace of what the calls were answered. The k-th
answer is then read off the reader after k calls (`getElem?_replies`), which is at the k-th value
(`aligned_reader`).
-/

namespace Dataflow

variable [SealedTypes]

theorem Datum.take_argument (t : Tag) (v : t.Value) (i : Nat) : (Datum.mk t v).argument.take t i = .ok v :=
  Argument.take_ofValue t v i

theorem Datum.take_argument_of_ne {d : Datum} {t : Tag} (h : d.tag ≠ t) (i : Nat) :
    d.argument.take t i = .error (.typeMismatch i t d.tag) :=
  Argument.take_ofValue_of_ne h d.value i

namespace ArgumentReader

/-- What a call was answered, with the type it asked for. -/
structure Reply where
  tag : Tag
  result : Except RuntimeError tag.Value

/-- The answers to one call for each of the types. -/
def replies (r : ArgumentReader) : List Tag → List Reply
  | [] => []
  | t :: ts => ⟨t, (r.next t).1⟩ :: (r.next t).2.replies ts

/-- The reader after one call for each of the types, whatever these were answered. -/
def after (r : ArgumentReader) (ts : List Tag) : ArgumentReader := ts.foldl (fun r t => (r.next t).2) r

/-! ### One call -/

theorem next_nil (arity i : Nat) (t : Tag) :
    next ⟨arity, i, []⟩ t = (.error (.arityMismatch arity i), ⟨arity, i, []⟩) :=
  rfl

theorem next_cons (arity i : Nat) (a : Argument) (rest : List Argument) (t : Tag) :
    next ⟨arity, i, a :: rest⟩ t = (a.take t i, ⟨arity, i + 1, rest⟩) :=
  rfl

/-! ### Many calls -/

theorem after_cons (r : ArgumentReader) (t : Tag) (ts : List Tag) : r.after (t :: ts) = (r.next t).2.after ts :=
  rfl

/-- Each call takes one argument and counts one, and there is nothing to take or to count past the end. -/
theorem after_eq (arity i : Nat) (rest : List Argument) (ts : List Tag) :
    after ⟨arity, i, rest⟩ ts = ⟨arity, i + min ts.length rest.length, rest.drop ts.length⟩ := by
  induction ts generalizing i rest with
  | nil => simp [after]
  | cons t ts ih =>
    rw [after_cons]
    cases rest with
    | nil =>
      rw [next_nil, ih]
      simp
    | cons a rest =>
      rw [next_cons, ih, List.length_cons, List.length_cons, List.drop_succ_cons, Nat.add_min_add_right]
      congr 1
      omega

theorem length_replies (r : ArgumentReader) (ts : List Tag) : (r.replies ts).length = ts.length := by
  induction ts generalizing r with
  | nil => rfl
  | cons t ts ih => rw [replies, List.length_cons, List.length_cons, ih]

theorem getElem?_replies {ts : List Tag} {k : Nat} {t : Tag} (h : ts[k]? = some t) (r : ArgumentReader) :
    (r.replies ts)[k]? = some ⟨t, ((r.after (ts.take k)).next t).1⟩ := by
  induction ts generalizing r k with
  | nil => cases h
  | cons u ts ih =>
    cases k with
    | zero =>
      cases h
      rfl
    | succ k => exact ih h (r.next u).2

/-! ### Values in packed form -/

/-- The reader of all of the values in packed form. -/
def ofData (data : List Datum) : ArgumentReader := ⟨data.length, 0, data.map Datum.argument⟩

theorem reader_ofData (data : List Datum) : (Arguments.ofData data).reader data.length = .ok (ofData data) := by
  unfold Arguments.reader
  rw [Arguments.size_ofData, if_neg (not_not_intro rfl), Arguments.slots_ofData]
  rfl

theorem after_ofData (data : List Datum) (ts : List Tag) :
    (ofData data).after ts =
      ⟨data.length, min ts.length data.length, (data.drop ts.length).map Datum.argument⟩ := by
  rw [ofData, after_eq, Nat.zero_add, List.length_map, List.map_drop]

section

variable {data : List Datum} {ts : List Tag}

theorem next_after {d : Datum} (h : data[ts.length]? = some d) (t : Tag) :
    (((ofData data).after ts).next t).1 = d.argument.take t ts.length := by
  obtain ⟨hlt, rfl⟩ := List.getElem?_eq_some_iff.mp h
  rw [after_ofData, List.drop_eq_getElem_cons hlt, List.map_cons, next_cons, Nat.min_eq_left hlt.le]

theorem next_after_of_le (h : data.length ≤ ts.length) (t : Tag) :
    (((ofData data).after ts).next t).1 = .error (.arityMismatch data.length data.length) := by
  rw [after_ofData, List.drop_eq_nil_of_le h, List.map_nil, next_nil, Nat.min_eq_right h]

variable {k : Nat} {t : Tag}

theorem reply_of_getElem? {d : Datum} (ht : ts[k]? = some t) (hd : data[k]? = some d) :
    ((ofData data).replies ts)[k]? = some ⟨t, d.argument.take t k⟩ := by
  have hbefore : (ts.take k).length = k := List.length_take_of_le (List.getElem?_eq_some_iff.mp ht).1.le
  rw [getElem?_replies ht, next_after (hbefore.symm ▸ hd), hbefore]

theorem reply_of_le (ht : ts[k]? = some t) (hk : data.length ≤ k) :
    ((ofData data).replies ts)[k]? = some ⟨t, .error (.arityMismatch data.length data.length)⟩ := by
  have hbefore : (ts.take k).length = k := List.length_take_of_le (List.getElem?_eq_some_iff.mp ht).1.le
  rw [getElem?_replies ht, next_after_of_le (hbefore.symm ▸ hk)]

end

/-- The reader answers each call for the value at the position of that call, whatever the calls before were
answered. -/
structure Aligned (data : List Datum) (r : ArgumentReader) : Prop where
  answered : ∀ ts, (r.replies ts).length = ts.length
  /-- The value, if it was packed from that type. -/
  value : ∀ (ts : List Tag) (k : Nat) (t : Tag) (v : t.Value), ts[k]? = some t → data[k]? = some ⟨t, v⟩ →
    (r.replies ts)[k]? = some ⟨t, .ok v⟩
  mismatch : ∀ (ts : List Tag) (k : Nat) (t : Tag) (d : Datum), ts[k]? = some t → data[k]? = some d → d.tag ≠ t →
    (r.replies ts)[k]? = some ⟨t, .error (.typeMismatch k t d.tag)⟩
  pastEnd : ∀ (ts : List Tag) (k : Nat) (t : Tag), ts[k]? = some t → data.length ≤ k →
    (r.replies ts)[k]? = some ⟨t, .error (.arityMismatch data.length data.length)⟩
  /-- No argument is passed over or taken twice: so many calls take so many arguments, from the front. -/
  inStep : ∀ ts, r.after ts =
    ⟨data.length, min ts.length data.length, (data.drop ts.length).map Datum.argument⟩

theorem aligned_reader (data : List Datum) :
    ∃ r, (Arguments.ofData data).reader data.length = .ok r ∧ r.Aligned data := by
  refine ⟨ofData data, reader_ofData data, ?_⟩
  constructor
  case answered => exact length_replies (ofData data)
  case value =>
    intro ts k t v ht hd
    rw [reply_of_getElem? ht hd, Datum.take_argument]
  case mismatch =>
    intro ts k t d ht hd hne
    rw [reply_of_getElem? ht hd, Datum.take_argument_of_ne hne]
  case pastEnd =>
    intro ts k t ht hk
    exact reply_of_le ht hk
  case inStep => exact after_ofData data

example (r : ArgumentReader) (h : (Arguments.ofData [⟨.char, 'z'⟩, ⟨.bool, true⟩]).reader 2 = .ok r) :
    r.replies [.string, .bool, .bool] =
      [⟨.string, .error (.typeMismatch 0 .string .char)⟩, ⟨.bool, .ok true⟩, ⟨.bool, .error (.arityMismatch 2 2)⟩] := by
  cases h
  rfl

end ArgumentReader
end Dataflow
