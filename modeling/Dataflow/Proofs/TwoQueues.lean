import Dataflow.Proofs.Stores

/-!
# A scheduler with two queues

It has a queue for what comes from inside and one for what comes from outside, each first in, first out, and takes from
inside first (`TwoQueues.serve?`). From the events that it has been through one can tell what was enqueued and what was
claimed on each side, and in what order (`QueueEvent.Ordered`). While it goes on, what waits on a side is what was
enqueued there and not claimed (`QueueEvent.Tracks`), if no task is enqueued that waits already.
-/

namespace Dataflow

/-- On whose thread a task is put into a queue: on a worker's of its pool, or on another. -/
inductive Side where
  | inside
  | outside
  deriving DecidableEq

/-- What happens to the queues of a pool. -/
inductive QueueEvent where
  | enqueue (side : Side) (t : TaskId)
  | claim (t : TaskId)
  deriving DecidableEq

/-- A scheduler with a queue for each side, the first task first. -/
structure TwoQueues where
  waiting : Side → List TaskId := fun _ => []

namespace TwoQueues

variable {q : TwoQueues} {side other : Side} {t u : TaskId}

/-- The next task: the first from inside, or the first from outside if there is none. -/
def next? (q : TwoQueues) : Option (Side × TaskId) :=
  match q.waiting .inside, q.waiting .outside with
  | t :: _, _ => some (.inside, t)
  | [], t :: _ => some (.outside, t)
  | [], [] => none

/-- Put a task at the end of a queue. -/
def push (q : TwoQueues) (side : Side) (t : TaskId) : TwoQueues :=
  ⟨Function.update q.waiting side (q.waiting side ++ [t])⟩

/-- Take the first task out of a queue. -/
def pop (q : TwoQueues) (side : Side) : TwoQueues := ⟨Function.update q.waiting side (q.waiting side).tail⟩

/-- Any task may be enqueued, and the next one claimed. -/
def serve? (q : TwoQueues) : QueueEvent → Option TwoQueues
  | .enqueue side t => some (q.push side t)
  | .claim t =>
    match q.next? with
    | some (side, u) => if u = t then some (q.pop side) else none
    | none => none

@[simp] theorem waiting_push_self : (q.push side t).waiting side = q.waiting side ++ [t] := Function.update_self ..

@[simp] theorem waiting_pop_self : (q.pop side).waiting side = (q.waiting side).tail := Function.update_self ..

theorem waiting_push_of_ne (h : other ≠ side) : (q.push side t).waiting other = q.waiting other :=
  Function.update_of_ne h ..

theorem waiting_pop_of_ne (h : other ≠ side) : (q.pop side).waiting other = q.waiting other :=
  Function.update_of_ne h ..

theorem next?_inside {rest : List TaskId} (h : q.waiting .inside = t :: rest) : q.next? = some (.inside, t) := by
  unfold next?
  rw [h]

theorem next?_outside {rest : List TaskId} (hin : q.waiting .inside = []) (h : q.waiting .outside = t :: rest) :
    q.next? = some (.outside, t) := by
  unfold next?
  rw [hin, h]

/-- The next task is the first of its side, and nothing from inside waits if it is from outside. -/
theorem of_next? (h : q.next? = some (side, t)) :
    (∃ rest, q.waiting side = t :: rest) ∧ (side = .outside → q.waiting .inside = []) := by
  unfold next? at h
  split at h
  · rename_i u rest hin
    cases h
    exact ⟨⟨rest, hin⟩, by simp⟩
  · rename_i u rest hin hout
    cases h
    exact ⟨⟨rest, hout⟩, fun _ => hin⟩
  · cases h

theorem serve?_claim (h : q.next? = some (side, t)) : q.serve? (.claim t) = some (q.pop side) := by
  simp [serve?, h]

/-- Whatever is enqueued, the next task stays the next one. -/
theorem next?_push (h : q.next? = some (side, t)) (u : TaskId) : (q.push .outside u).next? = some (side, t) := by
  obtain ⟨⟨rest, hwaiting⟩, hinside⟩ := of_next? h
  have hin : (q.push .outside u).waiting .inside = q.waiting .inside := waiting_push_of_ne (by decide)
  cases side with
  | inside => exact next?_inside (hin.trans hwaiting)
  | outside =>
    have hout : (q.push .outside u).waiting .outside = t :: (rest ++ [u]) := by
      rw [waiting_push_self, hwaiting, List.cons_append]
    exact next?_outside (hin.trans (hinside rfl)) hout

theorem pop_push (h : q.next? = some (side, t)) (u : TaskId) : (q.push other u).pop side = (q.pop side).push other u := by
  obtain ⟨⟨rest, hwaiting⟩, -⟩ := of_next? h
  unfold pop push
  congr 1
  funext x
  by_cases hside : side = other
  · subst hside
    by_cases hx : x = side
    · subst hx
      simp [hwaiting]
    · simp [hx]
  · by_cases hx : x = side
    · subst hx
      simp [hside, Ne.symm hside]
    · by_cases hx' : x = other
      · subst hx'
        simp [hx]
      · simp [hx, hx']

end TwoQueues

/-! ### Histories

The events of a run, the last one first. -/

namespace QueueEvent

variable {t u : TaskId} {side : Side} {history : List QueueEvent} {q : TwoQueues}

/-- From where the task was enqueued last. -/
def latest? (t : TaskId) : List QueueEvent → Option Side
  | [] => none
  | .enqueue side u :: past => if u = t then some side else latest? t past
  | .claim _ :: past => latest? t past

/-- The tasks that were enqueued from a side, the first one first. -/
def enqueued (side : Side) : List QueueEvent → List TaskId
  | [] => []
  | .enqueue from_ t :: past => if from_ = side then enqueued side past ++ [t] else enqueued side past
  | .claim _ :: past => enqueued side past

/-- The tasks that were claimed after they had been enqueued from a side, the first one first. -/
def claimed (side : Side) : List QueueEvent → List TaskId
  | [] => []
  | .enqueue _ _ :: past => claimed side past
  | .claim t :: past => if latest? t past = some side then claimed side past ++ [t] else claimed side past

/-- What a scheduler with two queues holds after these events, if they can be its. -/
def served? : List QueueEvent → Option TwoQueues
  | [] => some {}
  | e :: past => (served? past).bind (·.serve? e)

/-- What is claimed was enqueued, in the order in which it was, and nothing from outside while something from inside
waits. -/
structure Ordered (history : List QueueEvent) : Prop where
  /-- The events are those of a scheduler with two queues. -/
  served : ∃ q, served? history = some q
  /-- Tasks of one side are claimed in their order. -/
  inOrder : ∀ side, claimed side history <+: enqueued side history
  /-- Whatever is claimed came from one side or the other. -/
  known : ∀ t past, .claim t :: past <:+ history → ∃ side, latest? t past = some side
  /-- What came from inside is claimed first. -/
  insideFirst : ∀ t past, .claim t :: past <:+ history → latest? t past = some .outside →
    claimed .inside past = enqueued .inside past

/-- The scheduler holds what was enqueued and not claimed. -/
structure Tracks (history : List QueueEvent) (q : TwoQueues) : Prop where
  served : served? history = some q
  balance : ∀ side, claimed side history ++ q.waiting side = enqueued side history
  latest : ∀ side, ∀ t ∈ q.waiting side, latest? t history = some side

theorem Ordered.nil : Ordered [] :=
  ⟨⟨{}, rfl⟩, fun _ => List.prefix_rfl, by simp, by simp⟩

theorem Tracks.nil : Tracks [] {} :=
  ⟨rfl, fun _ => rfl, by simp⟩

/-- What is enqueued changes nothing of the claims before. -/
theorem Ordered.enqueue (h : Ordered history) (side : Side) (t : TaskId) : Ordered (.enqueue side t :: history) := by
  have older : ∀ {u past}, .claim u :: past <:+ QueueEvent.enqueue side t :: history →
      .claim u :: past <:+ history := fun hsuffix => by
    rcases List.suffix_cons_iff.1 hsuffix with heq | hsuffix
    · cases heq
    · exact hsuffix
  refine ⟨?_, fun other => ?_, fun u past hsuffix => h.known u past (older hsuffix),
    fun u past hsuffix => h.insideFirst u past (older hsuffix)⟩
  · obtain ⟨q, hq⟩ := h.served
    exact ⟨q.push side t, by rw [served?, hq]; rfl⟩
  · show claimed other history <+: if side = other then enqueued other history ++ [t] else enqueued other history
    split
    · exact (h.inOrder other).trans (List.prefix_append _ _)
    · exact h.inOrder other

theorem Tracks.enqueue (h : Tracks history q) (hfresh : ∀ other, t ∉ q.waiting other) (side : Side) :
    Tracks (.enqueue side t :: history) (q.push side t) := by
  refine ⟨by rw [served?, h.served]; rfl, fun other => ?_, fun other u hu => ?_⟩
  · show claimed other history ++ _ = if side = other then enqueued other history ++ [t] else enqueued other history
    by_cases hside : side = other
    · subst hside
      rw [if_pos rfl, TwoQueues.waiting_push_self, ← List.append_assoc, h.balance]
    · rw [if_neg hside, TwoQueues.waiting_push_of_ne (Ne.symm hside), h.balance]
  · show (if t = u then some side else latest? u history) = some other
    by_cases hside : side = other
    · subst hside
      rw [TwoQueues.waiting_push_self] at hu
      rcases List.mem_append.1 hu with hu | hu
      · split
        · rfl
        · exact h.latest side u hu
      · rw [if_pos (List.mem_singleton.1 hu).symm]
    · rw [TwoQueues.waiting_push_of_ne (Ne.symm hside)] at hu
      have hne : t ≠ u := by
        rintro rfl
        exact hfresh other hu
      rw [if_neg hne]
      exact h.latest other u hu

/-- The next task is claimed, after all that was enqueued before it on its side. -/
theorem Ordered.claim (h : Ordered history) (htracks : Tracks history q) (hnext : q.next? = some (side, t)) :
    Ordered (.claim t :: history) := by
  obtain ⟨⟨rest, hwaiting⟩, hinside⟩ := TwoQueues.of_next? hnext
  have hlatest : latest? t history = some side := htracks.latest side t (by simp [hwaiting])
  refine ⟨⟨q.pop side, ?_⟩, fun other => ?_, fun u past hsuffix => ?_, fun u past hsuffix hout => ?_⟩
  · rw [served?, htracks.served]
    exact TwoQueues.serve?_claim hnext
  · show (if latest? t history = some other then claimed other history ++ [t] else claimed other history) <+:
      enqueued other history
    split
    · rename_i hother
      rw [hlatest] at hother
      cases hother
      rw [← htracks.balance side, hwaiting]
      exact ⟨rest, by simp⟩
    · exact h.inOrder other
  · rcases List.suffix_cons_iff.1 hsuffix with heq | hsuffix
    · cases heq
      exact ⟨side, hlatest⟩
    · exact h.known u past hsuffix
  · rcases List.suffix_cons_iff.1 hsuffix with heq | hsuffix
    · cases heq
      rw [hlatest] at hout
      cases hout
      rw [← htracks.balance .inside]
      show claimed .inside history = claimed .inside history ++ q.waiting .inside
      rw [hinside rfl, List.append_nil]
    · exact h.insideFirst u past hsuffix hout

theorem Tracks.claim (h : Tracks history q) (hnext : q.next? = some (side, t)) :
    Tracks (.claim t :: history) (q.pop side) := by
  obtain ⟨⟨rest, hwaiting⟩, -⟩ := TwoQueues.of_next? hnext
  have hlatest : latest? t history = some side := h.latest side t (by simp [hwaiting])
  refine ⟨?_, fun other => ?_, fun other u hu => ?_⟩
  · rw [served?, h.served]
    exact TwoQueues.serve?_claim hnext
  · show (if latest? t history = some other then claimed other history ++ [t] else claimed other history) ++ _ =
      enqueued other history
    rw [hlatest, ← h.balance other]
    by_cases hside : side = other
    · subst hside
      rw [if_pos rfl, TwoQueues.waiting_pop_self, hwaiting]
      simp
    · rw [if_neg (fun heq => hside (Option.some.inj heq)), TwoQueues.waiting_pop_of_ne (Ne.symm hside)]
  · show latest? u history = some other
    by_cases hside : side = other
    · subst hside
      rw [TwoQueues.waiting_pop_self] at hu
      exact h.latest side u (List.mem_of_mem_tail hu)
    · rw [TwoQueues.waiting_pop_of_ne (Ne.symm hside)] at hu
      exact h.latest other u hu

end QueueEvent

end Dataflow
