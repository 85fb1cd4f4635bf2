import Dataflow.Proofs.Waiters

/-!
# Blocked threads

A thread that finds a cell empty blocks, and goes on when it is signalled or its time is over. The put that fills
the cell knows of the threads only by their number, and signals after it has left its critical section: until
then the signal is due, and from then on every thread that waits may go on (`signalled_run`). The cell never
becomes empty again, and nobody can release it while a thread waits, so whoever goes on after the put finds the
value (`BlockedReaders`).
-/

namespace Dataflow
namespace Room

variable {V W : Type}

/-- A put frees nobody. -/
theorem Event.Writes.not_frees {e : Event V W} {value : V} (h : e.Writes value) (n : Nat) : ¬ e.FreesThread n := by
  obtain ⟨-, woken, hwritten⟩ := h
  rintro ⟨timed, answer, hanswer⟩
  cases hwritten.symm.trans hanswer

/-- A thread has its answer when it comes and need not wait, or when it waits and may go on. -/
theorem step_returned {r : Room V W} {a : Action V W} {n : Nat} {timed : Bool} {answer : Except RuntimeError (Option V)}
    (h : (r.step a).2 = .returned n timed answer) :
    (n = r.readers.length ∧ r.cell.payload ≠ .empty) ∨
      (r.readers[n]? = some (.waiting timed) ∧ (r.step a).1.cell = { r.cell with blocked := r.cell.blocked - 1 } ∧
        (r.cell.payload = .empty → timed = true)) := by
  cases a with
  | put value => simp only [step, put] at h; split at h <;> cases h
  | signal | destroy => simp only [step] at h; split at h <;> cases h
  | tryGet | state | waiters | get => cases h
  | poll k waker => simp only [step, poll] at h; split at h <;> cases h
  | drop k => simp only [step, drop] at h; split at h <;> cases h
  | arrive timed' =>
    refine .inl ?_
    cases hp : r.cell.payload <;> simp_all [step, arrive, Cell.arrive]
  | resume n' timeOver =>
    refine .inr ?_
    simp only [step, resume] at h ⊢
    split at h
    · rename_i timed' hn
      cases hgo : (if timeOver = true then timed' else r.signalled) with
      | false => simp [hgo] at h
      | true =>
        cases hp : r.cell.payload <;> cases timeOver <;> simp_all [Cell.recheck]
    · cases h

/-- Only a put into an empty cell and the signal itself touch the signal. -/
theorem step_signals {r : Room V W} {a : Action V W} (hfull : r.cell.payload ≠ .empty) (hsignal : a ≠ .signal) :
    (r.step a).1.signalDue = r.signalDue ∧ (r.step a).1.signalled = r.signalled := by
  cases a with
  | signal => exact absurd rfl hsignal
  | put value =>
    rcases r.step_put value with ⟨hempty, -⟩ | ⟨-, hstep⟩
    · exact absurd hempty hfull
    · rw [hstep]
      exact ⟨rfl, rfl⟩
  | tryGet | state | waiters | get => exact ⟨rfl, rfl⟩
  | destroy =>
    simp only [step]
    split <;> exact ⟨rfl, rfl⟩
  | poll k waker =>
    simp only [step, poll]
    split <;> exact ⟨rfl, rfl⟩
  | drop k =>
    simp only [step, drop]
    split <;> exact ⟨rfl, rfl⟩
  | arrive timed =>
    simp only [step, arrive]
    split <;> exact ⟨rfl, rfl⟩
  | resume n timeOver =>
    simp only [step, resume]
    repeat' split
    all_goals exact ⟨rfl, rfl⟩

/-- Once the signal is given, it stays so. -/
theorem signalled_run {r : Room V W} (hfull : r.cell.payload ≠ .empty) (h : r.signalled = true)
    (as : List (Action V W)) : (r.run as).1.signalled = true := by
  induction as generalizing r with
  | nil => exact h
  | cons a as ih =>
    have hstep : (r.step a).1.signalled = true := by
      by_cases ha : a = .signal
      · subst ha
        simp only [step]
        split
        · rfl
        · exact h
      · rw [(step_signals hfull ha).2]
        exact h
    exact ih (fun hempty => hfull (empty_of_step hempty)) hstep

/-- A signal that is due stays due until it is given. -/
theorem due_run {r : Room V W} (hfull : r.cell.payload ≠ .empty) (hdue : r.signalDue = true) (as : List (Action V W)) :
    ((∀ d ∈ r.history as, d.action ≠ .signal) → (r.run as).1.signalDue = true) ∧
      ((∃ d ∈ r.history as, d.action = .signal) → (r.run as).1.signalled = true) := by
  induction as generalizing r with
  | nil =>
    refine ⟨fun _ => hdue, ?_⟩
    rintro ⟨d, hd, -⟩
    cases hd
  | cons a as ih =>
    have hfull' : (r.step a).1.cell.payload ≠ .empty := fun hempty => hfull (empty_of_step hempty)
    by_cases ha : a = .signal
    · have hgiven : (r.step a).1.signalled = true := by
        subst ha
        simp only [step, hdue, if_true]
      exact ⟨fun hno => absurd ha (hno (r.event a) List.mem_cons_self), fun _ => signalled_run hfull' hgiven as⟩
    · obtain ⟨hbefore, hafter⟩ := ih hfull' ((step_signals hfull ha).1.trans hdue)
      refine ⟨fun hno => hbefore fun d hd => hno d (List.mem_cons_of_mem _ hd), ?_⟩
      rintro ⟨d, hd, hsignal⟩
      refine hafter ?_
      rcases List.mem_cons.1 hd with rfl | hd
      · exact absurd hsignal ha
      · exact ⟨d, hd, hsignal⟩

/-- A thread that waits for a value that is there gets it as soon as it may go on. -/
theorem resume_full {r : Room V W} {n : Nat} {timed : Bool} {value : V} (hn : r.readers[n]? = some (.waiting timed))
    (hfull : r.cell.payload = .full value) (timeOver : Bool) :
    (r.step (.resume n timeOver)).2 =
      if (if timeOver then timed else r.signalled) then .returned n timed (.ok (some value)) else .nothing := by
  cases hgo : (if timeOver = true then timed else r.signalled) <;> simp [step, resume, hn, hgo, Cell.recheck, hfull]

/-- A put that goes through while threads are blocked has a signal to give. -/
theorem signalDue_of_writes {r : Room V W} (value : V) (hempty : r.cell.payload = .empty) (hblocked : 0 < r.cell.blocked) :
    (r.step (.put value)).1.signalDue = true := by
  simp [step, put, Cell.put, hempty, hblocked]

namespace Waited

variable {r : Room V W} {futures threads : List Nat} {a : Action V W} {n : Nat} {timed : Bool}
  {answer : Except RuntimeError (Option V)}

/-- A thread that has waited and returns is taken off the count, in which it was. -/
theorem returned (h : r.Waited futures threads) (hn : n ∈ threads) (hanswer : (r.step a).2 = .returned n timed answer) :
    r.cell.blocked = (r.step a).1.cell.blocked + 1 := by
  have hpos : 0 < threads.length := List.length_pos_of_mem hn
  obtain ⟨timed', hwaiting⟩ := (h.waiting n).1 hn
  rcases step_returned hanswer with ⟨rfl, -⟩ | ⟨-, hcell, -⟩
  · exact absurd (List.getElem?_eq_some_iff.1 hwaiting).1 (Nat.lt_irrefl _)
  · rw [hcell]
    dsimp only
    rw [h.blocked]
    omega

/-- Nobody releases a cell on which a thread waits. -/
theorem not_destroyed (h : r.Waited futures threads) (hn : n ∈ threads) : r.cell.payload ≠ .destroyed := by
  intro hgone
  rw [(h.gone hgone).2] at hn
  cases hn

end Waited
end Room

open Room

/-- What becomes of the threads that block on a cell. -/
structure BlockedReaders {V W : Type} (r : Room V W) (history : List (Event V W)) : Prop where
  /-- The count is that of the threads that were blocked and have not returned since. -/
  count : ∃ threads : List Nat, threads.Nodup ∧ (∀ n, n ∈ threads ↔ ThreadWaits history n) ∧
    r.cell.blocked = threads.length
  /-- A thread that blocks adds one to the count, -/
  comes : ∀ e ∈ history, ∀ n, e.BlocksThread n → e.after.cell.blocked = e.before.cell.blocked + 1
  /-- and one that has waited and returns takes it off again, so that there is something to take off. -/
  goes : ∀ pre e post n, history = pre ++ e :: post → ThreadWaits pre n → e.FreesThread n →
    e.before.cell.blocked = e.after.cell.blocked + 1
  /-- A put that goes through while a thread waits has a signal to give, -/
  due : ∀ pre w mid n, history = pre ++ w :: mid → w.IsWrite → ThreadWaits pre n → w.after.signalDue = true ∧
    ((∀ d ∈ mid, d.action ≠ .signal) → r.signalDue = true) ∧ ((∃ d ∈ mid, d.action = .signal) → r.signalled = true)
  /-- and as soon as it is given, or the thread's own time is over, the thread can go on, with the value. -/
  resumes : ∀ pre w mid n value, history = pre ++ w :: mid → w.Writes value → ThreadWaits pre n →
    (∀ d ∈ mid, ¬ d.FreesThread n) → ∃ timed, r.readers[n]? = some (.waiting timed) ∧
      ∀ timeOver, (r.step (.resume n timeOver)).2 =
        if (if timeOver then timed else r.signalled) then .returned n timed (.ok (some value)) else .nothing
  /-- Whoever waited when the put went through returns with its value. -/
  value : ∀ pre w mid e post n value, history = pre ++ w :: (mid ++ e :: post) → w.Writes value → ThreadWaits pre n →
    (∀ d ∈ mid, ¬ d.FreesThread n) → e.FreesThread n → ∃ timed, e.answer = .returned n timed (.ok (some value))
  /-- Only a thread with a limit returns without a value, and only if the cell is empty when it looks for the last
  time: no put has gone through. -/
  timeout : ∀ pre e post n timed, history = pre ++ e :: post → e.answer = .returned n timed (.ok none) →
    timed = true ∧ e.before.cell.state = .empty ∧ ∀ d ∈ pre, ¬ d.IsWrite
  /-- A thread that has waited is never told that the cell is gone, nor anything else that went wrong. -/
  error : ∀ pre e post n timed x, history = pre ++ e :: post → ThreadWaits pre n → e.answer ≠ .returned n timed (.error x)

namespace Room

variable {V W : Type}

/-- What the cell knows of the threads that wait, after any run. -/
theorem exists_threads (as : List (Action V W)) : ∃ futures threads, (({} : Room V W).run as).1.Waited futures threads ∧
    ∀ n, n ∈ threads ↔ ThreadWaits (({} : Room V W).history as) n := by
  obtain ⟨futures, threads, hwaited, hreads⟩ := exists_waited_run (r := ({} : Room V W)) .initial .initial as
  exact ⟨futures, threads, hwaited, hreads.2⟩

/-- A thread that waited when a put went through, and has not returned, waits before its value. -/
theorem waiting_full {as : List (Action V W)} {pre mid : List (Event V W)} {w : Event V W} {n : Nat} {value : V}
    (h : ({} : Room V W).history as = pre ++ w :: mid) (hwrites : w.Writes value) (hwaits : ThreadWaits pre n)
    (hmid : ∀ d ∈ mid, ¬ d.FreesThread n) : (({} : Room V W).run as).1.cell.payload = .full value ∧
      ∃ timed, (({} : Room V W).run as).1.readers[n]? = some (.waiting timed) := by
  obtain ⟨futures, threads, hwaited, hthreads⟩ := exists_threads as
  have hstill : ThreadWaits (({} : Room V W).history as) n := by
    rw [h]
    refine Since.append hwaits fun d hd => ?_
    rcases List.mem_cons.1 hd with rfl | hd
    · exact hwrites.not_frees n
    · exact hmid d hd
  have hn := (hthreads n).2 hstill
  obtain ⟨as₁, a, as₂, rfl, rfl, rfl, hlast⟩ := history_split_run h
  have hfull := run_full (payload_of_writes hwrites).2 as₂
  rw [← hlast] at hfull
  exact ⟨hfull.resolve_right fun hgone => hwaited.not_destroyed hn hgone, (hwaited.waiting n).1 hn⟩

theorem blockedReaders_history (as : List (Action V W)) :
    BlockedReaders (({} : Room V W).run as).1 (({} : Room V W).history as) := by
  constructor
  case count =>
    obtain ⟨futures, threads, hwaited, hthreads⟩ := exists_threads as
    exact ⟨threads, hwaited.nodup, hthreads, hwaited.blocked⟩
  case comes =>
    rintro e he n ⟨⟨timed, haction⟩, hanswer⟩
    obtain ⟨r, a, rfl⟩ := exists_event_of_mem he
    obtain rfl : a = .arrive timed := haction
    simp only [event, step, arrive] at hanswer ⊢
    cases hp : r.cell.payload <;> simp_all [Cell.arrive]
  case goes =>
    rintro pre e post n h hwaits ⟨timed, answer, hanswer⟩
    obtain ⟨as₁, a, -, rfl, rfl, -, -⟩ := history_split_run h
    obtain ⟨futures, threads, hwaited, hthreads⟩ := exists_threads as₁
    exact hwaited.returned ((hthreads n).2 hwaits) hanswer
  case due =>
    rintro pre w mid n h ⟨value, hwrites⟩ hwaits
    obtain ⟨as₁, a, as₂, rfl, rfl, rfl, hlast⟩ := history_split_run h
    obtain ⟨futures, threads, hwaited, hthreads⟩ := exists_threads as₁
    obtain ⟨hempty, hfull⟩ := payload_of_writes hwrites
    obtain rfl : a = .put value := hwrites.1
    have hblocked : 0 < (({} : Room V W).run as₁).1.cell.blocked := by
      rw [hwaited.blocked]
      exact List.length_pos_of_mem ((hthreads n).2 hwaits)
    have hdue := signalDue_of_writes value hempty hblocked
    rw [hlast]
    exact ⟨hdue, due_run (by simp [hfull]) hdue as₂⟩
  case resumes =>
    rintro pre w mid n value h hwrites hwaits hmid
    obtain ⟨hfull, timed, hwaiting⟩ := waiting_full h hwrites hwaits hmid
    exact ⟨timed, hwaiting, resume_full hwaiting hfull⟩
  case value =>
    rintro pre w mid e post n value h hwrites hwaits hmid ⟨timed, answer, hanswer⟩
    rw [← List.cons_append, ← List.append_assoc] at h
    obtain ⟨as₁, a, -, hbefore, rfl, -, -⟩ := history_split_run h
    have hfull := (waiting_full hbefore.symm hwrites hwaits hmid).1
    have hlook : answer = _ := read_eq _ a (by rw [show (step _ a).2 = _ from hanswer]; rfl)
    rw [hfull] at hlook
    exact ⟨timed, hanswer.trans (by rw [hlook]; rfl)⟩
  case timeout =>
    rintro pre e post n timed h hanswer
    have hsource := (history_source (r := ({} : Room V W)) rfl as h).1
    obtain ⟨as₁, a, -, rfl, rfl, -, -⟩ := history_split_run h
    have hlook : Except.ok none = _ := read_eq _ a (by rw [show (step _ a).2 = _ from hanswer]; rfl)
    have hempty : (({} : Room V W).run as₁).1.cell.payload = .empty := by
      cases hp : (({} : Room V W).run as₁).1.cell.payload <;> simp [hp, Payload.look] at hlook
      rfl
    refine ⟨?_, by simp [event, Cell.state, hempty], fun d hd hwrite => ?_⟩
    · rcases step_returned hanswer with ⟨-, hfull⟩ | ⟨-, -, htimed⟩
      · exact absurd hempty hfull
      · exact htimed hempty
    · exact hsource.2 ⟨d, hd, .inl hwrite⟩ hempty
  case error =>
    rintro pre e post n timed x h hwaits hanswer
    obtain ⟨as₁, a, -, rfl, rfl, -, -⟩ := history_split_run h
    obtain ⟨futures, threads, hwaited, hthreads⟩ := exists_threads as₁
    have hthere := hwaited.not_destroyed ((hthreads n).2 hwaits)
    have hlook : Except.error x = _ := read_eq _ a (by rw [show (step _ a).2 = _ from hanswer]; rfl)
    cases hp : (({} : Room V W).run as₁).1.cell.payload with
    | destroyed => exact hthere hp
    | _ => simp [hp, Payload.look] at hlook

end Room

namespace Session

variable {V W : Type}

/-- After any operations through any handles: the threads that are blocked on a cell are those it counts, each of
them is signalled after a put, and each returns with the value of the put, or in time without one. -/
theorem blockedReaders_performAll (ops : List (Op V W)) (i : Nat) :
    BlockedReaders ((({} : Session V W).performAll ops).roomAt i) (({} : Session V W).historyOf i ops) := by
  obtain ⟨as, hhistory, hroom⟩ := exists_run_of_performAll ({} : Session V W) i ops
  rw [hhistory, hroom]
  exact blockedReaders_history as

end Session
end Dataflow
