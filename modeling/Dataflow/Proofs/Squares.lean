import Dataflow.Proofs.Fillings
import Dataflow.Proofs.Shares

/-!
# Tasks that square numbers

Task `t` of a fan-out writes the square of `t` into cell `t`, and never waits for anything. What its worker can be at is
said by the frames of its only poll (`Frame.OfSquare`), what is known of it by its state and its cell (`Square.Knows`),
and each change that can happen to it brings it nearer to its end (`Square.Turns.rank`).
-/

namespace Dataflow

namespace Square

/-- The square of a number, as the payload of a cell. -/
def value (t : TaskId) : Datum := ⟨Core.u64, IntKind.unsigned64.wrap (t * t : Nat)⟩

/-- The job of the task that squares its number. -/
def job (t : TaskId) : Job := .core .square (Graph.squareArguments t ⟨t⟩)

/-- The task before its write. -/
def writes (t : TaskId) : Run Datum Job := { party := .task 0 t, body := .put t (value t) .done }

/-- The task at its end. -/
def ends (t : TaskId) : Run Datum Job := { party := .task 0 t, body := .done (.ok ()) }

/-- Arithmetic that wraps around may wrap around once. -/
theorem wrap_mul (a b : Nat) :
    IntKind.unsigned64.wrap ((IntKind.unsigned64.wrap a).val * (IntKind.unsigned64.wrap b).val) =
      IntKind.unsigned64.wrap (a * b : Nat) := by
  have hcast : (IntKind.unsigned64.wrap a).val * (IntKind.unsigned64.wrap b).val =
      ((a % 2 ^ 64 * (b % 2 ^ 64) : Nat) : Int) := by
    rw [Link.val_wrap, Link.val_wrap]
    rfl
  refine Subtype.ext ?_
  rw [hcast, Link.val_wrap, Link.val_wrap, ← Nat.mul_mod]

/-- The body that the job starts with. -/
theorem start_job (t : TaskId) : (job t).start = .ok (.put t (value t) .done) := by
  let vs : Values (Core.signature .square) := (IntKind.unsigned64.wrap t, (⟨t⟩ : CellRef Core.u64), ())
  have hjob : (job t).start = Id.run ((Arguments.ofValues _ vs).run (Core.signature .square) fun vs =>
      pure (Core.body .square vs)) := rfl
  have hbody : Core.body .square vs = .put t ⟨Core.u64,
      IntKind.unsigned64.wrap ((IntKind.unsigned64.wrap t).val * (IntKind.unsigned64.wrap t).val)⟩ .done := rfl
  rw [hjob, Values.ofValues_eq, Arguments.run_of_toData rfl, hbody, wrap_mul]
  rfl

/-- What is known of the task. -/
structure Knows (s : Store Datum Job) (t : TaskId) (y : Task Datum Job) (T : Multiset (Hold Datum Job)) : Prop where
  stage : y.stage = .unclaimed (job t) ∨ y.stage = .consumed
  /-- It neither waits nor goes wrong. -/
  state : y.state = .queued ∨ y.state = .running ∨ y.state = .completed
  /-- Its cell has the square when its body has come to its end. -/
  filled : s.Filled value t ↔ y.state = .completed ∨ ∃ k ∈ T, k.IsSpent

/-- What the step of a frame can do to the task and to its holds. -/
inductive Turns (t : TaskId) : Frame Datum Job → Task Datum Job → Multiset (Hold Datum Job) → Task Datum Job →
    Multiset (Hold Datum Job) → Prop where
  | stay {f y T} : Turns t f y T y T
  | flag {f y T b} : Turns t f y T { y with registered := b } T
  | claim {f y} (hstate : y.state = .queued) : Turns t f y {.ready} { y with state := .running } {.claimed}
  | begin {f y} (hstate : y.IsPolled) (hstage : y.stage = .unclaimed (job t)) :
    Turns t f y {.claimed} { y with stage := .consumed } {.polling (writes t)}
  | write {y} : Turns t (.run (writes t)) y {.polling (writes t)} y {.polling (ends t)}
  | finish {f y} : Turns t f y {.polling (ends t)} y {.ending (.returned (.ok ()))}
  | settle {f y} (hstate : y.IsPolled) : Turns t f y {.ending (.returned (.ok ()))} { y with state := .completed } 0

section turns

variable {s s' : Store Datum Job} {t : TaskId} {f : Frame Datum Job} {y z : Task Datum Job}
  {T T' d e rest : Multiset (Hold Datum Job)}

/-- The task comes nearer to its end, or nothing happens to it but that it enters or leaves the registry. -/
theorem Turns.rank (h : Turns t f y T z T') :
    (z.state = y.state ∧ z.stage = y.stage ∧ T' = T) ∨ Link.rank (some z) T' < Link.rank (some y) T := by
  cases h with
  | stay | flag => exact .inl ⟨rfl, rfl, rfl⟩
  | claim hstate => exact .inr (by simp [Link.rank, Hold.distance, hstate])
  | begin hstate hstage =>
    refine .inr ?_
    simp only [Link.rank, Multiset.map_singleton, Multiset.sum_singleton, Hold.distance, writes, hstage, Stage.distance]
    omega
  | write | finish =>
    refine .inr ?_
    simp only [Link.rank, Multiset.map_singleton, Multiset.sum_singleton, Hold.distance, writes, ends]
    omega
  | settle hstate => rcases hstate with hstate | hstate <;> exact .inr (by simp [Link.rank, Hold.distance, hstate])

/-- What is known of the task stays known, if its cell is filled by its own write only. -/
theorem Knows.turn (hknows : Knows s t y T) (h : Turns t f y T z T') (hfull : s.Filled value t → s'.Filled value t)
    (hnew : s'.Filled value t → s.Filled value t ∨ ∃ k ∈ T', k.IsSpent)
    (hwritten : f = .run (writes t) → s'.Filled value t) : Knows s' t z T' := by
  obtain ⟨hstage, hstate, hfilled⟩ := hknows
  cases h with
  | stay | flag =>
    exact ⟨hstage, hstate, fun h => (hnew h).elim hfilled.1 .inr, fun h => hfull (hfilled.2 h)⟩
  | claim hqueued =>
    refine ⟨hstage, .inr (.inl rfl), fun h => ?_, fun h => ?_⟩
    · rcases hnew h with h | h
      · simpa [hqueued, Hold.IsSpent] using hfilled.1 h
      · exact .inr h
    · simp [Hold.IsSpent] at h
  | begin hpolled =>
    refine ⟨.inr rfl, hstate, fun h => ?_, fun h => ?_⟩
    · rcases hnew h with h | h
      · rcases hpolled with hpolled | hpolled <;> simpa [hpolled, Hold.IsSpent] using hfilled.1 h
      · exact .inr h
    · rcases hpolled with hpolled | hpolled <;> simp [hpolled, Hold.IsSpent, writes, Body.IsEnd] at h
  | write =>
    exact ⟨hstage, hstate, fun _ => .inr ⟨_, Multiset.mem_singleton_self _, trivial⟩, fun _ => hwritten rfl⟩
  | finish =>
    exact ⟨hstage, hstate, fun _ => .inr ⟨_, Multiset.mem_singleton_self _, trivial⟩,
      fun _ => hfull (hfilled.2 (.inr ⟨_, Multiset.mem_singleton_self _, trivial⟩))⟩
  | settle =>
    exact ⟨hstage, .inr (.inr rfl), fun _ => .inl rfl,
      fun _ => hfull (hfilled.2 (.inr ⟨_, Multiset.mem_singleton_self _, trivial⟩))⟩

end turns

end Square

/-- The frame belongs to a task that squares its number. -/
def Frame.OfSquare : Frame Datum Job → Prop
  | .run r => ∃ t, r = Square.writes t ∨ r = Square.ends t
  | .drop guards => guards = []
  | .ended party outcome => ∃ t, party = .task 0 t ∧ outcome = .returned (.ok ())
  | .signal _ | .work _ => True
  | .task p _ phase => p = 0 ∧
    match phase with
    | .settle outcome | .tally outcome => outcome = .returned (.ok ())
    | .park | .requeue | .abandon | .discard => False
    | _ => True
  | .count p _ => p = 0
  | _ => False

namespace Frame

variable {worker : Option (PoolId × Nat)} {choice : Nat} {s : Store Datum Job} {f g : Frame Datum Job} {t : TaskId}

theorem OfSquare.isLabour (h : f.OfSquare) : f.IsLabour := by
  cases f with
  | run r => obtain ⟨t, rfl | rfl⟩ := h <;> exact ⟨t, rfl⟩
  | task p t phase =>
    cases phase with
    | park | requeue | abandon | discard => exact h.2.elim
    | _ => exact h
  | pause | wake | exchange | reschedule => exact h.elim
  | _ => exact h

/-- It writes squares only. -/
theorem OfSquare.fills (h : f.OfSquare) : f.Fills Square.value := by
  cases f with
  | run r =>
    obtain ⟨t, rfl | rfl⟩ := h
    · refine ⟨fun c v hput => ?_, rfl⟩
      cases hput
      rfl
    · refine ⟨fun c v hput => ?_, rfl⟩
      cases hput
  | fill => exact h.elim
  | _ =>
    refine ⟨fun c v hput => ?_, rfl⟩
    cases hput

theorem OfSquare.of_put? (h : f.OfSquare) {c : CellId} {v : Datum} (hput : f.put? = some (c, v)) :
    f = .run (Square.writes c) := by
  cases f with
  | run r =>
    obtain ⟨t, rfl | rfl⟩ := h <;> cases hput
    rfl
  | fill => exact h.elim
  | _ => cases hput

/-- It touches no registration. -/
theorem OfSquare.sameWakers (h : f.OfSquare) : s.SameWakers (f.step Job.start worker choice s).1 := by
  cases f with
  | run r => obtain ⟨t, rfl | rfl⟩ := h <;> exact sameWakers_stepRun worker s id
  | withdraw => exact h.elim
  | _ => exact sameWakers_step (fun _ => by simp) fun _ _ => by simp

theorem stepRun_writes (worker : Option (PoolId × Nat)) (hempty : (s.cell t).payload = .empty) :
    stepRun worker s (Square.writes t) =
      (s.setCell t { s.cell t with payload := .full (Square.value t) }, afterPut t (s.cell t) ++ [.run (Square.ends t)]) := by
  simp only [Square.writes, stepRun, Cell.put_of_empty hempty, Run.goOn, Square.ends]

theorem stepRun_ends (worker : Option (PoolId × Nat)) : stepRun worker s (Square.ends t) =
    (s, [.drop [], .ended (.task 0 t) (.returned (.ok ()))]) := rfl

/-- A put wakes nobody where nobody is registered. -/
theorem ofSquare_afterPut {c : CellId} (hwakers : ∀ k party, ¬ s.Enters k party)
    (hg : g ∈ (afterPut c (s.cell c) : List (Frame Datum Job))) : g.OfSquare := by
  rcases List.mem_append.1 hg with hg | hg
  · split at hg
    · rw [List.mem_singleton.1 hg]
      trivial
    · cases hg
  · obtain ⟨party, hparty, -⟩ := List.mem_map.1 hg
    obtain ⟨⟨key, _⟩, hentry, -⟩ := List.mem_map.1 hparty
    exact absurd hentry (hwakers (c, key) _)

/-- What such a task does next is a step of it. -/
theorem OfSquare.step (h : f.OfSquare) (hworker : ∀ p w, worker = some (p, w) → p = 0)
    (hwakers : ∀ k party, ¬ s.Enters k party) (hwrites : ∀ t, f = .run (Square.writes t) → (s.cell t).payload = .empty)
    (henter : ∀ t, f = .task 0 t .enter → ∃ y, s.task? 0 t = some y ∧ y.stage = .unclaimed (Square.job t)) :
    ∀ g ∈ (f.step Job.start worker choice s).2, g.OfSquare := by
  intro g hg
  have hgives := gives_step Job.start worker choice s f
  cases f with
  | run r =>
    obtain ⟨t, rfl | rfl⟩ := h
    · rw [Frame.step, stepRun_writes worker (hwrites t rfl), List.mem_append, List.mem_singleton] at hg
      rcases hg with hg | rfl
      · exact ofSquare_afterPut hwakers hg
      · exact ⟨t, .inr rfl⟩
    · rw [Frame.step, stepRun_ends] at hg
      simp only [List.mem_cons, List.not_mem_nil, or_false] at hg
      rcases hg with rfl | rfl
      exacts [rfl, ⟨t, rfl, rfl⟩]
  | task p t phase =>
    obtain ⟨rfl, hphase⟩ := h
    cases phase with
    | enter =>
      obtain ⟨y, hy, hstage⟩ := henter t rfl
      have hstart : Job.start (Square.job t) = .ok (.put t (Square.value t) .done) := Square.start_job t
      simp only [Frame.step, stepTask, hy, hstage, hstart, List.mem_singleton] at hg
      exact hg ▸ ⟨t, .inl rfl⟩
    | park | requeue | abandon | discard => exact hphase.elim
    | settle outcome =>
      rw [List.mem_singleton.1 hg]
      exact ⟨rfl, hphase⟩
    | tally outcome =>
      generalize (Frame.step _ _ _ _ _).2 = fs at hg hgives
      cases hgives with
      | nothing => cases hg
      | tallied =>
        simp only [List.mem_cons, List.not_mem_nil, or_false] at hg
        rcases hg with rfl | rfl | rfl
        exacts [⟨rfl, trivial⟩, rfl, rfl]
    | _ =>
      generalize (Frame.step _ _ _ _ _).2 = fs at hg hgives
      cases hgives <;> simp only [List.mem_cons, List.not_mem_nil, or_false] at hg
      all_goals exact hg ▸ ⟨rfl, trivial⟩
  | work seek =>
    generalize (Frame.step _ _ _ _ _).2 = fs at hg hgives
    cases hgives <;> simp only [List.mem_cons, List.not_mem_nil, or_false] at hg
    case seeks => exact hg ▸ trivial
    case finds p w hhome t =>
      obtain rfl := hworker p w hhome
      rcases hg with rfl | rfl
      exacts [⟨rfl, trivial⟩, trivial]
  | drop guards =>
    obtain rfl : guards = [] := h
    cases hg
  | ended party outcome =>
    obtain ⟨t, rfl, houtcome⟩ := h
    rw [List.mem_singleton.1 hg]
    exact ⟨rfl, houtcome⟩
  | signal | count => cases hg
  | _ => exact h.elim

end Frame

/-- The change of a task that is made already. -/
theorem Square.turns_of_change {s : Store Datum Job} {t : TaskId} {f : Frame Datum Job} {y : Task Datum Job}
    {d e rest : Multiset (Hold Datum Job)} {x : Option (Task Datum Job)} (hrunning : s.Running 0)
    (hx : Exact (some y) (d + rest)) (hknows : Knows s t y (d + rest)) (hwrites : f = .run (writes t) → (s.cell t).payload = .empty)
    (hf : f.OfSquare ∨ f.IsOutside) (h : Change Job.start 0 t s f (some y) d x e) :
    ∃ z, x = some z ∧ Turns t f y (d + rest) z (e + rest) := by
  cases h with
  | stay => exact ⟨y, rfl, .stay⟩
  | flag => exact ⟨_, rfl, .flag⟩
  | claim hstate =>
    obtain ⟨rfl, -⟩ := hx.of_single
    exact ⟨_, rfl, .claim hstate⟩
  | refuse hstate => exact absurd hx.of_single.2.1 hstate
  | enter =>
    obtain ⟨rfl, hfit⟩ := hx.of_single
    have hstage := hknows.stage.resolve_right hfit.2
    have hentered : y.stage.entered Job.start 0 t = .polling (writes t) := by
      rw [hstage, Stage.entered, start_job]
      rfl
    rw [hentered]
    exact ⟨_, rfl, .begin hfit.1 hstage⟩
  | @run r _ k worker g hr hk hend hg hgk =>
    obtain ⟨rfl, -⟩ := hx.of_single
    rcases hf with ⟨u, rfl | rfl⟩ | hout
    · obtain rfl : u = t := by cases hr; rfl
      rw [Frame.stepRun_writes worker (hwrites rfl), List.mem_append, List.mem_singleton] at hg
      rcases hg with hg | rfl
      · rw [(Frame.isQuiet_afterPut hg).holds_eq_zero] at hgk
        exact absurd hgk.symm (Multiset.singleton_ne_zero k)
      · obtain rfl : k = .polling (ends u) := by simpa [Frame.holds, ends] using hgk.symm
        exact ⟨y, rfl, .write⟩
    · obtain rfl : u = t := by cases hr; rfl
      rw [Frame.stepRun_ends] at hg
      simp only [List.mem_cons, List.not_mem_nil, or_false] at hg
      rcases hg with rfl | rfl
      · exact absurd hgk.symm (Multiset.singleton_ne_zero k)
      · obtain rfl : k = .ending (.returned (.ok ())) := by simpa [Frame.holds] using hgk.symm
        exact ⟨y, rfl, .finish⟩
    · exact absurd (hr.symm.trans hout) (by simp)
  | @answer f _ r hr hanswers =>
    cases f with
    | blocked c timed next | spawn q job phase next =>
      obtain ⟨answer, rfl⟩ := hanswers
      rcases hf with hsquare | hout
      · exact hsquare.elim
      · exact absurd ((hout answer).symm.trans hr) (by simp)
    | _ => exact hanswers.elim
  | settle =>
    obtain ⟨rfl, hfit⟩ := hx.of_single
    rcases hf with ⟨-, rfl⟩ | hout
    · exact ⟨_, rfl, .settle hfit.1⟩
    · exact hout.elim
  | park | unpark | requeue => exact (hf.elim And.right id).elim
  | pause | wake | notify | handBack => exact (hf.elim id id).elim
  | lose hp => exact absurd hrunning hp
  | close hp => exact absurd hrunning hp

end Dataflow
