import Dataflow.Proofs.Labour

/-!
# The links of a chain

Link `t` of a chain reads cell `t`, and writes one more into cell `t + 1`, which has the next number. What a link can
be at, in whatever order the workers go on, is said by the frames of its poll (`Frame.OfLink`), by what its task knows
(`Link.Knows`), and by the turns of its task (`Link.Turns`), which are the changes of any task that can happen to it.
-/

namespace Dataflow

namespace Link

/-- A number as the payload of a cell. -/
def number (n : Nat) : Datum := ⟨Core.u64, IntKind.unsigned64.wrap n⟩

/-- The job of a link. -/
def job (t : TaskId) : Job := .core .link (Graph.linkArguments ⟨t⟩ ⟨t + 1⟩)

/-- What a link does with the answer of its read. -/
def next (t : TaskId) : Except RuntimeError Datum → Body Datum Job :=
  Body.orFail (Core.typed Core.u64 fun v => Core.finish (t := Core.u64) ⟨t + 1⟩ (IntKind.wrap _ (Subtype.val v + 1)))

/-- A link that reads, under the key of its registration if it has one. -/
def reads (t : TaskId) (key : Option Nat) : Run Datum Job := { party := .task 0 t, body := .get t key (next t) }

/-- A link that writes. -/
def writes (t : TaskId) : Run Datum Job := { party := .task 0 t, body := .put (t + 1) (number (t + 1)) .done }

/-- A link that ends. -/
def ends (t : TaskId) : Run Datum Job := { party := .task 0 t, body := .done (.ok ()) }

theorem start_job (t : TaskId) : (job t).start = .ok (.get t none (next t)) := rfl

theorem val_wrap (n : Nat) : (IntKind.unsigned64.wrap n).val = (n % 2 ^ 64 : Nat) := by
  have hin : IntKind.unsigned64.InRange ((n : Int) % ((2 ^ 64 : Nat) : Int)) := by
    constructor <;> simp [IntKind.low, IntKind.high, IntSize.bits] <;> omega
  have hbits : IntKind.unsigned64.size.bits = 64 := rfl
  simp only [IntKind.wrap, hbits]
  rw [dif_pos hin]
  simp

/-- Arithmetic that wraps around may wrap around once. -/
theorem wrap_succ (n : Nat) :
    IntKind.unsigned64.wrap ((IntKind.unsigned64.wrap n).val + 1) = IntKind.unsigned64.wrap (n + 1 : Nat) := by
  have hcast : (IntKind.unsigned64.wrap n).val + 1 = ((n % 2 ^ 64 + 1 : Nat) : Int) := by
    rw [val_wrap]
    rfl
  refine Subtype.ext ?_
  rw [hcast, val_wrap, val_wrap, Nat.mod_add_mod]

theorem next_number (t : TaskId) (n : Nat) : next t (.ok (number n)) = .put (t + 1) (number (n + 1)) .done := by
  have hnext : next t (.ok (number n)) =
      .put (t + 1) ⟨Core.u64, IntKind.unsigned64.wrap ((IntKind.unsigned64.wrap n).val + 1)⟩ .done := rfl
  rw [hnext, wrap_succ]
  rfl

end Link

/-- The cell is full, with its own number. -/
def Store.Full (s : Store Datum Job) (c : CellId) : Prop := (s.cell c).payload = .full (Link.number c)

/-- The body of a link in the middle of a poll. Under a key it only reads what is there. -/
inductive Link.Stands (s : Store Datum Job) (t : TaskId) : Run Datum Job → Prop where
  | reads {key : Option Nat} (h : key ≠ none → s.Full t) : Stands s t (Link.reads t key)
  | writes (h : s.Full t) : Stands s t (Link.writes t)
  | ends (h : s.Full t) (h' : s.Full (t + 1)) : Stands s t (Link.ends t)

/-- What a link has left of its job when it is in no poll. -/
def Link.Keeps (t : TaskId) : Stage Datum Job → Prop
  | .unclaimed job => job = Link.job t
  | .started guards body => guards = [] ∧ ∃ key, body = .get t (some key) (next t)
  | .consumed => True

/-- The frame belongs to a link, or to a call that wakes one. -/
def Frame.OfLink (s : Store Datum Job) : Frame Datum Job → Prop
  | .run r => ∃ t, Link.Stands s t r
  | .pause r => ∃ t key, r = Link.reads t (some key)
  | .drop guards => guards = []
  | .ended party outcome => ∃ t, party = .task 0 t ∧ outcome = .returned (.ok ()) ∧ s.Full t ∧ s.Full (t + 1)
  | .signal c => s.Full c
  | .wake party => ∃ t, party = .task 0 t ∧ s.Full t
  | .exchange p t _ _ | .reschedule p t => p = 0 ∧ s.Full t
  | .task p t phase => p = 0 ∧
    match phase with
    | .settle outcome | .tally outcome => outcome = .returned (.ok ()) ∧ s.Full t ∧ s.Full (t + 1)
    | .abandon | .discard => False
    | _ => True
  | .count p _ => p = 0
  | .work _ => True
  | _ => False

/-- The body has ended. -/
def Hold.IsSpent {V J : Type} : Hold V J → Prop
  | .polling r => r.body.IsEnd
  | .ending _ => True
  | _ => False

namespace Link

/-- What is known of the task of a link. -/
structure Knows (s : Store Datum Job) (t : TaskId) (y : Task Datum Job) (T : Multiset (Hold Datum Job)) : Prop where
  stage : Keeps t y.stage
  /-- Nothing goes wrong with a link. -/
  sound : y.state ≠ .failed
  ended : y.state = .completed → s.Full t ∧ s.Full (t + 1)
  notified : y.state = .notified → s.Full t
  /-- Once it has left its parking place there is something to read. -/
  started : y.stage.IsStarted → s.Full t ∨ y.state = .suspended ∨ T = {.parking}
  /-- Only the link itself writes its cell. -/
  written : s.Full (t + 1) → y.state.isTerminal = true ∨ ∃ k ∈ T, k.IsSpent

/-- What the step of a frame can do to the task of a link and to its holds. -/
inductive Turns (s : Store Datum Job) (t : TaskId) : Frame Datum Job → Task Datum Job → Multiset (Hold Datum Job) →
    Task Datum Job → Multiset (Hold Datum Job) → Prop where
  | stay {f y T} : Turns s t f y T y T
  | flag {f y T b} : Turns s t f y T { y with registered := b } T
  | claim {f y} (hstate : y.state = .queued) (hstage : y.stage ≠ .consumed) :
    Turns s t f y {.ready} { y with state := .running } {.claimed}
  /-- The first poll begins. -/
  | begin {f y} (hstate : y.IsPolled) (hstage : y.stage = .unclaimed (job t)) :
    Turns s t f y {.claimed} { y with stage := .consumed } {.polling (reads t none)}
  /-- The second poll begins. -/
  | again {f y key} (hstate : y.IsPolled) (hstage : y.stage = .started [] (.get t (some key) (next t))) :
    Turns s t f y {.claimed} { y with stage := .consumed } {.polling (reads t (some key))}
  | miss {y key} (hempty : ¬ s.Full t) : Turns s t (.run (reads t none)) y {.polling (reads t none)} y
      {.pausing (reads t (some key))}
  | read {f y key} (hfull : s.Full t) : Turns s t f y {.polling (reads t key)} y {.polling (writes t)}
  | write {f y} : Turns s t f y {.polling (writes t)} y {.polling (ends t)}
  | finish {f y} : Turns s t f y {.polling (ends t)} y {.ending (.returned (.ok ()))}
  | pause {f y key} (hstage : y.stage = .consumed) : Turns s t f y {.pausing (reads t (some key))}
      { y with stage := .started [] (.get t (some key) (next t)) } {.parking}
  | park {f y} (hstate : y.state = .running) : Turns s t f y {.parking} { y with state := .suspended } 0
  | unpark {f y} (hstate : y.state = .notified) : Turns s t f y {.parking} y {.requeue}
  | requeue {f y} (hstate : y.state = .notified) (hstage : y.stage.IsStarted) :
    Turns s t f y {.requeue} { y with state := .queued } {.ready}
  | wake {f y} (hstate : y.state = .suspended) (hstage : y.stage.IsStarted) (hfull : s.Full t) :
    Turns s t f y 0 { y with state := .queued } {.rescheduling}
  | notify {f y T} (hstate : y.state = .running) (hfull : s.Full t) :
    Turns s t f y T { y with state := .notified } T
  | handBack {f y} (hstate : y.state = .queued) : Turns s t f y {.rescheduling} y {.ready}
  | settle {f y} (hstate : y.IsPolled) (hstage : y.stage = .consumed) (hfull : s.Full t ∧ s.Full (t + 1)) :
    Turns s t f y {.ending (.returned (.ok ()))} { y with state := .completed } 0

section turns

variable {s s' : Store Datum Job} {t : TaskId} {f : Frame Datum Job} {y z : Task Datum Job}
  {T T' d e rest : Multiset (Hold Datum Job)}

/-- The instruction of a link that reads. -/
theorem stepRun_reads_of_full (worker : Option (PoolId × Nat)) (key : Option Nat) (hfull : s.Full t) :
    Frame.stepRun worker s (reads t key) = (s.setCell t ((s.cell t).withdraw key), [.run (writes t)]) := by
  rw [reads, Frame.stepRun_get_of_full _ _ _ _ _ hfull, next_number]
  rfl

theorem stepRun_reads_of_empty (worker : Option (PoolId × Nat)) (key : Option Nat)
    (hempty : (s.cell t).payload = .empty) :
    Frame.stepRun worker s (reads t key) = (s.setCell t ((s.cell t).register (.task 0 t) key).1,
      [.pause (reads t (some ((s.cell t).register (.task 0 t) key).2))]) := by
  rw [reads, Frame.stepRun_get_of_empty _ _ _ _ _ hempty]
  rfl

/-- The instruction of a link that writes. -/
theorem stepRun_writes (worker : Option (PoolId × Nat)) (hempty : (s.cell (t + 1)).payload = .empty) :
    Frame.stepRun worker s (writes t) =
      (s.setCell (t + 1) { s.cell (t + 1) with payload := .full (number (t + 1)) },
        Frame.afterPut (t + 1) (s.cell (t + 1)) ++ [.run (ends t)]) := by
  simp only [writes, Frame.stepRun, Cell.put_of_empty hempty, Run.goOn, ends]

theorem stepRun_ends (worker : Option (PoolId × Nat)) : Frame.stepRun worker s (ends t) =
    (s, [.drop [], .ended (.task 0 t) (.returned (.ok ()))]) := rfl

theorem turns_of_run {r : Run Datum Job} {k : Hold Datum Job} {worker : Option (PoolId × Nat)} {g : Frame Datum Job}
    (hstands : Stands s t r) (hcells : ∀ c, (s.cell c).payload = .empty ∨ s.Full c)
    (hwrites : r = writes t → ¬ s.Full (t + 1)) (hg : g ∈ (Frame.stepRun worker s r).2)
    (hgk : g.holds worker 0 t = {k}) : Turns s t (.run r) y {.polling r} y {k} := by
  cases hstands with
  | @reads key hkey =>
    by_cases hfull : s.Full t
    · rw [stepRun_reads_of_full worker key hfull, List.mem_singleton] at hg
      obtain rfl : k = .polling (writes t) := by simpa [hg, Frame.holds, writes] using hgk.symm
      exact .read hfull
    · rw [stepRun_reads_of_empty worker key ((hcells t).resolve_right hfull), List.mem_singleton] at hg
      obtain rfl : key = none := not_not.1 fun hne => hfull (hkey hne)
      obtain rfl : k = .pausing (reads t (some ((s.cell t).register (.task 0 t) none).2)) := by
        simpa [hg, Frame.holds, reads] using hgk.symm
      exact .miss hfull
  | writes hread =>
    rw [stepRun_writes worker ((hcells _).resolve_right (hwrites rfl)), List.mem_append, List.mem_singleton] at hg
    rcases hg with hg | rfl
    · rw [(Frame.isQuiet_afterPut hg).holds_eq_zero] at hgk
      exact absurd hgk.symm (Multiset.singleton_ne_zero k)
    · obtain rfl : k = .polling (Link.ends t) := by simpa [Frame.holds, Link.ends] using hgk.symm
      exact .write
  | ends hread hwritten =>
    rw [stepRun_ends] at hg
    simp only [List.mem_cons, List.not_mem_nil, or_false] at hg
    rcases hg with rfl | rfl
    · exact absurd hgk.symm (Multiset.singleton_ne_zero k)
    · obtain rfl : k = .ending (.returned (.ok ())) := by simpa [Frame.holds] using hgk.symm
      exact .finish

/-- The change of a task that is made already, if it is a link. -/
theorem turns_of_change {y' : Option (Task Datum Job)} (hrunning : s.Running 0) (hx : Exact (some y) (d + rest))
    (hknows : Knows s t y (d + rest)) (hcells : ∀ c, (s.cell c).payload = .empty ∨ s.Full c)
    (hf : f.OfLink s ∨ f.IsOutside) (h : Change Job.start 0 t s f (some y) d y' e) :
    ∃ z, y' = some z ∧ Turns s t f y (d + rest) z (e + rest) := by
  cases h with
  | stay => exact ⟨y, rfl, .stay⟩
  | flag => exact ⟨_, rfl, .flag⟩
  | claim hstate =>
    obtain ⟨rfl, hfit⟩ := hx.of_single
    exact ⟨_, rfl, .claim hstate hfit.2⟩
  | refuse hstate => exact absurd hx.of_single.2.1 hstate
  | enter =>
    obtain ⟨rfl, hfit⟩ := hx.of_single
    have hkeeps := hknows.stage
    cases hstage : y.stage with
    | unclaimed job =>
      rw [hstage] at hkeeps
      obtain rfl : job = Link.job t := hkeeps
      exact ⟨_, rfl, .begin hfit.1 hstage⟩
    | started guards body =>
      rw [hstage] at hkeeps
      obtain ⟨rfl, key, rfl⟩ := hkeeps
      exact ⟨_, rfl, .again hfit.1 hstage⟩
    | consumed => exact absurd hstage hfit.2
  | @run r _ k worker g hr hk hend hg hgk =>
    obtain ⟨rfl, hfit⟩ := hx.of_single
    rcases hf with ⟨u, hstands⟩ | hout
    · obtain rfl : u = t := by cases hstands <;> cases hr <;> rfl
      refine ⟨y, rfl, turns_of_run hstands hcells ?_ hg hgk⟩
      rintro rfl hfull
      rcases hknows.written hfull with hend | ⟨k', hk', hspent⟩
      · rcases hfit.1 with h | h <;> rw [h] at hend <;> cases hend
      · rw [add_zero, Multiset.mem_singleton] at hk'
        subst hk'
        exact hspent
    · exact absurd (hr.symm.trans hout) (by simp)
  | @answer f _ r hr hanswers =>
    cases f with
    | blocked c timed next | spawn q job phase next =>
      obtain ⟨answer, rfl⟩ := hanswers
      rcases hf with hlink | hout
      · exact hlink.elim
      · exact absurd ((hout answer).symm.trans hr) (by simp)
    | _ => exact hanswers.elim
  | pause hr =>
    obtain ⟨rfl, hfit⟩ := hx.of_single
    rcases hf with ⟨u, key, rfl⟩ | hout
    · cases hr
      exact ⟨_, rfl, .pause hfit.2⟩
    · exact hout.elim
  | settle =>
    obtain ⟨rfl, hfit⟩ := hx.of_single
    rcases hf with ⟨-, rfl, hfull⟩ | hout
    · exact ⟨_, rfl, .settle hfit.1 hfit.2 hfull⟩
    · exact hout.elim
  | park hstate =>
    obtain ⟨rfl, -⟩ := hx.of_single
    exact ⟨_, rfl, .park hstate⟩
  | unpark hstate =>
    obtain ⟨rfl, hfit⟩ := hx.of_single
    exact ⟨_, rfl, .unpark (hfit.1.resolve_left hstate)⟩
  | requeue =>
    obtain ⟨rfl, hfit⟩ := hx.of_single
    exact ⟨_, rfl, .requeue hfit.1 hfit.2⟩
  | wake hstate =>
    rcases hf with hlink | hout
    · rcases hx with ⟨hzero, hrests⟩ | ⟨k, -, hfit⟩
      · obtain rfl : rest = 0 := by rwa [zero_add] at hzero
        rcases hrests with ⟨-, hstarted⟩ | ⟨hend, -⟩
        · exact ⟨_, rfl, .wake hstate hstarted hlink.2⟩
        · rw [hstate] at hend
          cases hend
      · rcases hfit.state with h | h | h <;> rw [hstate] at h <;> cases h
    · exact hout.elim
  | notify hstate =>
    rcases hf with hlink | hout
    · exact ⟨_, rfl, .notify hstate hlink.2⟩
    · exact hout.elim
  | handBack _ =>
    obtain ⟨rfl, hfit⟩ := hx.of_single
    exact ⟨y, rfl, .handBack hfit.1⟩
  | lose hp => exact absurd hrunning hp
  | close hp => exact absurd hrunning hp

/-- What is known of a link stays known. -/
theorem Knows.turn (hknows : Knows s t y T) (h : Turns s t f y T z T') (hfull : ∀ c, s.Full c → s'.Full c)
    (hwritten : s'.Full (t + 1) → s.Full (t + 1) ∨ ∃ k ∈ T', k.IsSpent) : Knows s' t z T' := by
  obtain ⟨hstage, hsound, hended, hnotified, hstarted, hspent⟩ := hknows
  have hended' : y.state = .completed → s'.Full t ∧ s'.Full (t + 1) := fun h => (hended h).imp (hfull _) (hfull _)
  have hnotified' : y.state = .notified → s'.Full t := fun h => hfull _ (hnotified h)
  have hstarted' : y.stage.IsStarted → s'.Full t ∨ y.state = .suspended ∨ T = {.parking} := fun h =>
    (hstarted h).imp_left (hfull _)
  have hspent' : s'.Full (t + 1) →
      (y.state.isTerminal = true ∨ ∃ k ∈ T, k.IsSpent) ∨ ∃ k ∈ T', k.IsSpent := fun h => (hwritten h).imp_left hspent
  cases h with
  | stay | flag => exact ⟨hstage, hsound, hended', hnotified', hstarted', fun h => (hspent' h).elim id .inr⟩
  | claim hstate =>
    exact ⟨hstage, by simp, by simp, by simp, by simpa [hstate] using hstarted',
      by simpa [hstate, Hold.IsSpent, TaskState.isTerminal] using hspent'⟩
  | begin hstate | again hstate =>
    refine ⟨trivial, hsound, hended', hnotified', fun h => h.elim, fun h => ?_⟩
    rcases hstate with hstate | hstate <;>
      simpa [hstate, Hold.IsSpent, TaskState.isTerminal] using hspent' h
  | miss =>
    exact ⟨hstage, hsound, hended', hnotified', by simpa using hstarted',
      by simpa [Hold.IsSpent, reads, Body.IsEnd] using hspent'⟩
  | read =>
    exact ⟨hstage, hsound, hended', hnotified', by simpa using hstarted',
      by simpa [Hold.IsSpent, reads, writes, Body.IsEnd] using hspent'⟩
  | write =>
    exact ⟨hstage, hsound, hended', hnotified', by simpa using hstarted', by simp [Hold.IsSpent, ends, Body.IsEnd]⟩
  | finish => exact ⟨hstage, hsound, hended', hnotified', by simpa using hstarted', by simp [Hold.IsSpent]⟩
  | pause =>
    exact ⟨⟨rfl, _, rfl⟩, hsound, hended', hnotified', by simp, by simpa [Hold.IsSpent] using hspent'⟩
  | park hstate =>
    exact ⟨hstage, by simp, by simp, by simp, by simp,
      by simpa [Hold.IsSpent, hstate, TaskState.isTerminal] using hspent'⟩
  | unpark hstate =>
    exact ⟨hstage, hsound, hended', hnotified', fun _ => .inl (hnotified' hstate),
      by simpa [Hold.IsSpent] using hspent'⟩
  | requeue hstate =>
    exact ⟨hstage, by simp, by simp, by simp, fun _ => .inl (hnotified' hstate),
      by simpa [Hold.IsSpent, hstate, TaskState.isTerminal] using hspent'⟩
  | wake hstate _ hread =>
    exact ⟨hstage, by simp, by simp, by simp, fun _ => .inl (hfull _ hread),
      by simpa [Hold.IsSpent, hstate, TaskState.isTerminal] using hspent'⟩
  | notify hstate hread =>
    exact ⟨hstage, by simp, by simp, fun _ => hfull _ hread, fun _ => .inl (hfull _ hread),
      by simpa [Hold.IsSpent, hstate, TaskState.isTerminal] using hspent'⟩
  | handBack hstate =>
    exact ⟨hstage, hsound, hended', hnotified', by simpa using hstarted',
      by simpa [Hold.IsSpent, hstate, TaskState.isTerminal] using hspent'⟩
  | settle _ hstage' hboth =>
    exact ⟨hstage, by simp, fun _ => hboth.imp (hfull _) (hfull _), by simp, by simp [hstage', Stage.IsStarted],
      by simp [TaskState.isTerminal]⟩

/-- A link that has ended stays so. -/
theorem Turns.completed (h : Turns s t f y T z T') (hy : y.state = .completed) : z.state = .completed := by
  cases h with
  | claim hstate | park hstate | requeue hstate | wake hstate | notify hstate => cases hy.symm.trans hstate
  | settle => rfl
  | _ => exact hy

/-- The link is parked, or will be unless it is woken. -/
def Waits (y : Task Datum Job) (T : Multiset (Hold Datum Job)) : Prop :=
  y.state = .suspended ∨ y.state = .running ∧ ∃ k ∈ T, k = .parking ∨ ∃ r, k = .pausing r

/-- A link begins to wait when it finds its cell empty. -/
theorem Turns.waits (h : Turns s t f y T z T') (hwaits : Waits z T') :
    Waits y T ∨ f = .run (reads t none) ∧ ¬ s.Full t := by
  cases h with
  | stay | flag => exact .inl hwaits
  | miss hempty => exact .inr ⟨rfl, hempty⟩
  | pause =>
    refine .inl (hwaits.imp id fun h => ⟨h.1, ?_⟩)
    exact ⟨_, Multiset.mem_singleton_self _, .inr ⟨_, rfl⟩⟩
  | park hstate => exact .inl (.inr ⟨hstate, _, Multiset.mem_singleton_self _, .inl rfl⟩)
  | _ => simp_all [Waits]

end turns

end Link

end Dataflow
