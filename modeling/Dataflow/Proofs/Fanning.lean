import Dataflow.Command.Line
import Dataflow.Proofs.Squared
import Dataflow.Proofs.Submitting

/-!
# The program that fans out

The program submits one task after the other, each with a new cell, which the task fills with a square. Then it looks
into the cells, the last one first, and adds up what is there. It says the sum and shuts the pool down. Where the program
stands says what there is in the store, which calls have been made and which sums have been passed (`Fanout.Stands`),
whatever the tasks have come to. Each of its steps leads on, and the steps that are left are counted (`Fanout.Leads`).
-/

namespace Dataflow

open Dataflow.Graph (addUp fanoutFrom report)
open Submission (Answers Asks Tries)

namespace Fanout

/-- The cells of the first so many tasks, the last one first. -/
def cells : Nat → List (CellRef Core.u64)
  | 0 => []
  | k + 1 => ⟨k⟩ :: cells k

/-- The squares of the numbers from `c` on and below `N`. -/
def sum (c N : Nat) : Nat := ∑ i ∈ Finset.Ico c N, i * i

/-- The program with a sum to which the first `c` cells are still to be added. -/
def adds (c : Nat) (sum : Core.u64.Value) : Frame Datum Job :=
  .program (addUp (report (k := .unsigned64) 0) (cells c) sum)

/-- What the program does when the shutdown call returns. -/
def returned : Frame Datum Job := .program (.done (.ok ()))

/-- What it does once task `k` is submitted, with `d` tasks to come. -/
def goesOn (d k : Nat) : Except RuntimeError TaskId → Body Datum Job :=
  Body.orFail fun _ => fanoutFrom 0 d (k + 1) (cells (k + 1))

theorem sum_self (N : Nat) : sum N N = 0 := by
  simp [sum]

theorem sum_succ {c N : Nat} (hc : c < N) : sum (c + 1) N + c * c = sum c N := by
  rw [sum, sum, Finset.sum_eq_sum_Ico_succ_bot hc, Nat.add_comm]

theorem sum_zero (N : Nat) : sum 0 N = ∑ i ∈ Finset.range N, i * i := by
  rw [sum, Finset.range_eq_Ico]

theorem sum_le (c N : Nat) : sum c N ≤ N * (N * N) := by
  have hle : ∀ i ∈ Finset.Ico c N, i * i ≤ N * N := fun i hi =>
    Nat.mul_self_le_mul_self (Finset.mem_Ico.1 hi).2.le
  refine (Finset.sum_le_card_nsmul _ _ _ hle).trans ?_
  rw [Nat.card_Ico, smul_eq_mul]
  exact Nat.mul_le_mul_right _ (Nat.sub_le N c)

/-- No sum of squares overflows. -/
theorem sum_lt {N : Nat} (hN : N ≤ Command.Flag.maxTasks) (c : Nat) : sum c N < 2 ^ 64 := by
  have hcube : N * (N * N) ≤ Command.Flag.maxTasks * (Command.Flag.maxTasks * Command.Flag.maxTasks) :=
    Nat.mul_le_mul hN (Nat.mul_le_mul hN hN)
  exact Nat.lt_of_le_of_lt ((sum_le c N).trans hcube) (by decide)

/-- What a cell holds is added. -/
theorem addUp_value {c N : Nat} (hc : c < N) : Body.orFail (Core.typed Core.u64 fun v =>
      addUp (report (k := .unsigned64) 0) (cells c)
        (IntKind.wrap _ (Subtype.val (IntKind.unsigned64.wrap (sum (c + 1) N)) + Subtype.val v)))
      (.ok (Square.value c)) =
    addUp (report (k := .unsigned64) 0) (cells c) (IntKind.unsigned64.wrap (sum c N)) := by
  have hwrap : IntKind.unsigned64.wrap ((IntKind.unsigned64.wrap (sum (c + 1) N)).val +
      (IntKind.unsigned64.wrap (c * c : Nat)).val) = IntKind.unsigned64.wrap (sum c N) := by
    rw [Share.wrap_add, sum_succ hc]
  rw [← hwrap]
  rfl

/-- When nothing is left to add, the sum is said. -/
theorem report_sum {N : Nat} (hN : sum 0 N < 2 ^ 64) :
    addUp (report (k := .unsigned64) 0) (cells 0) (IntKind.unsigned64.wrap (sum 0 N)) =
      .note (.line (toString (sum 0 N))) (.shutdown 0 (.done (.ok ()))) := by
  have hreport : addUp (report (k := .unsigned64) 0) (cells 0) (IntKind.unsigned64.wrap (sum 0 N)) =
      .note (.line (toString (IntKind.unsigned64.wrap (sum 0 N)).val)) (.shutdown 0 (.done (.ok ()))) := rfl
  rw [hreport, Share.val_wrap_of_lt hN]
  rfl

/-- There are `k` tasks and `n` cells, and so much is said. -/
structure Has (s : Store Datum Job) (k n : Nat) (notes : List (Note Datum)) : Prop where
  made : ∃ q, s.charge 0 = some (q, k)
  cells : s.cells.size = n
  notes : s.notes = notes

/-- All tasks are there, and the squares from `c` on are added up: the program has been before each of the sums, which
were exact. -/
structure Added (N c : Nat) (s : Store Datum Job) (calls : List (Call Job)) (past : List (Frame Datum Job))
    (notes : List (Note Datum)) : Prop where
  has : Has s N N notes
  calls : Submits Square.job N calls
  past : ∀ c', c ≤ c' → c' ≤ N → adds c' (IntKind.unsigned64.wrap (sum c' N)) ∈ past

/-- Where the program stands, if it has made these calls and been before these frames. It has at most so many steps
before it, with those that book what it has made. -/
inductive Stands (N : Nat) (s : Store Datum Job) :
    List (Call Job) → List (Frame Datum Job) → Nat → List (Frame Datum Job) → Prop where
  | loops {k d calls past} (hk : k + (d + 1) = N) (h : Has s k k []) (hcalls : Submits Square.job k calls) :
    Stands N s calls past (20 * (d + 1) + 2 * N + 5) [.program (fanoutFrom 0 (d + 1) k (cells k))]
  | asks {k d n e calls past f} (hk : k + 1 + d = N) (h : Has s k (k + 1) []) (hcalls : Tries Square.job s k e calls)
    (hf : Asks (Square.job k) (goesOn d k) n f) : Stands N s calls past (20 * d + 2 * N + 12 + n + e) [f]
  | makes {k d calls past answer} (hk : k + 1 + d = N) (h : Has s k (k + 1) [])
    (hcalls : Submits Square.job (k + 1) calls) (hanswer : Answers (Square.job k) (goesOn d k) answer) :
    Stands N s calls past (20 * d + 2 * N + 11) [.spawn 0 (Square.job k) .number answer]
  | refused {k d calls past} (hk : k + 1 + d = N) (h : Has s k (k + 1) []) (hcalls : Submits Square.job k calls) :
    Stands N s (calls ++ [.refused (Square.job k)]) past (20 * d + 2 * N + 17)
      [.program (.waitIdle 0 (.submit 0 (Square.job k) (goesOn d k)))]
  | idles {k d calls past} (hk : k + 1 + d = N) (h : Has s k (k + 1) []) (hcalls : Submits Square.job k calls) :
    Stands N s (calls ++ [.refused (Square.job k)]) past (20 * d + 2 * N + 16)
      [.waitIdle 0, .program (.submit 0 (Square.job k) (goesOn d k))]
  | adds {c calls past} (hc : c ≤ N) (h : Added N (c + 1) s calls past []) :
    Stands N s calls past (2 * c + 5) [adds c (IntKind.unsigned64.wrap (sum c N))]
  | blocks {c calls past answer} (hc : c < N) (h : Added N (c + 1) s calls past []) (hblocked : 0 < (s.cell c).blocked)
    (hanswer : answer (.ok (some (Square.value c))) =
      { party := .outside, body := addUp (report (k := .unsigned64) 0) (cells c) (IntKind.unsigned64.wrap (sum c N)) })
    (hout : ∀ result, (answer result).party = .outside) :
    Stands N s calls past (2 * c + 6) [.blocked c false answer]
  | shuts {calls past} (h : Added N 0 s calls past [.line (toString (sum 0 N))]) :
    Stands N s calls past 4 [.program (.shutdown 0 (.done (.ok ())))]
  | checks {calls past} (h : Added N 0 s calls past [.line (toString (sum 0 N))]) :
    Stands N s calls past 3 [.shutdown 0 .check, returned]
  | waits {calls past} (h : Added N 0 s calls past [.line (toString (sum 0 N))]) :
    Stands N s calls past 2 [.waitIdle 0, .shutdown 0 .close, returned]

section respects

variable {s s' : Store Datum Job} {N c k n left : Nat} {calls : List (Call Job)} {notes : List (Note Datum)}
  {past past' stack : List (Frame Datum Job)}

theorem Has.respects (h : Has s k n notes) (hs : s.Respects s') : Has s' k n notes := by
  obtain ⟨⟨q, hmade⟩, hcells, hnotes⟩ := h
  obtain ⟨q', -, hmade'⟩ := hs.charge q k hmade
  exact ⟨⟨q', hmade'⟩, hs.size.trans hcells, hs.notes.trans hnotes⟩

theorem Added.respects (h : Added N c s calls past notes) (hs : s.Respects s') (hpast : past ⊆ past') :
    Added N c s' calls past' notes :=
  ⟨h.has.respects hs, h.calls, fun c' hge hle => hpast (h.past c' hge hle)⟩

/-- What the tasks do leaves the program where it stands. -/
theorem Stands.respects (h : Stands N s calls past left stack) (hs : s.Respects s') (hpast : past ⊆ past') :
    Stands N s' calls past' left stack := by
  cases h with
  | loops hk h hcalls => exact .loops hk (h.respects hs) hcalls
  | asks hk h hcalls hf =>
    refine .asks hk (h.respects hs) ?_ hf
    cases hcalls with
    | first hcalls => exact .first hcalls
    | again hcalls hidle =>
      obtain ⟨q, hq, hidle'⟩ := hs.charge 0 _ hidle
      obtain rfl := Nat.le_zero.1 hq
      exact .again hcalls hidle'
  | makes hk h hcalls hanswer => exact .makes hk (h.respects hs) hcalls hanswer
  | refused hk h hcalls => exact .refused hk (h.respects hs) hcalls
  | idles hk h hcalls => exact .idles hk (h.respects hs) hcalls
  | adds hc h => exact .adds hc (h.respects hs hpast)
  | blocks hc h hblocked hanswer hout =>
    exact .blocks hc (h.respects hs hpast) (by rwa [hs.blocked]) hanswer hout
  | shuts h => exact .shuts (h.respects hs hpast)
  | checks h => exact .checks (h.respects hs hpast)
  | waits h => exact .waits (h.respects hs hpast)

theorem Stands.pos (h : Stands N s calls past left stack) : 0 < left := by
  cases h <;> omega

theorem Stands.ne_nil (h : Stands N s calls past left stack) : stack ≠ [] := by
  cases h <;> exact List.cons_ne_nil _ _

theorem Stands.charge (h : Stands N s calls past left stack) : ∃ q k, s.charge 0 = some (q, k) ∧ k ≤ N := by
  cases h with
  | loops hk h | asks hk h | makes hk h | refused hk h | idles hk h =>
    obtain ⟨q, hmade⟩ := h.made
    exact ⟨q, _, hmade, by omega⟩
  | adds hc h | blocks hc h | shuts h | checks h | waits h =>
    obtain ⟨q, hmade⟩ := h.has.made
    exact ⟨q, N, hmade, Nat.le_refl N⟩

end respects

/-- The program goes on as it may, with fewer steps before it, until the call to wait before the pool is stopped
returns. -/
structure Leads (N : Nat) (s : Store Datum Job) (calls : List (Call Job)) (past : List (Frame Datum Job)) (left : Nat)
    (f : Frame Datum Job) (below : List (Frame Datum Job)) (next : Store Datum Job × List (Frame Datum Job)) : Prop where
  modest : f.Modest s
  frames : ∀ g ∈ next.2, g.OfSquare ∨ g.IsOutside
  stands : (∃ bookings tail left', next.2 ++ below = bookings ++ tail ∧ (∀ g ∈ bookings, g.IsBookkeeping) ∧
      bookings.length + left' < left ∧
      Stands N next.1 (calls ++ (Taken.call? 0 ⟨0, none, f, s⟩).toList) (past ++ [f]) left' tail) ∨
    f = .waitIdle 0 ∧ next.2 = [] ∧ below = [.shutdown 0 .close, returned] ∧
      Added N 0 s calls past [.line (toString (sum 0 N))]

end Fanout

theorem Frame.IsBookkeeping.ofSquare {f : Frame Datum Job} (h : f.IsBookkeeping) : f.OfSquare := by
  cases f with
  | count => exact h
  | task p t phase =>
    cases phase with
    | register | enqueue => exact ⟨h, trivial⟩
    | _ => exact h.elim
  | _ => exact h.elim

namespace Frame

variable {s : Store Datum Job} {f : Frame Datum Job}

/-- A frame outside that reads, writes and makes nothing. -/
theorem modest_of_isOutside (hout : f.IsOutside) (hput : f.put? = none) (hdestroy : f.destroy? = none)
    (hread : ∀ r, f = .run r → ¬ r.body.IsRead) (hspawn : ∀ job next, f ≠ .spawn 0 job .number next)
    (hclose : f ≠ .shutdown 0 .close) : f.Modest s :=
  ⟨hout, hput, hdestroy, hread, fun job next h => absurd h (hspawn job next), hclose⟩

theorem modest_program {body : Body Datum Job} (hput : (program body).put? = none)
    (hdestroy : (program body).destroy? = none) (hread : ¬ body.IsRead) : (program body).Modest s :=
  modest_of_isOutside rfl hput hdestroy (fun r hr => by cases hr; exact hread) (by simp [program]) (by simp [program])

end Frame

namespace Submission

variable {s : Store Datum Job} {f : Frame Datum Job} {job : Job} {next : Except RuntimeError TaskId → Body Datum Job} {n : Nat}

theorem Asks.modest (h : Asks job next n f) : f.Modest s := by
  cases h with
  | submit | spawn => exact Frame.modest_program rfl rfl id
  | check h | reserve h => exact Frame.modest_of_isOutside h.outside rfl rfl (by simp) (by simp) (by simp)

end Submission

namespace Fanout

section leads

variable {s s' : Store Datum Job} {N k d n e c choice left left' : Nat} {calls calls' : List (Call Job)} {f g : Frame Datum Job}
  {fs past below : List (Frame Datum Job)}

/-- It goes on with nothing to book. -/
theorem leads_of (hmodest : f.Modest s) (hframes : ∀ g ∈ fs, g.IsOutside)
    (hcalls : calls ++ (Taken.call? 0 ⟨0, none, f, s⟩).toList = calls')
    (hstands : Stands N s' calls' (past ++ [f]) left' (fs ++ below)) (hless : left' < left) :
    Leads N s calls past left f below (s', fs) :=
  ⟨hmodest, fun g hg => .inr (hframes g hg),
    .inl ⟨[], _, left', rfl, by simp, by simpa using hless, hcalls ▸ hstands⟩⟩

theorem Has.booked {q : Nat} {notes : List (Note Datum)} (h : Has s k n notes) (hs : Submission.Booked s s' q d) :
    Has s' d n notes :=
  ⟨⟨q, hs.charge⟩, by rw [hs.cells, h.cells], hs.notes.trans h.notes⟩

/-- Once a task is submitted the next one follows, or adding up begins. -/
theorem stands_next (hk : k + d = N) (h : Has s k k []) (hcalls : Submits Square.job k calls) :
    Stands N s calls past (20 * d + 2 * N + 5) [.program (fanoutFrom 0 d k (cells k))] := by
  cases d with
  | succ d => exact .loops hk h hcalls
  | zero =>
    obtain rfl : k = N := hk
    have hadds : Stands k s calls past (2 * k + 5) [adds k (IntKind.unsigned64.wrap (sum k k))] :=
      .adds (Nat.le_refl k) ⟨h, hcalls, fun c' hge hle => by omega⟩
    rw [sum_self] at hadds
    simpa [adds, fanoutFrom] using hadds

/-- A new cell for the next task. -/
theorem leads_loops (hk : k + (d + 1) = N) (h : Has s k k []) (hcalls : Submits Square.job k calls) :
    Leads N s calls past (20 * (d + 1) + 2 * N + 5) (.program (fanoutFrom 0 (d + 1) k (cells k))) []
      ((Frame.program (fanoutFrom 0 (d + 1) k (cells k))).step Job.start none choice s) := by
  have hstep : (Frame.program (fanoutFrom 0 (d + 1) k (cells k))).step Job.start none choice s =
      (s.newCell.2, [.program (.submit 0 (Square.job k) (goesOn d k))]) := by
    change (s.newCell.2, [Frame.program (.submit 0 (.core .square (Graph.squareArguments k ⟨s.cells.size⟩))
      (Body.orFail fun _ => fanoutFrom 0 d (k + 1) (⟨s.cells.size⟩ :: cells k)))]) = _
    rw [h.cells]
    rfl
  have hhas : Has s.newCell.2 k (k + 1) [] := ⟨h.made, (Array.size_push ..).trans (congrArg Nat.succ h.cells), h.notes⟩
  rw [hstep]
  exact leads_of (Frame.modest_program rfl rfl id) (fun g => Frame.isOutside_of_mem_program) (List.append_nil _)
    (.asks (by omega) hhas (.first hcalls) .submit) (by omega)

/-- A submission up to the answer of its spawn call. -/
theorem leads_asks (hk : k + 1 + d = N) (h : Has s k (k + 1) []) (hcalls : Tries Square.job s k e calls)
    (hf : Asks (Square.job k) (goesOn d k) n f) (hrunning : s.Running 0) :
    Leads N s calls past (20 * d + 2 * N + 12 + n + e) f [] (f.step Job.start none choice s) := by
  rcases hf.step hrunning Job.start choice 0 with ⟨l, g, rfl, hstep, hg, hcall⟩ | ⟨rfl, answer, rfl, hanswer⟩
  · rw [hstep]
    exact leads_of hf.modest (fun g' hg' => List.mem_singleton.1 hg' ▸ hg.isOutside) (by rw [hcall]; exact List.append_nil _)
      (.asks hk h hcalls hg) (by omega)
  · obtain ⟨q, hcharge⟩ := h.made
    rcases hanswer.step_reserve hcharge Job.start choice 0 with ⟨s', hstep, hcall, hbooked⟩ | ⟨s', hstep, hcall, hbooked, hq⟩
    · rw [hstep]
      exact leads_of hf.modest (fun g hg => List.mem_singleton.1 hg ▸ hanswer.outside) (by rw [hcall]; rfl)
        (.makes hk (h.booked hbooked) hcalls.accepted hanswer) (by omega)
    · obtain ⟨rfl, hsubmits⟩ := hcalls.refused hcharge hq
      rw [hstep]
      exact leads_of hf.modest (fun g => Frame.isOutside_of_mem_program) (by rw [hcall]; rfl)
        (.refused hk (h.booked hbooked) hsubmits) (by omega)

/-- The next task is made. -/
theorem leads_makes {answer : Except RuntimeError TaskId → Run Datum Job} (hk : k + 1 + d = N) (h : Has s k (k + 1) [])
    (hcalls : Submits Square.job (k + 1) calls) (hanswer : Answers (Square.job k) (goesOn d k) answer) :
    Leads N s calls past (20 * d + 2 * N + 11) (.spawn 0 (Square.job k) .number answer) []
      ((Frame.spawn 0 (Square.job k) .number answer).step Job.start none choice s) := by
  obtain ⟨q, hcharge⟩ := h.made
  obtain ⟨s', bookings, hstep, hbookings, hlength, hbooked, -⟩ := hanswer.step_number hcharge Job.start choice
  have hcall : Taken.call? 0 ⟨0, none, .spawn 0 (Square.job k) .number answer, s⟩ = none := rfl
  rw [hstep]
  refine ⟨⟨hanswer.outside, rfl, rfl, by simp, fun job next hf => ?_, by simp⟩, fun g hg => ?_,
    .inl ⟨bookings, _, 20 * d + 2 * N + 5, List.append_nil _, hbookings, by omega, ?_⟩⟩
  · cases hf
    exact ⟨q, k, hcharge, rfl, by rw [h.cells]; omega⟩
  · rcases List.mem_append.1 hg with hg | hg
    · exact .inl (hbookings g hg).ofSquare
    · exact .inr (Frame.isOutside_of_mem_program hg)
  · rw [hcall, Option.toList_none, List.append_nil]
    exact stands_next (by omega) (h.booked hbooked) hcalls

/-- The program is before the sum that it has just come to. -/
theorem Added.passed {notes : List (Note Datum)} (h : Added N (c + 1) s calls past [])
    (hhas : Has s' N N notes) :
    Added N c s' calls (past ++ [adds c (IntKind.unsigned64.wrap (sum c N))]) notes := by
  refine ⟨hhas, h.calls, fun c' hge hle => ?_⟩
  rcases Nat.eq_or_lt_of_le hge with rfl | hlt
  · exact List.mem_append_right _ (List.mem_singleton_self _)
  · exact List.mem_append_left _ (h.past c' hlt hle)

theorem Has.setCell {notes : List (Note Datum)} {x : Cell Datum Party} (h : Has s k n notes) :
    Has (s.setCell c x) k n notes :=
  ⟨h.made, by simpa [Store.setCell] using h.cells, h.notes⟩

/-- The program looks into the next cell, and waits if it is empty; or it says the sum. -/
theorem leads_adds (hN : sum 0 N < 2 ^ 64) (hc : c ≤ N) (h : Added N (c + 1) s calls past [])
    (hcells : ∀ c, (s.cell c).payload = .empty ∨ s.Filled Square.value c) :
    Leads N s calls past (2 * c + 5) (adds c (IntKind.unsigned64.wrap (sum c N))) []
      ((adds c (IntKind.unsigned64.wrap (sum c N))).step Job.start none choice s) := by
  cases c with
  | zero =>
    have hframe : adds 0 (IntKind.unsigned64.wrap (sum 0 N)) =
        .program (.note (.line (toString (sum 0 N))) (.shutdown 0 (.done (.ok ())))) := congrArg Frame.program (report_sum hN)
    have hsaid : (s.say (.line (toString (sum 0 N)))).notes = [.line (toString (sum 0 N))] := by
      rw [Store.say, h.has.notes]
      rfl
    have hadded : Added N 0 (s.say (.line (toString (sum 0 N)))) calls
        (past ++ [adds 0 (IntKind.unsigned64.wrap (sum 0 N))]) [.line (toString (sum 0 N))] :=
      h.passed ⟨h.has.made, h.has.cells, hsaid⟩
    rw [hframe] at hadded ⊢
    exact leads_of (Frame.modest_program rfl rfl id) (fun g => Frame.isOutside_of_mem_program) (List.append_nil _)
      (.shuts hadded) (by omega)
  | succ c =>
    have hmodest : (adds (c + 1) (IntKind.unsigned64.wrap (sum (c + 1) N))).Modest s := Frame.modest_program rfl rfl id
    have hadds : adds (c + 1) (IntKind.unsigned64.wrap (sum (c + 1) N)) = .program (.getBlocking c (Body.orFail
        (Core.typed Core.u64 fun v => addUp (report (k := .unsigned64) 0) (cells c)
          (IntKind.wrap _ (Subtype.val (IntKind.unsigned64.wrap (sum (c + 1) N)) + Subtype.val v))))) := rfl
    rcases hcells c with hempty | hfull
    · obtain ⟨answer, hstep, hanswer, hout⟩ := Frame.step_getBlocking_of_empty Job.start choice
        (Body.orFail (Core.typed Core.u64 fun v => addUp (report (k := .unsigned64) 0) (cells c)
          (IntKind.wrap _ (Subtype.val (IntKind.unsigned64.wrap (sum (c + 1) N)) + Subtype.val v)))) (Square.value c) hempty
      rw [addUp_value hc] at hanswer
      rw [← hadds] at hstep
      rw [hstep]
      have hlt : c < s.cells.size := by rw [h.has.cells]; exact hc
      exact leads_of hmodest (fun g hg => List.mem_singleton.1 hg ▸ hout) (List.append_nil _)
        (.blocks hc (h.passed h.has.setCell) (by simp [Store.cell_setCell, hlt]) hanswer hout) (by omega)
    · have hstep : (adds (c + 1) (IntKind.unsigned64.wrap (sum (c + 1) N))).step Job.start none choice s =
          (s, [adds c (IntKind.unsigned64.wrap (sum c N))]) := by
        rw [hadds, Frame.step_getBlocking_of_full _ hfull, addUp_value hc]
        rfl
      rw [hstep]
      exact leads_of hmodest (fun g => Frame.isOutside_of_mem_program) (List.append_nil _)
        (.adds (Nat.le_of_succ_le hc) (h.passed h.has)) (by omega)

/-- It has been told that the cell is full. -/
theorem leads_freed {answer : Except RuntimeError (Option Datum) → Run Datum Job} (hc : c < N)
    (h : Added N (c + 1) s calls past [])
    (hanswer : answer (.ok (some (Square.value c))) =
      { party := .outside, body := addUp (report (k := .unsigned64) 0) (cells c) (IntKind.unsigned64.wrap (sum c N)) })
    (hout : ∀ result, (answer result).party = .outside) (hfull : s.Filled Square.value c) :
    Leads N s calls past (2 * c + 6) (.blocked c false answer) []
      ((Frame.blocked c false answer).step Job.start none choice s) := by
  have hmodest : (Frame.blocked c false answer).Modest s :=
    Frame.modest_of_isOutside hout rfl rfl (by simp) (by simp) (by simp)
  rw [Frame.step_blocked_of_full hfull, hanswer]
  have hadded : Added N (c + 1) (s.setCell c { s.cell c with blocked := (s.cell c).blocked - 1 }) calls
      (past ++ [.blocked c false answer]) [] :=
    ⟨h.has.setCell, h.calls, fun c' hge hle => List.mem_append_left _ (h.past c' hge hle)⟩
  exact leads_of hmodest (fun g => Frame.isOutside_of_mem_program) (List.append_nil _) (.adds hc.le hadded)
    (Nat.lt_succ_self _)

/-- Every step of the program leads on. -/
theorem Stands.leads (h : Stands N s calls past left (f :: below)) (hN : sum 0 N < 2 ^ 64) (hrunning : s.Running 0)
    (hcells : ∀ c, (s.cell c).payload = .empty ∨ s.Filled Square.value c)
    (hsignalled : ∀ c ∈ s.signalled, s.Filled Square.value c) (hfree : f.isBlocked none choice s = false)
    (hidle : f = .waitIdle 0 → ∀ q k, s.charge 0 = some (q, k) → q = 0) :
    Leads N s calls past left f below (f.step Job.start none choice s) := by
  have kept : ∀ {c notes f}, Added N c s calls past notes → Added N c s calls (past ++ [f]) notes := fun h =>
    ⟨h.has, h.calls, fun c' hge hle => List.mem_append_left _ (h.past c' hge hle)⟩
  cases h with
  | loops hk h hcalls => exact leads_loops hk h hcalls
  | asks hk h hcalls hf => exact leads_asks hk h hcalls hf hrunning
  | makes hk h hcalls hanswer => exact leads_makes hk h hcalls hanswer
  | @refused k d before _ hk h hcalls =>
    refine leads_of (Frame.modest_program rfl rfl id) (fun g hg => ?_) (List.append_nil _) (.idles hk h hcalls) (by omega)
    rcases List.mem_cons.1 hg with rfl | hg
    · trivial
    · exact Frame.isOutside_of_mem_program hg
  | @idles k d before _ hk h hcalls =>
    obtain ⟨q, hmade⟩ := h.made
    obtain rfl := hidle rfl q k hmade
    have hmodest : (Frame.waitIdle 0 : Frame Datum Job).Modest s :=
      Frame.modest_of_isOutside trivial rfl rfl (by simp) (by simp) (by simp)
    have hcalls' : before ++ [.refused (Square.job k)] ++ [.idled] = before ++ [.refused (Square.job k), .idled] :=
      List.append_assoc ..
    exact leads_of hmodest (fun g hg => absurd hg List.not_mem_nil) hcalls' (.asks hk h (.again hcalls hmade) .submit)
      (by omega)
  | adds hc h => exact leads_adds hN hc h hcells
  | blocks hc h hblocked hanswer hout =>
    exact leads_freed hc h hanswer hout (hsignalled _ (by simpa [Frame.isBlocked] using hfree))
  | shuts h =>
    refine leads_of (Frame.modest_program rfl rfl id) (fun g hg => ?_) (List.append_nil _) (.checks (kept h))
      (by decide)
    rcases List.mem_cons.1 hg with rfl | hg
    · trivial
    · exact Frame.isOutside_of_mem_program hg
  | checks h =>
    have hstep : (Frame.shutdown 0 .check).step Job.start none choice s = (s, [.waitIdle 0, .shutdown 0 .close]) :=
      if_pos ((s.running_iff 0).1 hrunning)
    rw [hstep]
    refine leads_of (Frame.modest_of_isOutside trivial rfl rfl (by simp) (by simp) (by simp)) (fun g hg => ?_)
      (List.append_nil _) (.waits (kept h)) (by decide)
    simp only [List.mem_cons, List.not_mem_nil, or_false] at hg
    rcases hg with rfl | rfl <;> trivial
  | waits h =>
    exact ⟨Frame.modest_of_isOutside trivial rfl rfl (by simp) (by simp) (by simp),
      fun g hg => absurd hg List.not_mem_nil, .inr ⟨rfl, rfl, rfl, h⟩⟩

end leads

end Fanout
end Dataflow
