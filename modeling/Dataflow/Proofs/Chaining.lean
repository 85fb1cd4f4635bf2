import Dataflow.Proofs.Ranks
import Dataflow.Proofs.Submitting

/-!
# The program that makes a chain

The program asks the pool to take one link after the other. When the pool refuses one it waits until the pool is idle
and asks again, and is not refused then (`LinkCalls`). Then it fills the first cell, waits for the last one, says what
is there and shuts the pool down. Where it stands says what there is in the store (`Chain.Stands`), whatever the links
have come to, and each of its steps leads on (`Chain.Leads`).
-/

namespace Dataflow

open Dataflow.Graph (chain chainFrom fetch report)

/-- The calls that make so many links: each is accepted, at the second time if it is refused at the first. -/
inductive LinkCalls : Nat → List (Call Job) → Prop where
  | nil : LinkCalls 0 []
  | accepted {k calls} (h : LinkCalls k calls) : LinkCalls (k + 1) (calls ++ [.accepted (Link.job k)])
  | retried {k calls} (h : LinkCalls k calls) :
    LinkCalls (k + 1) (calls ++ [.refused (Link.job k), .idled, .accepted (Link.job k)])

theorem LinkCalls.length_le {k : Nat} {calls : List (Call Job)} (h : LinkCalls k calls) : calls.length ≤ 3 * k := by
  induction h with
  | nil => exact Nat.le_refl 0
  | accepted _ ih | retried _ ih =>
    rw [List.length_append]
    simp only [List.length_cons, List.length_nil]
    omega

namespace Chain

/-- The program before this body. -/
def frame (body : Body Datum Job) : Frame Datum Job := .run { party := .outside, body }

/-- What it does once link `k` is made, with `d` links to come. -/
def goesOn (d k : Nat) : Except RuntimeError TaskId → Body Datum Job :=
  Body.orFail fun _ => chainFrom 0 ⟨0⟩ d ⟨k + 1⟩

/-- What a spawn call for link `k` comes to. -/
structure Answers (d k : Nat) (next : Except RuntimeError TaskId → Run Datum Job) : Prop where
  made : ∀ t, next (.ok t) = { party := .outside, body := chainFrom 0 ⟨0⟩ d ⟨k + 1⟩ }
  full : ∀ n, next (.error (.spawnBackpressure n)) =
    { party := .outside, body := .waitIdle 0 (.submit 0 (Link.job k) (goesOn d k)) }
  outside : ∀ answer, (next answer).party = .outside

/-- The frames of a spawn call for link `k` up to its answer. -/
inductive Asks (d k : Nat) : Frame Datum Job → Prop where
  | submit : Asks d k (frame (.submit 0 (Link.job k) (goesOn d k)))
  | spawn {next} (h : Answers d k fun answer => { party := .outside, body := next answer }) :
    Asks d k (frame (.spawn (some 0) (Link.job k) next))
  | check {next} (h : Answers d k next) : Asks d k (.spawn 0 (Link.job k) .check next)
  | reserve {next} (h : Answers d k next) : Asks d k (.spawn 0 (Link.job k) .reserve next)

/-- There are `k` links and `n` cells, and nothing is filled or said yet. -/
structure Makes (s : Store Datum Job) (k n : Nat) : Prop where
  made : ∃ q, s.charge 0 = some (q, k)
  cells : s.cells.size = n
  first : ¬ s.Full 0
  notes : s.notes = []

/-- All links and cells are there, the first cell is full, and so much is said. -/
structure Made (s : Store Datum Job) (N : Nat) (notes : List (Note Datum)) : Prop where
  made : ∃ q, s.charge 0 = some (q, N)
  cells : s.cells.size = N + 1
  first : s.Full 0
  notes : s.notes = notes

/-- Link `k` is asked for, for the first time, or when nothing is queued. -/
def Tries (s : Store Datum Job) (k : Nat) (calls : List (Call Job)) : Prop :=
  LinkCalls k calls ∨
    ∃ before, LinkCalls k before ∧ calls = before ++ [.refused (Link.job k), .idled] ∧ s.charge 0 = some (0, k)

/-- Where the program stands, if it has made these calls, and the frames before it. -/
inductive Stands (N : Nat) (s : Store Datum Job) : List (Call Job) → List (Frame Datum Job) → Prop where
  | begins (h : Makes s 0 0) : Stands N s [] [frame (chain 0 N)]
  | loops {k d calls} (hk : k + d = N) (h : Makes s k (k + 1)) (hcalls : LinkCalls k calls) :
    Stands N s calls [frame (chainFrom 0 ⟨0⟩ d ⟨k⟩)]
  | asks {k d calls f} (hk : k + 1 + d = N) (h : Makes s k (k + 2)) (hcalls : Tries s k calls) (hf : Asks d k f) :
    Stands N s calls [f]
  | makes {k d calls next} (hk : k + 1 + d = N) (h : Makes s k (k + 2)) (hcalls : LinkCalls (k + 1) calls)
    (hnext : Answers d k next) : Stands N s calls [.spawn 0 (Link.job k) .number next]
  | refused {k d calls} (hk : k + 1 + d = N) (h : Makes s k (k + 2)) (hcalls : LinkCalls k calls) :
    Stands N s (calls ++ [.refused (Link.job k)]) [frame (.waitIdle 0 (.submit 0 (Link.job k) (goesOn d k)))]
  | idles {k d calls} (hk : k + 1 + d = N) (h : Makes s k (k + 2)) (hcalls : LinkCalls k calls) :
    Stands N s (calls ++ [.refused (Link.job k)]) [.waitIdle 0, frame (.submit 0 (Link.job k) (goesOn d k))]
  | fetches {calls} (h : Made s N []) (hcalls : LinkCalls N calls) :
    Stands N s calls [frame (fetch (t := Core.u64) ⟨N⟩ (report (k := .unsigned64) 0))]
  | blocks {calls next} (h : Made s N []) (hcalls : LinkCalls N calls) (hblocked : 0 < (s.cell N).blocked)
    (hnext : next (.ok (some (Link.number N))) =
      { party := .outside, body := .note (.line (toString N)) (.shutdown 0 (.done (.ok ()))) })
    (hout : ∀ answer, (next answer).party = .outside) : Stands N s calls [.blocked N false next]
  | notes {calls} (h : Made s N []) (hcalls : LinkCalls N calls) :
    Stands N s calls [frame (.note (.line (toString N)) (.shutdown 0 (.done (.ok ()))))]
  | shuts {calls} (h : Made s N [.line (toString N)]) (hcalls : LinkCalls N calls) :
    Stands N s calls [frame (.shutdown 0 (.done (.ok ())))]
  | checks {calls} (h : Made s N [.line (toString N)]) (hcalls : LinkCalls N calls) :
    Stands N s calls [.shutdown 0 .check, frame (.done (.ok ()))]
  | waits {calls} (h : Made s N [.line (toString N)]) (hcalls : LinkCalls N calls) :
    Stands N s calls [.waitIdle 0, .shutdown 0 .close, frame (.done (.ok ()))]

section spares

variable {s s' : Store Datum Job} {N k n : Nat} {calls : List (Call Job)} {notes : List (Note Datum)}
  {stack : List (Frame Datum Job)}

theorem Makes.spares (h : Makes s k n) (hs : s.Spares s') (hfirst : s'.Full 0 → s.Full 0) : Makes s' k n := by
  obtain ⟨⟨q, hmade⟩, hcells, hempty, hnotes⟩ := h
  obtain ⟨q', -, hmade'⟩ := hs.charge q k hmade
  exact ⟨⟨q', hmade'⟩, hs.size.trans hcells, fun hfull => hempty (hfirst hfull), hs.notes.trans hnotes⟩

theorem Made.spares (h : Made s N notes) (hs : s.Spares s') : Made s' N notes := by
  obtain ⟨⟨q, hmade⟩, hcells, hfull, hnotes⟩ := h
  obtain ⟨q', -, hmade'⟩ := hs.charge q N hmade
  exact ⟨⟨q', hmade'⟩, hs.size.trans hcells, hs.full 0 hfull, hs.notes.trans hnotes⟩

theorem Tries.spares (h : Tries s k calls) (hs : s.Spares s') : Tries s' k calls := by
  refine h.imp_right ?_
  rintro ⟨before, hcalls, rfl, hcharge⟩
  obtain ⟨q, hq, hcharge'⟩ := hs.charge 0 k hcharge
  obtain rfl := Nat.le_zero.1 hq
  exact ⟨before, hcalls, rfl, hcharge'⟩

/-- What links do leaves the program where it stands. -/
theorem Stands.spares (h : Stands N s calls stack) (hs : s.Spares s') (hfirst : s'.Full 0 → s.Full 0) :
    Stands N s' calls stack := by
  cases h with
  | begins h => exact .begins (h.spares hs hfirst)
  | loops hk h hcalls => exact .loops hk (h.spares hs hfirst) hcalls
  | asks hk h hcalls hf => exact .asks hk (h.spares hs hfirst) (hcalls.spares hs) hf
  | makes hk h hcalls hnext => exact .makes hk (h.spares hs hfirst) hcalls hnext
  | refused hk h hcalls => exact .refused hk (h.spares hs hfirst) hcalls
  | idles hk h hcalls => exact .idles hk (h.spares hs hfirst) hcalls
  | fetches h hcalls => exact .fetches (h.spares hs) hcalls
  | blocks h hcalls hblocked hnext hout =>
    exact .blocks (h.spares hs) hcalls (by rwa [hs.blocked]) hnext hout
  | notes h hcalls => exact .notes (h.spares hs) hcalls
  | shuts h hcalls => exact .shuts (h.spares hs) hcalls
  | checks h hcalls => exact .checks (h.spares hs) hcalls
  | waits h hcalls => exact .waits (h.spares hs) hcalls

end spares

/-- Why the step of a frame before a call brings the program nearer to its end. -/
inductive Gains (N : Nat) (s : Store Datum Job) (calls : List (Call Job)) (call : Option (Call Job)) (f : Frame Datum Job)
    (next : Store Datum Job × List (Frame Datum Job)) : Prop where
  | call (hcall : call ≠ none) (hless : calls.length ≤ 3 * N)
  | cell (hmore : s.cells.size < next.1.cells.size) (hle : next.1.cells.size ≤ N + 1)
  | first (hempty : ¬ s.Full 0) (hfull : next.1.Full 0)
  | link {t y} (hnone : s.task? 0 t = none) (hmade : next.1.task? 0 t = some y)
  | lighter (h : (next.2.map (Frame.load next.1)).sum < f.load s)

/-- The program goes on as it may, and one step nearer to its end: where the call to wait before the pool is stopped
returns. -/
structure Leads (N : Nat) (s : Store Datum Job) (calls : List (Call Job)) (f : Frame Datum Job)
    (below : List (Frame Datum Job)) (next : Store Datum Job × List (Frame Datum Job)) : Prop where
  prudent : f.Prudent s
  frames : ∀ g ∈ next.2, g.OfLink next.1 ∨ g.IsOutside
  gains : Gains N s calls (Taken.call? 0 ⟨0, none, f, s⟩) f next
  stands : (∃ errands tail, next.2 ++ below = errands ++ tail ∧ (∀ g ∈ errands, g.OfLink next.1) ∧
      Stands N next.1 (calls ++ (Taken.call? 0 ⟨0, none, f, s⟩).toList) tail) ∨
    f = .waitIdle 0 ∧ next.2 = [] ∧ below = [.shutdown 0 .close, frame (.done (.ok ()))] ∧
      Made s N [.line (toString N)] ∧ LinkCalls N calls

section leads

variable {s s' : Store Datum Job} {N k d n choice : Nat} {calls : List (Call Job)} {f g : Frame Datum Job}
  {fs below : List (Frame Datum Job)} {next : Store Datum Job × List (Frame Datum Job)}

/-- A frame outside that reads, writes and makes nothing. -/
theorem prudent_of (hout : f.IsOutside) (hput : f.put? = none) (hdestroy : f.destroy? = none)
    (hread : ∀ r, f = .run r → ¬ r.body.IsRead) (hspawn : ∀ job next, f ≠ .spawn 0 job .number next)
    (hclose : f ≠ .shutdown 0 .close) : f.Prudent s :=
  ⟨hout, fun c value h => (by rw [hput] at h; cases h), hdestroy, hread, fun job next h => absurd h (hspawn job next),
    hclose⟩

theorem prudent_frame {body : Body Datum Job} (hput : (frame body).put? = none) (hdestroy : (frame body).destroy? = none)
    (hread : ¬ body.IsRead) : (frame body).Prudent s :=
  prudent_of rfl hput hdestroy (fun r hr => by cases hr; exact hread) (by simp [frame]) (by simp [frame])

theorem isOutside_frame {body : Body Datum Job} (h : g ∈ [frame body]) : g.IsOutside := by
  rw [List.mem_singleton.1 h]
  exact rfl

/-- It goes on without the links, and has less before it. -/
theorem leads_of (hprudent : f.Prudent s) (hframes : ∀ g ∈ fs, g.IsOutside)
    (hstands : Stands N s' (calls ++ (Taken.call? 0 ⟨0, none, f, s⟩).toList) (fs ++ below))
    (hless : (fs.map (Frame.load s')).sum < f.load s) : Leads N s calls f below (s', fs) :=
  ⟨hprudent, fun g hg => .inr (hframes g hg), .lighter hless, .inl ⟨[], _, rfl, by simp, hstands⟩⟩

theorem leads_newCell (body : CellId → Body Datum Job) (hle : s.cells.size ≤ N)
    (hstands : Stands N s.newCell.2 calls [frame (body s.cells.size)]) :
    Leads N s calls (frame (.newCell body)) [] (s.newCell.2, [frame (body s.cells.size)]) := by
  have hsize : s.newCell.2.cells.size = s.cells.size + 1 := Array.size_push ..
  refine ⟨prudent_frame rfl rfl id, fun g hg => .inr (isOutside_frame hg), ?_, ?_⟩
  · exact .cell (hsize ▸ Nat.lt_succ_self _) (hsize ▸ Nat.succ_le_succ hle)
  · exact .inl ⟨[], _, rfl, by simp, by simpa [frame, Taken.call?] using hstands⟩

theorem Makes.newCell (h : Makes s k n) : Makes s.newCell.2 k (n + 1) := by
  obtain ⟨hmade, hcells, hfirst, hnotes⟩ := h
  refine ⟨hmade, (Array.size_push ..).trans (congrArg Nat.succ hcells), ?_, hnotes⟩
  rwa [Store.Full, Store.cell_newCell]

/-- The pool books something. -/
theorem Makes.booked {q : Nat} (h : Makes s k n) (hs : Submission.Booked s s' q d) : Makes s' d n := by
  refine ⟨⟨q, hs.charge⟩, by rw [hs.cells, h.cells], ?_, hs.notes.trans h.notes⟩
  rw [Store.Full, Store.cell, hs.cells]
  exact h.first

theorem Answers.submission {next : Except RuntimeError TaskId → Run Datum Job} (h : Answers d k next) :
    Submission.Answers (Link.job k) (goesOn d k) next :=
  ⟨h.made, h.full, h.outside⟩

/-- A spawn call that is answered: nobody is refused twice. -/
theorem leads_reserve {next : Except RuntimeError TaskId → Run Datum Job} (hk : k + 1 + d = N) (h : Makes s k (k + 2))
    (hcalls : Tries s k calls) (hanswers : Answers d k next) :
    Leads N s calls (.spawn 0 (Link.job k) .reserve next) []
      ((Frame.spawn 0 (Link.job k) .reserve next).step Job.start none choice s) := by
  obtain ⟨q, hcharge⟩ := h.made
  have hprudent : (Frame.spawn 0 (Link.job k) .reserve next).Prudent s :=
    prudent_of hanswers.outside rfl rfl (by simp) (by simp) (by simp)
  rcases hanswers.submission.step_reserve hcharge Job.start choice 0 with
    ⟨s', hstep, hcall, hbooked⟩ | ⟨s', hstep, hcall, hbooked, hpos⟩
  · have hlinks : LinkCalls (k + 1) (calls ++ [.accepted (Link.job k)]) := by
      rcases hcalls with hfirst | ⟨before, hbefore, rfl, -⟩
      · exact .accepted hfirst
      · simpa using hbefore.retried
    rw [hstep]
    refine leads_of hprudent (fun g hg => ?_) ?_ (by simp [Frame.load])
    · rw [List.mem_singleton.1 hg]
      exact hanswers.outside
    · rw [hcall]
      exact .makes hk (h.booked hbooked) hlinks hanswers
  · have hlinks : LinkCalls k calls := by
      refine hcalls.resolve_right ?_
      rintro ⟨before, -, -, hidle⟩
      -- the second time nothing is queued
      cases hcharge.symm.trans hidle
      exact absurd hpos (Nat.lt_irrefl 0)
    have hlength := hlinks.length_le
    rw [hstep]
    refine ⟨hprudent, fun g hg => .inr (isOutside_frame hg),
      .call (by simp [hcall]) (by omega), .inl ⟨[], _, rfl, by simp, ?_⟩⟩
    rw [hcall]
    exact .refused hk (h.booked hbooked) hlinks

/-- A spawn call up to its answer. -/
theorem leads_asks (hk : k + 1 + d = N) (h : Makes s k (k + 2)) (hcalls : Tries s k calls) (hf : Asks d k f)
    (hrunning : s.Running 0) : Leads N s calls f [] (f.step Job.start none choice s) := by
  cases hf with
  | submit =>
    refine leads_of (prudent_frame rfl rfl id) (fun g => isOutside_frame) ?_ (by simp [Frame.load, frame, Run.goOn])
    have hcall : Taken.call? 0 ⟨0, none, frame (.submit 0 (Link.job k) (goesOn d k)), s⟩ = none := rfl
    rw [hcall, Option.toList_none, List.append_nil]
    exact .asks hk h hcalls (.spawn ⟨fun _ => rfl, fun _ => rfl, fun _ => rfl⟩)
  | @spawn next hanswers =>
    have hcall : Frame.IsOutside (.spawn 0 (Link.job k) .check fun answer => { party := .outside, body := next answer }) :=
      hanswers.outside
    exact leads_of (prudent_frame rfl rfl id) (fun g hg => List.mem_singleton.1 hg ▸ hcall)
      (by simpa [Taken.call?, frame] using .asks hk h hcalls (.check hanswers)) (by simp [Frame.load, frame])
  | @check next hanswers =>
    rw [Frame.step_check hrunning]
    have hcall : Frame.IsOutside (.spawn 0 (Link.job k) .reserve next) := hanswers.outside
    exact leads_of (prudent_of hanswers.outside rfl rfl (by simp) (by simp) (by simp))
      (fun g hg => List.mem_singleton.1 hg ▸ hcall) (by simpa [Taken.call?] using .asks hk h hcalls (.reserve hanswers))
      (by simp [Frame.load])
  | reserve hanswers => exact leads_reserve hk h hcalls hanswers

theorem ofLink_of_isBookkeeping (h : f.IsBookkeeping) : f.OfLink s := by
  cases f with
  | count => exact h
  | task p t phase =>
    cases phase with
    | register | enqueue => exact ⟨h, trivial⟩
    | _ => exact h.elim
  | _ => exact h.elim

/-- The next link is made. -/
theorem leads_makes {next : Except RuntimeError TaskId → Run Datum Job} (hk : k + 1 + d = N) (h : Makes s k (k + 2))
    (hcalls : LinkCalls (k + 1) calls) (hanswers : Answers d k next) :
    Leads N s calls (.spawn 0 (Link.job k) .number next) []
      ((Frame.spawn 0 (Link.job k) .number next).step Job.start none choice s) := by
  obtain ⟨q, hcharge⟩ := h.made
  obtain ⟨s', bookings, hstep, hbookings, -, hbooked, hnone, hthere⟩ :=
    hanswers.submission.step_number hcharge Job.start choice
  rw [hstep]
  refine ⟨⟨hanswers.outside, fun c value hput => (by cases hput), rfl, fun r hr => (by cases hr), fun job next' hf => ?_, by simp⟩,
    fun g hg => ?_, .link hnone hthere,
    .inl ⟨bookings, _, List.append_nil _, fun g hg => ofLink_of_isBookkeeping (hbookings g hg), ?_⟩⟩
  · cases hf
    exact ⟨q, k, hcharge, rfl, by rw [h.cells]; omega⟩
  · rcases List.mem_append.1 hg with hg | hg
    · exact .inl (ofLink_of_isBookkeeping (hbookings g hg))
    · exact .inr (isOutside_frame hg)
  · simp only [Taken.call?, Option.toList_none, List.append_nil]
    exact .loops (by omega) (h.booked hbooked) hcalls

/-- The first cell is filled. -/
theorem leads_put (h : Makes s N (N + 1)) (hcalls : LinkCalls N calls)
    (hcells : ∀ c, (s.cell c).payload = .empty ∨ s.Full c) (hwakers : ∀ key party, s.Enters key party → party = .task 0 key.1) :
    Leads N s calls (frame (chainFrom 0 ⟨0⟩ 0 ⟨N⟩)) []
      ((frame (chainFrom 0 ⟨0⟩ 0 ⟨N⟩)).step Job.start none choice s) := by
  obtain ⟨hmade, hsize, hfirst, hnotes⟩ := h
  have hempty : (s.cell 0).payload = .empty := (hcells 0).resolve_right hfirst
  have hstep : (frame (chainFrom 0 ⟨0⟩ 0 ⟨N⟩)).step Job.start none choice s =
      (s.setCell 0 { s.cell 0 with payload := .full (Link.number 0) },
        Frame.afterPut 0 (s.cell 0) ++ [frame (fetch (t := Core.u64) ⟨N⟩ (report (k := .unsigned64) 0))]) := by
    have hput : (s.cell 0).put (Link.number 0) = .ok { s.cell 0 with payload := .full (Link.number 0) } :=
      Cell.put_of_empty hempty
    change Frame.stepRun none s { party := .outside, body := .put 0 (Link.number 0) _ } = _
    simp only [Frame.stepRun, hput]
    rfl
  have hfull : (s.setCell 0 { s.cell 0 with payload := .full (Link.number 0) }).Full 0 := by
    rw [Store.Full, Store.cell_setCell, if_pos ⟨rfl, hsize ▸ Nat.succ_pos N⟩]
  rw [hstep]
  refine ⟨⟨rfl, fun c value hput => ?_, rfl, fun r hr => ?_, by simp [frame], by simp [frame]⟩, fun g hg => ?_,
    .first hfirst hfull,
    .inl ⟨Frame.afterPut 0 (s.cell 0), _, List.append_nil _, fun g hg => Frame.ofLink_afterPut hwakers hfull hg, ?_⟩⟩
  · cases hput
    exact ⟨rfl, rfl⟩
  · cases hr
    exact id
  · rcases List.mem_append.1 hg with hg | hg
    · exact .inl (Frame.ofLink_afterPut hwakers hfull hg)
    · exact .inr (isOutside_frame hg)
  · rw [show Taken.call? 0 ⟨0, none, frame (chainFrom 0 ⟨0⟩ 0 ⟨N⟩), s⟩ = none from rfl, Option.toList_none, List.append_nil]
    exact .fetches ⟨hmade, by simpa [Store.setCell] using hsize, hfull, hnotes⟩ hcalls

/-- The number in the last cell is said. -/
theorem report_number (hN : N < 2 ^ 64) : Body.orFail (Core.typed Core.u64 (report (k := .unsigned64) 0)) (.ok (Link.number N)) =
    .note (.line (toString N)) (.shutdown 0 (.done (.ok ()))) := by
  have hreport : Body.orFail (Core.typed Core.u64 (report (k := .unsigned64) 0)) (.ok (Link.number N)) =
      .note (.line (toString (IntKind.unsigned64.wrap N).val)) (.shutdown 0 (.done (.ok ()))) := rfl
  rw [hreport, Link.val_wrap, Nat.mod_eq_of_lt hN]
  rfl

/-- What is blocked on a cell changes nothing that is there. -/
theorem Made.setCell {c : CellId} {x : Cell Datum Party} {notes : List (Note Datum)} (h : Made s N notes)
    (hx : x.payload = (s.cell c).payload) : Made (s.setCell c x) N notes :=
  ⟨h.made, by simpa [Store.setCell] using h.cells, (Store.payload_setCell hx 0).trans h.first, h.notes⟩

/-- The program looks into the last cell, and waits if it is empty. -/
theorem leads_fetch (hN : N < 2 ^ 64) (h : Made s N []) (hcalls : LinkCalls N calls)
    (hcells : ∀ c, (s.cell c).payload = .empty ∨ s.Full c) :
    Leads N s calls (frame (fetch (t := Core.u64) ⟨N⟩ (report (k := .unsigned64) 0))) []
      ((frame (fetch (t := Core.u64) ⟨N⟩ (report (k := .unsigned64) 0))).step Job.start none choice s) := by
  have hcall : Taken.call? 0 ⟨0, none, frame (fetch (t := Core.u64) ⟨N⟩ (report (k := .unsigned64) 0)), s⟩ = none := rfl
  have hprudent : (frame (fetch (t := Core.u64) ⟨N⟩ (report (k := .unsigned64) 0))).Prudent s := prudent_frame rfl rfl id
  rcases hcells N with hempty | hfull
  · obtain ⟨next, hstep, hnext, hout⟩ :
        ∃ next, (frame (fetch (t := Core.u64) ⟨N⟩ (report (k := .unsigned64) 0))).step Job.start none choice s =
          (s.setCell N { s.cell N with blocked := (s.cell N).blocked + 1 }, [.blocked N false next]) ∧
        next (.ok (some (Link.number N))) =
          { party := .outside, body := .note (.line (toString N)) (.shutdown 0 (.done (.ok ()))) } ∧
        ∀ answer, (next answer).party = .outside := by
      rw [← report_number hN]
      exact Frame.step_getBlocking_of_empty _ _ _ _ hempty
    rw [hstep]
    refine leads_of hprudent (fun g hg => List.mem_singleton.1 hg ▸ hout) ?_ (by simp [Frame.load, frame, fetch])
    rw [hcall, Option.toList_none, List.append_nil]
    refine .blocks (h.setCell rfl) hcalls ?_ hnext hout
    simp [Store.cell_setCell, h.cells]
  · have hstep : (frame (fetch (t := Core.u64) ⟨N⟩ (report (k := .unsigned64) 0))).step Job.start none choice s =
        (s, [frame (.note (.line (toString N)) (.shutdown 0 (.done (.ok ()))))]) := by
      rw [← report_number hN]
      exact Frame.step_getBlocking_of_full _ hfull
    rw [hstep]
    refine leads_of hprudent (fun g => isOutside_frame) ?_ (by simp [Frame.load, frame, fetch])
    rw [hcall, Option.toList_none, List.append_nil]
    exact .notes h hcalls

/-- It has been told that the last cell is full. -/
theorem leads_freed {next : Except RuntimeError (Option Datum) → Run Datum Job} (h : Made s N []) (hcalls : LinkCalls N calls)
    (hnext : next (.ok (some (Link.number N))) =
      { party := .outside, body := .note (.line (toString N)) (.shutdown 0 (.done (.ok ()))) })
    (hout : ∀ answer, (next answer).party = .outside) (hfull : s.Full N) :
    Leads N s calls (.blocked N false next) [] ((Frame.blocked N false next).step Job.start none choice s) := by
  have hstep : (Frame.blocked N false next).step Job.start none choice s =
      (s.setCell N { s.cell N with blocked := (s.cell N).blocked - 1 },
        [frame (.note (.line (toString N)) (.shutdown 0 (.done (.ok ()))))]) := by
    rw [Frame.step_blocked_of_full hfull, hnext]
    rfl
  rw [hstep]
  refine leads_of (prudent_of hout rfl rfl (by simp) (by simp) (by simp)) (fun g => isOutside_frame) ?_
    (by simp [Frame.load, frame])
  rw [show Taken.call? 0 ⟨0, none, .blocked N false next, s⟩ = none from rfl, Option.toList_none, List.append_nil]
  exact .notes (h.setCell rfl) hcalls

/-- Every step of the program leads on. -/
theorem Stands.leads (h : Stands N s calls (f :: below)) (hN : N < 2 ^ 64) (hrunning : s.Running 0)
    (hcells : ∀ c, (s.cell c).payload = .empty ∨ s.Full c)
    (hwakers : ∀ key party, s.Enters key party → party = .task 0 key.1) (hsignalled : ∀ c ∈ s.signalled, s.Full c)
    (hfree : f.isBlocked none choice s = false) (hidle : f = .waitIdle 0 → ∀ q k, s.charge 0 = some (q, k) → q = 0) :
    Leads N s calls f below (f.step Job.start none choice s) := by
  cases h with
  | begins h =>
    refine leads_newCell _ (h.cells ▸ Nat.zero_le N) ?_
    rw [h.cells]
    exact .loops (Nat.zero_add N) h.newCell .nil
  | @loops k d _ hk h hcalls =>
    cases d with
    | zero =>
      obtain rfl : k = N := hk
      exact leads_put h hcalls hcells hwakers
    | succ d =>
      have hstands : Stands N s.newCell.2 calls [frame (.submit 0 (Link.job k) (goesOn d k))] :=
        .asks (by omega) h.newCell (.inl hcalls) .submit
      refine leads_newCell (fun c => .submit 0 (.core .link (Graph.linkArguments ⟨k⟩ ⟨c⟩))
        (Body.orFail fun _ => chainFrom 0 ⟨0⟩ d ⟨c⟩)) (by rw [h.cells]; omega) ?_
      rw [h.cells]
      exact hstands
  | asks hk h hcalls hf => exact leads_asks hk h hcalls hf hrunning
  | makes hk h hcalls hnext => exact leads_makes hk h hcalls hnext
  | @refused k d before hk h hcalls =>
    refine leads_of (prudent_frame rfl rfl id) (fun g hg => ?_) ?_ (by simp [Frame.load, frame, Run.goOn])
    · simp only [List.mem_cons, List.not_mem_nil, or_false] at hg
      rcases hg with rfl | rfl
      · trivial
      · exact rfl
    · simpa [Taken.call?, frame] using .idles hk h hcalls
  | @idles k d before hk h hcalls =>
    have hcall : Taken.call? 0 ⟨0, none, .waitIdle 0, s⟩ = some (.idled : Call Job) := rfl
    obtain ⟨q, hmade⟩ := h.made
    obtain rfl := hidle rfl q k hmade
    refine leads_of (prudent_of trivial rfl rfl (by simp) (by simp) (by simp)) (by simp) ?_ (by simp [Frame.load])
    rw [hcall, Option.toList_some, List.append_assoc]
    exact .asks hk h (.inr ⟨before, hcalls, rfl, hmade⟩) .submit
  | fetches h hcalls => exact leads_fetch hN h hcalls hcells
  | blocks h hcalls hblocked hnext hout =>
    have hfull : s.Full N := hsignalled N (by simpa [Frame.isBlocked] using hfree)
    exact leads_freed h hcalls hnext hout hfull
  | notes h hcalls =>
    refine leads_of (prudent_frame rfl rfl id) (fun g => isOutside_frame) ?_ (by simp [Frame.load, frame, Run.goOn])
    obtain ⟨hmade, hsize, hfirst, hnotes⟩ := h
    have hsaid : (s.say (.line (toString N))).notes = [.line (toString N)] := by
      rw [Store.say, hnotes]
      rfl
    simpa [Taken.call?, frame] using .shuts ⟨hmade, hsize, hfirst, hsaid⟩ hcalls
  | shuts h hcalls =>
    refine leads_of (prudent_frame rfl rfl id) (fun g hg => ?_) ?_ (by simp [Frame.load, frame, Run.goOn])
    · simp only [List.mem_cons, List.not_mem_nil, or_false] at hg
      rcases hg with rfl | rfl
      · trivial
      · exact rfl
    · simpa [Taken.call?, frame] using .checks h hcalls
  | checks h hcalls =>
    have hstep : (Frame.shutdown 0 .check).step Job.start none choice s = (s, [.waitIdle 0, .shutdown 0 .close]) :=
      if_pos ((s.running_iff 0).1 hrunning)
    rw [hstep]
    refine leads_of (prudent_of trivial rfl rfl (by simp) (by simp) (by simp)) (fun g hg => ?_) ?_ (by simp [Frame.load])
    · simp only [List.mem_cons, List.not_mem_nil, or_false] at hg
      rcases hg with rfl | rfl <;> trivial
    · simpa [Taken.call?] using .waits h hcalls
  | waits h hcalls =>
    exact ⟨prudent_of trivial rfl rfl (by simp) (by simp) (by simp), fun g hg => absurd hg List.not_mem_nil,
      .lighter (by simp [Frame.step, Frame.load]), .inr ⟨rfl, rfl, rfl, h, hcalls⟩⟩

end leads

end Chain
end Dataflow
