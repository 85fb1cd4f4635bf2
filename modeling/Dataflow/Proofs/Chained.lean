import Dataflow.Proofs.Chaining

/-!
# A program and its chain

The program on one thread and the links on the workers of its pool lead each other on: every step brings the program
or a link nearer to its end (`Chain.Chained.advances`), but for those of workers that look for tasks and find none, and
as long as the pool is not stopped somebody has something to do (`Chain.Chained.isBusy`).
-/

namespace Dataflow

namespace Chain

open Machine

variable {m : Machine Datum Job} {tr : List (Taken Datum Job)} {N D i choice : Nat} {worker : Option (PoolId × Nat)}
  {f : Frame Datum Job} {rest : List (Frame Datum Job)}

/-- A program on thread `D`, the workers of its pool on all others, and links that are as they can be. -/
structure Base (D : Nat) (m : Machine Datum Job) : Prop where
  linked : m.Linked
  others : ∀ (j : Nat) (th : Thread Datum Job), m.threads[j]? = some th → j ≠ D → ∃ w, th.worker = some (0, w)
  handy : m.AllStacks fun _ stack => ∀ first rest, .work (.keep first rest) ∉ stack.tail

namespace Base

variable (h : Base D m)

include h

/-- The frames of the others are those of links. -/
theorem ofLink {th : Thread Datum Job} (hi : m.threads[i]? = some th) (hne : i ≠ D) (hf : f ∈ th.stack) :
    f.OfLink m.store := by
  obtain ⟨w, hw⟩ := h.others i th hi hne
  refine (h.linked.frames i th hi f hf).resolve_right fun hout => ?_
  rw [hw] at hout
  cases hout.1

theorem crew : m.Crew D := h.linked.crew h.others h.handy

theorem after (hi : m.threads[i]? = some ⟨worker, f :: rest⟩) (hfree : f.isBlocked worker choice m.store = false)
    (hlinked : (m.after Job.start (.step i choice)).Linked) : Base D (m.after Job.start (.step i choice)) := by
  refine ⟨hlinked, fun j th hj hne => ?_, ?_⟩
  · rw [(h.linked.after_eq hi hfree).1] at hj
    rcases thread_of_set hi hj with ⟨rfl, rfl⟩ | ⟨-, hj⟩
    · exact h.others i ⟨worker, f :: rest⟩ hi hne
    · exact h.others j th hj hne
  · refine AllStacks.after h.linked.lawful.scheduled.framed h.handy (fun j worker f below choice _ _ hstack first rest => ?_)
      (fun _ _ _ => List.not_mem_nil) (fun _ _ _ => List.not_mem_nil) (fun guards body first rest hmem => ?_) _
    · exact Frame.keep_notMem_tail_step (hstack first rest)
    · exact Frame.isQuiet_dropPending (List.mem_of_mem_tail hmem)

end Base

/-- One as long as the first cell is empty. -/
def vacancy (s : Store Datum Job) : Nat :=
  match (s.cell 0).payload with
  | .empty => 1
  | _ => 0

theorem vacancy_of_full {s : Store Datum Job} (h : s.Full 0) : vacancy s = 0 := by
  have hpayload : (s.cell 0).payload = .full (Link.number 0) := h
  simp [vacancy, hpayload]

theorem vacancy_of_not_full {s : Store Datum Job} (hcells : ∀ c, (s.cell c).payload = .empty ∨ s.Full c)
    (h : ¬ s.Full 0) : vacancy s = 1 := by
  simp [vacancy, (hcells 0).resolve_right h]

/-- What the program and the links still have to do. -/
def todo (N : Nat) (m : Machine Datum Job) (tr : List (Taken Datum Job)) : ℕ ×ₗ ℕ :=
  toLex (m.ranks N + (3 * N + 1 - (tr.filterMap (Taken.call? 0)).length) + (N + 1 - m.store.cells.size) + vacancy m.store,
    (m.loads + 2 * N).toNat)

section todo

variable {m' : Machine Datum Job} {tr' : List (Taken Datum Job)}

theorem todo_lt (hranks : m'.ranks N ≤ m.ranks N)
    (hcalls : (tr.filterMap (Taken.call? 0)).length ≤ (tr'.filterMap (Taken.call? 0)).length)
    (hsize : m.store.cells.size ≤ m'.store.cells.size) (hvacancy : vacancy m'.store ≤ vacancy m.store)
    (h : m'.ranks N < m.ranks N ∨
      (tr.filterMap (Taken.call? 0)).length < (tr'.filterMap (Taken.call? 0)).length ∧
        (tr.filterMap (Taken.call? 0)).length ≤ 3 * N ∨
      m.store.cells.size < m'.store.cells.size ∧ m'.store.cells.size ≤ N + 1 ∨
      vacancy m'.store < vacancy m.store ∨ m'.loads < m.loads ∧ -2 * (N : ℤ) ≤ m'.loads) :
    todo N m' tr' < todo N m tr := by
  rw [todo, todo, Prod.Lex.toLex_lt_toLex]
  dsimp only
  rcases h with h | h | h | h | h
  · exact .inl (by omega)
  · exact .inl (by omega)
  · exact .inl (by omega)
  · exact .inl (by omega)
  · by_cases hsame : m'.ranks N + (3 * N + 1 - (tr'.filterMap (Taken.call? 0)).length) + (N + 1 - m'.store.cells.size) +
        vacancy m'.store = m.ranks N + (3 * N + 1 - (tr.filterMap (Taken.call? 0)).length) +
        (N + 1 - m.store.cells.size) + vacancy m.store
    · exact .inr ⟨hsame, by omega⟩
    · exact .inl (by omega)

end todo

namespace Base

section link

variable (h : Base D m) (hi : m.threads[i]? = some ⟨worker, f :: rest⟩)
  (hfree : f.isBlocked worker choice m.store = false) (hlink : f.OfLink m.store)

include h hi hfree hlink

/-- A step of a link, or of a call that wakes one, leaves the program alone. -/
theorem link (tr : List (Taken Datum Job)) : Base D (m.after Job.start (.step i choice)) ∧
    m.store.Spares (m.after Job.start (.step i choice)).store ∧
    ((m.after Job.start (.step i choice)).store.Full 0 → m.store.Full 0) ∧
    (tr ++ (m.taken (.step i choice)).toList).filterMap (Taken.call? 0) = tr.filterMap (Taken.call? 0) := by
  have hlinked := h.linked.after hi hfree (.inl hlink) fun hprudent => absurd hprudent.outside hlink.isLabour.not_isOutside
  have hbase := h.after hi hfree hlinked
  obtain ⟨heq, htaken⟩ := h.linked.after_eq hi hfree
  refine ⟨hbase, ?_, fun hfull => ?_, ?_⟩
  · rw [heq]
    exact hlink.spares
  · rw [heq] at hfull
    refine (hlink.numbers.of_full hfull).resolve_right fun hput => ?_
    obtain ⟨-, value, hput⟩ := hput
    obtain ⟨t, -, ht, -⟩ := hlink.of_put? hput
    exact absurd ht (Nat.succ_ne_zero t).symm
  · have hnone : Taken.call? 0 ⟨i, worker, f, m.store⟩ = none := hlink.isLabour.call?_eq_none
    rw [filterMap_taken, htaken, Option.bind_some, hnone, Option.toList_none, List.append_nil]

/-- It leads on, or it is one of a worker that looks for tasks and finds none. -/
theorem todo_link {q k : Nat} (hcharge : m.store.charge 0 = some (q, k)) (hk : k ≤ N) :
    todo N (m.after Job.start (.step i choice)) (tr ++ (m.taken (.step i choice)).toList) < todo N m tr ∨
    todo N (m.after Job.start (.step i choice)) (tr ++ (m.taken (.step i choice)).toList) = todo N m tr ∧
      m.Idles i ∧ m.Defers (m.after Job.start (.step i choice)) := by
  obtain ⟨hbase, hspares, hfirst, hcalls⟩ := h.link hi hfree hlink tr
  obtain ⟨q', -, hcharge'⟩ := hspares.charge q k hcharge
  have hN : ∀ t y, (m.after Job.start (.step i choice)).store.task? 0 t = some y → t < N := fun t y hy =>
    Nat.lt_of_lt_of_le (Store.lt_of_charge hcharge' hy) hk
  have hvacancy : vacancy (m.after Job.start (.step i choice)).store = vacancy m.store := by
    by_cases hfull : m.store.Full 0
    · rw [vacancy_of_full hfull, vacancy_of_full (hspares.full 0 hfull)]
    · rw [vacancy_of_not_full h.linked.cells hfull, vacancy_of_not_full hbase.linked.cells (mt hfirst hfull)]
  have hleast := hbase.crew.le_loads hN
  have hlength : (tr.filterMap (Taken.call? 0)).length ≤
      ((tr ++ (m.taken (.step i choice)).toList).filterMap (Taken.call? 0)).length := by rw [hcalls]
  rcases h.linked.advances hi hfree h.crew hlink hN with hranks | ⟨hranks, hless | ⟨hsame, hidles, hdefers⟩⟩
  · exact .inl (todo_lt hranks.le hlength hspares.size.ge hvacancy.le (.inl hranks))
  · exact .inl (todo_lt hranks.le hlength hspares.size.ge hvacancy.le (.inr (.inr (.inr (.inr ⟨hless, hleast⟩)))))
  · refine .inr ⟨?_, hidles, hdefers⟩
    rw [todo, todo, hranks, hcalls, hspares.size, hvacancy, hsame]

end link

end Base

theorem Stands.charge {s : Store Datum Job} {calls : List (Call Job)} {stack : List (Frame Datum Job)}
    (h : Stands N s calls stack) : ∃ q k, s.charge 0 = some (q, k) ∧ k ≤ N := by
  have makes : ∀ {k n}, k ≤ N → Makes s k n → ∃ q k, s.charge 0 = some (q, k) ∧ k ≤ N := fun hk h => by
    obtain ⟨q, hmade⟩ := h.made
    exact ⟨q, _, hmade, hk⟩
  have made : ∀ {notes}, Made s N notes → ∃ q k, s.charge 0 = some (q, k) ∧ k ≤ N := fun h => by
    obtain ⟨q, hmade⟩ := h.made
    exact ⟨q, N, hmade, Nat.le_refl N⟩
  cases h with
  | begins h => exact makes (Nat.zero_le N) h
  | loops hk h | asks hk h | makes hk h | refused hk h | idles hk h => exact makes (by omega) h
  | fetches h | blocks h | notes h | shuts h | checks h | waits h => exact made h

theorem Stands.ne_nil {s : Store Datum Job} {calls : List (Call Job)} {stack : List (Frame Datum Job)}
    (h : Stands N s calls stack) : stack ≠ [] := by
  cases h <;> exact List.cons_ne_nil _ _

theorem Stands.outside {s : Store Datum Job} {calls : List (Call Job)} {stack : List (Frame Datum Job)}
    (h : Stands N s calls stack) : ∀ g ∈ stack, g.IsOutside := by
  intro g hg
  cases h with
  | begins | loops | refused | fetches | notes | shuts => exact isOutside_frame hg
  | asks hk h hcalls hf =>
    rw [List.mem_singleton.1 hg]
    cases hf with
    | submit | spawn => exact rfl
    | check hanswers | reserve hanswers => exact hanswers.outside
  | makes hk h hcalls hnext =>
    rw [List.mem_singleton.1 hg]
    exact hnext.outside
  | blocks h hcalls hblocked hnext hout =>
    rw [List.mem_singleton.1 hg]
    exact hout
  | idles | checks =>
    rcases List.mem_cons.1 hg with rfl | hg
    · trivial
    · exact isOutside_frame hg
  | waits =>
    rcases List.mem_cons.1 hg with rfl | hg
    · trivial
    · rcases List.mem_cons.1 hg with rfl | hg
      · trivial
      · exact isOutside_frame hg

/-- The program stands somewhere, perhaps with calls before it that wake a link. -/
structure Chained (N D : Nat) (m : Machine Datum Job) (tr : List (Taken Datum Job)) : Prop where
  base : Base D m
  program : ∃ errands tail, m.threads[D]? = some ⟨none, errands ++ tail⟩ ∧ (∀ g ∈ errands, g.OfLink m.store) ∧
    Stands N m.store (tr.filterMap (Taken.call? 0)) tail

/-- All links have ended, and the program is about to stop the workers. -/
structure Closes (N D : Nat) (m : Machine Datum Job) (tr : List (Taken Datum Job)) : Prop where
  base : Base D m
  thread : m.threads[D]? = some ⟨none, [.shutdown 0 .close, frame (.done (.ok ()))]⟩
  drained : m.Drained 0
  made : Made m.store N [.line (toString N)]
  ended : ∀ t < N, ∃ y, m.store.task? 0 t = some y ∧ y.state = .completed
  calls : ∃ calls, tr.filterMap (Taken.call? 0) = calls ++ [.idled] ∧ LinkCalls N calls

/-- The step of a link leaves the program where it stands. -/
theorem Chained.after_link (h : Chained N D m tr) (hi : m.threads[i]? = some ⟨worker, f :: rest⟩)
    (hfree : f.isBlocked worker choice m.store = false) (hlink : f.OfLink m.store) :
    Chained N D (m.after Job.start (.step i choice)) (tr ++ (m.taken (.step i choice)).toList) := by
  obtain ⟨hbase, hspares, hfirst, hcalls⟩ := h.base.link hi hfree hlink tr
  obtain ⟨errands, tail, hD, herrands, hstands⟩ := h.program
  refine ⟨hbase, ?_⟩
  have hmine : ∀ g ∈ (f.step Job.start worker choice m.store).2, g.OfLink (f.step Job.start worker choice m.store).1 :=
    h.base.linked.ofLink_step hi hlink
  obtain ⟨heq, -⟩ := h.base.linked.after_eq hi hfree
  have hstands' := hstands.spares hspares hfirst
  rw [← hcalls] at hstands'
  have hkept : ∀ g ∈ errands, g.OfLink (m.after Job.start (.step i choice)).store := fun g hg =>
    (herrands g hg).mono hspares.full
  rw [heq] at hstands' hkept ⊢
  by_cases hne : i = D
  · subst hne
    rw [hi] at hD
    obtain ⟨rfl, hstack⟩ := Thread.mk.inj (Option.some.inj hD)
    cases errands with
    | nil =>
      obtain rfl : f :: rest = tail := hstack
      exact absurd (hstands.outside f (List.mem_cons_self ..)) hlink.isLabour.not_isOutside
    | cons f' errands =>
      obtain ⟨rfl, rfl⟩ := List.cons.inj hstack
      refine ⟨(f.step Job.start none choice m.store).2 ++ errands, tail, ?_, fun g hg => ?_, hstands'⟩
      · rw [getElem?_setIfInBounds_self hi, List.append_assoc]
        rfl
      · rcases List.mem_append.1 hg with hg | hg
        · exact hmine g hg
        · exact hkept g (List.mem_cons_of_mem _ hg)
  · exact ⟨errands, tail, by rw [Array.getElem?_setIfInBounds_ne hne, hD], hkept, hstands'⟩

/-- The step of a link leaves the program about to stop the workers. -/
theorem Closes.after_link (h : Closes N D m tr) (hi : m.threads[i]? = some ⟨worker, f :: rest⟩) (hne : i ≠ D)
    (hfree : f.isBlocked worker choice m.store = false) (hlink : f.OfLink m.store) :
    Closes N D (m.after Job.start (.step i choice)) (tr ++ (m.taken (.step i choice)).toList) := by
  obtain ⟨hbase, hspares, -, hcalls⟩ := h.base.link hi hfree hlink tr
  obtain ⟨heq, htaken⟩ := h.base.linked.after_eq hi hfree
  refine ⟨hbase, ?_, ?_, h.made.spares hspares, fun t ht => ?_, hcalls ▸ h.calls⟩
  · rw [heq, Array.getElem?_setIfInBounds_ne hne, h.thread]
  · refine h.drained.after h.base.linked.lawful.scheduled.framed h.base.crew.alone _ fun e he => ?_
    rw [htaken] at he
    cases he
    exact hne
  · obtain ⟨y, hy, hstate⟩ := h.ended t ht
    obtain ⟨z, hz, hturns⟩ := h.base.linked.turns hi hfree (.inl hlink) hy
    exact ⟨z, hz, hturns.completed hstate⟩

section own

variable (h : Base D m) (hD : m.threads[D]? = some ⟨none, f :: rest⟩) (hfree : f.isBlocked none choice m.store = false)

include h hD hfree

/-- What the program does next brings it nearer to its end. -/
theorem Base.todo_own (hlinked : (m.after Job.start (.step D choice)).Linked)
    (hleads : Leads N m.store (tr.filterMap (Taken.call? 0)) f rest (f.step Job.start none choice m.store))
    {q k : Nat} (hcharge : (m.after Job.start (.step D choice)).store.charge 0 = some (q, k)) (hk : k ≤ N) :
    todo N (m.after Job.start (.step D choice)) (tr ++ (m.taken (.step D choice)).toList) < todo N m tr := by
  have hf : f.OfLink m.store ∨ f.Prudent m.store := .inr hleads.prudent
  obtain ⟨heq, htaken⟩ := h.linked.after_eq hD hfree
  have hN : ∀ t y, (m.after Job.start (.step D choice)).store.task? 0 t = some y → t < N := fun t y hy =>
    Nat.lt_of_lt_of_le (Store.lt_of_charge hcharge hy) hk
  have hleast := (h.after hD hfree hlinked).crew.le_loads hN
  have hfall := h.linked.still_or_lt hD hfree hf hN
  have hcalls : (tr ++ (m.taken (.step D choice)).toList).filterMap (Taken.call? 0) =
      tr.filterMap (Taken.call? 0) ++ (Taken.call? 0 ⟨D, none, f, m.store⟩).toList := by
    rw [filterMap_taken, htaken, Option.bind_some]
  have hlength : (tr.filterMap (Taken.call? 0)).length ≤
      ((tr ++ (m.taken (.step D choice)).toList).filterMap (Taken.call? 0)).length := by
    rw [hcalls, List.length_append]
    exact Nat.le_add_right ..
  have hsize : m.store.cells.size ≤ (m.after Job.start (.step D choice)).store.cells.size := by
    rw [heq]
    exact Frame.size_step Job.start none choice m.store f
  have hfull : m.store.Full 0 → (m.after Job.start (.step D choice)).store.Full 0 := by
    rw [heq]
    exact hleads.prudent.numbers.full
  have hvacancy : vacancy (m.after Job.start (.step D choice)).store ≤ vacancy m.store := by
    by_cases hfirst : m.store.Full 0
    · rw [vacancy_of_full hfirst, vacancy_of_full (hfull hfirst)]
    · rw [vacancy_of_not_full h.linked.cells hfirst]
      by_cases hfirst' : (m.after Job.start (.step D choice)).store.Full 0
      · rw [vacancy_of_full hfirst']
        exact Nat.zero_le 1
      · rw [vacancy_of_not_full hlinked.cells hfirst']
  have hranks : (m.after Job.start (.step D choice)).ranks N ≤ m.ranks N :=
    hfall.elim (fun hstill => (hstill.ranks_eq N).le) Nat.le_of_lt
  refine todo_lt hranks hlength hsize hvacancy ?_
  cases hleads.gains with
  | call hcall hless =>
    refine .inr (.inl ⟨?_, hless⟩)
    obtain ⟨call, hcall⟩ := Option.ne_none_iff_exists'.1 hcall
    have hcall' : Taken.call? 0 ⟨D, none, f, m.store⟩ = some call := hcall
    rw [hcalls, hcall', List.length_append]
    exact Nat.lt_succ_self _
  | cell hmore hle =>
    refine .inr (.inr (.inl ?_))
    rw [heq]
    exact ⟨hmore, hle⟩
  | first hempty hfirst =>
    refine .inr (.inr (.inr (.inl ?_)))
    rw [vacancy_of_not_full h.linked.cells hempty, vacancy_of_full (by rwa [heq])]
    exact Nat.zero_lt_one
  | link hnone hmade =>
    refine .inl (hfall.resolve_left fun hstill => ?_)
    rcases hstill _ with ⟨-, hz⟩ | ⟨y, z, hy, -⟩
    · rw [heq] at hz
      cases hz.symm.trans hmade
    · cases hnone.symm.trans hy
  | lighter hless =>
    rcases hfall with hstill | hlt
    · refine .inr (.inr (.inr (.inr ⟨?_, hleast⟩)))
      have hloads := h.crew.loads_after hD hfree hstill
      rw [heq] at hloads ⊢
      change _ = m.loads + ((Frame.step Job.start none choice m.store f).2.map
        (Frame.load (Frame.step Job.start none choice m.store f).1)).sum at hloads
      omega
    · exact .inl hlt

/-- The program goes on, or it is about to stop the workers. -/
theorem Base.after_own (hN : N < 2 ^ 64) (hstands : Stands N m.store (tr.filterMap (Taken.call? 0)) (f :: rest)) :
    (Chained N D (m.after Job.start (.step D choice)) (tr ++ (m.taken (.step D choice)).toList) ∨
      Closes N D (m.after Job.start (.step D choice)) (tr ++ (m.taken (.step D choice)).toList)) ∧
    todo N (m.after Job.start (.step D choice)) (tr ++ (m.taken (.step D choice)).toList) < todo N m tr := by
  have hleads := hstands.leads hN h.linked.running h.linked.cells h.linked.wakers h.linked.signalled hfree
    (h.crew.queued_eq_zero hD hfree)
  have hlinked := h.linked.after hD hfree (.inr hleads.prudent) fun _ g hg =>
    (hleads.frames g hg).imp_right fun hout => ⟨rfl, hout⟩
  have hbase := h.after hD hfree hlinked
  have htodo := fun q k => h.todo_own (q := q) (k := k) hD hfree hlinked hleads
  obtain ⟨heq, htaken⟩ := h.linked.after_eq hD hfree
  have hcalls : (tr ++ (m.taken (.step D choice)).toList).filterMap (Taken.call? 0) =
      tr.filterMap (Taken.call? 0) ++ (Taken.call? 0 ⟨0, none, f, m.store⟩).toList := by
    rw [filterMap_taken, htaken]
    rfl
  rcases hleads.stands with ⟨errands, tail, hstack, herrands, hstands'⟩ | ⟨rfl, hnone, rfl, hmade, hlinks⟩
  · rw [← hcalls] at hstands'
    obtain ⟨q, k, hcharge, hk⟩ := hstands'.charge
    rw [heq] at htodo hbase ⊢
    refine ⟨.inl ⟨hbase, errands, tail, ?_, herrands, hstands'⟩, htodo q k hcharge hk⟩
    rw [getElem?_setIfInBounds_self hD, hstack]
  · have hdrained := h.crew.drained hD hfree
    obtain ⟨q, hcharge⟩ := hmade.made
    obtain ⟨pool, hpool, hrunning, hquiet⟩ := hdrained.pool
    have hrests : ∀ t y, m.store.task? 0 t = some y → y.Rests := fun t y hy => by
      rw [Store.task?_eq, hpool] at hy
      exact hquiet.rests t y hy
    have hthere : ∀ t < N, ∃ y, m.store.task? 0 t = some y := fun t => Store.exists_task?_of_charge hcharge
    have hrest : m.AllFrames fun _ f => f.IsLooking ∨ f.IsOutside ∧ ¬ f.Books 0 := by
      intro j th hj g hg
      by_cases hne : j = D
      · subst hne
        rw [hD] at hj
        cases hj
        refine .inr ⟨hstands.outside g hg, ?_⟩
        rcases List.mem_cons.1 hg with rfl | hg
        · exact id
        · rcases List.mem_cons.1 hg with rfl | hg
          · exact id
          · rw [List.mem_singleton.1 hg]
            exact id
      · obtain ⟨w, hw⟩ := h.others j th hj hne
        exact .inl (hdrained.workers j w th.stack (by rw [hj, ← hw]) g hg)
    have hended := (h.linked.full_of_rests hrest hrests hthere hmade.first).2
    have hdrained' : (m.after Job.start (.step D choice)).Drained 0 := by
      rw [heq]
      exact ⟨⟨pool, hpool, hrunning, hquiet⟩, fun j w stack hj =>
        hdrained.workers j w stack (worker_of_set hD (fun w => by simp) hj rfl)⟩
    refine ⟨.inr ⟨hbase, ?_, hdrained', ?_, ?_, _, hcalls, hlinks⟩, htodo q N ?_ (Nat.le_refl N)⟩
    · rw [heq, getElem?_setIfInBounds_self hD]
      rfl
    · rw [heq]
      exact hmade
    · rw [heq]
      exact hended
    · rw [heq]
      exact hcharge

end own

section busy

variable (h : Base D m)

include h

/-- And a program that is blocked on the last cell has been told that it is full. -/
theorem Base.blocked_free {next : Except RuntimeError (Option Datum) → Run Datum Job} {notes : List (Note Datum)}
    (hcalm : ¬ m.IsBusy) (hD : m.threads[D]? = some ⟨none, [.blocked N false next]⟩) (hmade : Made m.store N notes)
    (hblocked : 0 < (m.store.cell N).blocked) (hout : ∀ answer, (next answer).party = .outside) (choice : Nat) :
    (Frame.blocked N false next).isBlocked none choice m.store = false := by
  obtain ⟨hrest, hrests⟩ := h.crew.at_rest hcalm hD fun g hg => by
    rw [List.mem_singleton.1 hg]
    exact ⟨hout, id⟩
  obtain ⟨q, hcharge⟩ := hmade.made
  have hthere : ∀ t < N, ∃ y, m.store.task? 0 t = some y := fun t => Store.exists_task?_of_charge hcharge
  have hfull := (h.linked.full_of_rests hrest hrests hthere hmade.first).1
  have htold : N ∈ m.store.signalled := by
    refine (h.linked.told N hfull hblocked).resolve_right ?_
    rintro ⟨i, th, hi, f, hf, rfl⟩
    rcases hrest i th hi _ hf with hlook | ⟨hout, -⟩
    · exact hlook
    · exact hout
  simp [Frame.isBlocked, htold]

/-- So the program is not held up. -/
theorem Base.not_held {calls : List (Call Job)} (hcalm : ¬ m.IsBusy) (hD : m.threads[D]? = some ⟨none, f :: rest⟩)
    (hstands : Stands N m.store calls (f :: rest)) (choice : Nat) : f.isBlocked none choice m.store = false := by
  cases hstands with
  | asks _ _ _ hf => cases hf <;> rfl
  | idles =>
    refine h.crew.waitIdle_free hcalm hD (fun g hg => ⟨isOutside_frame hg, ?_⟩) choice
    rw [List.mem_singleton.1 hg]
    exact id
  | waits =>
    refine h.crew.waitIdle_free hcalm hD (fun g hg => ?_) choice
    simp only [List.mem_cons, List.not_mem_nil, or_false] at hg
    rcases hg with rfl | rfl
    · exact ⟨trivial, id⟩
    · exact ⟨rfl, id⟩
  | blocks hmade _ hblocked _ hout => exact h.blocked_free hcalm hD hmade hblocked hout choice
  | _ => rfl

end busy

/-- As long as the pool is not stopped somebody has something to do. -/
theorem Chained.isBusy (h : Chained N D m tr) : m.IsBusy := by
  by_contra hcalm
  obtain ⟨errands, tail, hD, herrands, hstands⟩ := h.program
  cases errands with
  | cons f errands =>
    have hlink := herrands f (List.mem_cons_self ..)
    refine hcalm (.inl ⟨D, isUrged_of_outside h.base.linked.alive hD (hlink.isLabour.isBlocked_eq_false fun seek hf hnone => ?_)⟩)
    subst hf
    obtain ⟨p, w, pool, hworker, -⟩ := h.base.linked.lawful.scheduled.framed.frames D _ hD (.work seek) (List.mem_cons_self ..)
    cases hworker
  | nil =>
    cases tail with
    | nil => exact absurd rfl hstands.ne_nil
    | cons f below =>
      exact hcalm (.inl ⟨D, isUrged_of_outside h.base.linked.alive hD (h.base.not_held hcalm hD hstands)⟩)

theorem Closes.isBusy (h : Closes N D m tr) : m.IsBusy :=
  .inl ⟨D, isUrged_of_outside h.base.linked.alive h.thread fun _ => rfl⟩

end Chain
end Dataflow
