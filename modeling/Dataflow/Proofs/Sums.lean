import Dataflow.Proofs.Determinacy
import Dataflow.Proofs.Sharing

/-!
# Sums by halves

A task that sums a range spawns two more for the halves of it, and awaits what they give. Whoever runs them, and in
whatever order they are parked and go on, there are finitely many of them, and when all have come to rest the sum has
been written and each of them is complete (`Machine.sums_run`).
-/

namespace Dataflow

namespace Taken

variable {V J : Type}

/-- The tasks that the step makes on the pool. -/
def brings (e : Taken V J) (p : PoolId) : List TaskId :=
  (e.spawned?.toList.filter fun made => made.1 = p).map fun made => made.2.1

theorem spawns_of_mem_brings {e : Taken V J} {p : PoolId} {u : TaskId} (h : u ∈ e.brings p) : ∃ job, e.Spawns p u job := by
  simp only [Taken.brings, List.mem_map, List.mem_filter, Option.mem_toList, decide_eq_true_eq, Prod.exists] at h
  obtain ⟨q, u', job, ⟨hmade, rfl⟩, rfl⟩ := h
  exact ⟨job, Taken.spawned?_eq_some_iff.1 hmade⟩

end Taken

namespace Machine

/-- In a run from the beginning a pool without a bound has taken on a job, which sums a share. At that point nobody has
claimed it, and the cell of the share is empty. Later the pool is not shut down, and the family of the task has its cells
to itself: none but a task of it puts into the cell of the share, or into one that a task of it has made, or destroys
any of these. -/
structure SumRun (n : Share) (p : PoolId) (r : TaskId) (before later : List (Move Datum Job)) : Prop where
  valid : n.Valid
  wellMade : WellMade Job.start (before ++ later)
  accepted : ∃ y, (({} : Machine Datum Job).run Job.start before).store.task? p r = some y ∧ y.stage = .unclaimed n.job
  made : n.out < (({} : Machine Datum Job).run Job.start before).store.cells.size
  empty : ((({} : Machine Datum Job).run Job.start before).store.cell n.out).payload = .empty
  unbounded : ∃ pool, (({} : Machine Datum Job).run Job.start before).store.pools[p]? = some pool ∧
    pool.config.maxQueueSize = 0
  opened : ¬ (({} : Machine Datum Job).run Job.start (before ++ later)).store.Closed p
  alone : ∀ tr e tr', (({} : Machine Datum Job).run Job.start before).trace Job.start later = tr ++ e :: tr' →
    ∀ c, e.Writes c → Own tr p r n.out c → ∃ t, Offspring tr p r t ∧ e.frame.Polls p t

/-- The task and all that have come of it by the end of the run. -/
def familyOf (p : PoolId) (r : TaskId) (before later : List (Move Datum Job)) : Set TaskId :=
  {t | Offspring ((({} : Machine Datum Job).run Job.start before).trace Job.start later) p r t}

/-- What comes of such a run. -/
structure Sums (n : Share) (p : PoolId) (r : TaskId) (before later : List (Move Datum Job)) : Prop where
  finite : (familyOf p r before later).Finite
  few : (familyOf p r before later).ncard ≤ tasksFor (n.hi - n.lo)
  /-- If the run is complete, so that all are parked or finished, then the sum is written and all are finished. -/
  complete : (∀ t ∈ familyOf p r before later,
      ∀ y, (({} : Machine Datum Job).run Job.start (before ++ later)).store.task? p t = some y →
        y.state = .suspended ∨ y.state.isTerminal = true) →
    ((({} : Machine Datum Job).run Job.start (before ++ later)).store.cell n.out).payload =
        .full (Link.number (∑ i ∈ Finset.Ico n.lo n.hi, i)) ∧
      (familyOf p r before later).ncard = tasksFor (n.hi - n.lo) ∧
      ∀ t ∈ familyOf p r before later,
        ∃ y, (({} : Machine Datum Job).run Job.start (before ++ later)).store.task? p t = some y ∧ y.state = .completed

variable {n : Share} {p : PoolId} {r : TaskId} {before later : List (Move Datum Job)}

theorem SumRun.exists_family (h : SumRun n p r before later) :
    (({} : Machine Datum Job).run Job.start (before ++ later)).store.Running p ∧
    ∃ P, (({} : Machine Datum Job).run Job.start (before ++ later)).Family n p r P
      ((({} : Machine Datum Job).run Job.start before).trace Job.start later) := by
  obtain ⟨pool, hpool, hbound⟩ := h.unbounded
  have hopened := h.opened
  rw [run_append] at hopened ⊢
  have hkeeps := run_keeps Job.start (({} : Machine Datum Job).run Job.start before) later
  have hrunning : ((({} : Machine Datum Job).run Job.start before).run Job.start later).store.Running p := by
    obtain ⟨pool', hpool', -⟩ := hkeeps p pool hpool
    exact Store.running_of_not_closed hopened hpool'
  have hbefore := hrunning.of_keeps hkeeps (Array.getElem?_eq_some_iff.1 hpool).1
  have horderly := h.wellMade.of_append.orderly
  refine ⟨hrunning, (Family.single horderly.scheduled hbefore h.valid h.accepted h.made h.empty).run horderly
    h.unbounded (fun mv hmv => h.wellMade.newcomers mv (List.mem_append_right _ hmv)) (fun e he => ?_) hrunning h.alone⟩
  refine h.wellMade.known e ?_
  rw [trace_append]
  exact List.mem_append_right _ he

/-- Whatever the workers do and in whatever order, the sum comes out, and nobody is left behind. -/
theorem sums_run (h : SumRun n p r before later) : Sums n p r before later := by
  obtain ⟨hrunning, P, hfamily⟩ := h.exists_family
  have hset : familyOf p r before later = (P.tasks : Set TaskId) := Set.ext fun t => (hfamily.members t).symm
  refine ⟨?_, ?_, fun hrest => ?_⟩
  · rw [hset]
    exact P.tasks.finite_toSet
  · rw [hset, Set.ncard_coe_finset]
    exact hfamily.card_le
  · rw [hset] at hrest ⊢
    have hended := fun {t} (ht : t ∈ P.tasks) => hfamily.ended h.wellMade.orderly hrunning hrest ht
    have hr : r ∈ P.tasks := (hfamily.members r).2 .first
    refine ⟨?_, ?_, fun t ht => (hended ht).2⟩
    · have hfilled := hfamily.sound.filled r hr (hended hr).1
      rwa [hfamily.first] at hfilled
    · rw [Set.ncard_coe_finset, ← hfamily.sound.total, Finset.card_eq_sum_ones]
      refine Finset.sum_congr rfl fun t ht => ?_
      rw [(hended ht).1]
      rfl

section alone

variable {V J : Type} {e : Taken V J} {done tr tr' : List (Taken V J)}

/-- In these steps none but these tasks, and those that they bring, writes at all. -/
def writesAlone (p : PoolId) : List TaskId → List (Taken V J) → Bool
  | _, [] => true
  | family, e :: tr =>
    let known := family.any fun t => decide (e.frame.Polls p t)
    (known || (e.frame.put?.isNone && e.frame.destroy?.isNone)) &&
      writesAlone p (if known then e.brings p ++ family else family) tr

theorem alone_of_writesAlone {family : List TaskId} (hfamily : ∀ t ∈ family, Offspring done p r t)
    (h : writesAlone p family (tr ++ e :: tr') = true) {c : CellId} (hwrites : e.Writes c) :
    ∃ t, Offspring (done ++ tr) p r t ∧ e.frame.Polls p t := by
  induction tr generalizing done family with
  | nil =>
    simp only [List.nil_append, writesAlone, Bool.and_eq_true, Bool.or_eq_true, List.any_eq_true, decide_eq_true_eq] at h
    rcases h.1 with ⟨t, ht, hpolls⟩ | ⟨hput, hdestroy⟩
    · exact ⟨t, by simpa using hfamily t ht, hpolls⟩
    · rcases hwrites with ⟨v, hwrites⟩ | hwrites
      · rw [hwrites] at hput
        cases hput
      · rw [hwrites] at hdestroy
        cases hdestroy
  | cons e' tr ih =>
    simp only [List.cons_append, writesAlone, Bool.and_eq_true] at h
    have hold : ∀ t ∈ family, Offspring (done ++ [e']) p r t := fun t ht =>
      (hfamily t ht).mono (List.subset_append_left ..)
    have hnext : ∃ t, Offspring (done ++ [e'] ++ tr) p r t ∧ e.frame.Polls p t := by
      refine ih (fun t ht => ?_) h.2
      split at ht
      · rename_i hknown
        rcases List.mem_append.1 ht with ht | ht
        · simp only [List.any_eq_true, decide_eq_true_eq] at hknown
          obtain ⟨t', ht', hpolls⟩ := hknown
          obtain ⟨job, hspawns⟩ := Taken.spawns_of_mem_brings ht
          exact (hold t' ht').spawned (by simp) hpolls hspawns
        · exact hold t ht
      · exact hold t ht
    rwa [List.append_assoc] at hnext

end alone

/-- Two workers and no bound. -/
def unboundedPair : PoolConfig := { numWorkers := 2, maxQueueSize := 0 }

/-- The numbers below six, for the first cell. -/
def belowSix : Share := ⟨0, 6, 0⟩

/-- Someone makes a cell and spawns the job. -/
def givingMoves : List (Move Datum Job) :=
  .startPool unboundedPair :: .enter (.newCell fun _ => .spawn (some 0) belowSix.job fun _ => .done (.ok ())) ::
    List.replicate 5 (.step 2 0)

/-- The call returns, and the workers take turns. -/
def summingMoves : List (Move Datum Job) :=
  List.replicate 8 (.step 2 0) ++ (List.replicate 60 [.step 0 0, .step 1 0]).flatten

theorem startError?_unboundedPair : unboundedPair.startError? = none := by cbv

theorem isAtRest_belowSix : (({} : Machine Datum Job).run Job.start (givingMoves ++ summingMoves)).IsAtRest := by
  rw [givingMoves, List.cons_append, run_startPool startError?_unboundedPair]
  decide +kernel

set_option maxRecDepth 4000 in
theorem sumRun_belowSix : SumRun belowSix 0 0 givingMoves summingMoves := by
  have hbegins : ∀ mvs, ({} : Machine Datum Job).run Job.start (givingMoves ++ mvs) =
      (({} : Machine Datum Job).addPool unboundedPair).run Job.start (givingMoves.tail ++ mvs) :=
    fun mvs => run_startPool startError?_unboundedPair _ _
  have hgiven := hbegins []
  rw [List.append_nil, List.append_nil] at hgiven
  refine ⟨⟨by decide, by decide⟩, ⟨Job.fresh_start, ?_, ?_⟩, ?_, ?_, ?_, ?_, ?_, ?_⟩
  · simp [givingMoves, summingMoves, Move.Fresh, Body.Fresh]
  · rw [givingMoves, List.cons_append, trace_startPool startError?_unboundedPair]
    decide +kernel
  · rw [hgiven]
    exact ⟨{ stage := .unclaimed belowSix.job }, rfl, rfl⟩
  · rw [hgiven]
    decide +kernel
  · rw [hgiven]
    rfl
  · rw [hgiven]
    exact ⟨_, rfl, rfl⟩
  · exact isAtRest_belowSix.opened 0
  · intro tr e tr' htr c hwrites _
    have halone : writesAlone 0 [0]
        ((({} : Machine Datum Job).run Job.start givingMoves).trace Job.start summingMoves) = true := by
      rw [hgiven]
      decide +kernel
    rw [htr] at halone
    have hfirst : ∀ t ∈ [0], Offspring ([] : List (Taken Datum Job)) 0 0 t := fun t ht => List.mem_singleton.1 ht ▸ .first
    exact alone_of_writesAlone hfirst halone hwrites

theorem sums_belowSix : SumRun belowSix 0 0 givingMoves summingMoves ∧
    ((({} : Machine Datum Job).run Job.start (givingMoves ++ summingMoves)).store.cell 0).payload = .full (Link.number 15) ∧
    (familyOf 0 0 givingMoves summingMoves).ncard = 3 := by
  obtain ⟨hsum, hcount, -⟩ := (sums_run sumRun_belowSix).complete fun t _ y hy => isAtRest_belowSix.rested hy
  have htasks : tasksFor 6 = 3 := by simp [tasksFor, Core.treeLeaf]
  exact ⟨sumRun_belowSix, hsum, hcount.trans htasks⟩

end Machine
end Dataflow
