import Dataflow.Proofs.Crews
import Dataflow.Proofs.Linked

/-!
# How far the links of a chain have come

Every turn of a link brings it nearer to its end (`Link.Turns.rank`). So the workers that run links lead on with every
step, if it is no step of a worker that looks for tasks and finds none (`Machine.Linked.advances`).
-/

namespace Dataflow

/-- A link comes nearer to its end, or nothing happens to it but that it enters or leaves the registry. -/
theorem Link.Turns.rank {s : Store Datum Job} {t : TaskId} {f : Frame Datum Job} {y z : Task Datum Job}
    {T T' : Multiset (Hold Datum Job)} (h : Link.Turns s t f y T z T') :
    (z.state = y.state ∧ z.stage = y.stage ∧ T' = T) ∨ Link.rank (some z) T' < Link.rank (some y) T := by
  cases h with
  | stay | flag => exact .inl ⟨rfl, rfl, rfl⟩
  | claim hstate => exact .inr (by simp [Link.rank, Hold.distance, hstate])
  | begin hstate hstage =>
    refine .inr ?_
    simp only [Link.rank, Multiset.map_singleton, Multiset.sum_singleton, Hold.distance, Link.reads, hstage, Stage.distance]
    omega
  | @again f y key hstate hstage =>
    refine .inr ?_
    simp only [Link.rank, Multiset.map_singleton, Multiset.sum_singleton, Hold.distance, Link.reads, hstage, Stage.distance]
    omega
  | miss | write | finish | pause =>
    refine .inr ?_
    simp only [Link.rank, Multiset.map_singleton, Multiset.sum_singleton, Hold.distance, Link.reads, Link.writes, Link.ends]
    omega
  | @read f y key =>
    refine .inr ?_
    cases key <;>
    · simp only [Link.rank, Multiset.map_singleton, Multiset.sum_singleton, Hold.distance, Link.reads, Link.writes]
      omega
  | park hstate => exact .inr (by simp [Link.rank, Hold.distance, hstate])
  | unpark hstate => exact .inr (by simp [Link.rank, Hold.distance, hstate])
  | @requeue f y hstate hstage =>
    cases hy : y.stage <;> rw [hy] at hstage <;> first | exact hstage.elim | skip
    exact .inr (by simp [Link.rank, Hold.distance, hstate, hy, Stage.distance])
  | @wake f y hstate hstage =>
    cases hy : y.stage <;> rw [hy] at hstage <;> first | exact hstage.elim | skip
    exact .inr (by simp [Link.rank, Hold.distance, hstate, hy, Stage.distance])
  | notify hstate => exact .inr (by simp [Link.rank, hstate])
  | handBack hstate => exact .inr (by simp [Link.rank, Hold.distance, hstate])
  | settle hstate => rcases hstate with hstate | hstate <;> exact .inr (by simp [Link.rank, Hold.distance, hstate])

namespace Machine

variable {m : Machine Datum Job} {i choice N : Nat} {worker : Option (PoolId × Nat)} {f : Frame Datum Job}
  {rest : List (Frame Datum Job)} {t : TaskId}

namespace Linked

variable (h : m.Linked)

include h

/-- The workers that run links, if they are on all threads but one. -/
theorem crew {D : Nat} (hothers : ∀ (j : Nat) (th : Thread Datum Job), m.threads[j]? = some th → j ≠ D →
      ∃ w, th.worker = some (0, w))
    (hhandy : m.AllStacks fun _ stack => ∀ first rest, .work (.keep first rest) ∉ stack.tail) : m.Crew D :=
  ⟨h.lawful, h.alive, h.running, h.frames.mono fun _ _ hf => hf.imp_left Frame.OfLink.isLabour, h.homes, hothers, hhandy⟩

variable (hi : m.threads[i]? = some ⟨worker, f :: rest⟩) (hfree : f.isBlocked worker choice m.store = false)

include hi hfree

/-- A step brings a link nearer to its end, or nothing happens to any. -/
theorem still_or_lt (hf : f.OfLink m.store ∨ f.Prudent m.store)
    (hN : ∀ t y, (m.after Job.start (.step i choice)).store.task? 0 t = some y → t < N) :
    m.Still (m.after Job.start (.step i choice)) ∨ (m.after Job.start (.step i choice)).ranks N < m.ranks N := by
  refine Machine.still_or_lt hN (fun t z hx hz => ?_) fun t y hy => ?_
  · obtain ⟨rfl, hT, -⟩ := made h hi hfree hf hx hz
    simp [hT, Link.rank, Hold.distance, Stage.distance]
  · obtain ⟨z, hz, hturns⟩ := turns h hi hfree hf hy
    exact ⟨z, hz, hturns.rank⟩

/-- The body of a link comes nearer to its end with every step. -/
theorem not_still_of_run {D : Nat} (hcrew : m.Crew D) {r : Run Datum Job} (hf : f = .run r)
    (hstands : Link.Stands m.store t r) : ¬ m.Still (m.after Job.start (.step i choice)) := by
  subst hf
  intro hstill
  have same : ∀ {l : Hold Datum Job} {g : Frame Datum Job},
      g ∈ (Frame.step Job.start worker choice m.store (.run r)).2 → l ∈ g.holds worker 0 t → l = .polling r :=
    fun hg hk' => hcrew.hold_eq_of_still hi hfree hstill
      (by cases hstands <;> simp [Frame.holds, Link.reads, Link.writes, Link.ends]) hg hk'
  simp only [Frame.step] at same
  cases hstands with
  | @reads key hkey =>
    by_cases hfull : m.store.Full t
    · have hnext := same (l := .polling (Link.writes t)) (g := .run (Link.writes t))
        (by simp [Link.stepRun_reads_of_full worker key hfull]) (by simp [Frame.holds, Link.writes])
      simp [Link.writes, Link.reads] at hnext
    · have hnext := same (g := .pause _)
        (by simp [Link.stepRun_reads_of_empty worker key ((h.cells t).resolve_right hfull)]; rfl)
        (by simp [Frame.holds, Link.reads]; rfl)
      cases hnext
  | writes =>
    have hnext := same (l := .polling (Link.ends t)) (g := .run (Link.ends t))
      (by simp [Link.stepRun_writes worker (writes h hi rfl).1]) (by simp [Frame.holds, Link.ends])
    simp [Link.writes, Link.ends] at hnext
  | ends =>
    have hnext := same (l := .ending (.returned (.ok ()))) (g := .ended (.task 0 t) (.returned (.ok ())))
      (by simp [Link.stepRun_ends]) (by simp [Frame.holds])
    cases hnext

/-- The step of a link, or of a call that wakes one, leads on, or it is one of a worker that looks for tasks and finds
none. -/
theorem advances {D : Nat} (hcrew : m.Crew D) (hlink : f.OfLink m.store)
    (hN : ∀ t y, (m.after Job.start (.step i choice)).store.task? 0 t = some y → t < N) :
    (m.after Job.start (.step i choice)).ranks N < m.ranks N ∨
      (m.after Job.start (.step i choice)).ranks N = m.ranks N ∧
        ((m.after Job.start (.step i choice)).loads < m.loads ∨
          (m.after Job.start (.step i choice)).loads = m.loads ∧ m.Idles i ∧
            m.Defers (m.after Job.start (.step i choice))) := by
  refine hcrew.advances hi hfree hlink.isLabour (fun r hf => ?_) (h.still_or_lt hi hfree (.inl hlink) hN)
  subst hf
  obtain ⟨t, hstands⟩ := hlink
  exact h.not_still_of_run hi hfree hcrew rfl hstands

end Linked

end Machine
end Dataflow
