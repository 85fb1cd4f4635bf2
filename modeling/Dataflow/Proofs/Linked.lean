import Dataflow.Proofs.Charges
import Dataflow.Proofs.Finishing
import Dataflow.Proofs.Linking
import Dataflow.Proofs.Wakes

/-!
# A chain of links

Whatever order the workers and the program that made the links go on in, every link is in a state that its cells bear
out, and a link that waits for an empty cell is registered with it (`Machine.Linked`). So when nobody is left who goes
on by himself, all links behind a full cell have ended (`Machine.Linked.full_of_rests`).
-/

namespace Dataflow

namespace Machine

variable {m : Machine Datum Job} {i choice : Nat} {worker : Option (PoolId × Nat)} {f : Frame Datum Job}
  {rest : List (Frame Datum Job)} {t : TaskId} {y : Task Datum Job}

/-- The links of a chain as they can be at any moment, while the program that made them goes on. -/
structure Linked (m : Machine Datum Job) : Prop where
  lawful : m.Lawful
  alive : m.store.aborted = false
  running : m.store.Running 0
  frames : m.AllFrames fun worker f => f.OfLink m.store ∨ worker = none ∧ f.IsOutside
  homes : ∀ (i : Nat) (th : Thread Datum Job), m.threads[i]? = some th → ∀ p w, th.worker = some (p, w) → p = 0
  /-- Every cell gets its own number. -/
  cells : ∀ c, (m.store.cell c).payload = .empty ∨ m.store.Full c
  /-- A cell is read by its link. -/
  wakers : ∀ k party, m.store.Enters k party → party = .task 0 k.1
  room : ∀ t y, m.store.task? 0 t = some y → t + 1 < m.store.cells.size
  /-- And written by the link before. -/
  written : ∀ t, m.store.Full (t + 1) → ∃ y, m.store.task? 0 t = some y
  knows : ∀ t y, m.store.task? 0 t = some y → Link.Knows m.store t y (m.holds 0 t)
  /-- A link that waits will be woken by the put, or is about to be. -/
  heard : ∀ t y, m.store.task? 0 t = some y → Link.Waits y (m.holds 0 t) →
    ¬ m.store.Full t ∧ (∃ key, m.store.Enters (t, key) (.task 0 t)) ∨ m.Pending (Frame.Wakes 0 t)
  /-- Threads that are blocked on a full cell have been told, or are about to be. -/
  told : ∀ c, m.store.Full c → 0 < (m.store.cell c).blocked → c ∈ m.store.signalled ∨ m.Pending (· = .signal c)
  signalled : ∀ c ∈ m.store.signalled, m.store.Full c

namespace Linked

/-- Whoever steps writes numbers only. -/
theorem numbers {s : Store Datum Job} (hf : f.OfLink s ∨ f.Prudent s) : f.Numbers :=
  hf.elim Frame.OfLink.numbers Frame.Prudent.numbers

/-- Who is about to signal a cell has filled it. -/
theorem filling (h : m.Linked) : m.Filling Link.number := by
  refine ⟨h.cells, h.told, ?_, h.signalled⟩
  rintro c ⟨i, th, hi, f, hf, rfl⟩
  exact (h.frames i th hi _ hf).resolve_right And.right

section after

variable (h : m.Linked) (hi : m.threads[i]? = some ⟨worker, f :: rest⟩)
  (hfree : f.isBlocked worker choice m.store = false) (hf : f.OfLink m.store ∨ f.Prudent m.store)

include h hi hfree

theorem after_eq : m.after Job.start (.step i choice) = ⟨(f.step Job.start worker choice m.store).1,
      m.threads.setIfInBounds i ⟨worker, (f.step Job.start worker choice m.store).2 ++ rest⟩⟩ ∧
    m.taken (.step i choice) = some ⟨i, worker, f, m.store⟩ := by
  have hcan : m.canStep i choice = true := canStep_iff.2 ⟨h.alive, worker, f, rest, hi, hfree⟩
  rcases m.after_step Job.start i choice with ⟨-, hnone⟩ | ⟨worker', f', rest', hi', -, -, htaken, heq⟩
  · simp [taken, hcan, hi] at hnone
  · rw [hi] at hi'
    cases hi'
    exact ⟨heq, htaken⟩

omit hfree in
/-- A link that writes finds its cell empty. -/
theorem writes (hw : f = .run (Link.writes t)) : (m.store.cell (t + 1)).payload = .empty ∧ t + 1 < m.store.cells.size := by
  subst hw
  obtain ⟨y, hy, hT, hfit⟩ := h.lawful.scheduled.holds_eq h.running hi (List.mem_cons_self ..)
    (p := 0) (t := t) (k := .polling (Link.writes t)) (by simp [Frame.holds, Link.writes])
  refine ⟨(h.cells _).resolve_right fun hfull => ?_, h.room t y hy⟩
  have hspent := (h.knows t y hy).written hfull
  rw [hT] at hspent
  rcases hspent with hend | ⟨k, hk, hspent⟩
  · rcases hfit.1 with hstate | hstate <;> rw [hstate] at hend <;> cases hend
  · rw [Multiset.mem_singleton.1 hk] at hspent
    exact hspent

omit hfree in
/-- A worker that takes up a link finds what is left of it. -/
theorem enters (henter : f = .task 0 t .enter) : ∃ y, m.store.task? 0 t = some y ∧ Link.Keeps t y.stage ∧
    y.stage ≠ .consumed ∧ (y.stage.IsStarted → m.store.Full t) := by
  subst henter
  obtain ⟨y, hy, hT, hfit⟩ := h.lawful.scheduled.holds_eq h.running hi (List.mem_cons_self ..)
    (p := 0) (t := t) (k := .claimed) (by simp [Frame.holds])
  refine ⟨y, hy, (h.knows t y hy).stage, hfit.2, fun hstarted => ?_⟩
  rcases (h.knows t y hy).started hstarted with hfull | hstate | hparking
  · exact hfull
  · rcases hfit.1 with h | h <;> rw [hstate] at h <;> cases h
  · rw [hT] at hparking
    cases Multiset.singleton_inj.1 hparking

omit hfree in
/-- What a link does next is the step of a link. -/
theorem ofLink_step (hlink : f.OfLink m.store) :
    ∀ g ∈ (f.step Job.start worker choice m.store).2, g.OfLink (f.step Job.start worker choice m.store).1 :=
  hlink.step (h.homes i _ hi) h.cells h.wakers (fun _ => h.writes hi) fun _ => h.enters hi

include hf

/-- What happens to a link. -/
theorem turns (hy : m.store.task? 0 t = some y) : ∃ z, (m.after Job.start (.step i choice)).store.task? 0 t = some z ∧
    Link.Turns m.store t f y (m.holds 0 t) z ((m.after Job.start (.step i choice)).holds 0 t) := by
  obtain ⟨-, htaken⟩ := after_eq h hi hfree
  rcases change Job.start h.lawful.scheduled.framed (h.lawful.scheduled.sound 0 t).made (.step i choice) with
    ⟨hnone, -⟩ | ⟨_, _, f', d, e, others, htaken', hd, he, hc⟩
  · cases htaken.symm.trans hnone
  · rw [htaken] at htaken'
    cases htaken'
    have hx := h.lawful.scheduled.exact 0 t h.running
    rw [hy] at hc hx
    rw [hd] at hx
    have hknows := h.knows t y hy
    rw [hd] at hknows ⊢
    rw [he]
    exact Link.turns_of_change h.running hx hknows h.cells (hf.imp id Frame.Prudent.outside) hc

/-- A task that was not there is the next link. -/
theorem made (hnone : m.store.task? 0 t = none) {z : Task Datum Job}
    (hz : (m.after Job.start (.step i choice)).store.task? 0 t = some z) :
    z = { stage := .unclaimed (Link.job t) } ∧ (m.after Job.start (.step i choice)).holds 0 t = {.ready} ∧
      t + 1 < m.store.cells.size ∧ ¬ f.OfLink m.store := by
  obtain ⟨-, htaken⟩ := after_eq h hi hfree
  rcases change Job.start h.lawful.scheduled.framed (h.lawful.scheduled.sound 0 t).made (.step i choice) with
    ⟨hnone', -⟩ | ⟨_, _, f', d, e, others, htaken', hd, he, hc⟩
  · cases htaken.symm.trans hnone'
  · rw [htaken] at htaken'
    cases htaken'
    have hT := (h.lawful.scheduled.sound 0 t).made hnone
    rw [hnone, hz] at hc
    rw [he]
    cases hc with
    | @spawn job next pool hpool ht =>
      obtain rfl : others = 0 := by simpa [hT] using hd.symm
      have hprudent := hf.resolve_left id
      obtain ⟨q, k, hcharge, rfl, hlt⟩ := hprudent.spawn job next rfl
      rw [Store.charge_of_pool hpool] at hcharge
      cases hcharge
      subst ht
      exact ⟨rfl, rfl, hlt, id⟩

theorem knows_after (hy : (m.after Job.start (.step i choice)).store.task? 0 t = some y) :
    Link.Knows (m.after Job.start (.step i choice)).store t y ((m.after Job.start (.step i choice)).holds 0 t) := by
  obtain ⟨heq, -⟩ := after_eq h hi hfree
  have hfull : ∀ c, m.store.Full c → (m.after Job.start (.step i choice)).store.Full c := by
    rw [heq]
    exact fun c => (numbers hf).full
  have hnew : (m.after Job.start (.step i choice)).store.Full (t + 1) → m.store.Full (t + 1) ∨
      ∃ k ∈ (m.after Job.start (.step i choice)).holds 0 t, k.IsSpent := by
    rw [heq]
    intro hwritten
    rcases (numbers hf).of_full hwritten with hbefore | ⟨hempty, value, hput⟩
    · exact .inl hbefore
    rcases hf with hlink | hprudent
    · -- the link has written it, and is about to end
      obtain ⟨u, rfl, hu, -⟩ := hlink.of_put? hput
      obtain rfl : t = u := Nat.succ.inj hu
      refine .inr ⟨.polling (Link.ends t), ?_, trivial⟩
      have hends : .run (Link.ends t) ∈ (Frame.step Job.start worker choice m.store (.run (Link.writes t))).2 ++ rest :=
        List.mem_append_left _ (by simp [Frame.step, Link.stepRun_writes worker hempty])
      exact mem_holds_of_set hi hends (by simp [Frame.holds, Link.ends])
    · cases (hprudent.put _ _ hput).1
  cases hx : m.store.task? 0 t with
  | some x =>
    obtain ⟨z, hz, hturns⟩ := turns h hi hfree hf hx
    rw [hy] at hz
    cases hz
    exact (h.knows t x hx).turn hturns hfull hnew
  | none =>
    obtain ⟨rfl, hT, -, -⟩ := made h hi hfree hf hx hy
    refine ⟨rfl, (by simp), (by simp), (by simp), False.elim, fun hwritten => ?_⟩
    rcases hnew hwritten with hbefore | hspent
    · obtain ⟨x, hx'⟩ := h.written t hbefore
      cases hx.symm.trans hx'
    · exact .inr hspent

theorem heard_after (hy : (m.after Job.start (.step i choice)).store.task? 0 t = some y)
    (hwaits : Link.Waits y ((m.after Job.start (.step i choice)).holds 0 t)) :
    ¬ (m.after Job.start (.step i choice)).store.Full t ∧
        (∃ key, (m.after Job.start (.step i choice)).store.Enters (t, key) (.task 0 t)) ∨
      (m.after Job.start (.step i choice)).Pending (Frame.Wakes 0 t) := by
  obtain ⟨heq, -⟩ := after_eq h hi hfree
  cases hx : m.store.task? 0 t with
  | none =>
    obtain ⟨rfl, -⟩ := made h hi hfree hf hx hy
    rcases hwaits with hstate | ⟨hstate, -⟩ <;> cases hstate
  | some x =>
    obtain ⟨z, hz, hturns⟩ := turns h hi hfree hf hx
    rw [hy] at hz
    cases hz
    rcases hturns.waits hwaits with hbefore | ⟨rfl, hempty⟩
    · rcases h.heard t x hx hbefore with ⟨hnot, key, henters⟩ | hpending
      · by_cases hfull : (m.after Job.start (.step i choice)).store.Full t
        · -- the put that fills the cell wakes it
          rw [heq] at hfull ⊢
          obtain ⟨hempty, value, hput⟩ := ((numbers hf).of_full hfull).resolve_left hnot
          obtain ⟨-, fs, hfs⟩ := Frame.step_of_puts Job.start worker choice hput hempty
          refine .inr (Pending.of_mem hi (g := .wake (.task 0 t)) ?_ rfl)
          rw [hfs, Frame.afterPut]
          exact List.mem_append_left _ (List.mem_append_right _
            (List.mem_map_of_mem (List.mem_map.2 ⟨(key, .task 0 t), henters, rfl⟩)))
        · refine .inl ⟨hfull, key, ?_⟩
          rw [heq]
          rcases hf with hlink | hprudent
          · exact hlink.enters h.cells hnot henters
          · exact (Store.enters_iff_of_sameWakers hprudent.sameWakers).2 henters
      · -- only the wake call itself can settle it, and then the link waits no longer
        refine .inr ?_
        rcases hpending.set hi with hwakes | hpending'
        · have hcall : m.InWake i 0 t rest := ⟨f, stackOf_eq hi, hwakes⟩
          rcases hcall.after Job.start h.lawful.scheduled.framed (.step i choice) with ⟨g, hg, hwakes'⟩ | hwoken
          · obtain ⟨th, hth, hstack⟩ := exists_of_stackOf_ne_nil (hg ▸ List.cons_ne_nil g rest)
            exact ⟨i, th, hth, g, by rw [← hstack, hg]; exact List.mem_cons_self .., hwakes'⟩
          · rcases hwoken y hy with hend | hend | hend <;> rcases hwaits with hstate | ⟨hstate, -⟩ <;>
              rw [hstate] at hend <;> cases hend
        · rw [heq]
          exact hpending'
    · have hlt : t < m.store.cells.size := Nat.lt_of_succ_lt (h.room t x hx)
      have hstep := Link.stepRun_reads_of_empty worker none ((h.cells t).resolve_right hempty)
      rw [heq]
      refine .inl ⟨fun hfull => ?_, (m.store.cell t).nextKey, ?_⟩
      · obtain ⟨-, value, hput⟩ := ((numbers hf).of_full hfull).resolve_left hempty
        cases hput
      · rw [Frame.step, hstep, Store.Enters, Store.cell_setCell, if_pos ⟨rfl, hlt⟩]
        exact List.mem_append_right _ (List.mem_singleton_self _)

/-- The links stay as they can be. What a program outside does next is up to the program. -/
theorem after (hown : f.Prudent m.store → ∀ g ∈ (f.step Job.start worker choice m.store).2,
      g.OfLink (f.step Job.start worker choice m.store).1 ∨ worker = none ∧ g.IsOutside) :
    (m.after Job.start (.step i choice)).Linked := by
  have hknows := fun t y => knows_after h hi hfree hf (t := t) (y := y)
  have hheard := fun t y => heard_after h hi hfree hf (t := t) (y := y)
  have hlaw : (m.after Job.start (.step i choice)).Lawful := h.lawful.after _
  have hmade := fun t => made h hi hfree hf (t := t)
  obtain ⟨heq, -⟩ := after_eq h hi hfree
  rw [heq] at hknows hheard hlaw hmade ⊢
  have hnumbers := numbers hf
  have hfull : ∀ c, m.store.Full c → (f.step Job.start worker choice m.store).1.Full c := fun c => hnumbers.full
  have hhome : ∀ p w, worker = some (p, w) → p = 0 := h.homes i _ hi
  have hlink : f.OfLink m.store → ∀ g ∈ (f.step Job.start worker choice m.store).2,
      g.OfLink (f.step Job.start worker choice m.store).1 := h.ofLink_step hi
  have hsize := Frame.size_step Job.start worker choice m.store f
  have hfilling : Filling ⟨(f.step Job.start worker choice m.store).1,
      m.threads.setIfInBounds i ⟨worker, (f.step Job.start worker choice m.store).2 ++ rest⟩⟩ Link.number :=
    h.filling.step hi hnumbers.fills
  constructor
  case lawful => exact hlaw
  case alive =>
    rcases hf with hlink | hprudent
    · exact hlink.aborted.trans h.alive
    · refine (Frame.aborted_step fun q t outcome hq => ?_).trans h.alive
      rw [hq] at hprudent
      exact hprudent.outside
  case running =>
    refine Frame.running_step (fun hclose => ?_) h.running
    rcases hf with hlink | hprudent
    · rw [hclose] at hlink
      exact hlink
    · exact hprudent.close hclose
  case frames =>
    have hkept : m.AllFrames fun home g =>
        g.OfLink (f.step Job.start worker choice m.store).1 ∨ home = none ∧ g.IsOutside :=
      h.frames.mono fun _ g hg => hg.imp_left fun hg => hg.mono hfull
    refine hkept.set hi (fun g hg => ?_) _
    exact hf.elim (fun hlink' => .inl (hlink hlink' g hg)) fun hprudent => hown hprudent g hg
  case homes =>
    intro j th hj p w hw
    rcases thread_of_set hi hj with ⟨-, rfl⟩ | ⟨-, hj⟩
    · exact hhome p w hw
    · exact h.homes j th hj p w hw
  case cells => exact hfilling.cells
  case wakers =>
    intro k party henters
    rcases hf with hlink' | hprudent
    · rcases Frame.enters_step henters with ⟨r, -, -, g, hg, hminds⟩ | ⟨hbefore, -⟩
      · exact (hlink hlink' g hg).minds hminds
      · exact h.wakers k party hbefore
    · exact h.wakers k party ((Store.enters_iff_of_sameWakers hprudent.sameWakers).1 henters)
  case room =>
    intro t y hy
    cases hx : m.store.task? 0 t with
    | some x => exact Nat.lt_of_lt_of_le (h.room t x hx) hsize
    | none => exact Nat.lt_of_lt_of_le (hmade t hx hy).2.2.1 hsize
  case written =>
    intro t hwritten
    have hthere : ∃ y, m.store.task? 0 t = some y := by
      rcases hnumbers.of_full hwritten with hbefore | ⟨-, value, hput⟩
      · exact h.written t hbefore
      rcases hf with hlink' | hprudent
      · obtain ⟨u, rfl, hu, -⟩ := hlink'.of_put? hput
        obtain rfl : t = u := Nat.succ.inj hu
        obtain ⟨y, hy, -⟩ := h.lawful.scheduled.holds_eq h.running hi (List.mem_cons_self ..)
          (p := 0) (t := t) (k := .polling (Link.writes t)) (by simp [Frame.holds, Link.writes])
        exact ⟨y, hy⟩
      · cases (hprudent.put _ _ hput).1
    obtain ⟨y, hy⟩ := hthere
    exact ⟨_, Frame.task?_step Job.start worker choice f hy⟩
  case knows => exact hknows
  case heard => exact hheard
  case told => exact hfilling.told
  case signalled => exact hfilling.signalled

end after

section rest

variable {N : Nat} (h : m.Linked)
  (hidle : m.AllFrames fun _ f => f.IsLooking ∨ f.IsOutside ∧ ¬ f.Books 0)

include h hidle

/-- If the first cell is full, all links have ended that were made one after the other. -/
theorem full_of_rests (hrests : ∀ t y, m.store.task? 0 t = some y → y.Rests)
    (hmade : ∀ t < N, ∃ y, m.store.task? 0 t = some y) (hfirst : m.store.Full 0) :
    m.store.Full N ∧ ∀ t < N, ∃ y, m.store.task? 0 t = some y ∧ y.state = .completed := by
  have hasleep : ∀ t, ¬ m.Pending (Frame.Wakes 0 t) := by
    rintro t ⟨i, th, hi, f, hf, hwakes⟩
    rcases hidle i th hi f hf with hlook | ⟨hout, -⟩
    · obtain ⟨seek, rfl⟩ := hlook.exists_seek
      exact hwakes.elim
    · cases f <;> first | exact hwakes.elim | exact hout.elim
  induction N with
  | zero => exact ⟨hfirst, fun t ht => absurd ht (Nat.not_lt_zero t)⟩
  | succ N ih =>
    obtain ⟨hfull, hended⟩ := ih fun t ht => hmade t (Nat.lt_succ_of_lt ht)
    obtain ⟨y, hy⟩ := hmade N (Nat.lt_succ_self N)
    have hcompleted : y.state = .completed := by
      rcases hrests N y hy with ⟨hstate, -⟩ | ⟨hend, -⟩
      · -- it would have been woken
        rcases h.heard N y hy (.inl hstate) with ⟨hempty, -⟩ | hpending
        · exact absurd hfull hempty
        · exact absurd hpending (hasleep N)
      · have hsound := (h.knows N y hy).sound
        cases hstate : y.state <;> rw [hstate] at hend hsound <;> first | rfl | exact absurd rfl hsound | cases hend
    refine ⟨((h.knows N y hy).ended hcompleted).2, fun t ht => ?_⟩
    rcases Nat.lt_succ_iff_lt_or_eq.1 ht with hlt | rfl
    · exact hended t hlt
    · exact ⟨y, hy, hcompleted⟩

end rest

end Linked

end Machine
end Dataflow
