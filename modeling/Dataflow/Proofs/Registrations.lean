import Dataflow.Proofs.Bodies
import Dataflow.Proofs.Payloads

/-!
# Registrations

Whoever waits for a cell holds the key of its registration there, and so does whoever is about to withdraw
one. Each such key is a ticket. No key is held twice, and where someone waits under a key the cell knows whom
to wake (`Store.Registers`). So a put wakes everyone who waits, and withdrawing a key affects nobody else.

Polling a read (`Frame.registers_pollWait`) and withdrawing a key (`Store.Registers.withdraw`) are all that
touches a registration; the instructions of a body are made of these (`Frame.registers_stepRun`).
-/

namespace Dataflow

variable {V J : Type}

/-- A registration, by cell and key, and who waits under it, if anyone still does. -/
abbrev Ticket := (CellId × Nat) × Option Party

/-- The tickets of someone who holds these registrations. -/
def ticketsOf (party : Party) (held : List (CellId × Nat)) : Multiset Ticket :=
  held.map fun k => (k, some party)

@[simp] theorem ticketsOf_nil (party : Party) : ticketsOf party [] = 0 := rfl

theorem mem_ticketsOf {party : Party} {held : List (CellId × Nat)} {k : CellId × Nat} (h : k ∈ held) :
    (k, some party) ∈ ticketsOf party held :=
  Multiset.mem_coe.2 (List.mem_map.2 ⟨k, h, rfl⟩)

theorem ticketsOf_append (party : Party) (xs ys : List (CellId × Nat)) :
    ticketsOf party (xs ++ ys) = ticketsOf party xs + ticketsOf party ys := by
  simp [ticketsOf]

namespace Store

/-- The cells have the same registrations. -/
def SameWakers (s s' : Store V J) : Prop :=
  ∀ c, (s'.cell c).wakers = (s.cell c).wakers ∧ (s'.cell c).nextKey = (s.cell c).nextKey

theorem SameWakers.of_cells_eq {s s' : Store V J} (h : s'.cells = s.cells) : s.SameWakers s' := by
  intro c
  rw [cell, cell, h]
  exact ⟨rfl, rfl⟩

theorem SameWakers.setCell {s : Store V J} {c : CellId} {x : Cell V Party}
    (hx : x.wakers = (s.cell c).wakers ∧ x.nextKey = (s.cell c).nextKey) : s.SameWakers (s.setCell c x) := by
  intro c'
  rw [cell_setCell]
  split
  · rename_i hc
    exact hc.1 ▸ hx
  · exact ⟨rfl, rfl⟩

/-- The store knows the tickets. -/
structure Registers (s : Store V J) (T : Multiset Ticket) : Prop where
  /-- The cell knows whom to wake. -/
  waker : ∀ c key party, ((c, key), some party) ∈ T → (key, party) ∈ (s.cell c).wakers
  /-- It does not give out a key again. -/
  bound : ∀ c key q, ((c, key), q) ∈ T → key < (s.cell c).nextKey
  /-- No key is held twice. -/
  once : (T.map (·.1)).Nodup

namespace Registers

variable {s s' : Store V J} {T T' rest : Multiset Ticket} {c : CellId} {key : Nat} {q : Option Party}

/-- Tickets may be lost, and given up by those who waited. -/
theorem mono (h : s.Registers T) (hwait : ∀ k party, (k, some party) ∈ T' → (k, some party) ∈ T)
    (hkeys : T'.map (·.1) ≤ T.map (·.1)) (hcell : s.SameWakers s') : s'.Registers T' := by
  refine ⟨fun c key party hmem => ?_, fun c key q hmem => ?_, Multiset.nodup_of_le hkeys h.once⟩
  · rw [(hcell c).1]
    exact h.waker c key party (hwait _ _ hmem)
  · rw [(hcell c).2]
    obtain ⟨⟨k, q'⟩, hmem', hk⟩ := Multiset.mem_map.1
      (Multiset.mem_of_le hkeys (Multiset.mem_map_of_mem (·.1) hmem))
    obtain rfl : k = (c, key) := hk
    exact h.bound c key q' hmem'

/-- The key of one ticket is not that of another. -/
theorem ne_of_mem {k k' : CellId × Nat} {q' : Option Party} (h : s.Registers ({(k, q)} + rest))
    (hmem : (k', q') ∈ rest) : k' ≠ k := by
  rintro rfl
  have hnodup := h.once
  rw [Multiset.map_add, Multiset.map_singleton, Multiset.singleton_add, Multiset.nodup_cons] at hnodup
  exact hnodup.1 (Multiset.mem_map_of_mem (·.1) hmem)

/-- Fewer tickets are known as well. -/
theorem of_le (h : s.Registers T) (hT : T' ≤ T) (hcell : s.SameWakers s') : s'.Registers T' :=
  h.mono (fun _ _ => Multiset.mem_of_le hT) (Multiset.map_le_map hT) hcell

/-- Who waited may give up and keep the keys, to withdraw them later. -/
theorem giveUp {party : Party} {held : List (CellId × Nat)} (h : s.Registers (ticketsOf party held + rest)) :
    s.Registers ((held.map fun k => (k, none) : List Ticket) + rest) := by
  refine h.mono (fun k party' hmem => ?_) ?_ (.of_cells_eq rfl)
  · rcases Multiset.mem_add.1 hmem with hmem | hmem
    · simp at hmem
    · exact Multiset.mem_add.2 (.inr hmem)
  · refine le_of_eq ?_
    rw [Multiset.map_add, Multiset.map_add]
    simp [ticketsOf, Function.comp_def]

/-- A key that is withdrawn was nobody else's. -/
theorem withdraw (h : s.Registers ({((c, key), q)} + rest)) :
    (s.setCell c ((s.cell c).withdraw (some key))).Registers rest := by
  refine ⟨fun c' key' party hmem => ?_, fun c' key' q' hmem => ?_, ?_⟩
  · have hw := h.waker c' key' party (Multiset.mem_add.2 (.inr hmem))
    rw [cell_setCell]
    split
    · rename_i hc
      obtain ⟨rfl, -⟩ := hc
      have hne : key' ≠ key := fun hk => h.ne_of_mem hmem (by rw [hk])
      simp [Cell.withdraw, hw, hne]
    · exact hw
  · have hb := h.bound c' key' q' (Multiset.mem_add.2 (.inr hmem))
    rw [cell_setCell]
    split
    · rename_i hc
      obtain ⟨rfl, -⟩ := hc
      exact hb
    · exact hb
  · refine Multiset.nodup_of_le ?_ h.once
    rw [Multiset.map_add]
    exact Multiset.le_add_left _ _

/-- Who registers anew gets a key that nobody holds. -/
theorem register (h : s.Registers rest) (hlt : c < s.cells.size) (party : Party) :
    (s.setCell c ((s.cell c).register party none).1).Registers
      ({((c, (s.cell c).nextKey), some party)} + rest) := by
  have hnew : ∀ k q', (k, q') ∈ rest → k ≠ (c, (s.cell c).nextKey) := by
    rintro k q' hmem rfl
    exact absurd (h.bound _ _ _ hmem) (lt_irrefl _)
  refine ⟨fun c' key' party' hmem => ?_, fun c' key' q' hmem => ?_, ?_⟩
  · rw [cell_setCell]
    rcases Multiset.mem_add.1 hmem with hmem | hmem
    · cases Multiset.mem_singleton.1 hmem
      simp [hlt, Cell.register]
    · have hw := h.waker c' key' party' hmem
      split
      · rename_i hc
        obtain ⟨rfl, -⟩ := hc
        simp [Cell.register, hw]
      · exact hw
  · rw [cell_setCell]
    rcases Multiset.mem_add.1 hmem with hmem | hmem
    · cases Multiset.mem_singleton.1 hmem
      simp [hlt, Cell.register]
    · have hb := h.bound c' key' q' hmem
      split
      · rename_i hc
        obtain ⟨rfl, -⟩ := hc
        exact Nat.lt_succ_of_lt hb
      · exact hb
  · rw [Multiset.map_add, Multiset.map_singleton, Multiset.singleton_add, Multiset.nodup_cons]
    refine ⟨fun hmem => ?_, h.once⟩
    obtain ⟨⟨k, q'⟩, hmem', hk⟩ := Multiset.mem_map.1 hmem
    exact hnew k q' hmem' hk

/-- Who is registered already keeps the key. -/
theorem registerAgain {party : Party} (h : s.Registers ({((c, key), some party)} + rest)) :
    (s.setCell c ((s.cell c).register party (some key)).1).Registers ({((c, key), some party)} + rest) ∧
      ((s.cell c).register party (some key)).2 = key := by
  have hw := h.waker c key party (Multiset.mem_add.2 (.inl (Multiset.mem_singleton_self _)))
  have hany : ((s.cell c).wakers.any (·.1 == key)) = true := List.any_eq_true.2 ⟨_, hw, by simp⟩
  simp only [Cell.register, hany, if_true, and_true]
  refine ⟨fun c' key' party' hmem => ?_, fun c' key' q' hmem => ?_, h.once⟩
  · have hw' := h.waker c' key' party' hmem
    rw [cell_setCell]
    split
    · rename_i hc
      obtain ⟨rfl, -⟩ := hc
      refine List.mem_map.2 ?_
      by_cases hk : key' = key
      · subst hk
        rcases Multiset.mem_add.1 hmem with hmem | hmem
        · exact ⟨(key', party'), hw', by simpa using (Multiset.mem_singleton.1 hmem).symm⟩
        · exact absurd rfl (h.ne_of_mem hmem)
      · exact ⟨(key', party'), hw', by simp [hk]⟩
    · exact hw'
  · have hb := h.bound c' key' q' hmem
    rw [cell_setCell]
    split
    · rename_i hc
      obtain ⟨rfl, -⟩ := hc
      exact hb
    · exact hb

end Registers
end Store

/-- The tickets of a read. -/
def Wait.tickets (party : Party) (w : Wait V) : Multiset Ticket := ticketsOf party w.held

/-- The cells that a read still asks. -/
def Wait.asks : Wait V → List CellId
  | .open c _ => [c]
  | .answered _ => []

/-- The first instruction is a read that does not block the thread. -/
def Body.IsRead : Body V J → Prop
  | .get .. | .join .. | .select .. => True
  | _ => False

/-- The cells that the first instruction waits for. -/
def Body.asks : Body V J → List CellId
  | .get c _ _ => [c]
  | .join a b _ _ => a.asks ++ b.asks
  | .select a b _ _ => [a.1, b.1]
  | _ => []

namespace Frame

variable {s : Store V J} {rest : Multiset Ticket} {party : Party}

/-- Polling a read keeps the books. -/
theorem registers_pollWait {w : Wait V} (h : s.Registers (w.tickets party + rest))
    (hlt : ∀ c ∈ w.asks, c < s.cells.size) :
    (pollWait s party w).2.Registers ((pollWait s party w).1.tickets party + rest) := by
  cases w with
  | answered answer => exact h
  | «open» c key =>
    have hc : c < s.cells.size := hlt c (by simp [Wait.asks])
    have answered : ∀ answer, (s.setCell c ((s.cell c).withdraw key)).Registers
        ((Wait.answered answer : Wait V).tickets party + rest) := by
      intro answer
      cases key with
      | none =>
        exact h.mono (fun _ _ => id) le_rfl (.setCell ⟨rfl, rfl⟩)
      | some key => simpa [Wait.tickets, Wait.held] using h.withdraw
    simp only [pollWait, Cell.poll]
    cases (s.cell c).payload with
    | full value => exact answered _
    | destroyed => exact answered _
    | empty =>
      cases key with
      | none =>
        have h0 : s.Registers rest := by simpa [Wait.tickets, Wait.held] using h
        exact h0.register hc party
      | some key =>
        have h0 : s.Registers ({((c, key), some party)} + rest) := h
        obtain ⟨h1, h2⟩ := h0.registerAgain
        dsimp only
        rw [h2]
        exact h1

/-- The tickets of a frame. -/
def tickets : Frame V J → Multiset Ticket
  | .run r | .pause r => ticketsOf r.party r.body.held
  | .withdraw c key => {((c, key), none)}
  | _ => 0

/-- The tickets of frames together. -/
def ticketsAll (frames : List (Frame V J)) : Multiset Ticket := (frames.map tickets).sum

@[simp] theorem ticketsAll_nil : ticketsAll ([] : List (Frame V J)) = 0 := rfl

@[simp] theorem ticketsAll_cons (f : Frame V J) (fs : List (Frame V J)) :
    ticketsAll (f :: fs) = f.tickets + ticketsAll fs := by
  simp [ticketsAll]

@[simp] theorem ticketsAll_append (fs gs : List (Frame V J)) :
    ticketsAll (fs ++ gs) = ticketsAll fs + ticketsAll gs := by
  simp [ticketsAll]

theorem ticketsAll_eq_zero {fs : List (Frame V J)} (h : ∀ f ∈ fs, f.tickets = 0) : ticketsAll fs = 0 := by
  induction fs with
  | nil => rfl
  | cons f fs ih => simp [h f (by simp), ih fun g hg => h g (by simp [hg])]

/-- A key that was held and is to be withdrawn. -/
theorem ticketsAll_withdraw (held : List (CellId × Nat)) :
    ticketsAll (held.map fun k => (withdraw k.1 k.2 : Frame V J)) =
      (held.map fun k => (k, none) : List Ticket) := by
  induction held with
  | nil => rfl
  | cons k held ih =>
    rw [List.map_cons, ticketsAll_cons, ih]
    rfl

theorem tickets_afterPut {c : CellId} {before : Cell V Party} {f : Frame V J} (h : f ∈ afterPut c before) :
    f.tickets = 0 := by
  simp only [afterPut, List.mem_append, List.mem_map] at h
  rcases h with h | ⟨party, -, rfl⟩
  · split at h
    · rw [List.mem_singleton.1 h]
      rfl
    · cases h
  · rfl

theorem ticketsAll_dropPending (guards : List (Guard V)) (body : Body V J) :
    ticketsAll (dropPending guards body) = (body.held.map fun k => (k, none) : List Ticket) := by
  rw [dropPending, ticketsAll_append, ticketsAll_withdraw, ticketsAll_cons, ticketsAll_nil]
  exact add_zero _

/-- A body that goes on, fresh as it is, holds nothing. -/
theorem tickets_run_of_fresh {party : Party} {guards : List (Guard V)} {body : Body V J} (h : body.Fresh) :
    (run ⟨party, guards, body⟩).tickets = 0 := by
  rw [tickets, h.held_eq, ticketsOf_nil]

/-- A read that is given up when the other one was answered is withdrawn. -/
theorem registers_over {guards : List (Guard V)} {c : CellId} {key : Option Nat} {answer : Except RuntimeError V}
    {next : Except RuntimeError V → Body V J} (hnext : ∀ answer, (next answer).Fresh)
    (h : s.Registers ((Wait.answered answer : Wait V).tickets party +
      ((Wait.open c key : Wait V).tickets party + rest))) :
    s.Registers (ticketsAll ((key.toList.map fun key => withdraw c key) ++
      [(run ⟨party, guards, next answer⟩ : Frame V J)]) + rest) := by
  rw [ticketsAll_append, ticketsAll_cons, tickets_run_of_fresh (hnext answer), ticketsAll_nil, add_zero, add_zero]
  have h0 : s.Registers ((Wait.open c key : Wait V).tickets party + rest) := by
    simpa [Wait.tickets, Wait.held] using h
  cases key with
  | none => exact h0
  | some key => exact h0.giveUp

/-- An instruction that is no read leaves the registrations alone. -/
theorem sameWakers_stepRun (worker : Option (PoolId × Nat)) (s : Store V J) {r : Run V J} (hread : ¬ r.body.IsRead) :
    s.SameWakers (stepRun worker s r).1 := by
  obtain ⟨party, guards, body⟩ := r
  have same : ∀ {s' : Store V J}, s'.cells = s.cells → s.SameWakers s' := .of_cells_eq
  cases body with
  | get | join | select => exact absurd trivial hread
  | put c value next =>
    simp only [stepRun]
    split
    · exact same rfl
    · rename_i x hx
      refine .setCell ?_
      rw [Cell.eq_of_put hx]
      exact ⟨rfl, rfl⟩
  | destroy c next =>
    simp only [stepRun]
    split
    · exact same rfl
    · rename_i x hx
      refine .setCell ?_
      rw [Cell.eq_of_destroy hx]
      exact ⟨rfl, rfl⟩
  | getBlocking c next | getTimeout c next =>
    simp only [stepRun]
    split
    · exact same rfl
    · rename_i x hx
      refine .setCell ?_
      rw [Cell.eq_of_arrive hx]
      exact ⟨rfl, rfl⟩
  | newCell next =>
    intro c
    simp only [stepRun]
    rw [Store.cell_newCell]
    exact ⟨rfl, rfl⟩
  | spawn pool job next => simp only [stepRun]; split <;> exact same rfl
  | _ => exact same rfl

/-- Whoever goes on after it holds none. -/
theorem tickets_stepRun_idle (worker : Option (PoolId × Nat)) (s : Store V J) {r : Run V J}
    (hproper : r.body.Proper) (hread : ¬ r.body.IsRead) : ∀ g ∈ (stepRun worker s r).2, g.tickets = 0 := by
  obtain ⟨party, guards, body⟩ := r
  have going : ∀ {guards'} {body' : Body V J}, body'.Fresh →
      ∀ g ∈ [(run ⟨party, guards', body'⟩ : Frame V J)], g.tickets = 0 := fun hbody g hg =>
    List.mem_singleton.1 hg ▸ tickets_run_of_fresh hbody
  have after : ∀ {fs : List (Frame V J)} {body' : Body V J}, (∀ f ∈ fs, f.tickets = 0) → body'.Fresh →
      ∀ g ∈ fs ++ [(run ⟨party, guards, body'⟩ : Frame V J)], g.tickets = 0 := by
    intro fs body' hfs hbody g hg
    rcases List.mem_append.1 hg with hg | hg
    · exact hfs g hg
    · exact going hbody g hg
  cases body with
  | get | join | select => exact absurd trivial hread
  | put c value next =>
    simp only [stepRun]
    split
    · exact going (hproper _)
    · exact after (fun g hg => tickets_afterPut hg) (hproper _)
  | destroy c next =>
    simp only [stepRun]
    split <;> exact going (hproper _)
  | getBlocking c next | getTimeout c next =>
    simp only [stepRun]
    split
    · exact going (hproper _)
    · simp [tickets]
  | newCell next | tryGet c next | current next => exact going (hproper _)
  | done result | panic message => simp [stepRun, tickets]
  | look c next => exact going (hproper _ _)
  | spawn pool job next =>
    simp only [stepRun]
    split
    · exact going (hproper _)
    · simp [tickets]
  | submit p job next => simp [stepRun, tickets, Run.goOn, Body.held]
  | note note next | guard guard next => exact going hproper
  | stash next =>
    have hfresh : next.Fresh := hproper
    simp [stepRun, tickets, Run.goOn, hfresh.held_eq]
  | yield times next =>
    have hfresh : next.Fresh := hproper
    intro g hg
    simp only [stepRun, List.mem_append, List.mem_replicate, List.mem_singleton] at hg
    rcases hg with ⟨-, rfl⟩ | rfl
    · rfl
    · simp [tickets, Run.goOn, hfresh.held_eq]
  | wakeStashed index next =>
    refine after (fun g hg => ?_) hproper
    obtain ⟨_, -, rfl⟩ := List.mem_map.1 hg
    rfl
  | waitIdle p next => exact after (show ∀ f ∈ [(waitIdle p : Frame V J)], f.tickets = 0 by simp [tickets]) hproper
  | shutdown p next =>
    exact after (show ∀ f ∈ [(shutdown p .check : Frame V J)], f.tickets = 0 by simp [tickets]) hproper

/-- An instruction keeps the books. -/
theorem registers_stepRun {worker : Option (PoolId × Nat)} {r : Run V J} (hproper : r.body.Proper)
    (hlt : ∀ c ∈ r.body.asks, c < s.cells.size)
    (h : s.Registers ((run r).tickets + rest)) :
    (stepRun worker s r).1.Registers (ticketsAll (stepRun worker s r).2 + rest) := by
  obtain ⟨party, guards, body⟩ := r
  cases body with
  | get c key next =>
    have hw : (run ⟨party, guards, .get c key next⟩ : Frame V J).tickets =
        (Wait.open c key : Wait V).tickets party := by cases key <;> rfl
    rw [hw] at h
    have hpoll := registers_pollWait h hlt
    rcases hp : pollWait s party (.open c key) with ⟨_ | answer, s'⟩ <;> rw [hp] at hpoll
    · rename_i c' key'
      have hw' : (pause ⟨party, guards, .get c' key' next⟩ : Frame V J).tickets =
          (Wait.open c' key' : Wait V).tickets party := by cases key' <;> rfl
      simp only [stepRun, hp, ticketsAll_cons, ticketsAll_nil, add_zero]
      rw [Run.goOn, hw']
      exact hpoll
    · simp only [stepRun, hp, ticketsAll_cons, ticketsAll_nil, add_zero]
      rw [Run.goOn, tickets_run_of_fresh (hproper answer)]
      exact hpoll
  | join a b second next =>
    have hw : ∀ second', (run ⟨party, guards, .join a b second' next⟩ : Frame V J).tickets =
        a.tickets party + b.tickets party := fun _ => ticketsOf_append ..
    rw [hw] at h
    cases second with
    | false =>
      rw [add_assoc] at h
      have hpoll := registers_pollWait h fun c hc => hlt c (List.mem_append_left _ hc)
      rcases hp : pollWait s party a with ⟨a', s'⟩
      rw [hp] at hpoll
      simp only [stepRun, hp, ticketsAll_cons, ticketsAll_nil, add_zero]
      rw [Run.goOn, tickets, Body.held, ticketsOf_append, add_assoc]
      exact hpoll
    | true =>
      rw [add_comm (a.tickets party), add_assoc] at h
      have hpoll := registers_pollWait h fun c hc => hlt c (List.mem_append_right _ hc)
      rcases hp : pollWait s party b with ⟨b', s'⟩
      rw [hp, ← add_assoc, add_comm (b'.tickets party)] at hpoll
      have pending : s'.Registers (ticketsAll [(pause ⟨party, guards, .join a b' false next⟩ : Frame V J)] +
          rest) := by
        simp only [ticketsAll_cons, ticketsAll_nil, add_zero]
        rw [tickets, Body.held, ticketsOf_append]
        exact hpoll
      simp only [stepRun, hp]
      rcases a with _ | x
      · exact pending
      · rcases b' with _ | y
        · exact pending
        · simp only [ticketsAll_cons, ticketsAll_nil, add_zero]
          rw [Run.goOn, tickets_run_of_fresh (hproper x y)]
          exact hpoll
  | select a b second next =>
    obtain ⟨a, ka⟩ := a
    obtain ⟨b, kb⟩ := b
    have hw : ∀ {a ka b kb second'}, (run ⟨party, guards, .select (a, ka) (b, kb) second' next⟩ : Frame V J).tickets =
        (Wait.open a ka : Wait V).tickets party + (Wait.open b kb : Wait V).tickets party := ticketsOf_append ..
    rw [hw] at h
    cases second with
    | false =>
      rw [add_assoc] at h
      have hpoll := registers_pollWait h fun c hc => hlt c (by simp_all [Wait.asks, Body.asks])
      rcases hp : pollWait s party (.open a ka) with ⟨_ | answer, s'⟩ <;> rw [hp] at hpoll
      · simp only [stepRun, hp, ticketsAll_cons, ticketsAll_nil, add_zero]
        rw [Run.goOn, hw, add_assoc]
        exact hpoll
      · simp only [stepRun, hp]
        exact registers_over hproper hpoll
    | true =>
      rw [add_comm (Wait.tickets party (.open a ka)), add_assoc] at h
      have hpoll := registers_pollWait h fun c hc => hlt c (by simp_all [Wait.asks, Body.asks])
      rcases hp : pollWait s party (.open b kb) with ⟨_ | answer, s'⟩ <;> rw [hp] at hpoll
      · simp only [stepRun, hp, ticketsAll_cons, ticketsAll_nil, add_zero]
        rw [Run.goOn, tickets, Body.held, ticketsOf_append, add_comm (ticketsOf party _), add_assoc]
        exact hpoll
      · simp only [stepRun, hp]
        exact registers_over hproper hpoll
  | _ =>
    have hfs := tickets_stepRun_idle worker s (r := ⟨party, guards, _⟩) hproper id
    rw [ticketsAll_eq_zero hfs, zero_add]
    refine h.of_le (Multiset.le_add_left _ _) ?_
    exact sameWakers_stepRun worker s id

end Frame

end Dataflow
