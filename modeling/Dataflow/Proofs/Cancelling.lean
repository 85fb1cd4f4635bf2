import Dataflow.Proofs.Waking

/-!
# Cancelled reads

A future that is dropped while its cell is still empty has left no trace: the run without its visits gets the same
answers (`Room.transcript_of_cancelled`). Once it has registered, the other futures have other keys than they would
have without it, and those that come later have other numbers. So the rooms of the two runs are not equal, but one is
the other with one future and one key left out (`Room.without`), and every visit of anyone else commutes with that
(`Room.visit_without`).
-/

namespace Dataflow

/-- Numbers in order, of which one may be left out: the place of `n` among the others. -/
def skip (hole : Option Nat) (n : Nat) : Nat :=
  match hole with
  | some h => if h < n then n - 1 else n
  | none => n

section Skip

variable {hole : Option Nat} {m n : Nat}

theorem skip_inj (hm : some m ≠ hole) (hn : some n ≠ hole) : skip hole m = skip hole n ↔ m = n := by
  cases hole with
  | none => rfl
  | some h =>
    have hmh : m ≠ h := fun heq => hm (congrArg some heq)
    have hnh : n ≠ h := fun heq => hn (congrArg some heq)
    simp only [skip]
    split <;> split <;> omega

/-- Of new numbers none is left out. -/
theorem skip_succ (hn : ∀ h, hole = some h → h < n) : skip hole (n + 1) = skip hole n + 1 := by
  cases hole with
  | none => rfl
  | some h =>
    have hlt := hn h rfl
    simp only [skip, if_pos hlt, if_pos (Nat.lt_succ_of_lt hlt)]
    omega

theorem skip_of_le {h : Nat} (hn : n ≤ h) : skip (some h) n = n := if_neg (Nat.not_lt.2 hn)

/-- The others move up. -/
theorem getElem?_eraseIdx_skip {α : Type} {xs : List α} (h : n ≠ m) : (xs.eraseIdx m)[skip (some m) n]? = xs[n]? := by
  rw [List.getElem?_eraseIdx, skip]
  split
  · rw [if_neg (by omega), Nat.sub_add_cancel (by omega)]
  · rw [if_pos (by omega)]

theorem eraseIdx_set_skip {α : Type} {xs : List α} {x : α} (h : n ≠ m) :
    (xs.set n x).eraseIdx m = (xs.eraseIdx m).set (skip (some m) n) x := by
  rw [skip]
  split
  · rename_i hlt
    exact List.eraseIdx_set_lt hlt
  · exact List.eraseIdx_set_gt (by omega)

end Skip

namespace Cell

variable {V W : Type}

/-- A registration as it is if that key has never been given out. -/
def rekey? (hole : Option Nat) (entry : Nat × W) : Option (Nat × W) :=
  if some entry.1 = hole then none else some (skip hole entry.1, entry.2)

/-- The cell as it is if that key has never been given out. -/
def without (hole : Option Nat) (c : Cell V W) : Cell V W :=
  { c with wakers := c.wakers.filterMap (rekey? hole), nextKey := skip hole c.nextKey }

variable {c : Cell V W} {hole : Option Nat} {key : Nat}

theorem without_none (c : Cell V W) : c.without none = c := by
  have hall : (rekey? none : Nat × W → Option (Nat × W)) = some := funext fun entry => by simp [rekey?, skip]
  simp [without, skip, hall]

/-- Withdrawing another registration. -/
theorem without_withdraw (hkey : some key ≠ hole) :
    (c.withdraw (some key)).without hole = (c.without hole).withdraw (some (skip hole key)) := by
  simp only [without, withdraw, List.filterMap_filter, List.filter_filterMap]
  congr 2
  funext entry
  by_cases hentry : some entry.1 = hole
  · simp [rekey?, hentry]
  · have hiff := skip_inj hentry hkey
    by_cases heq : entry.1 = key <;> simp [rekey?, Option.filter, hkey, hiff, heq, hentry]

theorem without_withdraw_self (c : Cell V W) (hole : Option Nat) : (c.withdraw hole).without hole = c.without hole := by
  cases hole with
  | none => rfl
  | some key =>
    simp only [without, withdraw, List.filterMap_filter]
    congr 2
    funext entry
    by_cases heq : entry.1 = key <;> simp [rekey?, heq]

/-- Another registration gets another waker. -/
theorem filterMap_setWaker (hkey : some key ≠ hole) (wakers : List (Nat × W)) (waker : W) :
    (setWaker wakers key waker).filterMap (rekey? hole) =
      setWaker (wakers.filterMap (rekey? hole)) (skip hole key) waker := by
  simp only [setWaker, List.filterMap_map, List.map_filterMap]
  congr 1
  funext entry
  by_cases hentry : some entry.1 = hole
  · have hne : entry.1 ≠ key := fun heq => hkey (heq ▸ hentry)
    simp [rekey?, hentry, hne]
  · have hiff := skip_inj hentry hkey
    by_cases heq : entry.1 = key <;> simp [rekey?, hkey, hiff, heq, hentry]

/-- Another key is in the list as before. -/
theorem any_filterMap_rekey? (hkey : some key ≠ hole) (wakers : List (Nat × W)) :
    (wakers.filterMap (rekey? hole)).any (·.1 == skip hole key) = wakers.any (·.1 == key) := by
  rw [List.any_filterMap]
  congr 1
  funext entry
  by_cases hentry : some entry.1 = hole
  · have hne : entry.1 ≠ key := fun heq => hkey (heq ▸ hentry)
    simp [rekey?, hentry, hne]
  · have hiff := skip_inj hentry hkey
    rw [Bool.eq_iff_iff]
    simp [rekey?, hentry, hiff]

/-- Registering under another key. -/
theorem without_register (hbound : ∀ h, hole = some h → h < c.nextKey) {key : Option Nat}
    (hkey : ∀ k, key = some k → some k ≠ hole) (waker : W) :
    (c.without hole).register waker (key.map (skip hole)) =
      ((c.register waker key).1.without hole, skip hole (c.register waker key).2) := by
  cases key with
  | none =>
    have hnew : some c.nextKey ≠ hole := fun heq => Nat.lt_irrefl _ (hbound _ heq.symm)
    simp [register, without, rekey?, List.filterMap_append, hnew, skip_succ hbound]
  | some key =>
    have hkey := hkey key rfl
    simp only [register, Option.map_some, without, any_filterMap_rekey? hkey]
    split
    · rw [filterMap_setWaker hkey]
    · simp [rekey?, List.filterMap_append, hkey]

/-- Polling under another key. -/
theorem without_poll (hbound : ∀ h, hole = some h → h < c.nextKey) {key : Option Nat}
    (hkey : ∀ k, key = some k → some k ≠ hole) (waker : W) :
    (c.without hole).poll (key.map (skip hole)) waker =
      ((c.poll key waker).1, (c.poll key waker).2.1.without hole, (c.poll key waker).2.2.map (skip hole)) := by
  have hwithdraw : (c.without hole).withdraw (key.map (skip hole)) = (c.withdraw key).without hole := by
    cases key with
    | none => rfl
    | some key => exact (without_withdraw (hkey key rfl)).symm
  have hpayload : (c.without hole).payload = c.payload := rfl
  cases hp : c.payload with
  | empty => simp only [poll, hpayload, hp, without_register hbound hkey, Option.map_some]
  | _ => simp only [poll, hpayload, hp, hwithdraw, Option.map_none]

/-- A poll under the key that is left out changes nothing else. -/
theorem without_register_self (c : Cell V W) (waker : W) (key : Nat) :
    (c.register waker (some key)).2 = key ∧ (c.register waker (some key)).1.without (some key) = c.without (some key) := by
  simp only [register]
  split
  · refine ⟨rfl, ?_⟩
    simp only [without, setWaker, List.filterMap_map]
    congr 2
    funext entry
    by_cases heq : entry.1 = key <;> simp [rekey?, heq]
  · exact ⟨rfl, by simp [without, rekey?, List.filterMap_append]⟩

/-- A new registration comes last, under the next key, so without it all others are as they were. -/
theorem without_register_none (hbound : ∀ entry ∈ c.wakers, entry.1 < c.nextKey) (waker : W) :
    (c.register waker none).1.without (some c.nextKey) = c := by
  have hall : c.wakers.filterMap (rekey? (some c.nextKey)) = c.wakers := by
    refine (List.filterMap_congr fun entry hentry => ?_).trans List.filterMap_some
    have hlt := hbound entry hentry
    simp [rekey?, Nat.ne_of_lt hlt, skip_of_le (Nat.le_of_lt hlt)]
  have hnext : skip (some c.nextKey) (c.nextKey + 1) = c.nextKey := by simp [skip]
  simp [register, without, rekey?, List.filterMap_append, hall, hnext]

end Cell

/-- A future as it is if a key has never been given out. -/
def CellFuture.rekey (hole : Option Nat) : CellFuture → CellFuture
  | .live key => .live (key.map (skip hole))
  | .dropped => .dropped

namespace Room

variable {V W : Type}

/-- A step of someone in the room, or a look at how the cell shows itself. -/
inductive Visit (V W : Type)
  | act (a : Action V W)
  | inspect

/-- What a visitor gets. -/
inductive Reply (V W : Type)
  | answer (answer : Answer V W)
  | shown (text : String)

/-- Let someone into the room. -/
def visit (r : Room V W) : Visit V W → Room V W × Reply V W
  | .act a => ((r.step a).1, .answer (r.step a).2)
  | .inspect => (r, .shown r.cell.inspect)

/-- A visit that was paid. -/
structure Call (V W : Type) where
  before : Room V W
  visit : Visit V W
  reply : Reply V W

/-- The visits of a run. -/
def calls (r : Room V W) : List (Visit V W) → List (Call V W)
  | [] => []
  | v :: vs => ⟨r, v, (r.visit v).2⟩ :: (r.visit v).1.calls vs

/-- The visits of a run, with what the visitors got. -/
def transcript (r : Room V W) (vs : List (Visit V W)) : List (Visit V W × Reply V W) :=
  (r.calls vs).map fun c => (c.visit, c.reply)

/-- The visit of someone other than future `k`, and what he gets, as they are without that future: those made after it
have other numbers. -/
def Call.without? (k : Nat) (c : Call V W) : Option (Visit V W × Reply V W) :=
  match c.visit, c.reply with
  | .act .get, .answer (.count n) => if n = k then none else some (.act .get, .answer (.count (skip (some k) n)))
  | .act (.poll n waker), reply => if n = k then none else some (.act (.poll (skip (some k) n) waker), reply)
  | .act (.drop n), reply => if n = k then none else some (.act (.drop (skip (some k) n)), reply)
  | visit, reply => some (visit, reply)

/-- The future is registered with the cell. -/
def Registered (r : Room V W) (k : Nat) : Prop := ∃ key, r.futures[k]? = some (.live (some key))

/-- It tells who waits, directly or by whether it goes through. -/
def Visit.Counts (v : Visit V W) : Prop := v = .act .destroy ∨ v = .act .waiters ∨ v = .inspect

/-- The future is dropped while the cell is empty. -/
def Call.Cancels (k : Nat) (c : Call V W) : Prop :=
  c.visit = .act (.drop k) ∧ c.reply = .answer (.dropped true) ∧ c.before.cell.payload = .empty

/-- Future `k` is dropped while the cell is empty, and nobody asks who waits as long as it is registered. -/
structure Cancelled (k : Nat) (calls : List (Call V W)) : Prop where
  dropped : ∃ c ∈ calls, c.Cancels k
  quiet : ∀ c ∈ calls, c.before.Registered k → ¬ c.visit.Counts

/-- The room as it is if future `k` has never been made and its key never given out. -/
def without (k : Nat) (hole : Option Nat) (r : Room V W) : Room V W :=
  { r with cell := r.cell.without hole, futures := (r.futures.eraseIdx k).map (·.rekey hole) }

/-- What is known of the key that is left out: it was given out to future `k`, which holds it or has been dropped. -/
structure Apart (r : Room V W) (k : Nat) (hole : Option Nat) : Prop where
  bound : ∀ key, hole = some key → key < r.cell.nextKey
  other : ∀ n key, n ≠ k → r.futures[n]? = some (.live (some key)) → some key ≠ hole
  mine : r.futures[k]? = some (.live hole) ∨
    (r.futures[k]? = some .dropped ∧ ∀ entry ∈ r.cell.wakers, some entry.1 ≠ hole)

variable {r : Room V W} {k n : Nat} {hole : Option Nat}

namespace Apart

theorem lt_length (h : r.Apart k hole) : k < r.futures.length := by
  rcases h.mine with hk | ⟨hk, -⟩ <;> exact (List.getElem?_eq_some_iff.1 hk).1

/-- The other futures and the registrations stay, or there are new futures. -/
theorem congr (h : r.Apart k hole) {r' : Room V W} {new : List CellFuture}
    (hnew : ∀ key, CellFuture.live (some key) ∉ new) (hfutures : r'.futures = r.futures ++ new)
    (hwakers : r'.cell.wakers = r.cell.wakers) (hkey : r'.cell.nextKey = r.cell.nextKey) : r'.Apart k hole := by
  have hk : r'.futures[k]? = r.futures[k]? := by rw [hfutures, List.getElem?_append_left h.lt_length]
  refine ⟨hkey ▸ h.bound, fun n key hn hlive => ?_, by rw [hk, hwakers]; exact h.mine⟩
  rw [hfutures, List.getElem?_append] at hlive
  split at hlive
  · exact h.other n key hn hlive
  · exact absurd (List.mem_of_getElem? hlive) (hnew key)

/-- Another future changes, and with it its registration. -/
theorem set (h : r.Apart k hole) (hn : n ≠ k) {cell : Cell V W} {future : CellFuture}
    (hfuture : ∀ key, future = .live (some key) → some key ≠ hole) (hkey : r.cell.nextKey ≤ cell.nextKey)
    (hwakers : ∀ entry ∈ cell.wakers, some entry.1 = hole → ∃ entry' ∈ r.cell.wakers, some entry'.1 = hole) :
    Apart { r with cell := cell, futures := r.futures.set n future } k hole := by
  refine ⟨fun key hkey' => Nat.lt_of_lt_of_le (h.bound key hkey') hkey, fun m key hm hlive => ?_, ?_⟩
  · rw [List.getElem?_set] at hlive
    split at hlive
    · split at hlive
      · exact hfuture key (Option.some.inj hlive)
      · cases hlive
    · exact h.other m key hm hlive
  · rw [List.getElem?_set_ne hn]
    refine h.mine.imp id (And.imp_right fun hnone entry hentry heq => ?_)
    obtain ⟨entry', hentry', heq'⟩ := hwakers entry hentry heq
    exact hnone entry' hentry' heq'

/-- Visits of others leave the future and its key alone. -/
theorem step (h : r.Apart k hole) {a : Action V W} (hpoll : ∀ waker, a ≠ .poll k waker) (hdrop : a ≠ .drop k) :
    (r.step a).1.Apart k hole := by
  have hsame : ∀ r' : Room V W, r'.futures = r.futures → r'.cell.wakers = r.cell.wakers →
      r'.cell.nextKey = r.cell.nextKey → r'.Apart k hole := fun r' hfutures hwakers hkey =>
    h.congr (fun _ => List.not_mem_nil) (by rw [hfutures, List.append_nil]) hwakers hkey
  have hwithdraw : ∀ (key : Option Nat), ∀ entry ∈ (r.cell.withdraw key).wakers, some entry.1 = hole →
      ∃ entry' ∈ r.cell.wakers, some entry'.1 = hole := by
    intro key entry hentry heq
    cases key with
    | none => exact ⟨entry, hentry, heq⟩
    | some key => exact ⟨entry, (List.mem_filter.1 hentry).1, heq⟩
  have hnext : ∀ key, (r.cell.withdraw key).nextKey = r.cell.nextKey := fun key => by cases key <;> rfl
  cases a with
  | put value =>
    simp only [Room.step, Room.put, Cell.put]
    cases r.cell.payload <;> exact hsame _ rfl rfl rfl
  | signal =>
    simp only [Room.step]
    split <;> exact hsame _ rfl rfl rfl
  | destroy =>
    rcases r.step_destroy with ⟨-, -, hcell⟩ | ⟨e, hstep, -⟩
    · have hfutures : (r.step .destroy).1.futures = r.futures := by
        simp only [Room.step]
        split <;> rfl
      exact hsame _ hfutures (by rw [hcell]) (by rw [hcell])
    · rw [hstep]
      exact h
  | tryGet | state | waiters => exact h
  | get => exact h.congr (by simp) rfl rfl rfl
  | drop n =>
    have hn : n ≠ k := fun heq => hdrop (heq ▸ rfl)
    simp only [Room.step, Room.drop]
    split
    · exact h.set hn (by simp) (Nat.le_of_eq (hnext _).symm) (hwithdraw _)
    · exact h
  | poll n waker =>
    have hn : n ≠ k := fun heq => hpoll waker (heq ▸ rfl)
    simp only [Room.step, Room.poll]
    split
    · rename_i key hlive
      cases hp : r.cell.payload with
      | full value | destroyed =>
        simp only [Cell.poll, hp]
        exact h.set hn (by simp) (Nat.le_of_eq (hnext _).symm) (hwithdraw _)
      | empty =>
        have hnew : some r.cell.nextKey ≠ hole := fun heq => Nat.lt_irrefl _ (h.bound _ heq.symm)
        simp only [Cell.poll, hp]
        cases key with
        | none =>
          refine h.set hn (by simpa [Cell.register] using hnew) (Nat.le_succ _) fun entry hentry heq => ?_
          rcases List.mem_append.1 hentry with hentry | hentry
          · exact ⟨entry, hentry, heq⟩
          · exact absurd ((congrArg some (congrArg Prod.fst (List.mem_singleton.1 hentry))).symm.trans heq) hnew
        | some key =>
          have hkey := h.other n key hn hlive
          have hsecond : (r.cell.register waker (some key)).2 = key := (r.cell.without_register_self waker key).1
          rw [hsecond]
          refine h.set hn (by simpa using hkey) ?_ fun entry hentry heq => ?_
          · simp only [Cell.register]
            split <;> exact Nat.le_refl _
          · simp only [Cell.register] at hentry
            split at hentry
            · obtain ⟨entry', hentry', rfl⟩ := List.mem_map.1 hentry
              split at heq
              · exact absurd heq hkey
              · exact ⟨entry', hentry', heq⟩
            · rcases List.mem_append.1 hentry with hentry | hentry
              · exact ⟨entry, hentry, heq⟩
              · exact absurd ((congrArg some (congrArg Prod.fst (List.mem_singleton.1 hentry))).symm.trans heq) hkey
    · exact h
  | arrive timed =>
    simp only [Room.step, Room.arrive, Cell.arrive]
    cases r.cell.payload <;> exact hsame _ rfl rfl rfl
  | resume n timeOver =>
    simp only [Room.step, Room.resume]
    split
    · rename_i timed _
      cases (if timeOver = true then timed else r.signalled) with
      | false => exact h
      | true => cases hp : r.cell.payload <;> cases timeOver <;> simp only [Cell.recheck, hp] <;> exact hsame _ rfl rfl rfl
    · exact h

/-- Without a registration of its own the future is not among those who wait. -/
theorem wakers_without (h : r.Apart k hole) (hnot : ¬ r.Registered k) :
    (r.cell.without hole).wakers = r.cell.wakers.map fun entry => (skip hole entry.1, entry.2) := by
  have hnone : ∀ entry ∈ r.cell.wakers, some entry.1 ≠ hole := by
    rcases h.mine with hlive | ⟨-, hnone⟩
    · rintro entry - rfl
      exact hnot ⟨entry.1, hlive⟩
    · exact hnone
  rw [← List.filterMap_eq_map]
  exact List.filterMap_congr fun entry hentry => if_neg (hnone entry hentry)

theorem waiters_without (h : r.Apart k hole) (hnot : ¬ r.Registered k) :
    (r.cell.without hole).waiters = r.cell.waiters := by
  rw [Cell.waiters, h.wakers_without hnot, List.length_map]
  rfl

theorem registered_without (h : r.Apart k hole) (hnot : ¬ r.Registered k) :
    (r.cell.without hole).registered = r.cell.registered := by
  rw [Cell.registered, h.wakers_without hnot, List.map_map]
  rfl

end Apart

/-- The others are in the room as before. -/
theorem getElem?_futures_without (hn : n ≠ k) :
    (r.without k hole).futures[skip (some k) n]? = (r.futures[n]?).map (·.rekey hole) := by
  rw [without, List.getElem?_map, getElem?_eraseIdx_skip hn]

/-- Another future changes. -/
theorem without_set (hn : n ≠ k) (cell : Cell V W) (future : CellFuture) :
    Room.without k hole { r with cell := cell, futures := r.futures.set n future } =
      { r.without k hole with
        cell := cell.without hole
        futures := (r.without k hole).futures.set (skip (some k) n) (future.rekey hole) } := by
  simp only [without, eraseIdx_set_skip hn, List.map_set]

/-- A visit of another does the same without the future, and gets the same. -/
theorem visit_without (h : r.Apart k hole) {v : Visit V W} (hpoll : ∀ waker, v ≠ .act (.poll k waker))
    (hdrop : v ≠ .act (.drop k)) (hquiet : r.Registered k → ¬ v.Counts ∧ ∀ value, v ≠ .act (.put value)) :
    ∃ v' reply, Call.without? k ⟨r, v, (r.visit v).2⟩ = some (v', reply) ∧
      (r.without k hole).visit v' = ((r.visit v).1.without k hole, reply) := by
  have hnot : v.Counts ∨ (∃ value, v = .act (.put value)) → ¬ r.Registered k := by
    rintro (hcounts | ⟨value, hput⟩) hk
    · exact (hquiet hk).1 hcounts
    · exact (hquiet hk).2 value hput
  cases v with
  | inspect =>
    refine ⟨.inspect, _, rfl, ?_⟩
    have hwaiters := h.waiters_without (hnot (.inl (.inr (.inr rfl))))
    have htext : (r.without k hole).cell.inspect = r.cell.inspect := by
      simp only [Cell.inspect, without, hwaiters]
      rfl
    simp only [visit, htext]
  | act a =>
    cases a with
    | put value =>
      refine ⟨.act (.put value), _, rfl, ?_⟩
      have hregistered := h.registered_without (hnot (.inr ⟨value, rfl⟩))
      have hput : (r.cell.without hole).put value = (r.cell.put value).map (·.without hole) := by
        have hpayload : (r.cell.without hole).payload = r.cell.payload := rfl
        cases hp : r.cell.payload <;> simp only [Cell.put, hpayload, hp] <;> rfl
      simp only [visit, Room.step, Room.put]
      rw [show (r.without k hole).cell = r.cell.without hole from rfl, hput, hregistered]
      cases hp : r.cell.payload <;> simp only [Cell.put, hp] <;> rfl
    | signal =>
      refine ⟨.act .signal, _, rfl, ?_⟩
      cases hp : r.signalDue <;> simp [visit, Room.step, without, hp]
    | destroy =>
      refine ⟨.act .destroy, _, rfl, ?_⟩
      have hwaiters := h.waiters_without (hnot (.inl (.inl rfl)))
      have hcell : (r.cell.without hole).destroy = r.cell.destroy.map (·.without hole) := by
        have hpayload : (r.cell.without hole).payload = r.cell.payload := rfl
        cases hp : r.cell.payload <;> simp only [Cell.destroy, hpayload, hp, hwaiters]
        · split <;> rfl
        · split <;> rfl
        · rfl
      simp only [visit, Room.step]
      rw [show (r.without k hole).cell = r.cell.without hole from rfl, hcell]
      cases r.cell.destroy <;> rfl
    | tryGet => exact ⟨.act .tryGet, _, rfl, rfl⟩
    | state => exact ⟨.act .state, _, rfl, rfl⟩
    | waiters =>
      refine ⟨.act .waiters, _, rfl, ?_⟩
      have hwaiters := h.waiters_without (hnot (.inl (.inr (.inl rfl))))
      simp only [visit, Room.step]
      rw [show (r.without k hole).cell = r.cell.without hole from rfl, hwaiters]
    | get =>
      have hlt := h.lt_length
      refine ⟨.act .get, .answer (.count (skip (some k) r.futures.length)), ?_, ?_⟩
      · simp only [Call.without?, visit, Room.step, if_neg (Nat.ne_of_gt hlt)]
      · simp only [visit, Room.step, without, List.eraseIdx_append_of_lt_length hlt, List.map_append, List.length_map,
          List.length_eraseIdx, if_pos hlt, skip]
        rfl
    | poll n waker =>
      have hn : n ≠ k := fun heq => hpoll waker (heq ▸ rfl)
      refine ⟨.act (.poll (skip (some k) n) waker), _, if_neg hn, ?_⟩
      simp only [visit, Room.step, Room.poll, getElem?_futures_without hn]
      cases hlive : r.futures[n]? with
      | none => rfl
      | some future =>
        cases future with
        | dropped => rfl
        | live key =>
          have hkey : ∀ x, key = some x → some x ≠ hole := fun x hx => h.other n x hn (hx ▸ hlive)
          have hpolled := Cell.without_poll h.bound hkey waker
          rw [without_set hn]
          simp only [Option.map_some, CellFuture.rekey]
          rw [show (r.without k hole).cell = r.cell.without hole from rfl, hpolled]
    | drop n =>
      have hn : n ≠ k := fun heq => hdrop (heq ▸ rfl)
      refine ⟨.act (.drop (skip (some k) n)), _, if_neg hn, ?_⟩
      simp only [visit, Room.step, Room.drop, getElem?_futures_without hn]
      cases hlive : r.futures[n]? with
      | none => rfl
      | some future =>
        cases future with
        | dropped => rfl
        | live key =>
          have hcell : (r.cell.without hole).withdraw (key.map (skip hole)) = (r.cell.withdraw key).without hole := by
            cases key with
            | none => rfl
            | some key => exact (Cell.without_withdraw (h.other n key hn hlive)).symm
          rw [without_set hn]
          simp only [Option.map_some, CellFuture.rekey]
          rw [show (r.without k hole).cell = r.cell.without hole from rfl, hcell]
    | arrive timed =>
      refine ⟨.act (.arrive timed), _, rfl, ?_⟩
      cases hp : r.cell.payload <;> simp [visit, Room.step, Room.arrive, Cell.arrive, without, Cell.without, hp]
    | resume n timeOver =>
      refine ⟨.act (.resume n timeOver), _, rfl, ?_⟩
      simp only [visit, Room.step, Room.resume]
      rw [show (r.without k hole).readers = r.readers from rfl, show (r.without k hole).signalled = r.signalled from rfl]
      cases hreader : r.readers[n]? with
      | none => rfl
      | some reader =>
        cases reader with
        | returned => rfl
        | waiting timed =>
          dsimp only
          cases (if timeOver = true then timed else r.signalled) with
          | false => rfl
          | true => cases hp : r.cell.payload <;> cases timeOver <;> simp [Cell.recheck, without, Cell.without, hp]

theorem Waited.key_lt {futures threads : List Nat} (h : r.Waited futures threads) {key : Nat}
    (hn : r.futures[n]? = some (.live (some key))) : key < r.cell.nextKey := by
  obtain ⟨entry, hentry, heq⟩ := h.exists_key (h.held n key hn)
  rw [hn] at heq
  cases heq
  exact h.bound entry hentry

/-- Without the future nobody notices its polls, as long as the cell is empty. -/
theorem Apart.poll {futures threads : List Nat} (h : r.Apart k hole) (hwaited : r.Waited futures threads)
    (hempty : r.futures[k]? = some (.live hole) → r.cell.payload = .empty) (waker : W) :
    ∃ hole', (r.step (.poll k waker)).1.Apart k hole' ∧ (r.step (.poll k waker)).1.without k hole' = r.without k hole ∧
      ((r.step (.poll k waker)).1.futures[k]? = some (.live hole') → r.futures[k]? = some (.live hole)) := by
  rcases h.mine with hk | ⟨hk, hnone⟩
  · have hlt := h.lt_length
    have hpolled : ∀ cell key, r.cell.register waker hole = (cell, key) → (r.step (.poll k waker)).1 =
        { r with cell := cell, futures := r.futures.set k (.live (some key)) } := by
      intro cell key hregister
      simp only [Room.step, Room.poll, hk, Cell.poll, hempty hk, hregister]
    cases hole with
    | none =>
      rw [hpolled (r.cell.register waker none).1 r.cell.nextKey rfl]
      refine ⟨some r.cell.nextKey, ⟨?_, ?_, .inl (List.getElem?_set_self hlt)⟩, ?_, fun _ => hk⟩
      · intro key hkey
        cases hkey
        exact Nat.lt_succ_self _
      · intro m key hm hlive
        rw [List.getElem?_set_ne hm.symm] at hlive
        simpa using Nat.ne_of_lt (hwaited.key_lt hlive)
      · have hfutures : (r.futures.eraseIdx k).map (·.rekey (some r.cell.nextKey)) =
            (r.futures.eraseIdx k).map (·.rekey none) := by
          refine List.map_congr_left fun future hmem => ?_
          obtain ⟨m, hm⟩ := List.mem_iff_getElem?.1 (List.mem_of_mem_eraseIdx hmem)
          cases future with
          | dropped => rfl
          | live key =>
            cases key with
            | none => rfl
            | some key =>
              have hkey := skip_of_le (Nat.le_of_lt (hwaited.key_lt hm))
              simp only [CellFuture.rekey, Option.map_some, hkey]
              rfl
        simp only [without, List.eraseIdx_set_eq, hfutures, Cell.without_register_none hwaited.bound, Cell.without_none]
    | some key =>
      obtain ⟨hkey, hcell⟩ := r.cell.without_register_self waker key
      rw [hpolled _ key (Prod.ext rfl hkey)]
      refine ⟨some key, ⟨?_, ?_, .inl (List.getElem?_set_self hlt)⟩, ?_, fun _ => hk⟩
      · have hnext : (r.cell.register waker (some key)).1.nextKey = r.cell.nextKey := by
          simp only [Cell.register]
          split <;> rfl
        intro key' hkey'
        exact hnext ▸ h.bound key' hkey'
      · intro m key' hm hlive
        rw [List.getElem?_set_ne hm.symm] at hlive
        exact h.other m key' hm hlive
      · simp only [without, List.eraseIdx_set_eq, hcell]
  · have hstep : (r.step (.poll k waker)).1 = r := by simp only [Room.step, Room.poll, hk]
    rw [hstep]
    exact ⟨hole, h, rfl, id⟩

/-- Nobody notices that it is dropped. -/
theorem Apart.drop (h : r.Apart k hole) :
    (r.step (.drop k)).1.Apart k hole ∧ (r.step (.drop k)).1.without k hole = r.without k hole ∧
      (r.step (.drop k)).1.futures[k]? = some .dropped := by
  have hlt := h.lt_length
  rcases h.mine with hk | ⟨hk, -⟩
  · have hstep : (r.step (.drop k)).1 = { r with cell := r.cell.withdraw hole, futures := r.futures.set k .dropped } := by
      simp only [Room.step, Room.drop, hk]
    have hdropped : (r.futures.set k .dropped)[k]? = some .dropped := List.getElem?_set_self hlt
    rw [hstep]
    refine ⟨⟨?_, ?_, .inr ⟨hdropped, ?_⟩⟩, ?_, hdropped⟩
    · intro key hkey
      have hnext : (r.cell.withdraw hole).nextKey = r.cell.nextKey := by cases hole <;> rfl
      exact hnext ▸ h.bound key hkey
    · intro m key hm hlive
      rw [List.getElem?_set_ne hm.symm] at hlive
      exact h.other m key hm hlive
    · intro entry hentry
      cases hole with
      | none => simp
      | some key => simpa using (List.mem_filter.1 hentry).2
    · simp only [without, List.eraseIdx_set_eq, Cell.without_withdraw_self]
  · have hstep : (r.step (.drop k)).1 = r := by simp only [Room.step, Room.drop, hk]
    rw [hstep]
    exact ⟨h, rfl, hk⟩

theorem exists_waited_visit (h : ∃ futures threads, r.Waited futures threads) (v : Visit V W) :
    ∃ futures threads, (r.visit v).1.Waited futures threads := by
  obtain ⟨futures, threads, h⟩ := h
  cases v with
  | inspect => exact ⟨futures, threads, h⟩
  | act a =>
    obtain ⟨futures', threads', h', -⟩ := h.step a
    exact ⟨futures', threads', h'⟩

/-- A cell that will be empty is empty. -/
theorem empty_of_mem_calls {vs : List (Visit V W)} {c : Call V W} (hc : c ∈ r.calls vs)
    (hempty : c.before.cell.payload = .empty) : r.cell.payload = .empty := by
  induction vs generalizing r with
  | nil => cases hc
  | cons v vs ih =>
    rcases List.mem_cons.1 hc with rfl | hc
    · exact hempty
    · have hafter := ih hc
      cases v with
      | inspect => exact hafter
      | act a => exact empty_of_step hafter

/-- From when it is made the run goes on without the future as with it. -/
theorem transcript_without {vs : List (Visit V W)} (h : r.Apart k hole)
    (hwaited : ∃ futures threads, r.Waited futures threads)
    (hquiet : ∀ c ∈ r.calls vs, c.before.Registered k → ¬ c.visit.Counts)
    (hlive : r.futures[k]? = some (.live hole) → ∃ c ∈ r.calls vs, c.Cancels k) :
    (r.without k hole).transcript (((r.calls vs).filterMap (·.without? k)).map (·.1)) =
      (r.calls vs).filterMap (·.without? k) := by
  induction vs generalizing r hole with
  | nil => rfl
  | cons v vs ih =>
    have hquiet' : ∀ c ∈ (r.visit v).1.calls vs, c.before.Registered k → ¬ c.visit.Counts := fun c hc =>
      hquiet c (List.mem_cons_of_mem _ hc)
    have hwaited' := exists_waited_visit hwaited v
    -- unless it is dropped now, it is later
    have hlater : v ≠ .act (.drop k) → r.futures[k]? = some (.live hole) →
        ∃ c ∈ (r.visit v).1.calls vs, c.Cancels k := by
      intro hv hk
      obtain ⟨c, hc, hcancels⟩ := hlive hk
      rcases List.mem_cons.1 hc with rfl | hc
      · exact absurd hcancels.1 hv
      · exact ⟨c, hc, hcancels⟩
    by_cases hdrop : v = .act (.drop k)
    · subst hdrop
      obtain ⟨h', hsame, hdropped⟩ := h.drop
      have hnone : Call.without? k ⟨r, .act (.drop k), (r.visit (.act (.drop k))).2⟩ = none := if_pos rfl
      rw [calls, List.filterMap_cons_none hnone, ← hsame]
      refine ih h' hwaited' hquiet' fun hk => ?_
      cases hdropped.symm.trans hk
    by_cases hpoll : ∃ waker, v = .act (.poll k waker)
    · obtain ⟨waker, rfl⟩ := hpoll
      obtain ⟨futures, threads, hw⟩ := hwaited
      have hempty : r.futures[k]? = some (.live hole) → r.cell.payload = .empty := by
        intro hk
        obtain ⟨c, hc, hcancels⟩ := hlive hk
        exact empty_of_mem_calls hc hcancels.2.2
      obtain ⟨hole', h', hsame, hback⟩ := h.poll hw hempty waker
      have hnone : Call.without? k ⟨r, .act (.poll k waker), (r.visit (.act (.poll k waker))).2⟩ = none := if_pos rfl
      rw [calls, List.filterMap_cons_none hnone, ← hsame]
      exact ih h' hwaited' hquiet' fun hk => hlater hdrop (hback hk)
    · have hcalm : r.Registered k → ¬ v.Counts ∧ ∀ value, v ≠ .act (.put value) := by
        intro hregistered
        refine ⟨hquiet _ (List.mem_cons_self ..) hregistered, ?_⟩
        rintro value rfl
        have hk : r.futures[k]? = some (.live hole) := by
          obtain ⟨key, hkey⟩ := hregistered
          refine h.mine.resolve_right fun hdropped => ?_
          rw [hdropped.1] at hkey
          cases hkey
        obtain ⟨c, hc, hcancels⟩ := hlater hdrop hk
        have hafter : (r.step (.put value)).1.cell.payload = .empty := empty_of_mem_calls hc hcancels.2.2
        rcases r.step_put value with ⟨-, -, hcell⟩ | ⟨hfull, hstep⟩
        · rw [hcell] at hafter
          cases hafter
        · rw [hstep] at hafter
          exact hfull hafter
      obtain ⟨v', reply, hkept, hvisit⟩ := visit_without h (fun waker heq => hpoll ⟨waker, heq⟩) hdrop hcalm
      have h' : (r.visit v).1.Apart k hole := by
        cases v with
        | inspect => exact h
        | act a => exact h.step (fun waker heq => hpoll ⟨waker, congrArg _ heq⟩) fun heq => hdrop (congrArg _ heq)
      rw [calls, List.filterMap_cons_some hkept, List.map_cons, transcript, calls, List.map_cons, hvisit]
      refine congrArg _ (ih h' hwaited' hquiet' fun hk => hlater hdrop ?_)
      refine h.mine.resolve_right fun hdropped => ?_
      have hstays : (r.visit v).1.futures[k]? = some .dropped := by
        cases v with
        | inspect => exact hdropped.1
        | act a => exact step_dropped hdropped.1 a
      rw [hstays] at hk
      cases hk

/-- While all futures from `k` on are still to be made, a visit to one of them does nothing: that of the future is left
out, and those of the later ones get other numbers. -/
theorem visit_beyond {f : Nat → Action V W} {answer : Answer V W}
    (hwithout : ∀ n reply, Call.without? k ⟨r, .act (f n), reply⟩ =
      if n = k then none else some (.act (f (skip (some k) n)), reply))
    (hbeyond : ∀ m, k ≤ m → r.step (f m) = (r, answer)) (n : Nat) :
    (Call.without? k ⟨r, .act (f n), (r.visit (.act (f n))).2⟩ = none ∧ (r.visit (.act (f n))).1 = r) ∨
      ∃ v', Call.without? k ⟨r, .act (f n), (r.visit (.act (f n))).2⟩ = some (v', (r.visit (.act (f n))).2) ∧
        r.visit v' = r.visit (.act (f n)) := by
  rcases Nat.lt_trichotomy n k with hlt | rfl | hgt
  · refine .inr ⟨.act (f n), ?_, rfl⟩
    rw [hwithout, if_neg (Nat.ne_of_lt hlt), skip_of_le (Nat.le_of_lt hlt)]
  · exact .inl ⟨(hwithout ..).trans (if_pos rfl), congrArg Prod.fst (hbeyond n (Nat.le_refl n))⟩
  · refine .inr ⟨.act (f (skip (some k) n)), (hwithout ..).trans (if_neg (Nat.ne_of_gt hgt)), ?_⟩
    simp only [visit, skip, if_pos hgt, hbeyond n (Nat.le_of_lt hgt), hbeyond (n - 1) (Nat.le_sub_one_of_lt hgt)]

/-- Until then the room is as it is without it. -/
theorem transcript_before {vs : List (Visit V W)} (hwaited : ∃ futures threads, r.Waited futures threads)
    (hk : r.futures.length ≤ k) (h : Cancelled k (r.calls vs)) :
    r.transcript (((r.calls vs).filterMap (·.without? k)).map (·.1)) = (r.calls vs).filterMap (·.without? k) := by
  induction vs generalizing r with
  | nil => rfl
  | cons v vs ih =>
    have hwaited' := exists_waited_visit hwaited v
    have hnone : ∀ n, k ≤ n → r.futures[n]? = none := fun n hn => List.getElem?_eq_none (Nat.le_trans hk hn)
    have hlater : Cancelled k ((r.visit v).1.calls vs) := by
      refine ⟨?_, fun c hc => h.quiet c (List.mem_cons_of_mem _ hc)⟩
      obtain ⟨c, hc, hcancels⟩ := h.dropped
      rcases List.mem_cons.1 hc with rfl | hc
      · obtain ⟨rfl, hreply, -⟩ := hcancels
        simp [visit, Room.step, Room.drop, hnone k (Nat.le_refl k)] at hreply
      · exact ⟨c, hc, hcancels⟩
    have hkept : ∀ v', Call.without? k ⟨r, v, (r.visit v).2⟩ = some (v', (r.visit v).2) → r.visit v' = r.visit v →
        (r.visit v).1.futures.length ≤ k →
        r.transcript (((r.calls (v :: vs)).filterMap (·.without? k)).map (·.1)) =
          (r.calls (v :: vs)).filterMap (·.without? k) := by
      intro v' hkept hvisit hlen
      rw [calls, List.filterMap_cons_some hkept, List.map_cons, transcript, calls, List.map_cons, hvisit]
      exact congrArg _ (ih hwaited' hlen hlater)
    have hremoved : Call.without? k ⟨r, v, (r.visit v).2⟩ = none → (r.visit v).1 = r →
        r.transcript (((r.calls (v :: vs)).filterMap (·.without? k)).map (·.1)) =
          (r.calls (v :: vs)).filterMap (·.without? k) := by
      intro hnone hsame
      rw [hsame] at hlater
      rw [calls, List.filterMap_cons_none hnone, hsame]
      exact ih hwaited hk hlater
    cases v with
    | inspect => exact hkept _ rfl rfl hk
    | act a =>
      cases a with
      | put | signal | destroy | tryGet | state | waiters | arrive | resume =>
        refine hkept _ rfl rfl (Nat.le_trans (Nat.le_of_eq ?_) hk)
        exact congrArg _ (r.step_beside (by simp) (by simp) (by simp)).1
      | get =>
        rcases Nat.eq_or_lt_of_le hk with rfl | hlt
        · have hnone : Call.without? r.futures.length ⟨r, .act .get, (r.visit (.act .get)).2⟩ = none := if_pos rfl
          have hmade : (r.visit (.act .get)).1.Apart r.futures.length none := by
            refine ⟨fun key hkey => ?_, fun n key _ _ => Option.some_ne_none key, .inl ?_⟩
            · cases hkey
            · simp [visit, Room.step]
          have hback : (r.visit (.act .get)).1.without r.futures.length none = r := by
            have hid : CellFuture.rekey none = id := funext fun future => by
              rcases future with (- | key) | - <;> rfl
            simp [visit, Room.step, without, Cell.without_none, List.eraseIdx_append_of_length_le hk, hid]
          have hrest := transcript_without hmade hwaited' hlater.quiet fun _ => hlater.dropped
          rw [hback] at hrest
          rw [calls, List.filterMap_cons_none hnone]
          exact hrest
        · refine hkept _ ?_ rfl ?_
          · simp only [Call.without?, visit, Room.step, if_neg (Nat.ne_of_lt hlt), skip_of_le hk]
          · simpa [visit, Room.step] using hlt
      | poll n waker =>
        have hlen : (r.step (.poll n waker)).1.futures.length = r.futures.length := by
          simp only [Room.step, Room.poll]
          split <;> simp
        have hbeyond : ∀ m, k ≤ m → r.step (.poll m waker) = (r, .nothing) := fun m hm => by
          simp only [Room.step, Room.poll, hnone m hm]
        rcases visit_beyond (f := fun n => .poll n waker) (fun _ _ => rfl) hbeyond n with ⟨hnone, hsame⟩ | ⟨v', hsome, hvisit⟩
        · exact hremoved hnone hsame
        · exact hkept v' hsome hvisit (Nat.le_trans (Nat.le_of_eq hlen) hk)
      | drop n =>
        have hlen : (r.step (.drop n)).1.futures.length = r.futures.length := by
          simp only [Room.step, Room.drop]
          split <;> simp
        have hbeyond : ∀ m, k ≤ m → r.step (.drop m) = (r, .dropped false) := fun m hm => by
          simp only [Room.step, Room.drop, hnone m hm]
        rcases visit_beyond (f := .drop) (fun _ _ => rfl) hbeyond n with ⟨hnone, hsame⟩ | ⟨v', hsome, hvisit⟩
        · exact hremoved hnone hsame
        · exact hkept v' hsome hvisit (Nat.le_trans (Nat.le_of_eq hlen) hk)

/-- A future that is dropped while its cell is empty is invisible: the run without its visits has the same answers, and
every put wakes the same wakers in the same order. -/
theorem transcript_of_cancelled (vs : List (Visit V W)) (k : Nat) (h : Cancelled k (({} : Room V W).calls vs)) :
    ({} : Room V W).transcript (((({} : Room V W).calls vs).filterMap (·.without? k)).map (·.1)) =
      (({} : Room V W).calls vs).filterMap (·.without? k) :=
  transcript_before ⟨[], [], .initial⟩ (Nat.zero_le k) h

/-- Of two futures the first is dropped, after two polls. Then somebody asks who waits, and the cell is filled. -/
def leaving : List (Visit Nat Nat) :=
  [.act .get, .act .get, .act (.poll 0 10), .act (.poll 1 11), .act (.poll 0 12), .act (.drop 0), .act .waiters,
    .act (.put 7), .act (.poll 1 13)]

/-- The other future would be the first without it, and hold the first key. -/
theorem transcript_leaving : Cancelled 0 (({} : Room Nat Nat).calls leaving) ∧
    ({} : Room Nat Nat).transcript (((({} : Room Nat Nat).calls leaving).filterMap (·.without? 0)).map (·.1)) =
      (({} : Room Nat Nat).calls leaving).filterMap (·.without? 0) := by
  have hcancelled : Cancelled 0 (({} : Room Nat Nat).calls leaving) := by
    refine ⟨⟨_, List.mem_of_getElem? (i := 5) rfl, rfl, rfl, rfl⟩, fun c hc => ?_⟩
    obtain ⟨i, hi⟩ := List.mem_iff_getElem?.1 hc
    -- only the seventh visit asks who waits
    match i with
    | 6 =>
      cases hi
      rintro ⟨key, hkey⟩
      cases hkey
    | 0 | 1 | 2 | 3 | 4 | 5 | 7 | 8 =>
      cases hi
      simp [Visit.Counts]
    | i + 9 => cases hi
  exact ⟨hcancelled, transcript_of_cancelled leaving 0 hcancelled⟩

example : (({} : Room Nat Nat).calls leaving).filterMap (·.without? 0) =
    [(.act .get, .answer (.count 0)), (.act (.poll 0 11), .answer (.polled .pending)), (.act .waiters, .answer (.count 1)),
      (.act (.put 7), .answer (.written (.ok ()) [11])), (.act (.poll 0 13), .answer (.polled (.ready (.ok 7))))] := rfl

end Room
end Dataflow
