import Dataflow.Proofs.Shares

/-!
# Tasks that share a sum

A division says which tasks there are, which share each of them has and how far it has come. It is sound (`Division.Sound`) if
no two tasks claim the same cell, the cells of those that are not through are empty and the others hold what they
should, and every half that has been handed over is the share of some task. A step of a task keeps that
(`Division.Sound.turned`), and so does the coming of a new one (`Division.Sound.joined`). How many tasks there will be is settled
from the beginning: those that are there, and what is due to each of them (`Division.Sound.total`).
-/

namespace Dataflow

open Share

/-- Tasks with their shares, and how far each has come. -/
structure Division where
  tasks : Finset TaskId
  share : TaskId → Share
  phase : TaskId → Phase

namespace Division

variable (P : Division)

/-- The cells that the task writes or has still to give away. -/
def claims (t : TaskId) : List CellId := (P.share t).out :: (P.phase t).spare

/-- One task, which begins. -/
def single (t : TaskId) (n : Share) : Division where
  tasks := {t}
  share _ := n
  phase _ := n.entry

/-- The task comes to another phase. -/
def turn (t : TaskId) (ph : Phase) : Division := { P with phase := Function.update P.phase t ph }

/-- A task comes with its share. -/
def join (u : TaskId) (n : Share) : Division where
  tasks := insert u P.tasks
  share := Function.update P.share u n
  phase := Function.update P.phase u n.entry

variable {P} {t u v : TaskId} {ph : Phase} {n : Share} {c : CellId}

theorem phase_turn_self : (P.turn t ph).phase t = ph := Function.update_self ..

theorem phase_turn_of_ne (h : u ≠ t) : (P.turn t ph).phase u = P.phase u := Function.update_of_ne h ..

theorem claims_turn_self : (P.turn t ph).claims t = (P.share t).out :: ph.spare := by
  rw [claims, phase_turn_self]
  rfl

theorem claims_turn_of_ne (h : u ≠ t) : (P.turn t ph).claims u = P.claims u := by
  rw [claims, phase_turn_of_ne h]
  rfl

theorem share_join_self : (P.join u n).share u = n := Function.update_self ..

theorem phase_join_self : (P.join u n).phase u = n.entry := Function.update_self ..

theorem claims_join_self : (P.join u n).claims u = [n.out] := by
  rw [claims, phase_join_self, share_join_self, spare_entry]

theorem share_join_of_ne (h : v ≠ u) : (P.join u n).share v = P.share v := Function.update_of_ne h ..

theorem phase_join_of_ne (h : v ≠ u) : (P.join u n).phase v = P.phase v := Function.update_of_ne h ..

theorem claims_join_of_ne (h : v ≠ u) : (P.join u n).claims v = P.claims v := by
  rw [claims, phase_join_of_ne h, share_join_of_ne h]
  rfl

variable (P)

/-- How the division and the cells go together; `total` is the number of tasks that all will be. -/
structure Sound (total : Nat) (s : Store Datum Job) : Prop where
  valid : ∀ t ∈ P.tasks, (P.share t).Valid
  long : ∀ t ∈ P.tasks, (P.phase t).IsInner → Core.treeLeaf < (P.share t).hi - (P.share t).lo
  room : ∀ t ∈ P.tasks, ∀ c ∈ P.claims t, c < s.cells.size
  nodup : ∀ t ∈ P.tasks, (P.claims t).Nodup
  /-- No two tasks claim the same cell. -/
  apart : ∀ t ∈ P.tasks, ∀ u ∈ P.tasks, ∀ c, c ∈ P.claims t → c ∈ P.claims u → t = u
  blank : ∀ t ∈ P.tasks, ∀ c ∈ P.claims t, (c = (P.share t).out → P.phase t ≠ .ends) → (s.cell c).payload = .empty
  filled : ∀ t ∈ P.tasks, P.phase t = .ends → Holds s (P.share t).lo (P.share t).hi (P.share t).out
  left : ∀ t ∈ P.tasks, ∀ l, (P.phase t).left? = some l → ∃ u ∈ P.tasks, P.share u = (P.share t).left l
  right : ∀ t ∈ P.tasks, ∀ r, (P.phase t).right? = some r → ∃ u ∈ P.tasks, P.share u = (P.share t).right r
  /-- Every task that is yet to come is due to one that is there. -/
  total : ∑ t ∈ P.tasks, ((P.share t).due (P.phase t) + 1) = total

variable {P} {total : Nat} {s s' : Store Datum Job}

namespace Sound

/-- There is one task to begin with. -/
theorem single {n : Share} (hvalid : n.Valid) (hlt : n.out < s.cells.size) (hempty : (s.cell n.out).payload = .empty)
    (t : TaskId) : (Division.single t n).Sound (tasksFor (n.hi - n.lo)) s := by
  have hclaims : (Division.single t n).claims t = [n.out] := by
    rw [claims, Division.single, spare_entry]
  constructor
  case total => simp [Division.single, due_entry n hvalid]
  all_goals
    intro u hu
    obtain rfl := Finset.mem_singleton.1 hu
  case valid => exact hvalid
  case long => exact long_entry n
  case room =>
    rw [hclaims]
    exact fun c hc => List.mem_singleton.1 hc ▸ hlt
  case nodup =>
    rw [hclaims]
    exact List.nodup_singleton _
  case apart => exact fun v hv _ _ _ => (Finset.mem_singleton.1 hv).symm
  case blank =>
    rw [hclaims]
    exact fun c hc _ => List.mem_singleton.1 hc ▸ hempty
  case filled => exact fun hends => absurd hends n.entry_ne_ends
  case left => exact fun l hl => absurd hl (by simp [Division.single, left?_entry])
  case right => exact fun l hl => absurd hl (by simp [Division.single, right?_entry])

/-- What is in the cell of a task. -/
theorem cell (h : P.Sound total s) (ht : t ∈ P.tasks) : (s.cell (P.share t).out).payload = .empty ∨
    Holds s (P.share t).lo (P.share t).hi (P.share t).out := by
  by_cases hend : P.phase t = .ends
  · exact .inr (h.filled t ht hend)
  · exact .inl (h.blank t ht _ (List.mem_cons_self ..) fun _ => hend)

/-- What a task awaits is empty, or holds the sum of a half. -/
theorem exists_turn (h : P.Sound total s) (ht : t ∈ P.tasks) (p : PoolId) (w : Nat) (key : Option Nat) :
    ∃ ph, Turn (P.share t) s (P.phase t) (Frame.stepRun (some (p, w)) s ((P.share t).run p t key (P.phase t))).1 ph ∧
      ∀ g ∈ (Frame.stepRun (some (p, w)) s ((P.share t).run p t key (P.phase t))).2, g.OfShare p t (P.share t) ph := by
  refine turn_stepRun (h.valid t ht) (fun l r hph => ?_) (fun l r hph => ?_) fun hph => ?_
  · obtain ⟨u, hu, hul⟩ := h.left t ht l (by rw [hph]; rfl)
    have hcell := h.cell hu
    rwa [hul] at hcell
  · obtain ⟨u, hu, hur⟩ := h.right t ht r (by rw [hph]; rfl)
    have hcell := h.cell hu
    rwa [hur] at hcell
  · exact h.blank t ht _ (List.mem_cons_self ..) fun _ => by rw [hph]; simp

/-- The cells of other tasks may change, and new ones may come. -/
theorem mono (h : P.Sound total s) (hsize : s.cells.size ≤ s'.cells.size)
    (hsame : ∀ t ∈ P.tasks, ∀ c ∈ P.claims t, (s'.cell c).payload = (s.cell c).payload) : P.Sound total s' := by
  refine ⟨h.valid, h.long, fun t ht c hc => Nat.lt_of_lt_of_le (h.room t ht c hc) hsize, h.nodup, h.apart,
    fun t ht c hc hne => (hsame t ht c hc).trans (h.blank t ht c hc hne), fun t ht hend => ?_, h.left, h.right, h.total⟩
  exact (hsame t ht _ (List.mem_cons_self ..)).trans (h.filled t ht hend)

/-- One task comes to another phase; the cells of others stay as they are. -/
theorem turn_of (h : P.Sound total s) (ht : t ∈ P.tasks) (hsize : s.cells.size ≤ s'.cells.size)
    (hother : ∀ u ∈ P.tasks, u ≠ t → ∀ c ∈ P.claims u, (s'.cell c).payload = (s.cell c).payload)
    (hgoes : (P.share t).Goes (P.phase t) ph)
    (hspare : ∀ c ∈ ph.spare, c ∈ (P.phase t).spare ∨ c = s.cells.size ∧ c < s'.cells.size) (hnodup : ph.spare.Nodup)
    (hblank : ∀ c ∈ (P.share t).out :: ph.spare, (c = (P.share t).out → ph ≠ .ends) → (s'.cell c).payload = .empty)
    (hfilled : ph = .ends → Holds s' (P.share t).lo (P.share t).hi (P.share t).out) :
    (P.turn t ph).Sound total s' := by
  have hout : (P.share t).out < s.cells.size := h.room t ht _ (List.mem_cons_self ..)
  -- a cell that was claimed before, or a new one
  have hold : ∀ c ∈ (P.share t).out :: ph.spare, c ∈ P.claims t ∨ c = s.cells.size ∧ c < s'.cells.size := by
    intro c hc
    rcases List.mem_cons.1 hc with rfl | hc
    · exact .inl (List.mem_cons_self ..)
    · exact (hspare c hc).imp_left (List.mem_cons_of_mem _)
  refine ⟨h.valid, fun u hu => ?_, fun u hu => ?_, fun u hu => ?_, fun u hu v hv c hcu hcv => ?_, fun u hu => ?_,
    fun u hu => ?_, fun u hu => ?_, fun u hu => ?_, ?_⟩
  · rcases eq_or_ne u t with rfl | hut
    · rw [phase_turn_self]
      exact fun hinner => h.long u hu (hgoes.inner hinner)
    · rw [phase_turn_of_ne hut]
      exact h.long u hu
  · rcases eq_or_ne u t with rfl | hut
    · rw [claims_turn_self]
      exact fun c hc => (hold c hc).elim (fun hc => Nat.lt_of_lt_of_le (h.room u hu c hc) hsize) And.right
    · rw [claims_turn_of_ne hut]
      exact fun c hc => Nat.lt_of_lt_of_le (h.room u hu c hc) hsize
  · rcases eq_or_ne u t with rfl | hut
    · rw [claims_turn_self]
      refine List.nodup_cons.2 ⟨fun hmem => ?_, hnodup⟩
      rcases hspare _ hmem with hmem | ⟨heq, -⟩
      · exact (List.nodup_cons.1 (h.nodup u hu)).1 hmem
      · exact absurd heq (Nat.ne_of_lt hout)
    · rw [claims_turn_of_ne hut]
      exact h.nodup u hu
  · have claimed : ∀ {u}, u ∈ P.tasks → c ∈ (P.turn t ph).claims u →
        c ∈ P.claims u ∨ u = t ∧ c = s.cells.size := by
      intro u hu hc
      rcases eq_or_ne u t with rfl | hut
      · rw [claims_turn_self] at hc
        exact (hold c hc).imp_right fun hc => ⟨rfl, hc.1⟩
      · rw [claims_turn_of_ne hut] at hc
        exact .inl hc
    rcases claimed hu hcu with hu' | ⟨rfl, hu'⟩
    · rcases claimed hv hcv with hv' | ⟨rfl, rfl⟩
      · exact h.apart u hu v hv c hu' hv'
      · exact absurd (h.room u hu _ hu') (Nat.lt_irrefl _)
    · rcases claimed hv hcv with hv' | ⟨rfl, -⟩
      · rw [hu'] at hv'
        exact absurd (h.room v hv _ hv') (Nat.lt_irrefl _)
      · rfl
  · rcases eq_or_ne u t with rfl | hut
    · rw [claims_turn_self, phase_turn_self]
      exact hblank
    · rw [claims_turn_of_ne hut, phase_turn_of_ne hut]
      exact fun c hc hends => (hother u hu hut c hc).trans (h.blank u hu c hc hends)
  · rcases eq_or_ne u t with rfl | hut
    · rw [phase_turn_self]
      exact hfilled
    · rw [phase_turn_of_ne hut]
      exact fun hends => (hother u hu hut _ (List.mem_cons_self ..)).trans (h.filled u hu hends)
  · rcases eq_or_ne u t with rfl | hut
    · rw [phase_turn_self]
      exact fun l hl => h.left u hu l (hgoes.left l hl)
    · rw [phase_turn_of_ne hut]
      exact h.left u hu
  · rcases eq_or_ne u t with rfl | hut
    · rw [phase_turn_self]
      exact fun r hr => h.right u hu r (hgoes.right r hr)
    · rw [phase_turn_of_ne hut]
      exact h.right u hu
  · rw [← h.total]
    refine Finset.sum_congr rfl fun u _ => ?_
    rcases eq_or_ne u t with rfl | hut
    · rw [phase_turn_self]
      exact congrArg (· + 1) hgoes.due
    · rw [phase_turn_of_ne hut]
      rfl

/-- A task takes a step of its body. -/
theorem turned (h : P.Sound total s) (ht : t ∈ P.tasks) (hturn : Turn (P.share t) s (P.phase t) s' ph) :
    (P.turn t ph).Sound total s' := by
  have hgoes := hturn.goes
  have hroom : ∀ c ∈ (P.share t).out :: (P.phase t).spare, c < s.cells.size := h.room t ht
  have hblank : ∀ c ∈ (P.share t).out :: (P.phase t).spare, (c = (P.share t).out → P.phase t ≠ .ends) →
      (s.cell c).payload = .empty := h.blank t ht
  have hlast : (s.cell s.cells.size).payload = .empty := by simp [Store.cell]
  have hnew : s.cells.size < s.newCell.2.cells.size := by simp [Store.newCell]
  generalize hph : P.phase t = ph₀ at hturn hblank hroom
  cases hturn with
  | stay hs =>
    rw [turn, ← hph, Function.update_eq_self]
    exact h.mono hs.1.ge fun _ _ c _ => hs.2 c
  | one =>
    refine h.turn_of ht hnew.le (fun _ _ _ c _ => by rw [Store.cell_newCell]) hgoes ?_ (List.nodup_singleton _) ?_ (by simp)
    · simpa [Phase.spare] using .inr hnew
    · simpa [Phase.spare, hlast, Store.cell_newCell] using hblank
  | @two l =>
    have hl : l < s.cells.size := hroom l (by simp [Phase.spare])
    refine h.turn_of ht hnew.le (fun _ _ _ c _ => by rw [Store.cell_newCell]) hgoes ?_ ?_ ?_ (by simp)
    · simpa [hph, Phase.spare] using .inr hnew
    · simpa [Phase.spare] using Nat.ne_of_lt hl
    · simpa [Phase.spare, hlast, Store.cell_newCell] using hblank
  | left hs | right hs =>
    refine h.turn_of ht hs.1.ge (fun _ _ _ c _ => hs.2 c) hgoes (by simp [Phase.spare]) List.nodup_nil ?_ (by simp)
    simpa [Phase.spare, hs.2] using hblank
  | write =>
    have hout : (P.share t).out < s.cells.size := hroom _ (List.mem_cons_self ..)
    have hother : ∀ u ∈ P.tasks, u ≠ t → ∀ c ∈ P.claims u, c ≠ (P.share t).out := by
      rintro u hu hut c hc rfl
      exact hut (h.apart u hu t ht _ hc (List.mem_cons_self ..))
    refine h.turn_of ht (Array.size_setIfInBounds ..).ge (fun u hu hut c hc => ?_) hgoes (by simp [Phase.spare])
      List.nodup_nil (by simp [Phase.spare]) fun _ => ?_
    · rw [Store.cell_setCell, if_neg fun heq => hother u hu hut c hc heq.1.symm]
    · rw [Holds, Store.cell_setCell, if_pos ⟨rfl, hout⟩]

section hands

variable {n : Share} (h : P.Sound total s) (ht : t ∈ P.tasks) (hhands : (P.share t).Hands (P.phase t) ph n)

include h ht hhands

/-- Who hands a half over gives its cell away, and nobody else claims that. -/
theorem claims_handed (hv : v ∈ P.tasks) :
    ((P.turn t ph).claims v).Sublist (P.claims v) ∧ n.out ∉ (P.turn t ph).claims v := by
  have hsplit : P.claims t = (P.share t).out :: n.out :: ph.spare := by rw [claims, hhands.spare]
  rcases eq_or_ne v t with rfl | hvt
  · have hnodup := h.nodup v hv
    rw [claims_turn_self]
    rw [hsplit] at hnodup ⊢
    simp only [List.nodup_cons, List.mem_cons, not_or] at hnodup ⊢
    exact ⟨(List.sublist_cons_self ..).cons_cons _, Ne.symm hnodup.1.1, hnodup.2.1⟩
  · rw [claims_turn_of_ne hvt]
    exact ⟨List.Sublist.refl _, fun hmem => hvt (h.apart v hv t ht _ hmem (by simp [hsplit]))⟩

/-- The cell was empty before, and is not that of the task itself. -/
theorem given : n.out ∈ P.claims t ∧ n.out ≠ (P.share t).out := by
  have hsplit : P.claims t = (P.share t).out :: n.out :: ph.spare := by rw [claims, hhands.spare]
  have hnodup := h.nodup t ht
  rw [hsplit] at hnodup ⊢
  simp only [List.nodup_cons, List.mem_cons, not_or] at hnodup
  exact ⟨List.mem_cons_of_mem _ (List.mem_cons_self ..), Ne.symm hnodup.1.1⟩

omit h ht in
theorem phase_handed (v : TaskId) : (P.turn t ph).phase v = .ends ↔ P.phase v = .ends := by
  rcases eq_or_ne v t with rfl | hvt
  · rw [phase_turn_self]
    exact iff_of_false hhands.ne_ends.2 hhands.ne_ends.1
  · rw [phase_turn_of_ne hvt]

omit h ht in
/-- What was handed over before, or is now. -/
theorem left_handed {l : CellId} (hl : ((P.turn t ph).phase v).left? = some l) :
    (P.phase v).left? = some l ∨ n = (P.share v).left l := by
  rcases eq_or_ne v t with rfl | hvt
  · rw [phase_turn_self] at hl
    exact (hhands.left_or hl).symm
  · rw [phase_turn_of_ne hvt] at hl
    exact .inl hl

omit h ht in
theorem right_handed {r : CellId} (hr : ((P.turn t ph).phase v).right? = some r) :
    (P.phase v).right? = some r ∨ n = (P.share v).right r := by
  rcases eq_or_ne v t with rfl | hvt
  · rw [phase_turn_self] at hr
    exact .inr (hhands.right_or hr)
  · rw [phase_turn_of_ne hvt] at hr
    exact .inl hr

/-- What is due to the new task is due to the other no more. -/
theorem total_handed : ∑ v ∈ P.tasks, ((P.share v).due ((P.turn t ph).phase v) + 1) + (n.due n.entry + 1) = total := by
  have hrest : ∀ v ∈ P.tasks.erase t,
      (P.share v).due ((P.turn t ph).phase v) + 1 = (P.share v).due (P.phase v) + 1 := fun v hv => by
    rw [phase_turn_of_ne (Finset.ne_of_mem_erase hv)]
  have hdue := hhands.due (h.valid t ht)
  rw [← h.total, ← Finset.add_sum_erase _ _ ht, ← Finset.add_sum_erase P.tasks (fun v => (P.share v).due (P.phase v) + 1) ht,
    Finset.sum_congr rfl hrest, phase_turn_self, hdue]
  omega

/-- A task hands one half over to a new task. -/
theorem joined (hu : u ∉ P.tasks) : ((P.turn t ph).join u n).Sound total s := by
  have hne : ∀ {v}, v ∈ P.tasks → v ≠ u := fun hv heq => hu (heq ▸ hv)
  obtain ⟨hgiven, hown⟩ := h.given ht hhands
  have hkept := fun {v} (hv : v ∈ P.tasks) => h.claims_handed ht hhands hv
  have halves : ∀ {m}, (∃ x ∈ P.tasks, P.share x = m) ∨ n = m →
      ∃ x ∈ insert u P.tasks, ((P.turn t ph).join u n).share x = m := by
    rintro m (⟨x, hx, rfl⟩ | rfl)
    · exact ⟨x, Finset.mem_insert_of_mem hx, share_join_of_ne (hne hx)⟩
    · exact ⟨u, Finset.mem_insert_self .., share_join_self⟩
  constructor
  case valid =>
    intro v hv
    rcases Finset.mem_insert.1 hv with rfl | hv
    · rw [share_join_self]
      exact hhands.valid (h.valid t ht)
    · rw [share_join_of_ne (hne hv)]
      exact h.valid v hv
  case long =>
    intro v hv
    rcases Finset.mem_insert.1 hv with rfl | hv
    · rw [share_join_self, phase_join_self]
      exact long_entry n
    · rw [share_join_of_ne (hne hv), phase_join_of_ne (hne hv)]
      rcases eq_or_ne v t with rfl | hvt
      · exact fun _ => h.long v hv hhands.isInner
      · rw [phase_turn_of_ne hvt]
        exact h.long v hv
  case room =>
    intro v hv c hc
    rcases Finset.mem_insert.1 hv with rfl | hv
    · rw [claims_join_self, List.mem_singleton] at hc
      exact hc ▸ h.room t ht _ hgiven
    · rw [claims_join_of_ne (hne hv)] at hc
      exact h.room v hv c ((hkept hv).1.subset hc)
  case nodup =>
    intro v hv
    rcases Finset.mem_insert.1 hv with rfl | hv
    · rw [claims_join_self]
      exact List.nodup_singleton _
    · rw [claims_join_of_ne (hne hv)]
      exact (h.nodup v hv).sublist (hkept hv).1
  case apart =>
    intro v hv x hx c hcv hcx
    rcases Finset.mem_insert.1 hv with rfl | hv' <;> rcases Finset.mem_insert.1 hx with rfl | hx'
    · rfl
    · rw [claims_join_self, List.mem_singleton] at hcv
      rw [claims_join_of_ne (hne hx'), hcv] at hcx
      exact absurd hcx (hkept hx').2
    · rw [claims_join_self, List.mem_singleton] at hcx
      rw [claims_join_of_ne (hne hv'), hcx] at hcv
      exact absurd hcv (hkept hv').2
    · rw [claims_join_of_ne (hne hv')] at hcv
      rw [claims_join_of_ne (hne hx')] at hcx
      exact h.apart v hv' x hx' c ((hkept hv').1.subset hcv) ((hkept hx').1.subset hcx)
  case blank =>
    intro v hv c hc
    rcases Finset.mem_insert.1 hv with rfl | hv
    · rw [claims_join_self, List.mem_singleton] at hc
      exact fun _ => h.blank t ht c (hc ▸ hgiven) fun heq => absurd (hc.symm.trans heq) hown
    · rw [claims_join_of_ne (hne hv)] at hc
      rw [share_join_of_ne (hne hv), phase_join_of_ne (hne hv), Ne, phase_handed hhands]
      exact h.blank v hv c ((hkept hv).1.subset hc)
  case filled =>
    intro v hv
    rcases Finset.mem_insert.1 hv with rfl | hv
    · rw [phase_join_self]
      exact fun hends => absurd hends n.entry_ne_ends
    · rw [share_join_of_ne (hne hv), phase_join_of_ne (hne hv), phase_handed hhands]
      exact h.filled v hv
  case left =>
    intro v hv l hl
    rcases Finset.mem_insert.1 hv with rfl | hv
    · rw [phase_join_self, left?_entry] at hl
      cases hl
    · rw [phase_join_of_ne (hne hv)] at hl
      rw [share_join_of_ne (hne hv)]
      exact halves ((left_handed hhands hl).imp_left (h.left v hv l))
  case right =>
    intro v hv r hr
    rcases Finset.mem_insert.1 hv with rfl | hv
    · rw [phase_join_self, right?_entry] at hr
      cases hr
    · rw [phase_join_of_ne (hne hv)] at hr
      rw [share_join_of_ne (hne hv)]
      exact halves ((right_handed hhands hr).imp_left (h.right v hv r))
  case total =>
    have hold : ∀ v ∈ P.tasks, (((P.turn t ph).join u n).share v).due (((P.turn t ph).join u n).phase v) + 1 =
        (P.share v).due ((P.turn t ph).phase v) + 1 := fun v hv => by
      rw [share_join_of_ne (hne hv), phase_join_of_ne (hne hv)]
      rfl
    have hinsert : ((P.turn t ph).join u n).tasks = insert u P.tasks := rfl
    rw [hinsert, Finset.sum_insert hu, Finset.sum_congr rfl hold, share_join_self, phase_join_self, Nat.add_comm]
    exact h.total_handed ht hhands

end hands

end Sound
end Division

end Dataflow
