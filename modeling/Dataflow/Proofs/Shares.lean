import Dataflow.Proofs.Links
import Dataflow.Proofs.Marshalling

/-!
# Shares of a sum

A range of numbers is summed by a task: a short one at once, a longer one by two more tasks, each of which has one half
and a cell of its own for the sum of it (`Share`). The body of such a task is a function of its share and of how far it
has come (`Share.body`), and what one step of it does to the cells is said by `Share.Turn`. Every step takes the task
from one phase to the next, since the cells that it reads are empty or hold the sums of the halves
(`Share.turn_stepRun`).
-/

namespace Dataflow

/-- The numbers from `lo` to below `hi`, and the cell for their sum. -/
structure Share where
  lo : Nat
  hi : Nat
  out : CellId

namespace Share

/-- How far the task of a share has come. -/
inductive Phase where
  /-- It has to make a cell for the left half. -/
  | begins
  /-- It has to make one for the right half. -/
  | one (l : CellId)
  /-- It has to spawn the left half. -/
  | two (l r : CellId)
  /-- It has to spawn the right half. -/
  | first (l r : CellId)
  /-- It awaits the sum of the left half. -/
  | both (l r : CellId)
  /-- It has that and awaits the sum of the right half. -/
  | half (l r : CellId)
  /-- It knows the sum. -/
  | writes
  /-- The sum is written. -/
  | ends

/-- The sum of the numbers of a range. -/
def sum (lo hi : Nat) : Nat := ∑ i ∈ Finset.Ico lo hi, i

/-- A range of words. -/
structure Valid (n : Share) : Prop where
  le : n.lo ≤ n.hi
  lt : n.hi < 2 ^ 64

variable (n : Share)

/-- Where the range is split. -/
def mid : Nat := n.lo + (n.hi - n.lo) / 2

/-- The share of the left half. -/
def left (c : CellId) : Share := ⟨n.lo, n.mid, c⟩

/-- The share of the right half. -/
def right (c : CellId) : Share := ⟨n.mid, n.hi, c⟩

/-- The job that sums the share. -/
def job : Job := .core .treeSum (Core.treeArguments n.lo n.hi n.out)

/-- Write the sum. -/
def write : Body Datum Job := .put n.out (Link.number (sum n.lo n.hi)) .done

/-- Add up and write what the halves gave. -/
def add (x y : Core.u64.Value) : Body Datum Job :=
  Core.finish (t := Core.u64) ⟨n.out⟩ (IntKind.wrap _ (Subtype.val x + Subtype.val y))

/-- Await the sum of the right half; that of the left half is known. -/
def awaitRight (r : CellId) (x : Core.u64.Value) (key : Option Nat) : Body Datum Job :=
  .get r key (Body.orFail (Core.typed Core.u64 (n.add x)))

/-- Await the sum of the left half. -/
def awaitLeft (l r : CellId) (key : Option Nat) : Body Datum Job :=
  .get l key (Body.orFail (Core.typed Core.u64 fun x => n.awaitRight r x none))

/-- Spawn the right half. -/
def spawnRight (l r : CellId) : Body Datum Job :=
  .spawn none (n.right r).job (Body.orFail fun _ => n.awaitLeft l r none)

/-- Spawn the left half. -/
def spawnLeft (l r : CellId) : Body Datum Job :=
  .spawn none (n.left l).job (Body.orFail fun _ => n.spawnRight l r)

/-- What is left to do, under the key of the registration of a read. -/
def body (key : Option Nat) : Phase → Body Datum Job
  | .begins => .newCell fun l => .newCell fun r => n.spawnLeft l r
  | .one l => .newCell fun r => n.spawnLeft l r
  | .two l r => n.spawnLeft l r
  | .first l r => n.spawnRight l r
  | .both l r => n.awaitLeft l r key
  | .half _ r => n.awaitRight r (IntKind.unsigned64.wrap (sum n.lo n.mid)) key
  | .writes => n.write
  | .ends => .done (.ok ())

/-- The phase that the task begins with: a short range is summed in one go. -/
def entry : Phase := if n.hi - n.lo ≤ Core.treeLeaf then .writes else .begins

variable {n}

/-- The halves of a long range are shorter. -/
theorem left_lt (c : CellId) (h : Core.treeLeaf < n.hi - n.lo) : (n.left c).hi - (n.left c).lo < n.hi - n.lo := by
  simp only [Core.treeLeaf] at h
  simp only [left, mid]
  omega

theorem right_lt (c : CellId) (h : Core.treeLeaf < n.hi - n.lo) : (n.right c).hi - (n.right c).lo < n.hi - n.lo := by
  simp only [Core.treeLeaf] at h
  simp only [right, mid]
  omega

theorem sum_left_add_sum_right (h : n.Valid) : sum n.lo n.mid + sum n.mid n.hi = sum n.lo n.hi := by
  have hle : n.mid ≤ n.hi := by
    have := h.le
    unfold mid
    omega
  exact Finset.sum_Ico_consecutive _ (Nat.le_add_right ..) hle

theorem sum_range (lo k : Nat) :
    ((List.range k).map fun i : Nat => (lo : Int) + i).sum = (sum lo (lo + k) : Nat) := by
  induction k with
  | zero => simp [sum]
  | succ k ih =>
    rw [List.range_succ, List.map_append, List.sum_append, ih, sum, sum, ← Nat.add_assoc,
      Finset.sum_Ico_succ_top (Nat.le_add_right ..)]
    simp

theorem val_wrap_of_lt {k : Nat} (h : k < 2 ^ 64) : (IntKind.unsigned64.wrap k).val = k := by
  rw [Link.val_wrap, Nat.mod_eq_of_lt h]

theorem wrap_add (a b : Nat) :
    IntKind.unsigned64.wrap ((IntKind.unsigned64.wrap a).val + (IntKind.unsigned64.wrap b).val) =
      IntKind.unsigned64.wrap (a + b : Nat) := by
  have hcast : (IntKind.unsigned64.wrap a).val + (IntKind.unsigned64.wrap b).val =
      ((a % 2 ^ 64 + b % 2 ^ 64 : Nat) : Int) := by
    rw [Link.val_wrap, Link.val_wrap]
    rfl
  refine Subtype.ext ?_
  rw [hcast, Link.val_wrap, Link.val_wrap, ← Nat.add_mod]

theorem add_eq_write (h : n.Valid) : n.add (IntKind.unsigned64.wrap (sum n.lo n.mid))
    (IntKind.unsigned64.wrap (sum n.mid n.hi)) = n.write := by
  have hadd : n.add (IntKind.unsigned64.wrap (sum n.lo n.mid)) (IntKind.unsigned64.wrap (sum n.mid n.hi)) =
      .put n.out ⟨Core.u64, IntKind.unsigned64.wrap ((IntKind.unsigned64.wrap (sum n.lo n.mid)).val +
        (IntKind.unsigned64.wrap (sum n.mid n.hi)).val)⟩ .done := rfl
  rw [hadd, wrap_add, sum_left_add_sum_right h]
  rfl

/-- What the job comes to, whoever packed the bounds. -/
theorem body_treeSum (h : n.Valid) {low high : Core.u64.Value} (hlow : Subtype.val low = n.lo)
    (hhigh : Subtype.val high = n.hi) :
    Core.body .treeSum (low, high, (⟨n.out⟩ : CellRef Core.u64), ()) = n.body none n.entry := by
  have hsize : (n.hi : Int) - n.lo = (n.hi - n.lo : Nat) := (Int.ofNat_sub h.le).symm
  have hmid : (n.lo : Int) + (n.hi - n.lo : Nat) / 2 = n.mid := by
    unfold mid
    omega
  unfold entry
  simp only [Core.body, hlow, hhigh, hsize, hmid, Int.toNat_natCast, Nat.cast_le, sum_range,
    Nat.add_sub_cancel' h.le]
  split
  · rfl
  · rfl

/-- The body that the job starts with. -/
theorem start_job (h : n.Valid) : n.job.start = .ok (n.body none n.entry) := by
  let vs : Values (Core.signature .treeSum) :=
    (IntKind.unsigned64.wrap n.lo, IntKind.unsigned64.wrap n.hi, (⟨n.out⟩ : CellRef Core.u64), ())
  have hjob : n.job.start = Id.run ((Arguments.ofValues _ vs).run (Core.signature .treeSum) fun vs =>
      pure (Core.body .treeSum vs)) := rfl
  rw [hjob, Values.ofValues_eq, Arguments.run_of_toData rfl, ← body_treeSum h
    (val_wrap_of_lt (Nat.lt_of_le_of_lt h.le h.lt)) (val_wrap_of_lt h.lt)]
  rfl

/-- The run of the task of a share. -/
def run (n : Share) (p : PoolId) (t : TaskId) (key : Option Nat) (ph : Phase) : Run Datum Job :=
  { party := .task p t, body := n.body key ph }

/-- The cell that the task awaits. -/
def Phase.awaited? : Phase → Option CellId
  | .both l _ => some l
  | .half _ r => some r
  | _ => none

/-- The cell holds the sum of a range. -/
def Holds (s : Store Datum Job) (lo hi : Nat) (c : CellId) : Prop :=
  (s.cell c).payload = .full (Link.number (sum lo hi))

/-- No cell is made, and none changes what it holds. -/
def Same (s s' : Store Datum Job) : Prop :=
  s'.cells.size = s.cells.size ∧ ∀ c, (s'.cell c).payload = (s.cell c).payload

/-- What one step of its body does to the cells and to the phase of a task. -/
inductive Turn (n : Share) (s : Store Datum Job) : Phase → Store Datum Job → Phase → Prop where
  | stay {ph s'} (h : Same s s') : Turn n s ph s' ph
  | one : Turn n s .begins s.newCell.2 (.one s.cells.size)
  | two {l} : Turn n s (.one l) s.newCell.2 (.two l s.cells.size)
  | left {l r s'} (h : Same s s') : Turn n s (.both l r) s' (.half l r)
  | right {l r s'} (h : Same s s') : Turn n s (.half l r) s' .writes
  | write : Turn n s .writes
      (s.setCell n.out { s.cell n.out with payload := .full (Link.number (sum n.lo n.hi)) }) .ends

/-- The task hands one half over to a new task. -/
inductive Hands (n : Share) : Phase → Phase → Share → Prop where
  | left {l r} : Hands n (.two l r) (.first l r) (n.left l)
  | right {l r} : Hands n (.first l r) (.both l r) (n.right r)

end Share

/-- If the frame belongs to a poll of the task, then to one of the share in this phase. -/
def Frame.OfShare (p : PoolId) (t : TaskId) (n : Share) (ph : Share.Phase) : Frame Datum Job → Prop
  | .run r => r.party = .task p t → ∃ key, r = n.run p t key ph
  | .pause r => r.party = .task p t → ∃ key, r = n.run p t (some key) ph ∧ ph.awaited? ≠ none
  | .ended party outcome => party = .task p t → outcome = .returned (.ok ()) ∧ ph = .ends
  | .blocked _ _ next => (next (.ok none)).party ≠ .task p t
  | .spawn q job _ next => (next (.error .poolShutDown)).party = .task p t →
    q = p ∧ ∃ ph' child, n.Hands ph ph' child ∧ job = child.job ∧ ∀ u, next (.ok u) = n.run p t none ph'
  | .task q u (.settle outcome) => q = p → u = t → outcome = .returned (.ok ()) ∧ ph = .ends
  | _ => True

/-- A frame that has nothing to do with the body says nothing. -/
theorem Frame.IsQuiet.ofShare {f : Frame Datum Job} (h : f.IsQuiet) (p : PoolId) (t : TaskId) (n : Share)
    (ph : Share.Phase) : f.OfShare p t n ph := by
  cases f <;> first | exact h.elim | trivial

/-- Nor has who does not hold the body. -/
theorem Frame.ofShare_of_not_hasBody {f : Frame Datum Job} {worker : Option (PoolId × Nat)} {p : PoolId} {t : TaskId}
    (h : ∀ k ∈ f.holds worker p t, ¬ k.HasBody) (n : Share) (ph : Share.Phase) : f.OfShare p t n ph := by
  have hfree : ¬ f.Polls p t := fun hpolls => by
    obtain ⟨k, hk, hholds⟩ := hpolls.holds_eq worker
    exact h k (hholds ▸ Multiset.mem_singleton_self k) hk
  cases f with
  | run | pause | ended | blocked | spawn => exact fun hparty => absurd hparty hfree
  | task q u phase =>
    cases phase with
    | settle outcome =>
      rintro rfl rfl
      exact absurd trivial (h (.ending outcome) (by simp [holds]))
    | _ => trivial
  | _ => trivial

namespace Share

variable {n : Share} {s : Store Datum Job} {p : PoolId} {t : TaskId} {w : Nat} {key : Option Nat} {ph : Phase}

theorem Same.setCell {c : CellId} {x : Cell Datum Party} (hx : x.payload = (s.cell c).payload) :
    Same s (s.setCell c x) := ⟨Array.size_setIfInBounds .., Store.payload_setCell hx⟩

/-- The last instruction but one writes the sum. -/
theorem stepRun_writes (worker : Option (PoolId × Nat)) (hempty : (s.cell n.out).payload = .empty) :
    Frame.stepRun worker s (n.run p t key .writes) =
      (s.setCell n.out { s.cell n.out with payload := .full (Link.number (sum n.lo n.hi)) },
        Frame.afterPut n.out (s.cell n.out) ++ [.run (n.run p t none .ends)]) := by
  simp only [run, body, write, Frame.stepRun, Cell.put_of_empty hempty, Run.goOn]

/-- What the instruction of a share leads to. -/
theorem turn_stepRun (hvalid : n.Valid)
    (hleft : ∀ l r, ph = .both l r → (s.cell l).payload = .empty ∨ Holds s n.lo n.mid l)
    (hright : ∀ l r, ph = .half l r → (s.cell r).payload = .empty ∨ Holds s n.mid n.hi r)
    (hout : ph = .writes → (s.cell n.out).payload = .empty) :
    ∃ ph', Turn n s ph (Frame.stepRun (some (p, w)) s (n.run p t key ph)).1 ph' ∧
      ∀ g ∈ (Frame.stepRun (some (p, w)) s (n.run p t key ph)).2, g.OfShare p t n ph' := by
  have same : Same s s := ⟨rfl, fun _ => rfl⟩
  have goes : ∀ ph', ∀ g ∈ [(.run (n.run p t none ph') : Frame Datum Job)], g.OfShare p t n ph' :=
    fun ph' g hg => List.mem_singleton.1 hg ▸ fun _ => ⟨none, rfl⟩
  have asks : ∀ {ph ph' child next}, n.Hands ph ph' child → (∀ u, next (.ok u) = n.run p t none ph') →
      ∀ g ∈ [(.spawn p child.job .check next : Frame Datum Job)], g.OfShare p t n ph :=
    fun hhands hnext g hg => List.mem_singleton.1 hg ▸ fun _ => ⟨rfl, _, _, hhands, rfl, hnext⟩
  cases ph with
  | begins => exact ⟨_, .one, goes (.one s.cells.size)⟩
  | one l => exact ⟨_, .two, goes (.two l s.cells.size)⟩
  | two l r => exact ⟨_, .stay same, asks .left fun _ => rfl⟩
  | first l r => exact ⟨_, .stay same, asks .right fun _ => rfl⟩
  | both l r =>
    rcases hleft l r rfl with hempty | hfull
    · rw [run, body, awaitLeft, Frame.stepRun_get_of_empty _ _ _ _ _ hempty]
      refine ⟨_, .stay (.setCell (Cell.payload_register ..)), fun g hg => ?_⟩
      rw [List.mem_singleton.1 hg]
      exact fun _ => ⟨_, rfl, Option.some_ne_none _⟩
    · rw [run, body, awaitLeft, Frame.stepRun_get_of_full _ _ _ _ _ hfull]
      exact ⟨_, .left (.setCell (Cell.payload_withdraw ..)), goes (.half l r)⟩
  | half l r =>
    have hget : n.run p t key (.half l r) = { party := .task p t, body := .get r key (Body.orFail
      (Core.typed Core.u64 (n.add (IntKind.unsigned64.wrap (sum n.lo n.mid))))) } := rfl
    rcases hright l r rfl with hempty | hfull
    · rw [hget, Frame.stepRun_get_of_empty _ _ _ _ _ hempty]
      refine ⟨_, .stay (.setCell (Cell.payload_register ..)), fun g hg => ?_⟩
      rw [List.mem_singleton.1 hg]
      exact fun _ => ⟨_, rfl, Option.some_ne_none _⟩
    · rw [hget, Frame.stepRun_get_of_full _ _ _ _ _ hfull]
      refine ⟨_, .right (.setCell (Cell.payload_withdraw ..)), fun g hg => ?_⟩
      rw [List.mem_singleton.1 hg]
      refine fun _ => ⟨none, ?_⟩
      rw [run, body, ← add_eq_write hvalid]
      rfl
  | writes =>
    rw [stepRun_writes _ (hout rfl)]
    refine ⟨_, .write, fun g hg => ?_⟩
    rcases List.mem_append.1 hg with hg | hg
    · exact (Frame.isQuiet_afterPut hg).ofShare p t n _
    · exact goes _ g hg
  | ends =>
    refine ⟨_, .stay same, fun g hg => ?_⟩
    simp only [run, body, Frame.stepRun, List.mem_cons, List.not_mem_nil, or_false] at hg
    rcases hg with rfl | rfl
    · trivial
    · exact fun _ => ⟨rfl, rfl⟩

end Share

/-! ### The tasks of a share together -/

/-- How many tasks sum so many numbers by halves. -/
def tasksFor (k : Nat) : Nat :=
  if k ≤ Core.treeLeaf then 1 else tasksFor (k / 2) + tasksFor (k - k / 2) + 1
termination_by k
decreasing_by all_goals simp only [Core.treeLeaf] at *; omega

namespace Share

namespace Phase

/-- The cells that the task has made and that no task has been given yet. -/
def spare : Phase → List CellId
  | .one l => [l]
  | .two l r => [l, r]
  | .first _ r => [r]
  | _ => []

/-- The task is going to be, or has been, split. -/
def IsInner : Phase → Prop
  | .writes | .ends => False
  | _ => True

/-- The cell of the left half, once another task has that. -/
def left? : Phase → Option CellId
  | .first l _ | .both l _ => some l
  | _ => none

/-- The cell of the right half, once another task has that. -/
def right? : Phase → Option CellId
  | .both _ r | .half _ r => some r
  | _ => none

end Phase

/-- How many more tasks the task has to bring about. -/
def due (n : Share) : Phase → Nat
  | .begins | .one _ | .two _ _ => tasksFor (n.mid - n.lo) + tasksFor (n.hi - n.mid)
  | .first _ _ => tasksFor (n.hi - n.mid)
  | _ => 0

theorem due_entry (n : Share) (h : n.Valid) : n.due n.entry + 1 = tasksFor (n.hi - n.lo) := by
  have hle := h.le
  have hleft : n.mid - n.lo = (n.hi - n.lo) / 2 := by unfold mid; omega
  have hright : n.hi - n.mid = n.hi - n.lo - (n.hi - n.lo) / 2 := by unfold mid; omega
  rw [entry, tasksFor]
  split
  · rfl
  · rw [due, hleft, hright]

/-- Between these phases of a task no other task begins. -/
structure Goes (n : Share) (ph ph' : Phase) : Prop where
  inner : ph'.IsInner → ph.IsInner
  left : ∀ l, ph'.left? = some l → ph.left? = some l
  right : ∀ r, ph'.right? = some r → ph.right? = some r
  due : n.due ph' = n.due ph

theorem Turn.goes {n : Share} {s s' : Store Datum Job} {ph ph' : Phase} (h : Turn n s ph s' ph') : n.Goes ph ph' := by
  cases h <;> constructor <;> simp [Phase.IsInner, Phase.left?, Phase.right?, Share.due]

/-- A cell that a task has not given away it had before, or has just made. -/
theorem Turn.spare {n : Share} {s s' : Store Datum Job} {ph ph' : Phase} (h : Turn n s ph s' ph') {c : CellId}
    (hc : c ∈ ph'.spare) : c ∈ ph.spare ∨ c = s.cells.size ∧ ∀ key, ∃ next, n.body key ph = .newCell next := by
  cases h with
  | stay => exact .inl hc
  | one => exact .inr ⟨List.mem_singleton.1 hc, fun _ => ⟨_, rfl⟩⟩
  | two =>
    simp only [Phase.spare, List.mem_cons, List.not_mem_nil, or_false] at hc
    rcases hc with rfl | rfl
    · exact .inl (List.mem_cons_self ..)
    · exact .inr ⟨rfl, fun _ => ⟨_, rfl⟩⟩
  | left | right | write => cases hc

section entry

variable (n : Share)

/-- A task that begins has made no cell, handed nothing over and written nothing. -/
theorem spare_entry : n.entry.spare = [] := by
  unfold entry
  split <;> rfl

theorem left?_entry : n.entry.left? = none := by
  unfold entry
  split <;> rfl

theorem right?_entry : n.entry.right? = none := by
  unfold entry
  split <;> rfl

theorem entry_ne_ends : n.entry ≠ .ends := by
  unfold entry
  split <;> simp

theorem long_entry (h : n.entry.IsInner) : Core.treeLeaf < n.hi - n.lo := by
  unfold entry at h
  split at h
  · exact h.elim
  · omega

end entry

namespace Hands

variable {n child : Share} {ph ph' : Phase} (h : n.Hands ph ph' child)

include h

theorem valid (hn : n.Valid) : child.Valid := by
  have hle := hn.le
  have hlt := hn.lt
  cases h <;> constructor <;> simp only [Share.left, Share.right, mid] <;> omega

/-- The new task takes over the cell. -/
theorem spare : ph.spare = child.out :: ph'.spare := by cases h <;> rfl

/-- And what is due to its share. -/
theorem due (hn : n.Valid) : n.due ph = n.due ph' + (child.due child.entry + 1) := by
  rw [due_entry child (h.valid hn)]
  cases h with
  | left => exact Nat.add_comm ..
  | right => exact (Nat.zero_add _).symm

theorem isInner : ph.IsInner := by cases h <;> trivial

theorem ne_ends : ph ≠ .ends ∧ ph' ≠ .ends := by cases h <;> exact ⟨(by simp), (by simp)⟩

theorem left_or {l : CellId} (hl : ph'.left? = some l) : child = n.left l ∨ ph.left? = some l := by
  cases h with
  | left => exact .inl (by rw [Option.some.inj hl])
  | right => exact .inr hl

theorem right_or {r : CellId} (hr : ph'.right? = some r) : child = n.right r := by
  cases h with
  | left => cases hr
  | right => rw [Option.some.inj hr]

end Hands

end Share

end Dataflow
