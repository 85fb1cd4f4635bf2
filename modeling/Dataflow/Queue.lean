/-!
# Ready queues

The owner of a queue takes from the front, thieves take from the back, never more than half of what
there is, rounded up. The back of a queue is kept in reverse, so that adding and taking single items takes
the same time however long the queue is; `Queue.items` is the queue as one list, and every operation is
described by what it does to that list.
-/

namespace Dataflow

/-- A queue. -/
structure Queue (α : Type) where
  /-- Items from the front on. -/
  front : List α := []
  /-- The rest, from the back on. -/
  back : List α := []
  deriving Repr

namespace Queue

variable {α : Type}

/-- The items, front first. -/
def items (q : Queue α) : List α := q.front ++ q.back.reverse

/-- How many items there are. -/
def size (q : Queue α) : Nat := q.front.length + q.back.length

/-- Nothing is in the queue. -/
def isEmpty (q : Queue α) : Bool := q.front.isEmpty && q.back.isEmpty

/-- Add an item at the back. -/
def push (q : Queue α) (a : α) : Queue α := { q with back := a :: q.back }

/-- Add items at the back, in their order. -/
def extend (q : Queue α) (as : List α) : Queue α := { q with back := as.reverse ++ q.back }

/-- Take the item at the front. -/
def popFront (q : Queue α) : Option α × Queue α :=
  match q.front with
  | a :: rest => (some a, { q with front := rest })
  | [] =>
    match q.back.reverse with
    | a :: rest => (some a, ⟨rest, []⟩)
    | [] => (none, {})

/-- How many items a thief gets who asks for at most `max`. -/
def share (q : Queue α) (max : Nat) : Nat := min max ((q.size + 1) / 2)

/-- Take up to `max` items from the back, in their order. -/
def stealBack (q : Queue α) (max : Nat) : List α × Queue α :=
  let kept := q.size - q.share max
  (q.items.drop kept, ⟨q.items.take kept, []⟩)

/-- Take everything. -/
def drain (q : Queue α) : List α × Queue α := (q.items, {})

@[simp] theorem items_empty : ({} : Queue α).items = [] := rfl

@[simp] theorem length_items (q : Queue α) : q.items.length = q.size := by
  simp [items, size]

@[simp] theorem isEmpty_items (q : Queue α) : q.items.isEmpty = q.isEmpty := by
  obtain ⟨front, back⟩ := q
  cases front <;> cases back <;> simp [items, isEmpty]

@[simp] theorem items_push (q : Queue α) (a : α) : (q.push a).items = q.items ++ [a] := by
  simp [items, push]

@[simp] theorem items_extend (q : Queue α) (as : List α) : (q.extend as).items = q.items ++ as := by
  simp [items, extend]

/-- What is taken is the first item, and the others stay. -/
theorem popFront_eq (q : Queue α) :
    q.popFront.1 = q.items.head? ∧ q.popFront.2.items = q.items.tail := by
  obtain ⟨front, back⟩ := q
  cases front with
  | cons a rest => simp [items, popFront]
  | nil =>
    simp only [items, popFront]
    cases back.reverse <;> simp

/-- Thieves take the last `share` items. -/
theorem items_stealBack (q : Queue α) (max : Nat) :
    (q.stealBack max).2.items ++ (q.stealBack max).1 = q.items ∧
      (q.stealBack max).1.length = q.share max := by
  have h : q.share max ≤ q.size := by simp only [share]; omega
  simp [stealBack, items, size] at h ⊢
  omega

end Queue
end Dataflow
