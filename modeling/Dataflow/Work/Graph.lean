import Dataflow.Work.Core

/-!
# Small graphs

Bodies that build a graph of tasks on a pool, wait for its result, say it and shut the pool down: one task,
independent tasks, and a chain of tasks each of which waits for the one before.
-/

namespace Dataflow.Graph

open Dataflow.Core (u32 u64)

/-- Wait for a cell on the thread itself; an error ends the body. -/
def fetch {t : Tag} (c : CellRef t) (next : t.Value → Body Datum Job) : Body Datum Job :=
  .getBlocking c.id (Body.orFail (Core.typed t next))

/-- Say a number and shut the pool down. -/
def report {k : IntKind} (pool : PoolId) (result : k.Value) : Body Datum Job :=
  .say (toString result.val) (.shutdown pool (.done (.ok ())))

/-- A task adds one to the value, and twice what it gives is said. -/
def increment (pool : PoolId) (value : u32.Value) : Body Datum Job :=
  .newCell fun c =>
    let cell : CellRef u32 := ⟨c⟩
    .spawn (some pool) (.core .addOne (.ofValues [u32, .cell u32] (value, cell, ())))
      (Body.orFail fun _ => fetch cell fun v =>
        .destroy c (Body.orFail fun _ =>
          report pool (IntKind.wrap ⟨false, .bits32⟩ (2 * Subtype.val v))))

/-- Add up what cells hold. -/
def addUp (next : u64.Value → Body Datum Job) : List (CellRef u64) → u64.Value → Body Datum Job
  | [], sum => next sum
  | cell :: rest, sum => fetch cell fun v =>
    addUp next rest (IntKind.wrap _ (Subtype.val sum + Subtype.val v))

/-- The arguments of a task that squares a number. -/
def squareArguments (i : Nat) (cell : CellRef u64) : Arguments :=
  .ofValues [u64, .cell u64] (IntKind.unsigned64.wrap i, cell, ())

/-- So many tasks from number `i` on, each of which squares its number; then the sum of all squares is
said. The cells of earlier tasks come last. -/
def fanoutFrom (pool : PoolId) : Nat → Nat → List (CellRef u64) → Body Datum Job
  | 0, _, cells => addUp (report (k := .unsigned64) pool) cells (IntKind.unsigned64.wrap 0)
  | count + 1, i, cells => .newCell fun c =>
    .submit pool (.core .square (squareArguments i ⟨c⟩))
      (Body.orFail fun _ => fanoutFrom pool count (i + 1) (⟨c⟩ :: cells))

/-- So many tasks that square their numbers. -/
def fanout (pool : PoolId) (tasks : Nat) : Body Datum Job := fanoutFrom pool tasks 0 []

/-- The arguments of a link from one cell to another. -/
def linkArguments (input output : CellRef u64) : Arguments :=
  .ofValues [.cell u64, .cell u64] (input, output, ())

/-- So many links from a cell on; then the head is filled with zero and what comes out at the end is
said. -/
def chainFrom (pool : PoolId) (head : CellRef u64) : Nat → CellRef u64 → Body Datum Job
  | 0, input => Core.write (t := u64) head (IntKind.unsigned64.wrap 0)
      (fetch input (report (k := .unsigned64) pool))
  | depth + 1, input => .newCell fun c =>
    .submit pool (.core .link (linkArguments input ⟨c⟩))
      (Body.orFail fun _ => chainFrom pool head depth ⟨c⟩)

/-- A chain of so many links. -/
def chain (pool : PoolId) (depth : Nat) : Body Datum Job :=
  .newCell fun c => chainFrom pool ⟨c⟩ depth ⟨c⟩

end Dataflow.Graph
