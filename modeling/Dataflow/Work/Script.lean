import Dataflow.Body
import Dataflow.Value

/-!
# Scripts

Bodies written as lists of instructions over an accumulator of 64 bits, for cells that hold such
numbers. Scripts say what they see, and may spawn scripts.
-/

namespace Dataflow

/-- Sealed types hold a number or a text. -/
instance : SealedTypes where
  Value _ identity :=
    match identity with
    | .number => IntKind.signed64.Value
    | .text => String

/-- The numbers that scripts work on. -/
abbrev Word := IntKind.unsigned64.Value

/-- A cell that holds a number. -/
abbrev WordCell := CellRef (.int .unsigned64)

/-- One instruction of a script. -/
inductive Instruction where
  /-- Say a label and the accumulator. -/
  | log (label : String)
  | set (n : Word)
  | add (n : Word)
  /-- Wait for a cell and add its value. -/
  | get (c : WordCell)
  /-- Block the thread for a cell and add its value. -/
  | getBlocking (c : WordCell)
  /-- Block the thread for a limited time, and say what came. -/
  | getTimeout (c : WordCell)
  | tryGet (c : WordCell)
  /-- Put the accumulator; `tolerant`: say the result instead of failing. -/
  | put (c : WordCell) (tolerant : Bool)
  | destroy (c : WordCell) (tolerant : Bool)
  /-- Say how the cell looks. -/
  | state (c : WordCell)
  /-- Say `drop` and the label when the body ends, and fill the cell then. -/
  | guard (label : String) (fill : Option WordCell)
  | yield (times : Nat)
  | stash
  /-- Wait for both cells and add their values. -/
  | join (a b : WordCell)
  /-- Wait for one of two cells and add its value. -/
  | select (a b : WordCell)
  /-- Spawn a script, on the pool of the thread or on a given one. -/
  | spawn (pool : Option PoolId) (script : List Instruction)
  | current
  | fail (e : RuntimeError)
  | panic (message : Option String)

namespace Instruction

/-- A number as the payload of a cell. -/
def datum (n : Word) : Datum := ⟨.int .unsigned64, n⟩

/-- The number that a payload holds. -/
def word (d : Datum) : Word :=
  match d.as? (.int .unsigned64) with
  | some n => n
  | none => IntKind.unsigned64.wrap 0

/-- The sum modulo two to the 64th. -/
def plus (a b : Word) : Word := IntKind.unsigned64.wrap (a.val + b.val)

/-- The number that guards put into their cells. -/
def guardWord : Word := IntKind.unsigned64.wrap 99

/-- What a script says of a value that may be missing. -/
def optionText : Option Datum → String
  | none => "None"
  | some d => Text.inspectCall "Some" (toString (word d).val)

/-- What a script says of a result without value. -/
def resultText : Except RuntimeError Unit → String
  | .ok () => "ok"
  | .error e => e.inspect

/-- What a script says of the look of a cell. -/
def lookText (state : CellState) (waiters : Nat) : String :=
  Text.inspectRecord "IVar" [("state", state.inspect), ("waiters", toString waiters)]

end Instruction

/-- A job that scripts can spawn, made from a script. -/
class ScriptJob (J : Type) where
  ofScript : List Instruction → J

open Instruction in
/-- The body of a script, from a value of the accumulator. -/
def scriptBody {J : Type} [ScriptJob J] : List Instruction → Word → Body Datum J
  | [], _ => .done (.ok ())
  | .log label :: rest, acc => .say (label ++ "=" ++ toString acc.val) (scriptBody rest acc)
  | .set n :: rest, _ => scriptBody rest n
  | .add n :: rest, acc => scriptBody rest (plus acc n)
  | .get c :: rest, acc => .get c.id none (Body.orFail fun d => scriptBody rest (plus acc (word d)))
  | .getBlocking c :: rest, acc =>
    .getBlocking c.id (Body.orFail fun d => scriptBody rest (plus acc (word d)))
  | .getTimeout c :: rest, acc =>
    .getTimeout c.id (Body.orFail fun d => .say (optionText d) (scriptBody rest acc))
  | .tryGet c :: rest, acc =>
    .tryGet c.id fun result => .say (inspectResult optionText result) (scriptBody rest acc)
  | .put c tolerant :: rest, acc =>
    .put c.id (datum acc) fun result =>
      if tolerant then .say (resultText result) (scriptBody rest acc)
      else Body.orFail (fun _ => scriptBody rest acc) result
  | .destroy c tolerant :: rest, acc =>
    .destroy c.id fun result =>
      if tolerant then .say (resultText result) (scriptBody rest acc)
      else Body.orFail (fun _ => scriptBody rest acc) result
  | .state c :: rest, acc =>
    .look c.id fun state waiters => .say (lookText state waiters) (scriptBody rest acc)
  | .guard label fill :: rest, acc =>
    .guard ⟨label, fill.map fun c => (c.id, datum guardWord)⟩ (scriptBody rest acc)
  | .yield times :: rest, acc => .yield times (scriptBody rest acc)
  | .stash :: rest, acc => .stash (scriptBody rest acc)
  | .join a b :: rest, acc =>
    .join (.open a.id none) (.open b.id none) false fun x y =>
      Body.orFail (fun x => Body.orFail (fun y =>
        scriptBody rest (plus (plus acc (word x)) (word y))) y) x
  | .select a b :: rest, acc =>
    .select (a.id, none) (b.id, none) false
      (Body.orFail fun d => scriptBody rest (plus acc (word d)))
  | .spawn pool script :: rest, acc =>
    .spawn pool (ScriptJob.ofScript script) fun result =>
      .say (inspectResult TaskId.inspect result) (scriptBody rest acc)
  | .current :: rest, acc =>
    .current fun running => .say ("current " ++ toString running) (scriptBody rest acc)
  | .fail e :: _, _ => .done (.error e)
  | .panic message :: _, _ => .panic message

end Dataflow
