import Dataflow.Cell
import Dataflow.Number.Shortest
import Dataflow.Text.Inspect

/-!
# Typed and packed values

`t.Value` is the type that a tag `t` denotes; what a sealed type holds is up to the program. A packed value forgets
its type: integers of all sizes become one kind, floats one format, and cells and sealed values go into a box that
remembers the type. `unpack t` takes back exactly what `pack t` made.
-/

namespace Dataflow

/-- A handle to a cell with payload of the given type. -/
structure CellRef (payload : Tag) where
  id : CellId
  deriving DecidableEq, Repr

/-- A signed integer of 64 bits. -/
abbrev IntKind.signed64 : IntKind := ⟨true, .bits64⟩

/-- An unsigned integer of 64 bits. -/
abbrev IntKind.unsigned64 : IntKind := ⟨false, .bits64⟩

/-- What the sealed types of a program hold, whatever that is. -/
class SealedTypes where
  Value : (name : String) → (identity : Sealed) → Type

variable [SealedTypes]

/-- The type that a tag denotes. -/
def Tag.Value : Tag → Type
  | .unit => Unit
  | .bool => Bool
  | .int k => k.Value
  | .float f => Binary f
  | .char => Char
  | .string => String
  | .array t => List t.Value
  | .cell t => CellRef t
  | .sealed name s => SealedTypes.Value name s

/-- A value without its type. -/
inductive Packed where
  | unit
  | bool (b : Bool)
  | int (i : Int)
  | float (x : Binary .double)
  | char (c : Char)
  | string (s : String)
  | array (items : List Packed)
  /-- A value of the given type in a box. -/
  | boxed (tag : Tag) (value : tag.Value)

/-- Move a value into its packed form. -/
def pack : (t : Tag) → t.Value → Packed
  | .unit, () => .unit
  | .bool, b => .bool b
  | .int _, i => .int i.val
  | .float .single, x => .float x.widen
  | .float .double, x => .float x
  | .char, c => .char c
  | .string, s => .string s
  | .array t, items => .array (List.map (pack t) items)
  | .cell t, c => .boxed (.cell t) c
  | .sealed name s, v => .boxed (.sealed name s) v

namespace Packed

/-- The value in the box, if it is a box of that very type. -/
def unbox? (t : Tag) : Packed → Option t.Value
  | .boxed tag value => if h : tag = t then some (h ▸ value) else none
  | _ => none

/-- The packed value as inspection shows it; a box does not show what is in it. -/
def inspect : Packed → String
  | .unit => "Unit"
  | .bool b => Text.inspectCall "Bool" (toString b)
  | .int i => Text.inspectCall "Int" (toString i)
  | .float x => Text.inspectCall "Float" x.inspect
  | .char c => Text.inspectCall "Char" (Text.inspectChar c)
  | .string s => Text.inspectCall "String" (Text.inspectString s)
  | .array items => Text.inspectCall "Array" (Text.inspectList (items.map inspect))
  | .boxed _ _ => Text.inspectCall "Any" ".."

end Packed

/-- Rebuild a value of the given type: integers have to be in range, boxes of the very type, and all
items of an array good. A float of the narrower format is rounded to. -/
def unpack : (t : Tag) → Packed → Option t.Value
  | .unit, .unit => some ()
  | .bool, .bool b => some b
  | .int k, .int i => k.ofInt? i
  | .float .single, .float x => some x.narrow
  | .float .double, .float x => some x
  | .char, .char c => some c
  | .string, .string s => some s
  | .array t, .array items => items.mapM (unpack t)
  | .cell t, a => a.unbox? (.cell t)
  | .sealed name s, a => a.unbox? (.sealed name s)
  | _, _ => none

/-- A value together with its type. -/
structure Datum where
  tag : Tag
  value : tag.Value

/-- The value, if it has that type. -/
def Datum.as? (d : Datum) (t : Tag) : Option t.Value :=
  if h : d.tag = t then some (h ▸ d.value) else none

end Dataflow
