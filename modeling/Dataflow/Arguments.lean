import Dataflow.Error
import Dataflow.Value

/-!
# Packed argument lists

An argument is a packed value under the tag of the type it was packed from. A reader takes arguments
one after the other, and a mismatching one is consumed all the same; `Arguments.unpack` takes them all.
-/

namespace Dataflow

variable [SealedTypes]

/-- A packed value with its type. -/
structure Argument where
  tag : Tag
  value : Packed

namespace Argument

/-- Pack a value under its type. -/
def ofValue (t : Tag) (v : t.Value) : Argument := ⟨t, pack t v⟩

/-- Take the value out as type `t`; `index` is only reported. -/
def take (a : Argument) (t : Tag) (index : Nat) : Except RuntimeError t.Value :=
  if a.tag ≠ t then .error (.typeMismatch index t a.tag)
  else
    match unpack t a.value with
    | some v => .ok v
    | none => .error (.typeMismatch index t a.tag)

/-- The argument as inspection shows it. -/
def inspect (a : Argument) : String :=
  Text.inspectRecord "ArgSlot" [("tag", a.tag.inspect), ("value", a.value.inspect)]

end Argument

/-- The arguments of a task, in order. -/
structure Arguments where
  slots : List Argument := []

/-- What is left of an argument list, read from the front. -/
structure ArgumentReader where
  arity : Nat
  index : Nat
  rest : List Argument

/-- Values of the given types, in order. -/
def Values : List Tag → Type
  | [] => Unit
  | t :: ts => t.Value × Values ts

namespace ArgumentReader

/-- Take the next argument as type `t`. Past the end nothing changes. -/
def next (r : ArgumentReader) (t : Tag) : Except RuntimeError t.Value × ArgumentReader :=
  match r.rest with
  | [] => (.error (.arityMismatch r.arity r.index), r)
  | a :: rest => (a.take t r.index, { r with index := r.index + 1, rest })

/-- Take one argument of each type; the first error ends it. -/
def nextAll (r : ArgumentReader) : (ts : List Tag) → Except RuntimeError (Values ts)
  | [] => .ok ()
  | t :: ts =>
    match r.next t with
    | (.error e, _) => .error e
    | (.ok v, r') =>
      match r'.nextAll ts with
      | .error e => .error e
      | .ok vs => .ok (v, vs)

end ArgumentReader

namespace Arguments

/-- How many there are. -/
def size (a : Arguments) : Nat := a.slots.length

/-- Append one more. -/
def push (a : Arguments) (t : Tag) (v : t.Value) : Arguments := ⟨a.slots ++ [.ofValue t v]⟩

/-- The types, in order. -/
def types (a : Arguments) : List Tag := a.slots.map (·.tag)

/-- Pack values of the given types. -/
def ofValues : (ts : List Tag) → Values ts → Arguments
  | [], () => {}
  | t :: ts, (v, vs) => ⟨.ofValue t v :: (ofValues ts vs).slots⟩

/-- Start reading, if there are `arity` arguments. -/
def reader (a : Arguments) (arity : Nat) : Except RuntimeError ArgumentReader :=
  if a.size ≠ arity then .error (.arityMismatch arity a.size)
  else .ok { arity, index := 0, rest := a.slots }

/-- All arguments as values of the given types: the number is checked first, then each type from the
front. -/
def unpack (a : Arguments) (ts : List Tag) : Except RuntimeError (Values ts) :=
  match a.reader ts.length with
  | .error e => .error e
  | .ok r => r.nextAll ts

/-- Unpack the arguments and call `core` on them. The call may have effects of its own, and what it gives, the
body of a task, is handed on as it is. -/
def run {m : Type → Type} [Monad m] {F : Type} (a : Arguments) (ts : List Tag) (core : Values ts → m F) :
    m (Except RuntimeError F) :=
  match a.unpack ts with
  | .error e => pure (.error e)
  | .ok vs => Except.ok <$> core vs

/-- The list as inspection shows it. -/
def inspect (a : Arguments) : String :=
  Text.inspectRecord "Params" [("slots", Text.inspectList (a.slots.map (·.inspect)))]

end Arguments
end Dataflow
