import Dataflow.Named
import Dataflow.Number.Binary

/-!
# Values of a document

A document is a tree of tables. A table remembers how it came about, because that decides what may be
added to it later: no key is given a value twice, no table is opened twice, and what is written in braces
is closed.
-/

namespace Dataflow.Toml

/-- How a table came about. -/
inductive TableForm where
  /-- Opened by a header of its own. -/
  | header
  /-- On the way to a table that a header opened. -/
  | implied
  /-- By a key with dots. -/
  | dotted
  /-- Written in braces. -/
  | inline
  deriving DecidableEq, Repr

/-- A value. -/
inductive Value where
  | text (s : String)
  | integer (i : Int)
  | float (x : Binary .double)
  | truth (b : Bool)
  /-- A date, a time of day, or both. -/
  | moment
  | array (items : List Value)
  | table (form : TableForm) (members : List (String × Value))
  /-- Tables that headers in double brackets opened, one after another. -/
  | rows (tables : List (List (String × Value)))

/-- What a table holds. -/
abbrev Members := Named Value

/-- The names that lead to a value, never none: those before the last, and the last. -/
structure Key where
  way : List String
  last : String

namespace Members

/-- A key with dots may lead into a table of that form, or a header below it. -/
def isPassable (missing found : TableForm) : Bool :=
  match missing, found with
  | _, .inline => false
  | .dotted, .header => false
  | _, _ => true

/-- Change the table at the end of a way. Tables missing on the way come about in the form `missing`, and
of several rows the last one is meant. -/
def changeAt (missing : TableForm) (change : TableForm → Members → Option Members) :
    List String → TableForm → Members → Option Members
  | [], form, members => change form members
  | name :: rest, _, members =>
    match members.lookup name with
    | none => do
      let inner ← changeAt missing change rest missing []
      return members.put name (.table missing inner)
    | some (.table form inner) =>
      if isPassable missing form then do
        let inner ← changeAt missing change rest form inner
        return members.put name (.table form inner)
      else none
    | some (.rows tables) =>
      match tables.getLast? with
      | none => none
      | some inner => do
        let inner ← changeAt missing change rest .header inner
        return members.put name (.rows (tables.dropLast ++ [inner]))
    | some _ => none

/-- Give a key a value. A table on its way that was not made by a key with dots is no place for one. -/
def assign (key : Key) (v : Value) (form : TableForm) (members : Members) : Option Members :=
  changeAt .dotted (fun found inner =>
    if (found == .dotted) == key.way.isEmpty then none
    else if (inner.lookup key.last).isSome then none
    else some (inner.put key.last v)) key.way form members

/-- Open a table. -/
def openTable (key : Key) (members : Members) : Option Members :=
  changeAt .implied (fun _ inner =>
    match inner.lookup key.last with
    | none => some (inner.put key.last (.table .header []))
    | some (.table .implied found) => some (inner.put key.last (.table .header found))
    | some _ => none) key.way .header members

/-- Open one more row. -/
def openRow (key : Key) (members : Members) : Option Members :=
  changeAt .implied (fun _ inner =>
    match inner.lookup key.last with
    | none => some (inner.put key.last (.rows [[]]))
    | some (.rows tables) => some (inner.put key.last (.rows (tables ++ [[]])))
    | some _ => none) key.way .header members

end Members
end Dataflow.Toml
