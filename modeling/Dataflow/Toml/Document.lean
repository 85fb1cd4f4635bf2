import Dataflow.Toml.Scalar

/-!
# Documents

A document is read line by line: headers open tables, and the lines below give keys of the opened table
their values.
-/

namespace Dataflow.Toml

/-- A line that says something. -/
inductive Statement where
  | assign (key : Key) (value : Value)
  | table (key : Key)
  | row (key : Key)

/-- Arrays and tables in braces are nested at most this deep. -/
def maxDepth : Nat := 79

/-- Keys have at most this many names. -/
def maxNames : Nat := 79

/-- A key of one or more names. -/
def Key.ofNames? (names : List String) : Option Key :=
  names.getLast?.map fun last => ⟨names.dropLast, last⟩

/-- A character of a name that needs no quotes. -/
def isNameChar (c : Char) : Bool := c.isAlphanum || c == '-' || c == '_'

namespace Reader

/-- One name of a key. -/
def name : Reader String := (String.ofList <$> span1 isNameChar) <|> basic <|> literal

/-- A key: names with dots between them, and white space around. -/
def key : Reader Key := do
  let names ← separated (spaces *> name <* spaces) (exactly ".")
  if names.length ≤ maxNames then ofOption (Key.ofNames? names) else failure

/-- A key and, behind an equals sign, its value. -/
def assignment (value : Reader Value) : Reader (Key × Value) := do
  let k ← key
  exactly "="
  spaces
  return (k, ← value)

/-- Values in brackets. -/
def array (value : Reader Value) : Reader Value := do
  exactly "["
  let items ← separated (blank *> value <* blank) (exactly ",")
  if !items.isEmpty then
    let _ ← optional (exactly ",")
  blank
  exactly "]"
  return .array items

/-- Keys and their values in braces. -/
def inlineTable (value : Reader Value) : Reader Value := do
  exactly "\x7b"
  let pairs ← separated (assignment value <* spaces) (exactly ",")
  spaces
  exactly "\x7d"
  let members ← ofOption (pairs.foldlM (fun members (k, v) => Members.assign k v .inline members) [])
  return .table .inline members

/-- A value, in which others are nested at most so deep. -/
def value : Nat → Reader Value
  | 0 => scalar
  | depth + 1 => scalar <|> array (value depth) <|> inlineTable (value depth)

/-- The end of a line, or of the text. -/
def lineEnd : Reader Unit := do
  trailing
  newline <|> finish

/-- A line that says something. -/
def statement : Reader Statement := do
  spaces
  let s ←
    (do
      exactly "[["
      let k ← key
      exactly "]]"
      return .row k) <|>
    (do
      exactly "["
      let k ← key
      exactly "]"
      return .table k) <|>
    (do
      let (k, v) ← assignment (value maxDepth)
      return .assign k v)
  lineEnd
  return s

/-- A line, whether it says something or not. -/
def line : Reader (Option Statement) :=
  (some <$> statement) <|> do
    trailing
    newline
    return none

/-- The lines of a text; a mark of the order of bytes may stand in front. -/
def lines : Reader (List Statement) := do
  let _ ← optional (exactly "\uFEFF")
  let found ← many line
  trailing
  finish
  return found.filterMap id

end Reader

/-- A table as far as it is read, and the way from the root to the one opened last. -/
structure Draft where
  members : Members := []
  opened : List String := []

namespace Draft

/-- The way to what a key names. -/
def wayTo (key : Key) : List String := key.way ++ [key.last]

/-- What a line adds. -/
def add (d : Draft) : Statement → Option Draft
  | .table key => (d.members.openTable key).map fun members => ⟨members, wayTo key⟩
  | .row key => (d.members.openRow key).map fun members => ⟨members, wayTo key⟩
  | .assign key v =>
    (d.members.changeAt .implied (Members.assign key v) d.opened .header).map fun members =>
      ⟨members, d.opened⟩

end Draft

/-- The table that a text describes. -/
def ofText? (text : String) : Option Members := do
  let (statements, _) ← Reader.lines text.toList
  let draft ← statements.foldlM Draft.add {}
  return draft.members

end Dataflow.Toml
