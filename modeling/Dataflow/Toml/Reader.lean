/-!
# Readers

A reader takes a value off the front of a text, or refuses and takes nothing.
-/

namespace Dataflow.Toml

/-- Reads a value off the front of a text. -/
abbrev Reader := StateT (List Char) Option

namespace Reader

variable {α : Type}

/-- One character of a class. -/
def one (belongs : Char → Bool) : Reader Char := fun
  | c :: rest => if belongs c then some (c, rest) else none
  | [] => none

/-- As many characters of a class as there are. -/
def span (belongs : Char → Bool) : Reader (List Char) := fun s =>
  some (s.takeWhile belongs, s.dropWhile belongs)

/-- As many characters of a class as there are, and one at least. -/
def span1 (belongs : Char → Bool) : Reader (List Char) := do
  return (← one belongs) :: (← span belongs)

/-- These characters. -/
def exactly (text : String) : Reader Unit := fun s =>
  if text.toList.isPrefixOf s then some ((), s.drop text.length) else none

/-- The character that comes next stays; it must be there and not be of the class. -/
def before (belongs : Char → Bool) : Reader Unit := fun
  | c :: rest => if belongs c then none else some ((), c :: rest)
  | [] => none

/-- The end of the text. -/
def finish : Reader Unit := fun
  | [] => some ((), [])
  | _ => none

/-- What the reader takes, if it does not refuse. -/
def optional (r : Reader α) : Reader (Option α) := (some <$> r) <|> pure none

/-- What the reader takes again and again, at most so many times. -/
def manyUpTo (r : Reader α) : Nat → Reader (List α)
  | 0 => pure []
  | n + 1 => (do return (← r) :: (← manyUpTo r n)) <|> pure []

/-- What the reader takes again and again. The reader must take something each time. -/
def many (r : Reader α) : Reader (List α) := do manyUpTo r (← get).length

/-- What the reader takes, with other things in between. -/
def separated (r : Reader α) (between : Reader Unit) : Reader (List α) :=
  (do return (← r) :: (← many (between *> r))) <|> pure []

/-- The characters that the reader takes. -/
def taken (r : Reader Unit) : Reader (List Char) := fun s =>
  (r s).map fun (_, rest) => (s.take (s.length - rest.length), rest)

/-- A value that may be none. -/
def ofOption : Option α → Reader α
  | some a => pure a
  | none => failure

end Reader

/-- No character of the seven-bit set. -/
def isWide (c : Char) : Bool := 0x80 ≤ c.toNat

/-- A character of a comment: no control character but the tabulator. -/
def isCommentChar (c : Char) : Bool := c == '\t' || (0x20 ≤ c.toNat && c.toNat ≤ 0x7E) || isWide c

/-- White space within a line. -/
def isSpace (c : Char) : Bool := c == ' ' || c == '\t'

namespace Reader

/-- White space within a line. -/
def spaces : Reader Unit := do let _ ← span isSpace

/-- The end of a line. -/
def newline : Reader Unit := exactly "\n" <|> exactly "\r\n"

/-- A comment, up to the end of its line. -/
def comment : Reader Unit := do
  exactly "#"
  let _ ← span isCommentChar

/-- White space and perhaps a comment. -/
def trailing : Reader Unit := do
  spaces
  let _ ← optional comment

/-- White space, comments and ends of lines. -/
def blank : Reader Unit := do
  spaces
  let _ ← many (do
    let _ ← optional comment
    newline
    spaces)

end Reader
end Dataflow.Toml
