import Dataflow.Number.Numeral
import Dataflow.Text.Inspect
import Dataflow.Toml.Reader

/-!
# Quoted text

Text stands between quotes: between double ones with escapes, between single ones as it is, and between
three of a kind also over several lines. Written text takes the plainest form that shows it.
-/

namespace Dataflow.Toml

open Numeral (isHexDigit ofDigits)

/-- A character that stands for itself between double quotes. -/
def isBasicChar (c : Char) : Bool := isCommentChar c && c != '"' && c != '\\'

/-- A character that may stand between single quotes. -/
def isLiteralChar (c : Char) : Bool := isCommentChar c && c != '\''

namespace Reader

/-- So many digits. -/
def digitsOf (belongs : Char → Bool) : Nat → Reader (List Char)
  | 0 => pure []
  | n + 1 => do return (← one belongs) :: (← digitsOf belongs n)

/-- The character whose code is written in so many digits. -/
def codePoint (width : Nat) : Reader Char := do
  let n := ofDigits 16 (← digitsOf isHexDigit width)
  if n.isValidChar then return Char.ofNat n else failure

/-- The character that stands behind a backslash. -/
def escaped : Reader Char := do
  exactly "\\"
  match ← one fun _ => true with
  | 'b' => return '\x08'
  | 'f' => return '\x0c'
  | 'n' => return '\n'
  | 'r' => return '\r'
  | 't' => return '\t'
  | '"' => return '"'
  | '\\' => return '\\'
  | 'u' => codePoint 4
  | 'U' => codePoint 8
  | _ => failure

/-- Text between double quotes, on one line. -/
def basic : Reader String := do
  exactly "\""
  let cs ← many (one isBasicChar <|> escaped)
  exactly "\""
  return String.ofList cs

/-- Text between single quotes, on one line. -/
def literal : Reader String := do
  exactly "'"
  let cs ← span isLiteralChar
  exactly "'"
  return String.ofList cs

/-- One or two quotes that do not end the text. -/
def innerQuotes (quote : Char) : Reader (List Char) :=
  (do
    exactly (String.ofList [quote, quote])
    before (· == quote)
    return [quote, quote]) <|>
  (do
    exactly (String.ofList [quote])
    before (· == quote)
    return [quote])

/-- Three quotes that end the text. Up to two before them belong to it. -/
def closingQuotes (quote : Char) : Reader (List Char) :=
  let ending (more : Nat) : Reader (List Char) := do
    exactly (String.ofList (List.replicate (more + 3) quote))
    return List.replicate more quote
  ending 2 <|> ending 1 <|> ending 0

/-- A backslash that joins lines, and the white space up to what follows. -/
def joint : Reader (List Char) := do
  exactly "\\"
  spaces
  newline
  let _ ← many (newline <|> do
    let _ ← span1 isSpace)
  return []

/-- The end of a line as part of a text. -/
def lineBreak : Reader (List Char) := do
  newline
  return ['\n']

/-- Text between three quotes of a kind; the end of a line right after the first three does not
count. -/
def block (quote : Char) (part : Reader (List Char)) : Reader String := do
  exactly (String.ofList [quote, quote, quote])
  let _ ← optional newline
  let parts ← many (part <|> lineBreak <|> innerQuotes quote)
  let rest ← closingQuotes quote
  return String.ofList (parts.flatten ++ rest)

/-- Text in any form. -/
def quoted : Reader String :=
  block '"' (span1 isBasicChar <|> joint <|> (do return [← escaped])) <|> basic <|>
    block '\'' (span1 isLiteralChar) <|> literal

end Reader

/-- The longest run of a character. -/
def longestRun (c : Char) (s : List Char) : Nat :=
  (s.foldl (fun (longest, run) d =>
    let run := if d == c then run + 1 else 0
    (max longest run, run)) (0, 0)).1

/-- A control character that has no place in text between single quotes. -/
def isControl (c : Char) : Bool := (c.toNat ≤ 0x1F || c.toNat == 0x7F) && c != '\t' && c != '\n'

/-- Text between double quotes. Quotes that follow `bare` others and, unless `lines`, ends of lines are
escaped. -/
def escape (lines : Bool) (bare : Nat) : Nat → List Char → List Char
  | _, [] => []
  | run, c :: rest =>
    if c = '"' then
      if run < bare then '"' :: escape lines bare (run + 1) rest
      else '\\' :: '"' :: escape lines bare 0 rest
    else
      let shown : List Char :=
        if c = '\x08' then ['\\', 'b']
        else if c = '\t' then ['\\', 't']
        else if c = '\n' then (if lines then ['\n'] else ['\\', 'n'])
        else if c = '\x0c' then ['\\', 'f']
        else if c = '\r' then ['\\', 'r']
        else if c = '\\' then ['\\', '\\']
        else if isControl c then '\\' :: 'u' :: (Text.hexPadded 4 c.toNat).toList.map Char.toUpper
        else [c]
      shown ++ escape lines bare 0 rest

/-- Runs of quotes in a text that is written have at most this length. -/
def maxQuoteRun : Nat := 255

/-- The text can be written: no run of quotes is too long. -/
def isQuotable (text : String) : Bool :=
  longestRun '"' text.toList ≤ maxQuoteRun && longestRun '\'' text.toList ≤ maxQuoteRun

/-- Three quotes of a kind around a text that is already spelt; a text of several lines begins on a line of
its own. -/
def inBlock (quotes : String) (lines : Bool) (spelt : String) : String :=
  quotes ++ (if lines then "\n" else "") ++ spelt ++ quotes

/-- The text in quotes, in the plainest form that shows it: between double quotes without escapes, between
single quotes, between three double quotes without escapes, between three single quotes, and with
escapes. -/
def quote (text : String) : String :=
  let s := text.toList
  let controls := s.any isControl
  let slashes := s.contains '\\'
  let lines := s.contains '\n'
  let doubles := longestRun '"' s
  let singles := longestRun '\'' s
  let basic := "\"" ++ String.ofList (escape false 0 0 s) ++ "\""
  let basicBlock := inBlock "\"\"\"" lines (String.ofList (escape true 2 0 s))
  if !controls && !slashes && doubles == 0 && !lines then basic
  else if !controls && singles == 0 && !lines then "'" ++ text ++ "'"
  else if !controls && !slashes && doubles ≤ 2 then basicBlock
  else if !controls && singles ≤ 2 then inBlock "'''" lines text
  else if lines then basicBlock
  else basic

end Dataflow.Toml
