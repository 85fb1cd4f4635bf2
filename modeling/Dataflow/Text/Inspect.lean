import Dataflow.Text.Classes

/-!
# Inspection text

How values are shown for inspection: quoted strings and characters, and the forms
`Name(field)`, `Name ⟨field: value⟩` (with braces) and `[item, item]`.
-/

namespace Dataflow.Text

/-- Lower-case hexadecimal without leading zeros. -/
def hex (n : Nat) : String :=
  String.ofList (Nat.toDigits 16 n)

/-- Lower-case hexadecimal, filled up with zeros to `width` digits. -/
def hexPadded (width n : Nat) : String :=
  let digits := Nat.toDigits 16 n
  String.ofList (List.replicate (width - digits.length) '0' ++ digits)

/-- One character inside quotes `quote`: control characters by their short names, the quote and the
backslash behind a backslash, whatever has no form of its own by its code point. -/
def escapeChar (quote c : Char) : String :=
  if c = '\x00' then "\\0"
  else if c = '\t' then "\\t"
  else if c = '\r' then "\\r"
  else if c = '\n' then "\\n"
  else if c = '\\' ∨ c = quote then "\\" ++ c.toString
  else if isPrintable c && !isExtender c then c.toString
  else "\\u\x7b" ++ hex c.toNat ++ "\x7d"

/-- A string in double quotes. -/
def inspectString (s : String) : String :=
  "\"" ++ String.join (s.toList.map (escapeChar '"')) ++ "\""

/-- A character in single quotes. -/
def inspectChar (c : Char) : String :=
  "'" ++ escapeChar '\'' c ++ "'"

/-- A name with its single field in parentheses. -/
def inspectCall (name field : String) : String :=
  name ++ "(" ++ field ++ ")"

/-- Items in brackets. -/
def inspectList (items : List String) : String :=
  "[" ++ ", ".intercalate items ++ "]"

/-- A name with its fields in braces. -/
def inspectRecord (name : String) (fields : List (String × String)) : String :=
  name ++ " \x7b " ++ ", ".intercalate (fields.map fun (key, value) => key ++ ": " ++ value) ++ " \x7d"

end Dataflow.Text
