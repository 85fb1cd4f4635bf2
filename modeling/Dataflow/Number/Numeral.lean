/-!
# Numerals

The number that digits of a base denote, and numbers read off a text that holds nothing else. A plus sign
may stand before the digits of such a text, and before those of a signed number also a minus sign.
-/

namespace Dataflow.Numeral

/-- A hexadecimal digit. -/
def isHexDigit (c : Char) : Bool :=
  c.isDigit || ('a' ≤ c && c ≤ 'f') || ('A' ≤ c && c ≤ 'F')

/-- The value of a digit of a base up to sixteen. -/
def digitValue (c : Char) : Nat :=
  if c.isDigit then c.toNat - '0'.toNat
  else if 'a' ≤ c then c.toNat - 'a'.toNat + 10
  else c.toNat - 'A'.toNat + 10

/-- The number that digits of a base denote. -/
def ofDigits (base : Nat) (digits : List Char) : Nat :=
  digits.foldl (fun n c => base * n + digitValue c) 0

/-- The number that one or more decimal digits denote. -/
def digits? (s : List Char) : Option Nat :=
  if s ≠ [] ∧ s.all Char.isDigit then some (ofDigits 10 s) else none

/-- The number, if it is below the bound. -/
def nat? (bound : Nat) (s : List Char) : Option Nat :=
  let n? := match s with
    | '+' :: rest => digits? rest
    | _ => digits? s
  n?.filter (· < bound)

/-- The signed number. -/
def int? : List Char → Option Int
  | '-' :: rest => (digits? rest).map fun n => -(n : Int)
  | '+' :: rest => (digits? rest).map Int.ofNat
  | s => (digits? s).map Int.ofNat

end Dataflow.Numeral
