import Dataflow.Toml.Quoted
import Dataflow.Toml.Value

/-!
# Plain values

Texts, truth values, whole numbers, floats, and moments: dates and times of day.
-/

namespace Dataflow.Toml

-- powers are those of the core, whatever else is in scope
attribute [local instance (high)] instPowNat

open Numeral (isHexDigit ofDigits)

/-- The number of days of a month. -/
def daysOf (year month : Nat) : Nat :=
  if month = 2 then
    if year % 4 = 0 ∧ (year % 100 ≠ 0 ∨ year % 400 = 0) then 29 else 28
  else if month = 4 ∨ month = 6 ∨ month = 9 ∨ month = 11 then 30
  else 31

/-- Decimal exponents beyond this lead out of the range of floats. -/
def exponentLimit : Nat := 400

/-- The float nearest to a decimal number: its digits as one number, and the power of ten to multiply
with. -/
def nearestFloat (negative : Bool) (digits : Nat) (exponent : Int) : Binary .double :=
  let position := (Nat.toDigits 10 digits).length + exponent
  let magnitude : Binary .double :=
    if digits = 0 ∨ position < -(exponentLimit : Int) then .ofUnits .double false 0
    else if position > exponentLimit then .infinite false
    else if 0 ≤ exponent then .ofRatio .double (digits * 10 ^ exponent.toNat) 1
    else .ofRatio .double digits (10 ^ (-exponent).toNat)
  match magnitude with
  | .nan => .nan
  | .infinite _ => .infinite negative
  | .finite _ units _ => .ofUnits .double negative units

namespace Reader

/-- A decimal number of so many digits, at least `low` and at most `high`. -/
def field (width low high : Nat) : Reader Nat := do
  let n := ofDigits 10 (← digitsOf Char.isDigit width)
  if low ≤ n ∧ n ≤ high then return n else failure

/-- A date. -/
def date : Reader Unit := do
  let year ← field 4 0 9999
  exactly "-"
  let month ← field 2 1 12
  exactly "-"
  let _ ← field 2 1 (daysOf year month)

/-- A time of day; a minute may have a leap second. -/
def timeOfDay : Reader Unit := do
  let _ ← field 2 0 23
  exactly ":"
  let _ ← field 2 0 59
  exactly ":"
  let _ ← field 2 0 60
  let _ ← optional (do
    exactly "."
    let _ ← span1 Char.isDigit)

/-- The distance from universal time. -/
def offset : Reader Unit :=
  (do let _ ← one fun c => c == 'Z' || c == 'z') <|> do
    let _ ← one fun c => c == '+' || c == '-'
    let _ ← field 2 0 23
    exactly ":"
    let _ ← field 2 0 59

/-- A date, perhaps with a time, or a time. -/
def moment : Reader Unit :=
  (do
    date
    let _ ← optional (do
      let _ ← one fun c => c == 'T' || c == 't' || c == ' '
      timeOfDay
      optional offset)) <|>
  timeOfDay

/-- Digits, with single low lines between them. -/
def digitGroups (belongs : Char → Bool) : Reader (List Char) := do
  let first ← one belongs
  let rest ← many (one belongs <|> do
    exactly "_"
    one belongs)
  return first :: rest

/-- A sign, if there is one; whether it is a minus. -/
def sign : Reader Bool :=
  (do
    exactly "-"
    return true) <|>
  (do
    exactly "+"
    return false) <|>
  pure false

/-- A decimal number without zeros in front. -/
def decimal : Reader (List Char) :=
  (do
    before fun c => !c.isDigit || c == '0'
    digitGroups Char.isDigit) <|>
  (do return [← one Char.isDigit])

/-- An exponent of ten. -/
def exponent : Reader Int := do
  let _ ← one fun c => c == 'e' || c == 'E'
  let negative ← sign
  let n := ofDigits 10 (← digitGroups Char.isDigit)
  return if negative then -(n : Int) else n

/-- The digits behind a point. -/
def fraction : Reader (List Char) := do
  exactly "."
  digitGroups Char.isDigit

/-- A float with a fraction, an exponent or both. Beyond the largest one there is none. -/
def finiteFloat : Reader (Binary .double) := do
  let negative ← sign
  let whole ← decimal
  let behind ← optional fraction
  let power ← optional exponent
  if behind.isNone && power.isNone then failure
  let digits := ofDigits 10 (whole ++ behind.getD [])
  let x := nearestFloat negative digits (power.getD 0 - (behind.getD []).length)
  if x = .infinite false then failure else return x

/-- An infinity, or not a number. -/
def namedFloat : Reader (Binary .double) := do
  let negative ← sign
  (do
    exactly "inf"
    return .infinite negative) <|>
  (do
    exactly "nan"
    return .nan)

/-- Digits of a base behind its mark. -/
def ofBase (mark : String) (base : Nat) (belongs : Char → Bool) : Reader Int := do
  exactly mark
  return ofDigits base (← digitGroups belongs)

/-- A whole number in base sixteen, eight, two or ten. -/
def integer : Reader Int := do
  let n ← ofBase "0x" 16 isHexDigit <|> ofBase "0o" 8 (fun c => '0' ≤ c && c ≤ '7') <|>
    ofBase "0b" 2 (fun c => c == '0' || c == '1') <|> do
      let negative ← sign
      let n := ofDigits 10 (← decimal)
      return if negative then -(n : Int) else n
  if -(2 ^ (63 : Nat)) ≤ n ∧ n < 2 ^ (63 : Nat) then return n else failure

/-- A value that holds no others. -/
def scalar : Reader Value :=
  .text <$> quoted <|>
    (do
      exactly "true"
      return .truth true) <|>
    (do
      exactly "false"
      return .truth false) <|>
    (do
      moment
      return .moment) <|>
    .float <$> finiteFloat <|> .float <$> namedFloat <|> .integer <$> integer

end Reader
end Dataflow.Toml
