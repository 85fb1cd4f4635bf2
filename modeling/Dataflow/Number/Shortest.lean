import Dataflow.Number.Binary

/-!
# Shortest decimal text

The decimal with the fewest digits that rounds to a given binary magnitude, of those the nearest; a
half goes up. Found by testing, for one digit and more, the two neighbours of the magnitude on the
decimal grid with that many digits, in exact arithmetic.
-/

namespace Dataflow

/-- A positive decimal `0.digits × 10 ^ exponent`. -/
structure Decimal where
  digits : List Nat
  exponent : Int
  deriving DecidableEq, Repr

/-- A magnitude and the ends of the interval of reals that round to it, over one denominator. -/
structure RoundingInterval where
  low : Nat
  value : Nat
  high : Nat
  denominator : Nat
  /-- The ends themselves round to the value. -/
  closed : Bool

namespace RoundingInterval

-- powers are those of the core, whatever else is in scope
attribute [local instance (high)] instPowNat

/-- The interval of a nonzero magnitude: half a gap to each side, a quarter below a power of two. -/
def ofUnits (f : FloatFormat) (units : Nat) : RoundingInterval :=
  let gap := 2 ^ f.gapExponent units
  let significand := units / gap
  let below := if significand = 2 ^ f.fractionBits ∧ 1 < gap then gap else 2 * gap
  { low := 4 * units - below, value := 4 * units, high := 4 * units + 2 * gap
    denominator := 4 * 2 ^ f.unitExponent, closed := significand % 2 == 0 }

/-- The number of digits before the point, negative for leading zeros after it. -/
def magnitude (r : RoundingInterval) : Int :=
  if r.denominator ≤ r.value then (Nat.toDigits 10 (r.value / r.denominator)).length
  else
    match (List.range 400).find? fun zeros => r.denominator ≤ r.value * 10 ^ zeros with
    | some zeros => 1 - zeros
    | none => 0

/-- Numerators and denominator after division by `10 ^ position`. -/
def scale (r : RoundingInterval) (position : Int) : RoundingInterval :=
  match position with
  | .ofNat n => { r with denominator := r.denominator * 10 ^ n }
  | .negSucc n =>
    let factor := 10 ^ (n + 1)
    { r with low := r.low * factor, value := r.value * factor, high := r.high * factor }

/-- The natural number lies in the interval. -/
def holds (r : RoundingInterval) (n : Nat) : Bool :=
  let scaled := n * r.denominator
  if r.closed then r.low ≤ scaled && scaled ≤ r.high else r.low < scaled && scaled < r.high

/-- The nearest natural number of the two neighbours of the value that lie in the interval. -/
def neighbour? (r : RoundingInterval) : Option Nat :=
  let down := r.value / r.denominator
  let rest := r.value % r.denominator
  match r.holds down, r.holds (down + 1) with
  | true, true => some (if 2 * rest < r.denominator then down else down + 1)
  | true, false => some down
  | false, true => some (down + 1)
  | false, false => none

end RoundingInterval

/-- Decimal digits, without the zeros at the end. -/
def significantDigits (n : Nat) : List Nat :=
  (((Nat.toDigits 10 n).map fun c => c.toNat - '0'.toNat).reverse.dropWhile (· == 0)).reverse

/-- The shortest decimal that rounds to a nonzero magnitude; seventeen digits always suffice. -/
def Decimal.shortest (f : FloatFormat) (units : Nat) : Decimal :=
  let interval := RoundingInterval.ofUnits f units
  let magnitude := interval.magnitude
  let candidates := (List.range 17).filterMap fun n =>
    let position := magnitude - (n + 1 : Nat)
    ((interval.scale position).neighbour?).map fun found =>
      { digits := significantDigits found
        exponent := position + (Nat.toDigits 10 found).length : Decimal }
  candidates.headD { digits := [0], exponent := 1 }

/-- Where positional text ends: smaller and larger exponents are written after an `e`. -/
structure FloatText where
  leastPositional : Int
  greatestPositional : Int

/-- Positional from a ten-thousandth up to, not including, ten to the sixteenth. -/
def FloatText.inspection : FloatText := ⟨-3, 16⟩

/-- Digits as text. -/
def digitText (digits : List Nat) : String :=
  String.ofList (digits.map Nat.digitChar)

/-- A positive decimal as text, with at least one digit after the point when positional. -/
def Decimal.text (style : FloatText) (d : Decimal) : String :=
  if d.exponent < style.leastPositional ∨ style.greatestPositional < d.exponent then
    let fraction := d.digits.drop 1
    digitText (d.digits.take 1) ++ (if fraction.isEmpty then "" else "." ++ digitText fraction)
      ++ "e" ++ toString (d.exponent - 1)
  else if d.exponent ≤ 0 then
    "0." ++ digitText (List.replicate (-d.exponent).toNat 0 ++ d.digits)
  else
    let whole := d.exponent.toNat
    let padded := d.digits ++ List.replicate (whole - d.digits.length) 0
    let fraction := padded.drop whole
    digitText (padded.take whole) ++ "." ++ (if fraction.isEmpty then "0" else digitText fraction)

/-- A number as inspection shows it. -/
def Binary.inspect {f : FloatFormat} : Binary f → String
  | .nan => "NaN"
  | .infinite negative => if negative then "-inf" else "inf"
  | .finite negative units _ =>
    (if negative then "-" else "") ++
      (if units = 0 then "0.0" else (Decimal.shortest f units).text .inspection)

end Dataflow
