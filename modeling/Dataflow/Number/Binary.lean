/-!
# Binary floating point

A finite number of a format is a natural number of *units*, the unit being the format's smallest
positive number. A magnitude is representable iff it is a multiple of the gap at its size and at most
the largest finite one. All not-a-numbers are one. Conversion to the wider format is exact, to the
narrower one rounds to nearest, ties to even, and overflows to infinity.
-/

namespace Dataflow

-- powers are those of the core, whatever else is in scope
attribute [local instance (high)] instPowNat

/-- The two interchange formats. -/
inductive FloatFormat where
  | single
  | double
  deriving DecidableEq, Repr

namespace FloatFormat

/-- Stored bits of the significand. -/
def fractionBits : FloatFormat → Nat
  | .single => 23
  | .double => 52

/-- Bits of the biased exponent. -/
def exponentBits : FloatFormat → Nat
  | .single => 8
  | .double => 11

/-- The unit of the format is two to minus this. -/
def unitExponent : FloatFormat → Nat
  | .single => 149
  | .double => 1074

/-- Significant bits, the implied one included. -/
def precision (f : FloatFormat) : Nat := f.fractionBits + 1

/-- Neighbours of a magnitude of so many units are two to this many units apart. -/
def gapExponent (f : FloatFormat) (units : Nat) : Nat := units.log2 + 1 - f.precision

/-- The largest finite magnitude. -/
def largest (f : FloatFormat) : Nat := (2 ^ f.precision - 1) * 2 ^ (2 ^ f.exponentBits - 3 : Nat)

/-- The magnitude has an encoding in the format. -/
def Representable (f : FloatFormat) (units : Nat) : Prop :=
  units ≤ f.largest ∧ units % 2 ^ f.gapExponent units = 0

instance (f : FloatFormat) (units : Nat) : Decidable (f.Representable units) :=
  inferInstanceAs (Decidable (_ ∧ _))

end FloatFormat

/-- `n / d` rounded to the nearest natural number, a half to the even neighbour. -/
def roundHalfEven (n d : Nat) : Nat :=
  let low := n / d
  let twice := 2 * (n % d)
  if twice < d ∨ (twice = d ∧ low % 2 = 0) then low else low + 1

/-- A floating-point datum, payloads of not-a-numbers forgotten. -/
inductive Binary (f : FloatFormat) where
  | nan
  | infinite (negative : Bool)
  | finite (negative : Bool) (units : Nat) (representable : f.Representable units)
  deriving DecidableEq

namespace Binary

variable {f : FloatFormat}

/-- The finite datum of that magnitude, infinity where there is none. -/
def ofUnits (f : FloatFormat) (negative : Bool) (units : Nat) : Binary f :=
  if h : f.Representable units then .finite negative units h else .infinite negative

/-- The sign bit of an encoding. -/
def signWord (f : FloatFormat) (negative : Bool) : Nat :=
  if negative then 2 ^ (f.exponentBits + f.fractionBits) else 0

/-- Decode a word of the interchange format. -/
def ofBits (f : FloatFormat) (word : Nat) : Binary f :=
  let fraction := word % 2 ^ f.fractionBits
  let exponent := word / 2 ^ f.fractionBits % 2 ^ f.exponentBits
  let negative := word / 2 ^ (f.exponentBits + f.fractionBits) % 2 == 1
  if exponent = 2 ^ f.exponentBits - 1 then
    if fraction = 0 then .infinite negative else .nan
  else if exponent = 0 then ofUnits f negative fraction
  else ofUnits f negative ((2 ^ f.fractionBits + fraction) * 2 ^ (exponent - 1))

/-- Encode as a word of the interchange format; not-a-number is the quiet one. -/
def toBits : Binary f → Nat
  | .nan => (2 ^ (f.exponentBits + 1) - 1) * 2 ^ (f.fractionBits - 1)
  | .infinite negative => signWord f negative + (2 ^ f.exponentBits - 1) * 2 ^ f.fractionBits
  | .finite negative units _ =>
    let gap := f.gapExponent units
    signWord f negative + gap * 2 ^ f.fractionBits + units / 2 ^ gap

/-- Units of the double format in one unit of the single format, as a power of two. -/
def unitRatio : Nat := FloatFormat.double.unitExponent - FloatFormat.single.unitExponent

/-- The same number in the double format. -/
def widen : Binary .single → Binary .double
  | .nan => .nan
  | .infinite negative => .infinite negative
  | .finite negative units _ => ofUnits .double negative (units * 2 ^ unitRatio)

/-- The datum nearest to `n / d` units. -/
def ofUnitRatio (f : FloatFormat) (negative : Bool) (n d : Nat) : Binary f :=
  let gap := 2 ^ f.gapExponent (n / d)
  ofUnits f negative (roundHalfEven n (d * gap) * gap)

/-- The nearest number of the single format. -/
def narrow : Binary .double → Binary .single
  | .nan => .nan
  | .infinite negative => .infinite negative
  | .finite negative units _ => ofUnitRatio .single negative units (2 ^ unitRatio)

/-- The number nearest to the quotient of two natural numbers, the divisor not zero. -/
def ofRatio (f : FloatFormat) (n d : Nat) : Binary f :=
  ofUnitRatio f false (n * 2 ^ f.unitExponent) d

end Binary
end Dataflow
