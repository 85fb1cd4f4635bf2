import Dataflow.Number.Binary

/-!
# Type tags

The types that values handed to a task may have, as data. A tag is compared when a value is taken out
of its slot, and its text names the type in error messages.
-/

namespace Dataflow

-- powers are those of the core, whatever else is in scope
attribute [local instance (high)] instPowNat

/-- Sizes of integers; `word` is the machine's, 64 bits. -/
inductive IntSize where
  | bits8
  | bits16
  | bits32
  | bits64
  | word
  deriving DecidableEq, Repr

/-- How many bits an integer of the size has. -/
def IntSize.bits : IntSize → Nat
  | .bits8 => 8
  | .bits16 => 16
  | .bits32 => 32
  | .bits64 => 64
  | .word => 64

/-- An integer type: signed or not, and its size. -/
structure IntKind where
  signed : Bool
  size : IntSize
  deriving DecidableEq, Repr

namespace IntKind

/-- The least value. -/
def low (k : IntKind) : Int := if k.signed then -(2 ^ (k.size.bits - 1)) else 0

/-- The greatest value. -/
def high (k : IntKind) : Int :=
  if k.signed then 2 ^ (k.size.bits - 1) - 1 else 2 ^ k.size.bits - 1

/-- The number is a value of the type. -/
def InRange (k : IntKind) (i : Int) : Prop := k.low ≤ i ∧ i ≤ k.high

instance (k : IntKind) (i : Int) : Decidable (k.InRange i) := inferInstanceAs (Decidable (_ ∧ _))

/-- Values of the type. -/
abbrev Value (k : IntKind) : Type := { i : Int // k.InRange i }

/-- The value with that number, if there is one. -/
def ofInt? (k : IntKind) (i : Int) : Option k.Value :=
  if h : k.InRange i then some ⟨i, h⟩ else none

theorem two_pow_pred (n : Nat) (h : 0 < n) : (2 : Int) ^ n = 2 * 2 ^ (n - 1) := by
  obtain ⟨m, rfl⟩ : ∃ m, n = m + 1 := ⟨n - 1, by omega⟩
  simp [Int.pow_succ, Int.mul_comm]

/-- The value congruent to the number modulo two to the width. -/
def wrap (k : IntKind) (i : Int) : k.Value :=
  let m := 2 ^ k.size.bits
  let r := i % (m : Nat)
  if h : k.InRange r then ⟨r, h⟩
  else ⟨r - (m : Nat), by
    have hm : ((m : Nat) : Int) = 2 ^ k.size.bits := by simp [m]
    have hpos : (0 : Int) < (m : Nat) := by rw [hm]; exact Int.pow_pos (by omega)
    have h0 : 0 ≤ r := Int.emod_nonneg _ (by omega)
    have h1 : r < (m : Nat) := Int.emod_lt_of_pos _ hpos
    have hb : 0 < k.size.bits := by cases k.size <;> decide
    have hp := two_pow_pred k.size.bits hb
    simp only [InRange, low, high] at h ⊢
    cases hs : k.signed
    all_goals
      simp only [hs, Bool.false_eq_true, if_false, if_true] at h ⊢
      omega⟩

/-- The type's name. -/
def text (k : IntKind) : String :=
  let sign := if k.signed then "i" else "u"
  match k.size with
  | .bits8 => sign ++ "8"
  | .bits16 => sign ++ "16"
  | .bits32 => sign ++ "32"
  | .bits64 => sign ++ "64"
  | .word => sign ++ "size"

/-- The name as inspection shows it, with capitals. -/
def inspect (k : IntKind) : String :=
  let sign := if k.signed then "I" else "U"
  match k.size with
  | .bits8 => sign ++ "8"
  | .bits16 => sign ++ "16"
  | .bits32 => sign ++ "32"
  | .bits64 => sign ++ "64"
  | .word => sign ++ "Size"

end IntKind

/-- The identities of types that are known by name and identity only. -/
inductive Sealed where
  | number
  | text
  deriving DecidableEq, Repr

/-- A type tag. -/
inductive Tag where
  | unit
  | bool
  | int (kind : IntKind)
  | float (format : FloatFormat)
  | char
  | string
  | array (element : Tag)
  /-- A handle to a cell with payload of that type. -/
  | cell (payload : Tag)
  /-- A sealed type; the name is part of the tag. -/
  | sealed (name : String) (identity : Sealed)
  deriving DecidableEq, Repr

namespace Tag

/-- The tag describes a cell. -/
def isCell : Tag → Bool
  | .cell _ => true
  | _ => false

/-- The type's text in messages. -/
def text : Tag → String
  | .unit => "()"
  | .bool => "bool"
  | .int k => k.text
  | .float .single => "f32"
  | .float .double => "f64"
  | .char => "char"
  | .string => "String"
  | .array t => "[" ++ t.text ++ "]"
  | .cell t => "IVar<" ++ t.text ++ ">"
  | .sealed name _ => name

/-- The tag as inspection shows it. -/
def inspect : Tag → String
  | .unit => "Unit"
  | .bool => "Bool"
  | .int k => "Int(" ++ k.inspect ++ ")"
  | .float .single => "Float(F32)"
  | .float .double => "Float(F64)"
  | .char => "Char"
  | .string => "String"
  | .array t => "Array(" ++ t.inspect ++ ")"
  | .cell t => "IVar(" ++ t.inspect ++ ")"
  | .sealed name _ => "Opaque(" ++ name ++ ")"

end Tag
end Dataflow
