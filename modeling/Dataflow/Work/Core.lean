import Dataflow.Arguments
import Dataflow.Named
import Dataflow.Work.Script

/-!
# Typed bodies and jobs

Each core is a body over typed parameters. A job is a core with its packed arguments, or a script;
starting it unpacks the arguments against the types of the parameters.
-/

namespace Dataflow

/-- Bodies over typed parameters. The last parameter is the cell that the body writes. -/
inductive Core where
  | noArgs
  /-- One more. -/
  | addOne
  | negate
  /-- Two texts, repeated. -/
  | concat
  /-- One more than a cell. -/
  | link
  /-- The sum of two cells. -/
  | sumPair
  /-- Publish a new cell, then fill it with three times the number. -/
  | publishInner
  /-- The value of the cell that a cell holds. -/
  | through
  /-- The quotient, toward zero. -/
  | divide
  | sumAll
  /-- The values of several cells. -/
  | gather
  /-- Four numbers as text. -/
  | five
  /-- Two floats, a character and a truth value as text. -/
  | six
  /-- Six unsigned and signed numbers as text. -/
  | seven
  /-- Seven bytes in reverse. -/
  | eight
  /-- Shows a number and a text of sealed types with these names. -/
  | sealed (number text : String)
  | fail
  | explode
  /-- The sum of the numbers of a range, by halves. -/
  | treeSum
  /-- Block until a gate opens. -/
  | waitGate
  /-- The square of a number. -/
  | square
  deriving DecidableEq, Repr

/-- What can be spawned. -/
inductive Job where
  | core (core : Core) (arguments : Arguments)
  | script (instructions : List Instruction)

instance : ScriptJob Job := ⟨.script⟩

namespace Core

-- powers and sums are those of the core, whatever else is in scope
attribute [local instance (high)] instPowNat Zero.ofOfNat0

abbrev i8 : Tag := .int ⟨true, .bits8⟩
abbrev i16 : Tag := .int ⟨true, .bits16⟩
abbrev i32 : Tag := .int ⟨true, .bits32⟩
abbrev i64 : Tag := .int .signed64
abbrev isize : Tag := .int ⟨true, .word⟩
abbrev u8 : Tag := .int ⟨false, .bits8⟩
abbrev u16 : Tag := .int ⟨false, .bits16⟩
abbrev u32 : Tag := .int ⟨false, .bits32⟩
abbrev u64 : Tag := .int .unsigned64
abbrev usize : Tag := .int ⟨false, .word⟩

/-- The cores by their names, but for those over sealed types. -/
def byName : Named Core :=
  [("no_args", .noArgs), ("add_one", .addOne), ("negate", .negate), ("concat", .concat), ("link", .link),
    ("sum_pair", .sumPair), ("publish_inner", .publishInner), ("through", .through),
    ("divide", .divide), ("sum_all", .sumAll), ("gather", .gather), ("five", .five), ("six", .six),
    ("seven", .seven), ("eight", .eight), ("fail", .fail), ("explode", .explode),
    ("tree_sum", .treeSum), ("wait_gate", .waitGate), ("square", .square)]

/-- The types of the parameters. -/
def signature : Core → List Tag
  | .noArgs => []
  | .addOne => [u32, .cell u32]
  | .negate => [.bool, .cell .bool]
  | .concat => [.string, .string, usize, .cell .string]
  | .link => [.cell u64, .cell u64]
  | .sumPair => [.cell u64, .cell u64, .cell u64]
  | .publishInner => [u32, .cell (.cell u32)]
  | .through => [.cell (.cell u32), .cell u32]
  | .divide => [i64, i64, .cell i64]
  | .sumAll => [.array i64, .cell i64]
  | .gather => [.array (.cell u64), .cell (.array u64)]
  | .five => [i8, i16, i32, i64, .cell .string]
  | .six => [.float .single, .float .double, .char, .unit, .bool, .cell .string]
  | .seven => [u8, u16, u32, u64, usize, isize, .cell .string]
  | .eight => [u8, u8, u8, u8, u8, u8, u8, .cell (.array u8)]
  | .sealed number text => [.sealed number .number, .sealed text .text, .cell .string]
  | .fail => [.string]
  | .explode => [.string]
  | .treeSum => [u64, u64, .cell u64]
  | .waitGate => [.cell .unit]
  | .square => [u64, .cell u64]

/-- The number of parameters. -/
def arity (c : Core) : Nat := c.signature.length

/-- A payload as a value of the type that its cell has. -/
def typed (t : Tag) (next : t.Value → Body Datum Job) (d : Datum) : Body Datum Job :=
  match d.as? t with
  | some v => next v
  | none => .done (.error (.typeMismatch 0 t d.tag))

/-- Wait for a cell; an error ends the body. -/
def await {t : Tag} (c : CellRef t) (next : t.Value → Body Datum Job) : Body Datum Job :=
  .get c.id none (Body.orFail (typed t next))

/-- Write a cell; an error ends the body. -/
def write {t : Tag} (c : CellRef t) (v : t.Value) (next : Body Datum Job) : Body Datum Job :=
  .put c.id ⟨t, v⟩ (Body.orFail fun _ => next)

/-- Write a cell, and end with the result. -/
def finish {t : Tag} (c : CellRef t) (v : t.Value) : Body Datum Job := .put c.id ⟨t, v⟩ .done

/-- Wait for several cells, in order. -/
def awaitAll {t : Tag} (next : List t.Value → Body Datum Job) :
    List (CellRef t) → List t.Value → Body Datum Job
  | [], found => next found.reverse
  | c :: rest, found => await c fun v => awaitAll next rest (v :: found)

/-- The word of a float, or the sign that it is not a number. -/
def floatText {f : FloatFormat} : Binary f → String
  | .nan => "nan"
  | x => Text.hexPadded ((1 + f.exponentBits + f.fractionBits) / 4) x.toBits

/-- Ranges of at most this many numbers are summed in one go. -/
def treeLeaf : Nat := 4

/-- The arguments of a sum over a range. -/
def treeArguments (low high : Int) (out : CellId) : Arguments :=
  .ofValues [u64, u64, .cell u64]
    (IntKind.unsigned64.wrap low, IntKind.unsigned64.wrap high, (⟨out⟩ : CellRef u64), ())

/-- Texts are shorter than this many bytes. -/
def textBound : Nat := 2 ^ (63 : Nat)

/-- A text so many times over, if that is no longer than texts may be. -/
def repeated? (text : String) (n : Nat) : Option String :=
  if text.isEmpty then some ""
  else if text.utf8ByteSize * n < textBound then some (String.join (List.replicate n text))
  else none

/-- The body, over values of the types of the parameters. Arithmetic wraps around. -/
def body : (c : Core) → Values c.signature → Body Datum Job
  | .noArgs, () => .done (.ok ())
  | .addOne, (v, out, ()) => finish (t := u32) out (IntKind.wrap _ (Subtype.val v + 1))
  | .negate, (b, out, ()) => finish (t := .bool) out (Bool.not b)
  | .concat, (a, b, n, out, ()) =>
    match repeated? (String.append a b) (Subtype.val n).toNat with
    | some text => finish (t := .string) out text
    | none => .panic (some "capacity overflow")
  | .link, (input, out, ()) =>
    await (t := u64) input fun v => finish (t := u64) out (IntKind.wrap _ (Subtype.val v + 1))
  | .sumPair, (a, b, out, ()) =>
    await (t := u64) a fun x => await (t := u64) b fun y =>
      finish (t := u64) out (IntKind.wrap _ (Subtype.val x + Subtype.val y))
  | .publishInner, (v, outer, ()) =>
    .newCell fun c =>
      write (t := .cell u32) outer (⟨c⟩ : CellRef u32)
        (finish (t := u32) ⟨c⟩ (IntKind.wrap _ (3 * Subtype.val v)))
  | .through, (outer, out, ()) =>
    await (t := .cell u32) outer fun inner => await (t := u32) inner fun v => finish (t := u32) out v
  | .divide, (a, b, out, ()) =>
    match IntKind.signed64.ofInt? (Int.tdiv (Subtype.val a) (Subtype.val b)) with
    | some q => if Subtype.val b = 0 then .panic (some "bad division") else finish (t := i64) out q
    | none => .panic (some "bad division")
  | .sumAll, (items, out, ()) =>
    finish (t := i64) out (IntKind.wrap _ ((List.map Subtype.val items).sum))
  | .gather, (cells, out, ()) => awaitAll (t := u64) (fun found => finish (t := .array u64) out found) cells []
  | .five, (a, b, c, d, out, ()) =>
    finish (t := .string) out (" ".intercalate
      [toString (Subtype.val a), toString (Subtype.val b), toString (Subtype.val c),
        toString (Subtype.val d)])
  | .six, (a, b, c, (), d, out, ()) =>
    finish (t := .string) out (" ".intercalate
      [floatText (f := .single) a, floatText (f := .double) b, Char.toString c, toString (α := Bool) d])
  | .seven, (a, b, c, d, e, f, out, ()) =>
    finish (t := .string) out (" ".intercalate
      [toString (Subtype.val a), toString (Subtype.val b), toString (Subtype.val c),
        toString (Subtype.val d), toString (Subtype.val e), toString (Subtype.val f)])
  | .eight, (a, b, c, d, e, f, g, out, ()) => finish (t := .array u8) out [g, f, e, d, c, b, a]
  | .sealed _ _, (a, b, out, ()) =>
    finish (t := .string) out (String.append (toString (Subtype.val a) ++ "/") b)
  | .fail, (text, ()) => .done (.error (.invalidConfig text))
  | .explode, (text, ()) => .panic (some text)
  | .treeSum, (low, high, out, ()) =>
    let lo := Subtype.val low
    let hi := Subtype.val high
    if hi - lo ≤ treeLeaf then
      finish (t := u64) out
        (IntKind.wrap _ ((List.range (hi - lo).toNat).map fun i : Nat => lo + i).sum)
    else
      let mid := lo + (hi - lo) / 2
      .newCell fun left => .newCell fun right =>
        .spawn none (.core .treeSum (treeArguments lo mid left)) (Body.orFail fun _ =>
          .spawn none (.core .treeSum (treeArguments mid hi right)) (Body.orFail fun _ =>
            await (t := u64) ⟨left⟩ fun x => await (t := u64) ⟨right⟩ fun y =>
              finish (t := u64) out (IntKind.wrap _ (Subtype.val x + Subtype.val y))))
  | .waitGate, (gate, ()) => .getBlocking (CellRef.id gate) (Body.orFail fun _ => .done (.ok ()))
  | .square, (i, out, ()) =>
    finish (t := u64) out (IntKind.wrap _ (Subtype.val i * Subtype.val i))

end Core

/-- Unpack the arguments of a job and call its core; nothing of the body runs yet. -/
def Job.start : Job → Except RuntimeError (Body Datum Job)
  | .core c arguments => Id.run (arguments.run c.signature fun vs => pure (c.body vs))
  | .script instructions => .ok (scriptBody instructions (IntKind.unsigned64.wrap 0))

end Dataflow
