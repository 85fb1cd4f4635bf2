import Dataflow.Files
import Dataflow.Number.Numeral

/-!
# The command line

What the program is asked to do, read off its arguments. Options have a long and some a short name; a value
stands behind an equals sign or is the next argument, and behind a short name also without a sign. Some
options may stand before or after the name of the command; behind it they count.
-/

namespace Dataflow.Command

/-- What the program does. -/
inductive Action where
  /-- Twice the value that follows a given one. -/
  | increment (value : Nat)
  /-- The sum of so many squares. -/
  | fanout (tasks : Nat)
  /-- The end of a chain of so many links. -/
  | chain (depth : Nat)
  | version
  deriving DecidableEq, Repr

/-- What holds for every action. -/
structure Options where
  workers : Option Nat := none
  settings : Option Path := none
  verbose : Bool := false
  deriving DecidableEq, Repr

/-- An option. -/
inductive Flag where
  | workers
  | settings
  | verbose
  | help
  | version
  | value
  | tasks
  | depth
  deriving DecidableEq, Repr

/-- What is wrong with the arguments. -/
inductive UsageError where
  | unexpected (argument : String)
  | missingAction
  | missingValue (flag : Flag)
  | unneededValue (flag : Flag)
  | invalidValue (flag : Flag) (value : String)
  | repeated (flag : Flag)
  deriving DecidableEq, Repr

namespace Flag

-- powers are those of the core, whatever else is in scope
attribute [local instance (high)] instPowNat

/-- The long name. -/
def name : Flag → String
  | .workers => "workers"
  | .settings => "config"
  | .verbose => "verbose"
  | .help => "help"
  | .version => "version"
  | .value => "value"
  | .tasks => "tasks"
  | .depth => "depth"

/-- The short name. -/
def letter? : Flag → Option Char
  | .workers => some 'w'
  | .settings => some 'c'
  | .verbose => some 'v'
  | .help => some 'h'
  | .version => some 'V'
  | _ => none

/-- The option has a value. -/
def hasValue : Flag → Bool
  | .verbose | .help | .version => false
  | _ => true

/-- Squares are taken of at most so many numbers; their sum has to fit into 64 bits. -/
def maxTasks : Nat := 1000000

/-- The value is one that the option may have. -/
def accepts (f : Flag) (value : String) : Bool :=
  let s := value.toList
  match f with
  | .workers | .depth => (Numeral.nat? (2 ^ (64 : Nat)) s).isSome
  | .tasks => ((Numeral.nat? (2 ^ (64 : Nat)) s).filter (· ≤ maxTasks)).isSome
  | .value => ((Numeral.int? s).filter fun n => 0 ≤ n ∧ n < 2 ^ (32 : Nat)).isSome
  | .settings => !value.isEmpty
  | _ => false

/-- The number that an accepted value denotes. -/
def numberOf (value : String) : Nat := ((Numeral.int? value.toList).map Int.toNat).getD 0

/-- The options that may stand behind the name of any command. -/
def common : List Flag := [.workers, .settings, .verbose, .help]

/-- The options that may stand before it. -/
def leading : List Flag := common ++ [.version]

end Flag

namespace UsageError

/-- The message. -/
def message : UsageError → String
  | .unexpected argument => "unexpected argument '" ++ argument ++ "' found"
  | .missingAction => "a subcommand is needed, but none was given"
  | .missingValue flag => "a value is needed for '--" ++ flag.name ++ "', but none was given"
  | .unneededValue flag => "'--" ++ flag.name ++ "' takes no value"
  | .invalidValue flag value => "invalid value '" ++ value ++ "' for '--" ++ flag.name ++ "'"
  | .repeated flag => "'--" ++ flag.name ++ "' cannot be used more than once"

end UsageError

/-- What the arguments come to. -/
inductive Request where
  | run (options : Options) (action : Action)
  | showVersion
  /-- Help on a command, or on the program. -/
  | showHelp (topic : Option String)
  | refuse (error : UsageError)
  deriving DecidableEq, Repr

/-- Help that was asked for behind the name of a command is on that command. -/
def Request.within (name : String) : Request → Request
  | .showHelp none => .showHelp (some name)
  | request => request

/-- Options found so far, with their values, the last one first. -/
abbrev Found := List (Flag × String)

/-- What one argument comes to. -/
inductive Reading where
  /-- Go on behind it, and behind its value if that is an argument of its own. -/
  | more (found : Found) (rest : List String)
  | stop (request : Request)

/-- Note an option with its value; the first wrong one counts, and some options end the reading. -/
def note (found : Found) (f : Flag) (value : String) (rest : List String) : Reading :=
  if f = .help then .stop (.showHelp none)
  else if f = .version then .stop .showVersion
  else if f.hasValue && !f.accepts value then .stop (.refuse (.invalidValue f value))
  else if (found.lookup f).isSome then .stop (.refuse (.repeated f))
  else .more ((f, value) :: found) rest

/-- An argument that can be the value of an option before it: it does not look like an option. -/
def isPlain (argument : String) : Bool := !argument.startsWith "-" || argument == "-"

/-- Take the next argument as the value. -/
def noteNext (found : Found) (f : Flag) : List String → Reading
  | [] => .stop (.refuse (.missingValue f))
  | value :: rest =>
    if isPlain value then note found f value rest else .stop (.refuse (.missingValue f))

/-- Read an option by its long name. -/
def readLong (flags : List Flag) (found : Found) (argument : String) (rest : List String) : Reading :=
  let body := argument.toList.drop 2
  let name := String.ofList (body.takeWhile (· != '='))
  let value? := match body.dropWhile (· != '=') with
    | [] => none
    | _ :: value => some (String.ofList value)
  match flags.find? fun f => f.name == name with
  | none => .stop (.refuse (.unexpected argument))
  | some f =>
    match f.hasValue, value? with
    | true, some value => note found f value rest
    | true, none => noteNext found f rest
    | false, some _ => .stop (.refuse (.unneededValue f))
    | false, none => note found f "" rest

/-- Read options by their short names, several in one argument. -/
def readShort (flags : List Flag) (argument : String) (rest : List String) :
    Found → List Char → Reading
  | found, [] => .more found rest
  | found, c :: cs =>
    match flags.find? fun f => f.letter? == some c with
    | none => .stop (.refuse (.unexpected argument))
    | some f =>
      if f.hasValue then
        match cs with
        | [] => noteNext found f rest
        | '=' :: value => note found f (String.ofList value) rest
        | value => note found f (String.ofList value) rest
      else
        match note found f "" rest with
        | .stop request => .stop request
        | .more found _ => readShort flags argument rest found cs

/-- Read an option. -/
def readOption (flags : List Flag) (found : Found) (argument : String) (rest : List String) : Reading :=
  if argument.startsWith "--" then readLong flags found argument rest
  else readShort flags argument rest found (argument.toList.drop 1)

/-- The commands by their names, each with its own options. -/
def actionFlags : List (String × List Flag) :=
  [("increment", [.value]), ("fanout", [.tasks]), ("chain", [.depth]), ("version", [])]

/-- The number that an option was given, or its default. -/
def numberFor (found : Found) (f : Flag) (default : Nat) : Nat :=
  ((found.lookup f).map Flag.numberOf).getD default

/-- The action with that name. -/
def actionOf (name : String) (found : Found) : Action :=
  if name = "increment" then .increment (numberFor found .value 5)
  else if name = "fanout" then .fanout (numberFor found .tasks 1000)
  else if name = "chain" then .chain (numberFor found .depth 10000)
  else .version

/-- The options that hold for every action: what stands behind the name of the command comes first. -/
def optionsOf (found : Found) : Options :=
  { workers := (found.lookup .workers).map Flag.numberOf
    settings := found.lookup .settings
    verbose := (found.lookup .verbose).isSome }

/-- Read what follows the name of a command, in as many steps as there are arguments. -/
def readBehind (name : String) (flags : List Flag) (before : Found) :
    Nat → Found → List String → Request
  | 0, found, _ | _, found, [] => .run (optionsOf (found ++ before)) (actionOf name found)
  | steps + 1, found, argument :: rest =>
    if argument = "--" then
      match rest with
      | [] => .run (optionsOf (found ++ before)) (actionOf name found)
      | other :: _ => .refuse (.unexpected other)
    else if isPlain argument then .refuse (.unexpected argument)
    else
      match readOption flags found argument rest with
      | .stop request => request.within name
      | .more found rest => readBehind name flags before steps found rest

/-- The name of the command that helps. -/
def helpName : String := "help"

/-- Read what follows the command that helps: nothing, or the name of one command. -/
def readTopic : List String → Request
  | [] => .showHelp none
  | name :: rest =>
    if name = helpName || (actionFlags.lookup name).isSome then
      match rest with
      | [] => .showHelp (some name)
      | other :: _ => .refuse (.unexpected other)
    else .refuse (.unexpected name)

/-- Read what stands before the name of a command, and then the rest. -/
def readBefore : Nat → Found → List String → Request
  | 0, _, _ | _, _, [] => .refuse .missingAction
  | steps + 1, found, argument :: rest =>
    match actionFlags.lookup argument with
    | some own => readBehind argument (own ++ Flag.common) found rest.length [] rest
    | none =>
      if argument = helpName then readTopic rest
      else if argument = "--" then .refuse ((rest.head?.map .unexpected).getD .missingAction)
      else if isPlain argument then .refuse (.unexpected argument)
      else
        match readOption Flag.leading found argument rest with
        | .stop request => request
        | .more found rest => readBefore steps found rest

/-- Read the arguments. -/
def read (arguments : List String) : Request := readBefore arguments.length [] arguments

end Dataflow.Command
