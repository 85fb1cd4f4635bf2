import Dataflow.Command.Line

/-!
# Help

What the program tells about itself, its commands and their options.
-/

namespace Dataflow.Command

/-- The program's name. -/
def programName : String := "ivarpool"

namespace Flag

/-- What the option does. -/
def about : Flag → String
  | .workers => "Number of worker threads (overrides config)"
  | .settings => "Configuration file (TOML)"
  | .verbose => "Enable verbose output"
  | .help => "Print help"
  | .version => "Print version"
  | .value => "Input value [default: 5]"
  | .tasks => "Number of tasks (the sum of their squares must fit in a u64) [default: 1000]"
  | .depth => "Chain length [default: 10000]"

/-- What the option's value is called. -/
def valueName (f : Flag) : String :=
  if f = .settings then "FILE" else f.name.map Char.toUpper

/-- How the option is written. -/
def usage (f : Flag) : String :=
  let short := match f.letter? with
    | some c => String.ofList ['-', c, ',', ' ']
    | none => "    "
  let value := if f.hasValue then " <" ++ f.valueName ++ ">" else ""
  short ++ "--" ++ f.name ++ value

end Flag

/-- The commands by their names, with what they do. -/
def commands : List (String × String) :=
  [("increment", "Increment a value in a task, then double it in the driver"),
    ("fanout", "Spawn independent tasks, each filling its own cell"),
    ("chain", "Build a chain of tasks, each waiting on its predecessor's cell"),
    ("version", "Print version information"),
    (helpName, "Print this message or the help of the given subcommand(s)")]

/-- Lines of two columns. -/
def columns (rows : List (String × String)) : List String :=
  let width := (rows.map fun (left, _) => left.length).foldl max 0
  rows.map fun (left, right) =>
    "  " ++ left ++ String.ofList (List.replicate (width - left.length + 2) ' ') ++ right

/-- Lines about options. -/
def optionLines (flags : List Flag) : List String :=
  "Options:" :: columns (flags.map fun f => (f.usage, f.about))

/-- The line that tells what may follow the program's name. -/
def usageLine (what : String) : String := "Usage: " ++ programName ++ " " ++ what

/-- Help on a command, or on the program. -/
def helpLines : Option String → List String
  | none =>
    [programName, "", usageLine "[OPTIONS] <COMMAND>", "", "Commands:"] ++ columns commands ++ [""] ++
      optionLines Flag.leading
  | some name =>
    let head := [(commands.lookup name).getD "", ""]
    if name = helpName then
      head ++ [usageLine (name ++ " [COMMAND]..."), "", "Arguments:"] ++
        columns [("[COMMAND]...", "Print help for the subcommand(s)")]
    else
      head ++ [usageLine (name ++ " [OPTIONS]"), ""] ++
        optionLines ((actionFlags.lookup name).getD [] ++ Flag.common)

end Dataflow.Command
