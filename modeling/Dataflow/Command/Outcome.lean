import Dataflow.Command.Help
import Dataflow.Settings.Location
import Dataflow.Work.Client
import Dataflow.Work.Graph

/-!
# Running a command

A command takes its settings from files and the environment, starts a pool, and runs a graph on it. What
comes of it is the lines it prints and the code it ends with: zero, one for a failure, two for arguments
that make no sense, 101 if there is no going on.
-/

namespace Dataflow.Command

/-- The program's version. -/
def programVersion : String := "0.1.0"

/-- The line that tells name and version. -/
def versionLine : String := programName ++ " " ++ programVersion

/-- Why a command failed: what it could not do, and the reason for it. -/
structure Failure where
  headline : String
  cause : Option String := none
  deriving DecidableEq, Repr

/-- What comes of a command. -/
inductive Outcome where
  | finished (lines : List String)
  | failed (lines : List String) (failure : Failure)
  /-- There is no going on. -/
  | crashed (message : String)
  | misused (error : UsageError)

namespace Outcome

/-- The code that the program ends with. -/
def code : Outcome → Nat
  | .finished _ => 0
  | .failed .. => 1
  | .crashed _ => 101
  | .misused _ => 2

/-- The lines that are printed. -/
def lines : Outcome → List String
  | .finished lines | .failed lines _ => lines
  | .crashed _ | .misused _ => []

/-- The lines of complaint. -/
def complaint : Outcome → List String
  | .finished _ => []
  | .failed _ ⟨headline, none⟩ => ["Error: " ++ headline]
  | .failed _ ⟨headline, some cause⟩ => ["Error: " ++ headline, "", "Caused by:", "    " ++ cause]
  | .crashed message => [message]
  | .misused error => ["error: " ++ error.message]

end Outcome

/-- The graph that an action builds on a pool, if it builds one. -/
def graph? (pool : PoolId) : Action → Option (Body Datum Job)
  | .increment value => some (Graph.increment pool (IntKind.wrap _ value))
  | .fanout tasks => some (Graph.fanout pool tasks)
  | .chain depth => some (Graph.chain pool depth)
  | .version => none

/-- What is logged at the end. -/
def summary (stats : PoolStats) : String :=
  "done spawned=" ++ toString stats.spawned ++ " suspended=" ++ toString stats.suspended ++
    " resumed=" ++ toString stats.resumed ++ " peak=" ++ toString stats.peak

/-- How the client's own body ended. -/
def endOf (notes : List (Note Datum)) : Option RuntimeError :=
  notes.findSome? fun
    | .ended (.returned (.error e)) => some e
    | _ => none

/-- Run a graph on a pool of its own. -/
def runGraph (config : PoolConfig) (logger : Logger) (graph : PoolId → Body Datum Job) : Outcome :=
  match ({} : Client).startPool config with
  | .error (.refused e) => .failed [] { headline := "Failed to start task pool", cause := some e.message }
  | .error e => .crashed e.message
  | .ok client =>
    let (client, notes) := client.execute (graph 0)
    let said := Client.lines notes
    match endOf notes with
    | some e => .failed said { headline := e.message }
    | none =>
      .finished (said ++ logger.log "main"
        (((client.pool? 0).map fun pool => (LogLevel.info, summary pool.stats)).toList))

/-- The settings with those of the command line in them. -/
def Options.adjust (o : Options) (s : Settings) : Settings :=
  match o.workers with
  | none => s
  | some n => { s with pool := { s.pool with numWorkers := n } }

/-- The level of the log. -/
def Options.logLevel (o : Options) (s : Settings) : LogLevel :=
  if o.verbose then .debug else s.logLevel

/-- Do what was asked for. -/
def runAction (files : FileTree) (env : Settings.Environment) (o : Options) (action : Action) : Outcome :=
  match Settings.loadEffective files env o.settings with
  | .error e => .failed [] { headline := "Failed to load configuration", cause := some e.message }
  | .ok s =>
    let s := o.adjust s
    match action with
    | .version => .finished [versionLine]
    | _ => runGraph s.pool (({} : Logger).init (o.logLevel s)) fun pool =>
      (graph? pool action).getD (.done (.ok ()))

/-- Run the program. -/
def run (files : FileTree) (env : Settings.Environment) (arguments : List String) : Outcome :=
  match read arguments with
  | .run o action => runAction files env o action
  | .showVersion => .finished [versionLine]
  | .showHelp topic => .finished (helpLines topic)
  | .refuse error => .misused error

end Dataflow.Command
