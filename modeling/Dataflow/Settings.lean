import Dataflow.Files
import Dataflow.Log
import Dataflow.Pool.Config

/-!
# Settings

What a program that runs a pool is told: how the pool is set up and what is logged.
-/

namespace Dataflow

/-- The settings of a program. -/
structure Settings where
  pool : PoolConfig := {}
  logLevel : LogLevel := .info
  deriving DecidableEq, Repr

/-- Why settings were not read or written. -/
inductive SettingsError where
  | file (error : FileError)
  /-- The text of the file is no document, or does not describe settings. -/
  | malformed
  /-- A number is too large for a file. -/
  | unwritable
  /-- A text has more quotes in a row than are counted. -/
  | uncounted
  /-- A variable has a value that it must not have. -/
  | invalidVariable (name value : String)
  /-- No variable says where the user's files are. -/
  | noDirectory
  deriving DecidableEq, Repr

namespace SettingsError

/-- The message. -/
def message : SettingsError → String
  | .file error => "IO error: " ++ error.message
  | .malformed => "Config parse error"
  | .unwritable => "Config serialize error"
  | .uncounted => "attempt to add with overflow"
  | .invalidVariable name value => "Invalid value " ++ Text.inspectString value ++ " for " ++ name
  | .noDirectory => "Cannot determine config directory"

end SettingsError
end Dataflow
