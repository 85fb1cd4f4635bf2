import Dataflow.Settings.Document
import Dataflow.Settings.Override

/-!
# Where settings are kept

The user's settings are in a file whose directory the environment names. Settings come from a file that
is given, or else from the user's file, or else are the defaults; then the environment may override
single ones.
-/

namespace Dataflow.Settings

/-- The variables of the environment. -/
abbrev Environment := String → Option String

/-- The directory of the user's settings. -/
def directory? (env : Environment) : Option Path :=
  match env "XDG_CONFIG_HOME", env "HOME", env "APPDATA" with
  | some base, _, _ => some (Path.join base "ivarpool")
  | none, some home, _ => some (Path.join (Path.join home ".config") "ivarpool")
  | none, none, some base => some (Path.join base "ivarpool")
  | none, none, none => none

/-- The file of the user's settings. -/
def path? (env : Environment) : Option Path := (directory? env).map fun d => Path.join d "config.toml"

/-- Read settings from a file. -/
def load (files : FileTree) (p : Path) : Except SettingsError Settings :=
  match files.read p with
  | .error e => .error (.file e)
  | .ok text =>
    match ofText? text with
    | none => .error .malformed
    | some s => .ok s

/-- Read the user's settings; without a file they are the defaults. -/
def loadUser (files : FileTree) (env : Environment) : Except SettingsError Settings :=
  match path? env with
  | none => .ok {}
  | some p => if files.holds p then load files p else .ok {}

/-- The settings that count: those of the file that is given or else the user's, with overrides. -/
def loadEffective (files : FileTree) (env : Environment) (given : Option Path) :
    Except SettingsError Settings :=
  match (match given with
    | some p => load files p
    | none => loadUser files env) with
  | .error e => .error e
  | .ok s =>
    match s.override env with
    | (_, .error e) => .error e
    | (s, .ok ()) => .ok s

/-- Write settings to a file, and make the directories on the way to it. The directories stay if the file
cannot be written. -/
def save (s : Settings) (files : FileTree) (p : Path) : FileTree × Except SettingsError Unit :=
  match files.makeDirectories (Path.parent p) with
  | (files, .error e) => (files, .error (.file e))
  | (files, .ok ()) =>
    match s.toText with
    | .error e => (files, .error e)
    | .ok text =>
      match files.write p text with
      | .error e => (files, .error (.file e))
      | .ok files => (files, .ok ())

/-- Write the user's settings. -/
def saveUser (s : Settings) (files : FileTree) (env : Environment) : FileTree × Except SettingsError Unit :=
  match path? env with
  | none => (files, .error .noDirectory)
  | some p => s.save files p

end Dataflow.Settings
