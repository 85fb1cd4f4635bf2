import Dataflow.Named

/-!
# Files and paths

A tree of files and directories, the paths that name its members, and the operations that settings
need: read a file, write one, and make the directories on the way to one. Paths and the names on them are
of limited length.
-/

namespace Dataflow

/-- Why a file was not read or written. -/
inductive FileError where
  | notFound
  /-- Something on the way is a file. -/
  | notDirectory
  | isDirectory
  /-- The path, or a name on it, is too long. -/
  | tooLong
  /-- The path holds the character that ends paths. -/
  | broken
  /-- The bytes are no text. -/
  | notText
  deriving DecidableEq, Repr

/-- The message. -/
def FileError.message : FileError → String
  | .notFound => "No such file or directory (os error 2)"
  | .notDirectory => "Not a directory (os error 20)"
  | .isDirectory => "Is a directory (os error 21)"
  | .tooLong => "File name too long (os error 36)"
  | .broken => "file name contained an unexpected NUL byte"
  | .notText => "stream did not contain valid UTF-8"

/-- The text of a path. -/
abbrev Path := String

namespace Path

/-- The path to a member of a directory. -/
def join (p : Path) (name : String) : Path :=
  if p.isEmpty || p.endsWith "/" then p ++ name else p ++ "/" ++ name

/-- The names on the path, in order. Empty ones stand for the directory reached so far. -/
def names (p : Path) : List String := p.splitOn "/"

/-- The path starts at the root. -/
def isAbsolute (p : Path) : Bool := p.startsWith "/"

/-- The name stays where one is. -/
def isStill (name : String) : Bool := name == "" || name == "."

/-- The path to the directory that holds the member; empty if nothing has to be there. -/
def parent (p : Path) : Path :=
  let upward (reversed : List String) := reversed.dropWhile isStill
  "/".intercalate (upward ((upward p.names.reverse).drop 1)).reverse

/-- Paths are shorter than this many bytes. -/
def lengthBound : Nat := 4096

/-- Names are shorter than this many bytes. -/
def nameBound : Nat := 256

/-- What is wrong with the path, whatever there is in the tree. -/
def fault? (p : Path) : Option FileError :=
  if p.contains '\x00' then some .broken
  else if p.isEmpty then some .notFound
  else if lengthBound ≤ p.utf8ByteSize then some .tooLong
  else none

end Path

/-- Where something is: the names that lead there from the root. -/
abbrev Place := List String

/-- The place that one name leads to. -/
def Place.follow (place : Place) (name : String) : Place :=
  if Path.isStill name then place else if name == ".." then place.dropLast else place ++ [name]

/-- A member of a directory. -/
inductive Entry where
  | file (content : ByteArray)
  | directory (members : List (String × Entry))

/-- What a directory holds. -/
abbrev Directory := Named Entry

namespace Directory

/-- What is at a place, seen from the directory. -/
def at? (d : Directory) : Place → Option Entry
  | [] => some (.directory d)
  | name :: rest =>
    match d.lookup name with
    | none => none
    | some (.directory inner) => at? inner rest
    | some (.file content) => if rest.isEmpty then some (.file content) else none

/-- Put something at a place, in place of what is there. Nothing changes unless the place is in a
directory that is there. -/
def set (d : Directory) (e : Entry) : Place → Directory
  | [] => d
  | [name] => d.put name e
  | name :: rest =>
    match d.lookup name with
    | some (.directory inner) => d.put name (.directory (set inner e rest))
    | _ => d

end Directory

/-- Files and directories, and the place that relative paths start from. -/
structure FileTree where
  root : Directory := []
  current : Place := []

namespace FileTree

/-- What is at a place. -/
def at? (t : FileTree) (place : Place) : Option Entry := t.root.at? place

/-- Put something at a place, in place of what is there. -/
def set (t : FileTree) (place : Place) (e : Entry) : FileTree := { t with root := t.root.set e place }

/-- The place that names lead to. Every name but the last has to lead to a directory. -/
def walk (t : FileTree) (place : Place) : List String → Except FileError Place
  | [] => .ok place
  | name :: rest =>
    match t.at? place with
    | none => .error .notFound
    | some (.file _) => .error .notDirectory
    | some (.directory _) =>
      if Path.nameBound ≤ name.utf8ByteSize then .error .tooLong else t.walk (place.follow name) rest

/-- Where a path starts. -/
def start (t : FileTree) (p : Path) : Place := if p.isAbsolute then [] else t.current

/-- The place that a path leads to; what it names need not exist. -/
def locate (t : FileTree) (p : Path) : Except FileError Place :=
  match p.fault? with
  | some e => .error e
  | none => t.walk (t.start p) p.names

/-- Something is there. -/
def holds (t : FileTree) (p : Path) : Bool :=
  match t.locate p with
  | .error _ => false
  | .ok place => (t.at? place).isSome

/-- The text of a file. -/
def read (t : FileTree) (p : Path) : Except FileError String := do
  match t.at? (← t.locate p) with
  | none => .error .notFound
  | some (.directory _) => .error .isDirectory
  | some (.file content) =>
    match String.fromUTF8? content with
    | none => .error .notText
    | some text => .ok text

/-- Write a file, over an old one if there is one. -/
def write (t : FileTree) (p : Path) (text : String) : Except FileError FileTree := do
  let place ← t.locate p
  match t.at? place with
  | some (.directory _) => .error .isDirectory
  | _ => .ok (t.set place (.file text.toUTF8))

/-- Make what is missing of the directories that names lead through: the tree afterwards, and the error
at a file on the way or at a name too long. -/
def makeAll (t : FileTree) (place : Place) : List String → FileTree × Except FileError Unit
  | [] => (t, .ok ())
  | name :: rest =>
    if Path.nameBound ≤ name.utf8ByteSize then (t, .error .tooLong)
    else
      let next := place.follow name
      match t.at? next with
      | some (.file _) => (t, .error .notDirectory)
      | some (.directory _) => t.makeAll next rest
      | none => (t.set next (.directory [])).makeAll next rest

/-- Make a directory and those on the way to it, unless something is there already. Without a path nothing
has to be made. -/
def makeDirectories (t : FileTree) (p : Path) : FileTree × Except FileError Unit :=
  if p.isEmpty || t.holds p then (t, .ok ())
  else
    match p.fault? with
    | some e => (t, .error e)
    | none => t.makeAll (t.start p) p.names

/-- Put a file at a path, and make the directories on the way to it, as far as that can be done. -/
def addFile (t : FileTree) (p : Path) (content : ByteArray) : FileTree :=
  let (t, _) := t.makeDirectories (Path.parent p)
  match t.locate p with
  | .error _ => t
  | .ok place => t.set place (.file content)

end FileTree
end Dataflow
