import Std.Data.TreeMap
import ProgramStream.Storage.Basic
/-!
# A tree of files — storage as a value

Directories are numbered, and a directory maps names to the files and
directories in it. A path is followed from left to right, one look-up for
each name, and has to pass through directories only. Names and paths have
limits in bytes, not in characters. With this tree as its state, the program
is a function.
-/

namespace ProgramStream

/-- What stands at a name in a directory. -/
inductive Node where
  | file (bytes : List UInt8)
  | directory (number : Nat)
  deriving DecidableEq

/-- A directory: the number of the one above it and what is in it. The root
is above itself. -/
structure Directory where
  above : Nat
  entries : Std.TreeMap String Node := {}

/-- Directories by their numbers, the root first. -/
structure FileTree where
  directories : Array Directory

/-- Where a path leads: to a directory, or to a name in one at which a file
stands, or nothing. -/
inductive Spot where
  | directory (number : Nat)
  | entry (directory : Nat) (name : String)
  deriving DecidableEq

namespace FileTree

/-- The root. -/
def root : Nat := 0

/-- What stands at a name in a directory. -/
def find? (t : FileTree) (directory : Nat) (name : String) : Option Node :=
  t.directories[directory]?.bind (·.entries[name]?)

/-- The directory above one. -/
def above (t : FileTree) (directory : Nat) : Nat :=
  (t.directories[directory]?.map (·.above)).getD root

/-- Puts a node at a name in a directory, over what was there. -/
def put (t : FileTree) (directory : Nat) (name : String) (node : Node) : FileTree :=
  ⟨t.directories.modify directory fun d => { d with entries := d.entries.insert name node }⟩

/-- Puts a new directory with nothing in it at a name in a directory. -/
def putDirectory (t : FileTree) (directory : Nat) (name : String) : FileTree :=
  let t := t.put directory name (.directory t.directories.size)
  ⟨t.directories.push ⟨directory, {}⟩⟩

/-- The tree with no file. Its working directory is two below the root. -/
def empty : FileTree :=
  ((⟨#[⟨root, {}⟩]⟩ : FileTree).putDirectory root "tmp").putDirectory 1 "work"

instance : EmptyCollection FileTree := ⟨empty⟩

/-- The working directory of a tree that grew from the one with no file. -/
def working : Nat := 2

/-- The most bytes a name can have. -/
def nameLimit : Nat := 255

/-- The most bytes a path can have. -/
def pathLimit : Nat := 4095

/-- Where a path starts and the names it goes through. No path is empty, has
a zero character in it or is over the limit. -/
def start (path : String) : Except StorageFault (Nat × List String) :=
  if path.toList.contains (Char.ofNat 0) then .error .invalidPath
  else if path.isEmpty then .error .notFound
  else if pathLimit < path.utf8ByteSize then .error .nameTooLong
  else .ok (if path.startsWith '/' then root else working, path.splitToList (· = '/'))

/-- Follows one name. What it is followed from has to be a directory. -/
def step (t : FileTree) : Spot → String → Except StorageFault Spot
  | .entry directory name, _ =>
    .error (if (t.find? directory name).isSome then .notADirectory else .notFound)
  | .directory number, name =>
    if name = "" ∨ name = "." then .ok (.directory number)
    else if name = ".." then .ok (.directory (t.above number))
    else if nameLimit < name.utf8ByteSize then .error .nameTooLong
    else match t.find? number name with
      | some (.directory inner) => .ok (.directory inner)
      | _ => .ok (.entry number name)

/-- Follows names from a directory. Every name but the last has to lead to a
directory. -/
def follow (t : FileTree) (directory : Nat) (names : List String) : Except StorageFault Spot :=
  names.foldlM t.step (.directory directory)

/-- Where a path leads. -/
def locate (t : FileTree) (path : String) : Except StorageFault Spot := do
  let (directory, names) ← start path
  t.follow directory names

/-- Opens the file at a path. -/
def openFile (t : FileTree) (path : String) : Except StorageFault OpenFile := do
  match ← t.locate path with
  | .directory _ => return .unreadable .isADirectory
  | .entry directory name =>
    match t.find? directory name with
    | some (.file bytes) => return .content bytes
    | _ => throw .notFound

/-- Writes the file at a path. -/
def writeFile (t : FileTree) (path : String) (bytes : List UInt8) :
    Except StorageFault FileTree := do
  match ← t.locate path with
  | .directory _ => throw .isADirectory
  | .entry directory name => return t.put directory name (.file bytes)

/-- Makes the directory at a path, in one that is there. Slashes at the end
of the path mean nothing. -/
def makeDirectory (t : FileTree) (path : String) : Except StorageFault FileTree := do
  let (directory, names) ← start path
  match ← t.follow directory (names.reverse.dropWhile (· = "")).reverse with
  | .directory _ => throw .alreadyExists
  | .entry directory name =>
    if (t.find? directory name).isSome then throw .alreadyExists
    else return t.putDirectory directory name

/-- The number of the directory at a path. -/
def directoryAt? (t : FileTree) (path : String) : Option Nat :=
  match t.locate path with
  | .ok (.directory number) => some number
  | _ => none

/-- The files in a directory, by their names. -/
def filesIn (t : FileTree) (directory : Nat) : List (String × List UInt8) :=
  (t.directories[directory]?.map (·.entries.toList)).getD [] |>.filterMap fun (name, node) =>
    match node with
    | .file bytes => some (name, bytes)
    | .directory _ => none

end FileTree

/-- Programs over a tree of files. -/
abbrev TreeM := StateM FileTree

/-- Changes the tree, or leaves it as it is and says why. -/
def TreeM.change (f : FileTree → Except StorageFault FileTree) : TreeM (Except StorageFault Unit) :=
  modifyGet fun t =>
    match f t with
    | .ok t => (.ok (), t)
    | .error fault => (.error fault, t)

instance : Storage TreeM where
  openFile path := do return (← get).openFile path
  makeDirectory path := TreeM.change (·.makeDirectory path)
  writeFile path bytes := TreeM.change (·.writeFile path bytes)

end ProgramStream
