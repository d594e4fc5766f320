/-!
# Storage — what the program asks of a file system

The program reads a file, makes a directory and writes files, in any monad
that can. A file is opened before anything of it is read, and either can
fail on its own: a directory can be opened, but not read. A file system
makes one directory at a time; `ensureDirectory` makes those above it, too.
-/

namespace ProgramStream

/-- Why the file system refused. -/
inductive StorageFault where
  | notFound
  | notADirectory
  | isADirectory
  | alreadyExists
  | invalidPath
  /-- a path, or a name in it, has too many bytes -/
  | nameTooLong
  /-- the file's bytes are no text -/
  | notText
  /-- any other reason, in its own words -/
  | device (text : String)
  deriving DecidableEq, Repr

namespace StorageFault

/-- The wording of a fault. -/
def message : StorageFault → String
  | .notFound => "No such file or directory (os error 2)"
  | .notADirectory => "Not a directory (os error 20)"
  | .isADirectory => "Is a directory (os error 21)"
  | .alreadyExists => "File exists (os error 17)"
  | .invalidPath => "file name contained an unexpected NUL byte"
  | .nameTooLong => "File name too long (os error 36)"
  | .notText => "stream did not contain valid UTF-8"
  | .device text => text

end StorageFault

/-- A file that was opened: what reading it gives. -/
inductive OpenFile where
  | content (bytes : List UInt8)
  | unreadable (fault : StorageFault)

/-- A file system. -/
class Storage (m : Type → Type) where
  /-- Opens a file for reading. -/
  openFile : String → m (Except StorageFault OpenFile)
  /-- Makes a directory in one that is there. -/
  makeDirectory : String → m (Except StorageFault Unit)
  /-- Writes a file, over what was there. -/
  writeFile : String → List UInt8 → m (Except StorageFault Unit)

namespace Storage

/-- The path of a name in a directory. -/
def join (directory name : String) : String :=
  if directory.isEmpty || directory.endsWith '/' then directory ++ name
  else directory ++ "/" ++ name

/-- The paths that end at one of these names, the names and the paths from
the last to the first. -/
def pathsTo (root : String) : List String → List String
  | [] => []
  | name :: names =>
    (root ++ "/".intercalate (name :: names).reverse) :: pathsTo root names

/-- The paths above a path, from the nearest up. Only names that lead
somewhere count: not a single dot, and none between two slashes or after the
last. -/
def pathsAbove (path : String) : List String :=
  let names := (path.splitToList (· = '/')).filter fun name => name ≠ "" && name ≠ "."
  pathsTo (if path.startsWith '/' then "/" else "") names.reverse.tail

section

variable {m : Type → Type} [Monad m] [Storage m]

/-- Tells whether a directory stands at a path: it can be opened, but not
read. -/
def isDirectory (path : String) : m Bool := do
  match ← openFile path with
  | .ok (.unreadable .isADirectory) => return true
  | _ => return false

/-- Makes a directory, or finds it there. Under a missing one there is none
to be found. -/
def makeOrFind (path : String) : m (Except StorageFault Unit) := do
  match ← makeDirectory path with
  | .ok () => return .ok ()
  | .error .notFound => return .error .notFound
  | .error fault => if ← isDirectory path then return .ok () else return .error fault

/-- Makes a directory, given the paths above it, the nearest first. If the
nearest is missing, it is made in the same way, and then the directory is
tried again. -/
def makeUnder (path : String) : List String → m (Except StorageFault Unit)
  | [] => makeOrFind path
  | above :: rest => do
    match ← makeOrFind path with
    | .error .notFound =>
      match ← makeUnder above rest with
      | .ok () => makeOrFind path
      | .error fault => return .error fault
    | result => return result

/-- Makes a directory and those above it, where they are missing. The empty
path is the working directory, which is there. A single dot at the end of a
path names no directory to be made: what it stands for has to be there. -/
def ensureDirectory (path : String) : m (Except StorageFault Unit) :=
  if path.isEmpty then return .ok () else makeUnder path (pathsAbove path)

end

/-- The text of bytes that are one. -/
def decodeText (bytes : List UInt8) : Except StorageFault String :=
  match String.fromUTF8? ⟨bytes.toArray⟩ with
  | some text => .ok text
  | none => .error .notText

/-- Reads a whole text file. -/
def readText {m : Type → Type} [Monad m] [Storage m] (path : String) :
    m (Except StorageFault String) := do
  match ← openFile path with
  | .error fault => return .error fault
  | .ok (.unreadable fault) => return .error fault
  | .ok (.content bytes) => return decodeText bytes

end Storage

end ProgramStream
