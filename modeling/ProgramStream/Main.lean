import ProgramStream.Program
/-!
# The executable

Runs the program on the file system it is started on.
-/

namespace ProgramStream

namespace Executable

/-- A fault of the file system in the program's terms. -/
def storageFault (e : IO.Error) : StorageFault :=
  match e with
  | .noFileOrDirectory .. => .notFound
  | .inappropriateType _ 20 _ => .notADirectory
  | .inappropriateType _ 21 _ => .isADirectory
  | .alreadyExists .. => .alreadyExists
  | .invalidArgument _ 22 _ => .invalidPath
  | .invalidArgument _ 36 _ => .nameTooLong
  | e => .device (toString e)

/-- The result of an action on the file system. -/
def attempt {α : Type} (action : IO α) : IO (Except StorageFault α) := do
  match ← action.toBaseIO with
  | .ok a => return .ok a
  | .error e => return .error (storageFault e)

instance : Storage IO where
  openFile path := do
    match ← attempt (IO.FS.Handle.mk path .read) with
    | .error fault => return .error fault
    | .ok handle =>
      match ← attempt handle.readBinToEnd with
      | .ok bytes => return .ok (.content bytes.toList)
      | .error fault => return .ok (.unreadable fault)
  makeDirectory path := attempt (IO.FS.createDir path)
  writeFile path bytes := attempt (IO.FS.writeBinFile path ⟨bytes.toArray⟩)

end Executable

end ProgramStream

/-- Runs the program and prints what it leaves to be printed. A run that the
machine is to stop ends with the code that tells of it. -/
def main (args : List String) : IO UInt32 := do
  let report : ProgramStream.Program.Report ← ProgramStream.Program.run args
  for line in report.output do IO.println line
  for line in report.errors do IO.eprintln line
  return (report.exitCode.getD 134).toUInt32
