import ProgramStream.CommandLine
import ProgramStream.Dump.Run
import ProgramStream.Settings.Document
/-!
# The program — from arguments to lines and files

The whole program in a monad with storage: it reads the command line, the
settings and the stream, writes the dump, and leaves the lines it prints
and its exit code to its caller. Settings that cannot be used are printed,
and are no failure; a dump that cannot be made is one. A run that asks the
machine for what cannot be is broken off, with a code of its own; one that
asks for more than there is is stopped by the machine, with none. What there
is of memory is an argument.
-/

namespace ProgramStream

namespace Program

/-- What a run of the program leaves to be done. -/
structure Report where
  /-- none if the machine stopped the run -/
  exitCode : Option UInt8
  /-- lines for standard output -/
  output : List String
  /-- lines for standard error -/
  errors : List String
  deriving DecidableEq, Repr

/-- A run that printed lines and ended well. -/
def Report.ok (output : List String) (errors : List String) : Report := ⟨some 0, output, errors⟩

/-- A run that ended without a dump. -/
def Report.failed (error : String) : Report := ⟨some 1, [], ["Error: " ++ error]⟩

/-- A run that broke off. -/
def Report.brokenOff (error : String) : Report := ⟨some 101, [], ["Error: " ++ error]⟩

/-- A run that the machine stopped. -/
def Report.stopped (error : String) : Report := ⟨none, [], ["Error: " ++ error]⟩

/-- A run that there is no dump from. -/
def Report.ofFault (fault : Dump.Fault) : Report :=
  match fault with
  | .unaddressable _ => .brokenOff fault.message
  | .noMemory _ => .stopped fault.message
  | _ => .failed fault.message

/-- The levels of a log that warnings belong to. -/
def warningLevels : List String := ["trace", "debug", "info", "warn"]

/-- The warnings of a dump, unless the log's level leaves them out. -/
def warningLines (settings : Settings) (summary : Dump.Summary) : List String :=
  let dropped := summary.stats.corruptUnits
  if warningLevels.contains (settings.logLevel.getD "info") then
    summary.warnings.toList.map Warning.message ++
      if dropped = 0 then [] else [s!"{dropped} corrupt units were dropped"]
  else []

section

variable {m : Type → Type} [Monad m] [Storage m]

/-- Dumps a stream. The level of the log goes into the environment, where no
text has a zero character. -/
def dump (settings : Settings) (memory : Dump.Memory := .common) : m Report := do
  if (settings.logLevel.getD "info").any (· = Char.ofNat 0) then
    return .brokenOff "the level of the log has a zero character in it"
  else match ← Dump.run settings memory with
    | .ok summary => return .ok summary.lines (warningLines settings summary)
    | .error fault => return .ofFault fault

/-- Runs the program with its arguments. -/
def run (args : List String) (memory : Dump.Memory := .common) : m Report := do
  match CommandLine.request args with
  | .help => return .ok CommandLine.helpLines []
  | .version => return .ok [CommandLine.versionLine] []
  | .misuse => return ⟨some 2, [], ["error: the arguments were not understood, try '--help'"]⟩
  | .load path =>
    match ← Settings.load path with
    | .ok settings => dump settings memory
    | .error .tooDeep => return .stopped SettingsFault.tooDeep.message
    | .error fault => return .ok [s!"{path}: {fault.message}"] []
  | .dump settings =>
    match settings.check with
    | .ok () => dump settings memory
    | .error fault => return .ok [fault.message] []

end

end Program

end ProgramStream
