import ProgramStream.Storage.Basic
/-!
# Settings — what to dump, where to, and how

Each part of the settings may be left out as a whole, and then has its
defaults. A part that is given has defaults of its own, which differ: an
output that is named saves only what it is told to.
-/

namespace ProgramStream

/-- Where a dump goes and what it keeps. -/
structure OutputSettings where
  path : String
  savePayload : Bool
  saveDiagnostics : Bool
  saveTables : Bool
  deriving DecidableEq, Repr

/-- Where a dump goes if nothing is said. -/
def OutputSettings.defaultPath : String := "./psdump"

/-- The output of settings without one. -/
def OutputSettings.default : OutputSettings :=
  { path := defaultPath, savePayload := true, saveDiagnostics := true, saveTables := false }

/-- How a stream is read. -/
structure DemuxSettings where
  chunkSize : Nat
  /-- zero for no limit -/
  maxUnits : Nat
  deriving DecidableEq, Repr

/-- The number of bytes read at a time if nothing is said. -/
def DemuxSettings.defaultChunkSize : Nat := 4096

/-- The reading of settings that do not speak of it. -/
def DemuxSettings.default : DemuxSettings := { chunkSize := defaultChunkSize, maxUnits := 0 }

/-- The settings of a dump. -/
structure Settings where
  input : Option String
  output : Option OutputSettings
  demux : Option DemuxSettings
  logLevel : Option String
  deriving DecidableEq, Repr

/-- Why settings cannot be used. -/
inductive SettingsFault where
  /-- their file could not be read -/
  | storage (fault : StorageFault)
  /-- their text does not say what it should -/
  | text
  /-- their text is nested deeper than there is room for -/
  | tooDeep
  | missingInput
  | zeroChunkSize
  deriving DecidableEq, Repr

/-- The wording of a fault. -/
def SettingsFault.message : SettingsFault → String
  | .storage fault => "IO error: " ++ fault.message
  | .text => "toml decode error: the text is not a settings document"
  | .tooDeep => "toml decode error: the text is nested too deeply"
  | .missingInput => "no input file, set `input` or pass --input"
  | .zeroChunkSize => "chunk size must be greater than 0"

namespace Settings

/-- The settings of a command line, with every part given. -/
def ofOptions (input : String) (outputPath : Option String) (chunkSize maxUnits : Nat)
    (saveTables : Bool) (logLevel : String) : Settings :=
  { input := some input
    output := some
      { path := outputPath.getD OutputSettings.defaultPath
        savePayload := true
        saveDiagnostics := true
        saveTables }
    demux := some { chunkSize, maxUnits }
    logLevel := some logLevel }

/-- The output, or its defaults. -/
def outputOrDefault (s : Settings) : OutputSettings := s.output.getD .default

/-- The reading, or its defaults. -/
def demuxOrDefault (s : Settings) : DemuxSettings := s.demux.getD .default

/-- Refuses settings without an input, and reading in pieces of no size. -/
def check (s : Settings) : Except SettingsFault Unit :=
  if s.input.isNone then .error .missingInput
  else if s.demuxOrDefault.chunkSize = 0 then .error .zeroChunkSize
  else .ok ()

end Settings

end ProgramStream
