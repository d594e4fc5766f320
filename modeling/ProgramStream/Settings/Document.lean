import ProgramStream.Settings.Basic
import ProgramStream.Toml.Document
/-!
# Settings documents — settings from a TOML text

Each part of the settings is a table with keys of its own, or the same
values in the order of the keys as an array. Keys that mean nothing here
are passed over; a key that means something comes once at most. A value
has to be of the kind its key asks for.

To pass over a value is to go through it, so there is a limit on how deep
it may be nested. It is asked for last: a text that was read and has another
fault is refused for that one.
-/

namespace ProgramStream

namespace Settings

open Toml (Value Entries)

/-- A reader of a value under a key. -/
abbrev Decoder (α : Type) := Value → Option α

/-- A string. -/
def decodeString : Decoder String
  | .string text => some text
  | _ => none

/-- True or false. -/
def decodeBool : Decoder Bool
  | .boolean b => some b
  | _ => none

/-- An integer that is not negative. -/
def decodeNat : Decoder Nat
  | .integer n => if 0 ≤ n then some n.toNat else none
  | _ => none

/-- The value under a key, none if the key is not there. A key that comes
twice is refused. -/
def keyed {α : Type} (decode : Decoder α) (key : String) (entries : Entries) :
    Option (Option α) :=
  match entries.filter (·.1 = key) with
  | [] => some none
  | [(_, value)] => (decode value).map some
  | _ => none

/-- The item at a place of an array, none if the array is shorter. -/
def placed {α : Type} (decode : Decoder α) (i : Nat) (items : List Value) : Option (Option α) :=
  match items[i]? with
  | none => some none
  | some value => (decode value).map some

/-- The fields of a part of the settings, each read by `field` from its key
or its place. -/
def decodePart {α : Type} (fieldCount : Nat)
    (build : ({β : Type} → Decoder β → String → Nat → Option (Option β)) → Option α) :
    Decoder α
  | .table _ entries => build fun decode key _ => keyed decode key entries
  | .date => build fun decode key _ => keyed decode key []
  | .array items =>
    if fieldCount < items.length then none else build fun decode _ i => placed decode i items
  | _ => none

/-- The output: a path, and what is saved, nothing if nothing is said. -/
def decodeOutput : Decoder OutputSettings :=
  decodePart 4 fun field => do
    let path ← field decodeString "path" 0
    let savePayload ← field decodeBool "save_payload" 1
    let saveDiagnostics ← field decodeBool "save_diagnostics" 2
    let saveTables ← field decodeBool "save_tables" 3
    return { path := ← path
             savePayload := savePayload.getD false
             saveDiagnostics := saveDiagnostics.getD false
             saveTables := saveTables.getD false }

/-- The reading: the size of a piece and the limit on units. -/
def decodeDemux : Decoder DemuxSettings :=
  decodePart 2 fun field => do
    let chunkSize ← field decodeNat "chunk_size" 0
    let maxUnits ← field decodeNat "max_units" 1
    return { chunkSize := chunkSize.getD DemuxSettings.defaultChunkSize
             maxUnits := maxUnits.getD 0 }

/-- The log: its level. -/
def decodeLog : Decoder String :=
  decodePart 1 fun field => do
    let level ← field decodeString "level" 0
    level

/-- The settings of a document. -/
def decode (entries : Entries) : Option Settings := do
  let input ← keyed decodeString "input" entries
  let output ← keyed decodeOutput "output" entries
  let demux ← keyed decodeDemux "demux" entries
  let logLevel ← keyed decodeLog "log" entries
  return { input, output, demux, logLevel }

/-- The settings that a text says. -/
def ofText (text : String) : Except SettingsFault Settings :=
  match Toml.Document.ofText text with
  | .error .tooDeep => .error .tooDeep
  | .error .malformed => .error .text
  | .ok document =>
    match document.tree?.bind decode with
    | some settings =>
      if Toml.depthLimit < document.depth then .error .tooDeep else .ok settings
    | none => .error .text

/-- Settings from a text, if they can be used. -/
def checked (text : String) : Except SettingsFault Settings := do
  let settings ← ofText text
  settings.check
  return settings

/-- Settings from a file, if they can be used. -/
def load {m : Type → Type} [Monad m] [Storage m] (path : String) :
    m (Except SettingsFault Settings) := do
  match ← Storage.readText path with
  | .error fault => return .error (.storage fault)
  | .ok text => return checked text

end Settings

end ProgramStream
