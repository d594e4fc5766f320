import ProgramStream.Record
/-!
# File names — one for each unit that is kept

A name begins with the number of the unit and that of its pack, so no two
units of a stream share one. What follows tells the kind of the unit and,
for a packet, its codec, the length of its payload and its time in
milliseconds.
-/

namespace ProgramStream

namespace Dump

/-- The name of a single program's association table. -/
def associationName : String := "pat.ts.data"

/-- The name of a single program's map table. -/
def programMapName : String := "pmt.ts.data"

/-- The kind of a packet's stream. -/
def media (p : Packet) : String :=
  if StreamId.isAudio p.streamId then "audio" else "video"

/-- The time of a packet in milliseconds, zero if it has none. -/
def packetTime (p : Packet) : Nat :=
  (p.fields.presentation.map Timestamp.milliseconds).getD 0

/-- What the name of a unit's file says of the unit. Stream ends and units
of other kinds have no file. -/
def unitName? : StreamUnit → Option String
  | .pack _ => some "psHeader_scr"
  | .system h => some s!"sysHeader_stream{h.streams.length}"
  | .map m => some s!"psMap_mapStream{m.entries.length}"
  | .packet p codec =>
    some s!"{media p}_{codec.name}_{p.payload.length}_{packetTime p}"
  | .streamEnd => none
  | .other _ _ => none

/-- The name of a record's file. -/
def fileName? (r : Record) : Option String :=
  (unitName? r.content).map fun name =>
    s!"{Text.padded 10 7 r.index}_ps{r.packIndex}_{name}.data"

end Dump

end ProgramStream
