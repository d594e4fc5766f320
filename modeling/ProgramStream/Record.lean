import ProgramStream.Packet
import ProgramStream.StreamMap
/-!
# Units and records — what a program stream decodes into

A stream is a sequence of units. A record is a decoded unit with its place:
its number among all units and the number of the pack it belongs to.
-/

namespace ProgramStream

/-- A decoded unit of a program stream. -/
inductive StreamUnit where
  | pack (header : PackHeader)
  | system (header : SystemHeader)
  | map (map : StreamMap)
  /-- a packet and the codec of its stream -/
  | packet (packet : Packet) (codec : Codec)
  | streamEnd
  /-- a unit of another kind, passed over -/
  | other (streamId : UInt8) (length : Nat)
  deriving DecidableEq, Repr

/-- A unit and its place in the stream. -/
structure Record where
  index : Nat
  packIndex : Nat
  content : StreamUnit
  deriving DecidableEq, Repr

/-- The codecs that the maps of a session have told about. -/
structure CodecTable where
  /-- each stream's codec, the last one told -/
  entries : List (UInt8 × Codec) := []
  lastAudio : Option Codec := none
  lastVideo : Option Codec := none
  deriving DecidableEq, Repr

namespace CodecTable

/-- The codec a map gave a stream. -/
def codecOf (t : CodecTable) (streamId : UInt8) : Option Codec := t.entries.lookup streamId

/-- Takes in one entry of a map. -/
def learn (t : CodecTable) (e : MapEntry) : CodecTable :=
  { entries := (e.streamId, e.codec) :: t.entries.filter (·.1 ≠ e.streamId)
    lastAudio := if e.codec.isAudio then some e.codec else t.lastAudio
    lastVideo := if e.codec.isVideo then some e.codec else t.lastVideo }

/-- Takes in a map. -/
def learnAll (t : CodecTable) (m : StreamMap) : CodecTable := m.entries.foldl learn t

/-- The codec to assume for a stream: its own, or else the last one of its
kind. -/
def resolve? (t : CodecTable) (streamId : UInt8) : Option Codec :=
  (t.codecOf streamId).or (if StreamId.isAudio streamId then t.lastAudio else t.lastVideo)

@[simp] theorem codecOf_learn (t : CodecTable) (e : MapEntry) (id : UInt8) :
    (t.learn e).codecOf id = if id = e.streamId then some e.codec else t.codecOf id := by
  simp only [codecOf, learn, List.lookup_cons]
  split
  · rename_i h
    simp_all
  · rename_i h
    simp only [beq_eq_false_iff_ne, ne_eq] at h
    rw [if_neg h]
    induction t.entries with
    | nil => rfl
    | cons p ps ih =>
      by_cases hp : p.1 = e.streamId
      · rw [List.filter_cons_of_neg (by simpa using hp), ih, List.lookup_cons]
        have : (id == p.1) = false := by simp [hp, h]
        simp [this]
      · rw [List.filter_cons_of_pos (by simpa using hp), List.lookup_cons, List.lookup_cons, ih]

end CodecTable

namespace StreamUnit

/-- Reads a unit that starts with the given stream id, and takes in what it
tells about codecs. A unit of no known kind takes up all that is ahead. -/
def parse (codecs : CodecTable) (streamId : UInt8) : Parser (StreamUnit × CodecTable) := do
  if streamId = StreamId.streamEnd then
    Parser.reserved 32
    return (.streamEnd, codecs)
  else if streamId = StreamId.pack then
    return (.pack (← PackHeader.parse), codecs)
  else if streamId = StreamId.system then
    return (.system (← SystemHeader.parse), codecs)
  else if streamId = StreamId.map then
    let map ← StreamMap.parse
    return (.map map, codecs.learnAll map)
  else if StreamId.isAudio streamId || StreamId.isVideo streamId then
    let packet ← Packet.parse
    match codecs.resolve? streamId with
    | some codec => return (.packet packet codec, codecs)
    | none =>
      Parser.warn (.unmappedStream streamId)
      return (.packet packet (.unknown 0), codecs)
  else
    let length := (← get).cursor.left / 8
    Parser.skip length
    return (.other streamId length, codecs)

end StreamUnit

end ProgramStream
