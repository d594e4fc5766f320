import ProgramStream.Fault
/-!
# Warnings — what is reported while parsing goes on

A warning stops nothing. The parsers and the session only collect them in
order; their wording is `Warning.message`.
-/

namespace ProgramStream

/-- Something worth reporting that stops nothing. -/
inductive Warning where
  /-- bytes that start no unit, before the unit of this number -/
  | lostSync (unit : Nat)
  /-- a unit was framed but refused -/
  | droppedUnit (unit : Nat) (streamId : UInt8) (fault : Fault)
  /-- bytes at the end of the input that are no whole unit -/
  | trailingBytes (count : Nat)
  /-- a packet of a stream no map has told about -/
  | unmappedStream (streamId : UInt8)
  /-- a map entry with a stream type of no known codec -/
  | unknownCodec (streamType streamId : UInt8)
  /-- a packet with the one value of the timestamp flags that is forbidden -/
  | forbiddenTimestampFlags (streamId : UInt8)
  deriving DecidableEq, Repr

namespace Warning

/-- The wording of a warning. -/
def message : Warning → String
  | .lostSync unit => s!"lost sync at unit {unit}, scanning for a start code"
  | .droppedUnit unit id fault =>
    s!"drop corrupt unit {unit} (stream id {Text.hex 2 id.toNat}): {fault.message}"
  | .trailingBytes count => s!"{count} trailing bytes do not form a complete unit"
  | .unmappedStream id => "no program stream map entry for stream " ++ Text.hex 2 id.toNat
  | .unknownCodec type id =>
    s!"unknown codec, stream type {Text.hex 2 type.toNat} on elementary stream {Text.hex 2 id.toNat}"
  | .forbiddenTimestampFlags id =>
    s!"forbidden PTS_DTS_flags '01' on stream {Text.hex 2 id.toNat}, no timestamp read"

end Warning

end ProgramStream
