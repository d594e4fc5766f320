import ProgramStream.PackHeader
/-!
# System headers — bounds on rates and buffers

    start code                     32
    header length                  16
    marker, rate bound, marker     24
    audio bound                     6
    fixed, CSPS                     2
    audio lock, video lock          2
    marker, video bound             6
    packet rate restriction         1
    reserved                        7
    stream bounds                  24 each: id 8, '11', scale 1, bound 13

The header length counts the bytes after it: the fixed part and the stream
bounds, which have to fill what is left of it exactly.
-/

namespace ProgramStream

/-- The number of bytes a buffer bound stands for: it counts units of 128
bytes, or of 1024 where the scale is set. -/
def bufferBytes (scale : Bool) (bound : Nat) : Nat :=
  bound * (if scale then 1024 else 128)

/-- The buffer bound of one stream. -/
structure StreamBound where
  streamId : UInt8
  scale : Bool
  bound : BitVec 13
  deriving DecidableEq, Repr

namespace StreamBound

/-- The length of a stream bound in bytes. -/
def length : Nat := 3

/-- The size of the bounded buffer in bytes. -/
def size (b : StreamBound) : Nat := bufferBytes b.scale b.bound.toNat

/-- Reads one stream bound. -/
def parse : Parser StreamBound := do
  let streamId ← Parser.field8
  let mark ← Parser.field 2
  if mark = 0b11 then
    let scale ← Parser.flag
    let bound ← Parser.field 13
    return { streamId, scale, bound }
  else throw (.malformed (.boundMark streamId))

/-- Reads stream bounds, as many as are asked for. -/
def parseMany : Nat → Parser (List StreamBound)
  | 0 => pure []
  | n + 1 => do
    let b ← parse
    let bs ← parseMany n
    return b :: bs

end StreamBound

/-- A system header. -/
structure SystemHeader where
  headerLength : UInt16
  rateBound : BitVec 22
  audioBound : BitVec 6
  fixed : Bool
  csps : Bool
  audioLock : Bool
  videoLock : Bool
  videoBound : BitVec 5
  packetRateRestriction : Bool
  streams : List StreamBound
  deriving DecidableEq, Repr

namespace SystemHeader

/-- Reads a system header. -/
def parse : Parser SystemHeader := do
  PackHeader.parseStart StreamId.system
  let headerLength ← Parser.field16
  let start ← Parser.taken
  Parser.marker "rate_bound"
  let rateBound ← Parser.field 22
  Parser.marker "rate_bound"
  let audioBound ← Parser.field 6
  let fixed ← Parser.flag
  let csps ← Parser.flag
  let audioLock ← Parser.flag
  let videoLock ← Parser.flag
  Parser.marker "video_bound"
  let videoBound ← Parser.field 5
  let packetRateRestriction ← Parser.flag
  Parser.reserved 7
  let used := (← Parser.taken) - start
  if headerLength.toNat < used then throw (.tooShort headerLength.toNat used)
  let boundsLength := headerLength.toNat - used
  if boundsLength % StreamBound.length ≠ 0 then throw (.malformed (.boundsLength boundsLength))
  let streams ← StreamBound.parseMany (boundsLength / StreamBound.length)
  return { headerLength, rateBound, audioBound, fixed, csps, audioLock, videoLock, videoBound,
           packetRateRestriction, streams }

end SystemHeader

end ProgramStream
