import ProgramStream.Proofs.Strict.Implements
import ProgramStream.SystemHeader
/-!
# Strict headers — clocks, pack headers and system headers

The arithmetic of a system header is that of the bytes it has used: they are
counted from the header length on, so their difference is never negative, and
the room for stream bounds is what the guard before it leaves.
-/

namespace ProgramStream

open Parser.State

/-! ## Clocks -/

namespace Strict

/-- A 33-bit count, kept in a word of 64 bits. -/
def count33 (name : String) : Strict (BitVec 33) := do
  let high ← field 3 64
  marker name
  let middle ← field 15 64
  marker name
  let low ← field 15 64
  marker name
  return high ++ middle ++ low

theorem implements_count33 (name : String) {k m : Nat} :
    Implements k (IsPast m) (IsPast (m + 36)) (count33 name) (Parser.count33 name) := by
  unfold count33 Parser.count33
  refine (Implements.field (by decide) (by decide)).bind fun high => ?_
  refine (Implements.marker name).bind fun _ => ?_
  refine (Implements.field (by decide) (by decide)).bind fun middle => ?_
  refine (Implements.marker name).bind fun _ => ?_
  refine (Implements.field (by decide) (by decide)).bind fun low => ?_
  exact (Implements.marker name).bind fun _ => .pure _ fun _ hs => hs

end Strict

open Strict

namespace Timestamp

/-- Reads a timestamp with any code. -/
def parseStrict : Strict Timestamp := do
  let code ← field 4 8
  let value ← count33 "timestamp"
  return ⟨code.toNat, value.toNat⟩

/-- Reads a timestamp that has to have a given code. -/
def parseCodeStrict (expected : Nat) : Strict Timestamp := do
  let t ← parseStrict
  if t.code = expected then return t
  else fail (.timestampCode expected t.code)

theorem implements_parse {k m : Nat} :
    Implements k (IsPast m) (IsPast m) parseStrict parse := by
  unfold parseStrict parse
  refine (Implements.field (by decide) (by decide)).bind fun code => ?_
  exact (implements_count33 "timestamp").bind fun value => .pure_past _ (by omega)

theorem implements_parseCode (expected : Nat) {k m : Nat} :
    Implements k (IsPast m) (IsPast m) (parseCodeStrict expected) (parseCode expected) :=
  implements_parse.bind fun t =>
    .ite (fun _ => .pure t fun _ hs => hs) fun _ => .fail (.timestampCode expected t.code)

end Timestamp

namespace ClockReference

/-- Reads a clock reference. -/
def parseStrict (name : String) : Strict ClockReference := do
  let base ← count33 name
  let extension ← field 9 16
  marker name
  return ⟨base.toNat, extension.toNat⟩

theorem implements_parse (name : String) {k m : Nat} :
    Implements k (IsPast m) (IsPast (m + 46)) (parseStrict name) (parse name) := by
  unfold parseStrict parse
  refine (implements_count33 name).bind fun base => ?_
  refine (Implements.field (by decide) (by decide)).bind fun extension => ?_
  exact (Implements.marker name).bind fun _ => .pure _ fun _ hs => hs

end ClockReference

/-! ## Pack headers -/

namespace PackHeader

/-- Reads a start code that has to name a given kind of unit. -/
def parseStartStrict (streamId : UInt8) : Strict Unit := do
  let found ← field32
  if found = startCode streamId then return
  else fail (.startCode found)

/-- Reads the two bits that have to stand at a byte boundary. The byte they
stand in is looked up in those ahead. -/
def parseVersionStrict (mark : BitVec 2) : Strict Unit := do
  let ahead ← peek 1
  let first ← lift (Slip.elementAt ahead 0)
  let found ← field 2 64
  if found = mark then return
  else fail (.version first)

/-- Reads a pack header. -/
def parseStrict : Strict PackHeader := do
  parseStartStrict StreamId.pack
  parseVersionStrict 0b01
  let clock ← ClockReference.parseStrict "system_clock_reference"
  let muxRate ← field 22 32
  marker "program_mux_rate"
  marker "program_mux_rate"
  reserved 5
  let stuffingLength ← field 3 8
  let stuffing ← bytes stuffingLength.toNat
  return { clock, muxRate, stuffingLength, stuffing }

variable {k m : Nat}

theorem implements_parseStart (streamId : UInt8) :
    Implements k (IsPast m) (IsPast m) (parseStartStrict streamId) (parseStart streamId) :=
  Implements.field32.bind fun found =>
    .ite (fun _ => .pure_past () (by omega)) fun _ => .fail (.startCode found)

theorem implements_parseVersion (mark : BitVec 2) (hm : m % 8 = 0) :
    Implements k (IsPast m) (IsPast (m + 2)) (parseVersionStrict mark) (parseVersion mark) := by
  refine (Implements.peek 1 hm).bind_of_ok fun ahead s t h => ?_
  obtain ⟨-, -, hlen, -⟩ := Parser.peek_eq_ok_iff.1 h
  obtain ⟨first, rfl⟩ := List.length_eq_one_iff.1 hlen
  refine .lift_bind (c := first) rfl ?_
  refine (Implements.field (by decide) (by decide)).bind fun found => ?_
  exact .ite (fun _ => .pure () fun _ hs => hs) fun _ => .fail (.version first)

theorem implements_parse : Implements k (IsPast 0) (IsPast 0) parseStrict parse := by
  unfold parseStrict parse
  refine (implements_parseStart _).bind fun _ => ?_
  refine (implements_parseVersion _ rfl).bind fun _ => ?_
  refine (ClockReference.implements_parse _).bind fun clock => ?_
  refine (Implements.field (by decide) (by decide)).bind fun muxRate => ?_
  refine (Implements.marker _).bind fun _ => ?_
  refine (Implements.marker _).bind fun _ => ?_
  refine (Implements.reserved (by decide)).bind fun _ => ?_
  refine (Implements.field (by decide) (by decide)).bind fun stuffingLength => ?_
  exact (Implements.bytes _ rfl).bind fun stuffing => .pure_past _ rfl

end PackHeader

/-! ## System headers -/

namespace StreamBound

/-- Reads one stream bound. -/
def parseStrict : Strict StreamBound := do
  let streamId ← field8
  let mark ← field 2 64
  if mark = 0b11 then
    let scale ← flag
    let bound ← field 13 16
    return { streamId, scale, bound }
  else fail (.malformed (.boundMark streamId))

/-- Reads stream bounds, as many as are asked for. -/
def parseManyStrict : Nat → Strict (List StreamBound)
  | 0 => pure []
  | n + 1 => do
    let b ← parseStrict
    let bs ← parseManyStrict n
    return b :: bs

variable {k m : Nat}

theorem implements_parse : Implements k (IsPast m) (IsPast m) parseStrict parse := by
  unfold parseStrict parse
  refine Implements.field8.bind fun streamId => ?_
  refine (Implements.field (by decide) (by decide)).bind fun mark => ?_
  refine .ite (fun _ => ?_) fun _ => .fail (.malformed (.boundMark streamId))
  refine Implements.flag.bind fun scale => ?_
  exact (Implements.field (by decide) (by decide)).bind fun bound => .pure_past _ (by omega)

theorem implements_parseMany (n : Nat) :
    Implements k (IsPast m) (IsPast m) (parseManyStrict n) (parseMany n) := by
  induction n with
  | zero => exact .pure [] fun _ hs => hs
  | succ n ih => exact implements_parse.bind fun b => ih.bind fun bs => .pure _ fun _ hs => hs

end StreamBound

namespace SystemHeader

/-- Reads a system header. -/
def parseStrict : Strict SystemHeader := do
  PackHeader.parseStartStrict StreamId.system
  let headerLength ← field16
  let start ← taken
  marker "rate_bound"
  let rateBound ← field 22 32
  marker "rate_bound"
  let audioBound ← field 6 8
  let fixed ← flag
  let csps ← flag
  let audioLock ← flag
  let videoLock ← flag
  marker "video_bound"
  let videoBound ← field 5 8
  let packetRateRestriction ← flag
  reserved 7
  let used ← Strict.sub (← taken) start
  if headerLength.toNat < used then fail (.tooShort headerLength.toNat used)
  let boundsLength ← Strict.sub headerLength.toNat used
  if boundsLength % StreamBound.length ≠ 0 then fail (.malformed (.boundsLength boundsLength))
  let streams ← StreamBound.parseManyStrict (boundsLength / StreamBound.length)
  return { headerLength, rateBound, audioBound, fixed, csps, audioLock, videoLock, videoBound,
           packetRateRestriction, streams }

theorem implements_parse {k : Nat} : Implements k (IsPast 0) (IsPast 0) parseStrict parse := by
  unfold parseStrict parse
  refine (PackHeader.implements_parseStart _).bind fun _ => ?_
  refine Implements.field16.bind fun headerLength => ?_
  refine .taken_bind fun start _ => ?_
  refine (Implements.marker _).bind fun _ => ?_
  refine (Implements.field (by decide) (by decide)).bind fun rateBound => ?_
  refine (Implements.marker _).bind fun _ => ?_
  refine (Implements.field (by decide) (by decide)).bind fun audioBound => ?_
  refine Implements.flag.bind fun fixed => ?_
  refine Implements.flag.bind fun csps => ?_
  refine Implements.flag.bind fun audioLock => ?_
  refine Implements.flag.bind fun videoLock => ?_
  refine (Implements.marker _).bind fun _ => ?_
  refine (Implements.field (by decide) (by decide)).bind fun videoBound => ?_
  refine Implements.flag.bind fun packetRateRestriction => ?_
  refine (Implements.reserved (by decide)).bind fun _ => ?_
  refine .taken_bind fun now hnow => ?_
  refine .sub_bind hnow ?_
  refine .ite (fun _ => .fail_bind (.tooShort _ _) _ _) fun hused => ?_
  refine .sub_bind (Nat.not_lt.1 hused) ?_
  refine .ite (fun _ => .fail_bind (.malformed (.boundsLength _)) _ _) fun _ => ?_
  exact (StreamBound.implements_parseMany _).bind fun streams => .pure_past _ rfl

end SystemHeader

end ProgramStream
