import ProgramStream.Diagnostic.Escape
import ProgramStream.Diagnostic.Layout
import ProgramStream.Record
/-!
# Diagnostics of units — every field by name

The text a dump keeps of a header or a map: all of its fields in the order
they have in the stream, with the names the format's own tables use.
Packets have no such text; their payload is kept instead.
-/

namespace ProgramStream

namespace Diagnostic

open Shown

/-- A byte string. -/
def showBytes (bytes : List UInt8) : Shown := .text (quoted bytes)

/-- A codec. -/
def showCodec : Codec → Shown
  | .mpeg4 => .text "Mpeg4"
  | .h264 => .text "H264"
  | .h265 => .text "H265"
  | .svacVideo => .text "SvacVideo"
  | .aac => .text "Aac"
  | .g711A => .text "G711A"
  | .g711U => .text "G711U"
  | .g722 => .text "G722"
  | .g723 => .text "G723"
  | .g729 => .text "G729"
  | .svacAudio => .text "SvacAudio"
  | .unknown streamType => apply "Unknown" (number streamType.toNat)

/-- A clock reference. -/
def showClock (c : ClockReference) : Shown :=
  record "ClockReference" [("base", number c.base), ("extension", number c.extension)]

/-- A pack header. -/
def showPackHeader (h : PackHeader) : Shown :=
  record "PsPackHeader" [
    ("system_clock_reference", showClock h.clock),
    ("program_mux_rate", number h.muxRate.toNat),
    ("pack_stuffing_length", number h.stuffingLength.toNat),
    ("stuffing_bytes", showBytes h.stuffing)]

/-- A stream bound. -/
def showStreamBound (b : StreamBound) : Shown :=
  record "PsStreamBound" [
    ("stream_id", number b.streamId.toNat),
    ("buffer_bound_scale", bit b.scale),
    ("buffer_size_bound", number b.bound.toNat)]

/-- A system header. -/
def showSystemHeader (h : SystemHeader) : Shown :=
  record "PsSystemHeader" [
    ("header_length", number h.headerLength.toNat),
    ("rate_bound", number h.rateBound.toNat),
    ("audio_bound", number h.audioBound.toNat),
    ("fixed_flag", bit h.fixed),
    ("csps_flag", bit h.csps),
    ("system_audio_lock_flag", bit h.audioLock),
    ("system_video_lock_flag", bit h.videoLock),
    ("video_bound", number h.videoBound.toNat),
    ("packet_rate_restriction_flag", bit h.packetRateRestriction),
    ("streams", list (h.streams.map showStreamBound))]

/-- A pseudo descriptor. -/
def showPseudoDescriptor (d : PseudoDescriptor) : Shown :=
  record "PseudoDescriptor" [
    ("pseudo_descriptor_tag", number d.code.toNat),
    ("pseudo_descriptor_length", number d.length.toNat),
    ("elementary_stream_id_extension", number d.idExtension.toNat)]

/-- An entry of a stream map. -/
def showMapEntry (e : MapEntry) : Shown :=
  record "ElementaryStreamMap" [
    ("stream_type", number e.streamType.toNat),
    ("elementary_stream_id", number e.streamId.toNat),
    ("elementary_stream_info_length", number e.infoLength.toNat),
    ("pseudo_descriptor", option (e.pseudo.map showPseudoDescriptor)),
    ("descriptors", showBytes e.descriptors),
    ("codec", showCodec e.codec)]

/-- A stream map. -/
def showStreamMap (m : StreamMap) : Shown :=
  record "ProgramStreamMap" [
    ("program_stream_map_length", number m.length.toNat),
    ("current_next_indicator", bit m.currentNext),
    ("single_extension_stream_flag", bit m.singleExtension),
    ("program_stream_map_version", number m.version.toNat),
    ("program_stream_info_length", number m.infoLength.toNat),
    ("program_descriptors", showBytes m.descriptors),
    ("elementary_stream_map_length", number m.entriesLength.toNat),
    ("stream_map", list (m.entries.map showMapEntry)),
    ("crc_32", number m.checksum.toNat)]

/-- A unit, if it is of a kind that has a diagnostic text. -/
def showUnit? : StreamUnit → Option Shown
  | .pack h => some (apply "PackHeader" (showPackHeader h))
  | .system h => some (apply "SystemHeader" (showSystemHeader h))
  | .map m => some (apply "ProgramStreamMap" (showStreamMap m))
  | .packet _ _ => none
  | .streamEnd => some (.text "StreamEnd")
  | .other id length =>
    some (record "Unknown" [("stream_id", number id.toNat), ("length", number length)])

/-- The diagnostic text of a unit. -/
def text? (u : StreamUnit) : Option String := (showUnit? u).map render

end Diagnostic

end ProgramStream
