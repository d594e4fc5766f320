import ProgramStream.StreamId
import ProgramStream.Text.Radix
/-!
# Codecs — what a stream type means in the range of its stream id

A stream type names a codec only together with the kind of its stream: the
same type means nothing, `unknown`, on a stream of the other kind. So a
codec is never of a kind its stream is not (`isVideo_of_classify`,
`isAudio_of_classify`).
-/

namespace ProgramStream

/-- The codec of an elementary stream. -/
inductive Codec where
  | mpeg4
  | h264
  | h265
  | svacVideo
  | aac
  | g711A
  | g711U
  | g722
  | g723
  | g729
  | svacAudio
  /-- a stream type with no codec in its stream's range -/
  | unknown (streamType : UInt8)
  deriving DecidableEq, Repr, Inhabited

namespace Codec

/-- The video codec of a stream type. -/
def ofVideoType (streamType : UInt8) : Codec :=
  if streamType = 0x10 then .mpeg4
  else if streamType = 0x1b then .h264
  else if streamType = 0x24 then .h265
  else if streamType = 0x80 then .svacVideo
  else .unknown streamType

/-- The audio codec of a stream type. -/
def ofAudioType (streamType : UInt8) : Codec :=
  if streamType = 0x0f then .aac
  else if streamType = 0x90 then .g711A
  else if streamType = 0x91 then .g711U
  else if streamType = 0x92 then .g722
  else if streamType = 0x93 then .g723
  else if streamType = 0x99 then .g729
  else if streamType = 0x9b then .svacAudio
  else .unknown streamType

/-- The codec of a stream, from its type and its id. -/
def classify (streamType streamId : UInt8) : Codec :=
  if StreamId.isVideo streamId then ofVideoType streamType
  else if StreamId.isAudio streamId then ofAudioType streamType
  else .unknown streamType

/-- A video codec. -/
def isVideo : Codec → Bool
  | .mpeg4 | .h264 | .h265 | .svacVideo => true
  | _ => false

/-- An audio codec. -/
def isAudio : Codec → Bool
  | .aac | .g711A | .g711U | .g722 | .g723 | .g729 | .svacAudio => true
  | _ => false

/-- The short name, as it stands in file names. -/
def name : Codec → String
  | .mpeg4 => "mpeg4"
  | .h264 => "h264"
  | .h265 => "h265"
  | .svacVideo => "svac"
  | .aac => "aac"
  | .g711A => "G711"
  | .g711U => "G711U"
  | .g722 => "G722"
  | .g723 => "G723"
  | .g729 => "G729"
  | .svacAudio => "svacaudio"
  | .unknown streamType => "unknown" ++ Text.padded 16 2 streamType.toNat

/-- A video codec is given to video streams only. -/
theorem isVideo_of_classify {streamType id : UInt8} (h : (classify streamType id).isVideo) :
    StreamId.isVideo id := by
  unfold classify at h
  split at h
  · assumption
  · split at h
    · unfold ofAudioType at h
      repeat' split at h
      all_goals exact absurd h (by simp [isVideo])
    · exact absurd h (by simp [isVideo])

/-- An audio codec is given to audio streams only. -/
theorem isAudio_of_classify {streamType id : UInt8} (h : (classify streamType id).isAudio) :
    StreamId.isAudio id := by
  unfold classify at h
  split at h
  · unfold ofVideoType at h
    repeat' split at h
    all_goals exact absurd h (by simp [isAudio])
  · split at h
    · assumption
    · exact absurd h (by simp [isAudio])

end Codec

end ProgramStream
