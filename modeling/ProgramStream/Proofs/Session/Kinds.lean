import ProgramStream.Proofs.Dump.FileName
import ProgramStream.Proofs.Session.Labels
/-!
# Sessions — a codec is of the kind of its stream

A codec gets to a packet by one of two ways: a map tells it of the packet's
own stream, or of another stream of the same kind. On both ways the kind is
asked for anew: when a map's entry is classified, when the table keeps the
last codec of a kind, and when a packet looks for one. `IsOfKinds` is what
makes these agree. Each entry that a table learns keeps it
(`IsOfKinds.learn`), so all that maps tell does, and a table that has it
labels packets by their kind (`IsOfKinds.fits_label`).

A payload's file is named by both the kind of the stream and the codec, so
the two can be read off the name again (`splitOn_of_fileName?`) and never
contradict each other.
-/

namespace ProgramStream

/-! ## Codecs and ids -/

/-- **A codec that is of a stream's kind**: none that is known, or a video codec
for a video stream, or an audio codec for an audio stream. -/
inductive Codec.Fits : Codec → UInt8 → Prop
  | unknown (streamType id : UInt8) : Fits (.unknown streamType) id
  | video {codec : Codec} {id : UInt8} (hcodec : codec.isVideo) (hid : StreamId.isVideo id) :
      Fits codec id
  | audio {codec : Codec} {id : UInt8} (hcodec : codec.isAudio) (hid : StreamId.isAudio id) :
      Fits codec id

namespace Codec

variable {codec : Codec} {id : UInt8}

/-- Every codec is of one of three kinds. -/
theorem kind_cases (codec : Codec) :
    (∃ streamType, codec = .unknown streamType) ∨ codec.isVideo ∨ codec.isAudio := by
  cases codec with
  | unknown streamType => exact .inl ⟨streamType, rfl⟩
  | mpeg4 | h264 | h265 | svacVideo => exact .inr (.inl rfl)
  | aac | g711A | g711U | g722 | g723 | g729 | svacAudio => exact .inr (.inr rfl)

theorem not_isVideo_of_isAudio (h : codec.isAudio) : codec.isVideo = false := by
  cases codec <;> first | rfl | cases h

/-- **What a stream type is classified as fits.** -/
theorem fits_classify (streamType id : UInt8) : (classify streamType id).Fits id := by
  rcases kind_cases (classify streamType id) with ⟨type, h⟩ | hvideo | haudio
  · rw [h]
    exact .unknown type id
  · exact .video hvideo (isVideo_of_classify hvideo)
  · exact .audio haudio (isAudio_of_classify haudio)

theorem Fits.isAudio_of_isAudio (h : codec.Fits id) (hcodec : codec.isAudio) :
    StreamId.isAudio id := by
  cases h with
  | unknown => cases hcodec
  | video hvideo => rw [not_isVideo_of_isAudio hcodec] at hvideo; cases hvideo
  | audio _ hid => exact hid

theorem Fits.isVideo_of_isVideo (h : codec.Fits id) (hcodec : codec.isVideo) :
    StreamId.isVideo id := by
  cases h with
  | unknown => cases hcodec
  | video _ hid => exact hid
  | audio haudio => rw [not_isVideo_of_isAudio haudio] at hcodec; cases hcodec

end Codec

/-! ## Tables -/

namespace CodecTable

/-- **A table that keeps the kinds apart.** -/
structure IsOfKinds (t : CodecTable) : Prop where
  entries : ∀ e ∈ t.entries, e.2.Fits e.1
  lastAudio : ∀ codec ∈ t.lastAudio, codec.isAudio
  lastVideo : ∀ codec ∈ t.lastVideo, codec.isVideo

theorem isOfKinds_empty : IsOfKinds {} where
  entries := by simp
  lastAudio := by simp
  lastVideo := by simp

variable {t : CodecTable} {id : UInt8}

/-- **Learning keeps the kinds apart**, whatever the entry. -/
theorem IsOfKinds.learn (h : t.IsOfKinds) (e : MapEntry) : (t.learn e).IsOfKinds where
  entries := by
    intro entry hentry
    rcases List.mem_cons.1 hentry with rfl | hold
    · exact Codec.fits_classify e.streamType e.streamId
    · exact h.entries entry (List.mem_of_mem_filter hold)
  lastAudio := by
    intro codec hcodec
    simp only [CodecTable.learn] at hcodec
    split at hcodec
    · rename_i haudio
      obtain rfl := Option.mem_some.1 hcodec
      exact haudio
    · exact h.lastAudio codec hcodec
  lastVideo := by
    intro codec hcodec
    simp only [CodecTable.learn] at hcodec
    split at hcodec
    · rename_i hvideo
      obtain rfl := Option.mem_some.1 hcodec
      exact hvideo
    · exact h.lastVideo codec hcodec

theorem IsOfKinds.foldl_learn (h : t.IsOfKinds) (entries : List MapEntry) :
    (entries.foldl CodecTable.learn t).IsOfKinds := by
  induction entries generalizing t with
  | nil => exact h
  | cons e entries ih => exact ih (h.learn e)

theorem IsOfKinds.fits_codecOf (h : t.IsOfKinds) {codec : Codec}
    (hcodec : t.codecOf id = some codec) : codec.Fits id := by
  obtain ⟨before, after, hentries, -⟩ := List.lookup_eq_some_iff.1 hcodec
  exact h.entries (id, codec) (by simp [hentries])

/-- **A packet's label fits.** The fallback asks only for the one kind, so it is
the id of a packet that makes it the other. -/
theorem IsOfKinds.fits_label (h : t.IsOfKinds) (hid : StreamUnit.IsPacketId id) :
    (StreamUnit.label t id).Fits id := by
  unfold StreamUnit.label resolve?
  cases hown : t.codecOf id with
  | some codec => exact h.fits_codecOf hown
  | none =>
    rw [Option.none_or]
    by_cases haudio : StreamId.isAudio id = true
    · rw [if_pos haudio]
      cases hlast : t.lastAudio with
      | none => exact .unknown 0 id
      | some codec => exact .audio (h.lastAudio codec hlast) haudio
    · rw [if_neg haudio]
      cases hlast : t.lastVideo with
      | none => exact .unknown 0 id
      | some codec =>
        exact .video (h.lastVideo codec hlast) ((Bool.or_eq_true_iff.1 hid).resolve_left haudio)

end CodecTable

/-! ## Names -/

namespace Codec

variable {codec codec' : Codec}

/-- No known codec is called as an unknown one is. -/
theorem name_unknown_not_mem {names : List String}
    (h : ∀ other ∈ names, other.toList.head? ≠ some 'u') (streamType : UInt8) :
    (unknown streamType).name ∉ names := by
  intro hmem
  refine h _ hmem ?_
  rw [name, String.toList_append]
  rfl

theorem isVideo_iff_name_mem :
    codec.isVideo ↔ codec.name ∈ ["mpeg4", "h264", "h265", "svac"] := by
  cases codec with
  | unknown streamType =>
    exact iff_of_false Bool.false_ne_true (name_unknown_not_mem (by decide) streamType)
  | _ => decide

theorem isAudio_iff_name_mem : codec.isAudio ↔
    codec.name ∈ ["aac", "G711", "G711U", "G722", "G723", "G729", "svacaudio"] := by
  cases codec with
  | unknown streamType =>
    exact iff_of_false Bool.false_ne_true (name_unknown_not_mem (by decide) streamType)
  | _ => decide

/-- No codec is called as a kind of stream is. -/
theorem name_not_mem_kinds (codec : Codec) : codec.name ∉ ["audio", "video"] := by
  cases codec with
  | unknown streamType => exact name_unknown_not_mem (by decide) streamType
  | _ => decide

theorem underscore_not_mem_name (codec : Codec) : '_' ∉ codec.name.toList := by
  cases codec with
  | unknown type =>
    have hhex : ∀ n < 256, '_' ∉ (Text.padded 16 2 n).toList := by decide +kernel
    rw [name, String.toList_append, List.mem_append]
    exact not_or.2 ⟨by decide, hhex _ type.toNat_lt⟩
  | _ => decide

end Codec

namespace Dump

/-- **A name that contradicts itself**: it says audio and then a video codec, or
video and then an audio codec. -/
def IsMisnamed (name : String) : Prop :=
  ∃ codec : Codec,
    codec.isVideo ∧ ("_audio_" ++ codec.name ++ "_").toList <:+: name.toList ∨
      codec.isAudio ∧ ("_video_" ++ codec.name ++ "_").toList <:+: name.toList

/-- What stands between underscores is two parts, one after the other. -/
theorem isInfix_splitOn {first second name : List Char} (hfirst : '_' ∉ first)
    (hsecond : '_' ∉ second) (h : '_' :: first ++ '_' :: second ++ ['_'] <:+: name) :
    [first, second] <:+: name.splitOn '_' := by
  obtain ⟨before, after, rfl⟩ := h
  refine ⟨before.splitOn '_', after.splitOn '_', ?_⟩
  have hname : before ++ ('_' :: first ++ '_' :: second ++ ['_']) ++ after =
      before ++ '_' :: (first ++ '_' :: (second ++ '_' :: after)) := by simp
  rw [hname]
  simp only [List.splitOn]
  rw [List.splitOnP_append_cons _ _ (by rfl), List.splitOnP_append_cons _ _ (by rfl),
    List.splitOnP_append_cons _ _ (by rfl)]
  simp only [← List.splitOn_eq_splitOnP, List.splitOn_eq_singleton hfirst,
    List.splitOn_eq_singleton hsecond, List.append_assoc, List.cons_append, List.nil_append]

variable {r : Record} {p : Packet} {codec : Codec} {name : String}

/-- The name of a payload's file says the kind of the stream, and then the
codec. -/
theorem isInfix_of_fileName? (hcontent : r.content = .packet p codec)
    (h : fileName? r = some name) :
    ("_" ++ media p ++ "_" ++ codec.name ++ "_").toList <:+: name.toList := by
  obtain ⟨unit, hunit, rfl⟩ := fileName?_eq_some_iff.1 h
  rw [hcontent] at hunit
  cases hunit
  refine ⟨(Text.padded 10 7 r.index ++ "_ps" ++ toString r.packIndex).toList,
    (toString p.payload.length ++ "_" ++ toString (packetTime p) ++ ".data").toList, ?_⟩
  change _ = (Text.padded 10 7 r.index ++ "_ps" ++ toString r.packIndex ++ "_" ++
    (media p ++ "_" ++ codec.name ++ "_" ++ toString p.payload.length ++ "_" ++
      toString (packetTime p)) ++ ".data").toList
  simp only [String.toList_append, List.append_assoc]

/-- **The parts of the name of a payload's file.** -/
theorem splitOn_of_fileName? (hcontent : r.content = .packet p codec)
    (h : fileName? r = some name) :
    name.toList.splitOn '_' =
      [Text.digits 10 7 r.index, ("ps" ++ toString r.packIndex).toList, (media p).toList,
        codec.name.toList, (toString p.payload.length).toList,
        (toString (packetTime p) ++ ".data").toList] := by
  obtain ⟨unit, hunit, rfl⟩ := fileName?_eq_some_iff.1 h
  rw [hcontent] at hunit
  cases hunit
  have hdigits : ∀ n : Nat, '_' ∉ (toString n).toList := fun n hmem =>
    absurd (Text.isDigit_of_mem_toString hmem) (by decide)
  have hindex : '_' ∉ Text.digits 10 7 r.index := fun hmem =>
    absurd (Text.isDigit_of_mem_digits hmem) (by decide)
  have hmedia : '_' ∉ (media p).toList := by
    unfold media
    split <;> decide
  have hparts : (Text.padded 10 7 r.index ++ "_ps" ++ toString r.packIndex ++ "_" ++
      (media p ++ "_" ++ codec.name ++ "_" ++ toString p.payload.length ++ "_" ++
        toString (packetTime p)) ++ ".data").toList =
      ['_'].intercalate [Text.digits 10 7 r.index, ("ps" ++ toString r.packIndex).toList,
        (media p).toList, codec.name.toList, (toString p.payload.length).toList,
        (toString (packetTime p) ++ ".data").toList] := by
    simp [Text.padded, List.intercalate]
  refine (congrArg (List.splitOn '_') hparts).trans
    (List.splitOn_intercalate '_' ?_ (List.cons_ne_nil _ _))
  simp only [List.forall_mem_cons, String.toList_append, List.mem_append, not_or]
  exact ⟨hindex, ⟨by decide, hdigits _⟩, hmedia, codec.underscore_not_mem_name, hdigits _,
    ⟨hdigits _, by decide⟩, by simp⟩

/-- **A kind is named with the codec of the packet only.** No other part of the
name is a kind. -/
theorem eq_of_isInfix (hcontent : r.content = .packet p codec) (h : fileName? r = some name)
    {kind : String} (hkind : kind = "audio" ∨ kind = "video") {codec' : Codec}
    (hname : ("_" ++ kind ++ "_" ++ codec'.name ++ "_").toList <:+: name.toList) :
    kind = media p ∧ codec'.name = codec.name := by
  have hparts : [kind.toList, codec'.name.toList] <:+: name.toList.splitOn '_' := by
    refine isInfix_splitOn ?_ codec'.underscore_not_mem_name (by simpa using hname)
    rcases hkind with rfl | rfl <;> decide
  rw [splitOn_of_fileName? hcontent h] at hparts
  have hletter : 'd' ∈ kind.toList := by rcases hkind with rfl | rfl <;> decide
  have hdigits : ¬∀ c ∈ kind.toList, c.isDigit = true := fun h => absurd (h 'd' hletter) (by decide)
  simp only [List.infix_cons_iff, List.cons_prefix_cons, List.infix_nil, List.cons_ne_nil,
    List.prefix_nil, List.nil_prefix, and_true, and_false, or_false, String.toList_inj] at hparts
  rcases hparts with ⟨hindex, -⟩ | ⟨hpack, -⟩ | hmedia | ⟨hcodec, -⟩ | ⟨hlength, -⟩
  · exact absurd (fun c hc => Text.isDigit_of_mem_digits (hindex ▸ hc)) hdigits
  · have hhead := congrArg (fun part : String => part.toList.head?) hpack
    rcases hkind with rfl | rfl <;> simp at hhead
  · exact hmedia
  · exact absurd (by simpa [← hcodec] using hkind) codec.name_not_mem_kinds
  · exact absurd (fun c hc => Text.isDigit_of_mem_toString (hlength ▸ hc)) hdigits

/-- **With a codec that fits, a name does not contradict itself.** -/
theorem not_isMisnamed (hcontent : r.content = .packet p codec) (hfits : codec.Fits p.streamId)
    (h : fileName? r = some name) : ¬IsMisnamed name := by
  rintro ⟨codec', ⟨hvideo, hname⟩ | ⟨haudio, hname⟩⟩
  · obtain ⟨hmedia, hcodec⟩ := eq_of_isInfix hcontent h (.inl rfl) hname
    rw [Codec.isVideo_iff_name_mem, hcodec, ← Codec.isVideo_iff_name_mem] at hvideo
    have hid := hfits.isVideo_of_isVideo hvideo
    have haudio : StreamId.isAudio p.streamId = true := by
      by_contra hnot
      rw [media, if_neg hnot] at hmedia
      exact absurd hmedia (by decide)
    rw [StreamId.not_isVideo_of_isAudio haudio] at hid
    cases hid
  · obtain ⟨hmedia, hcodec⟩ := eq_of_isInfix hcontent h (.inr rfl) hname
    rw [Codec.isAudio_iff_name_mem, hcodec, ← Codec.isAudio_iff_name_mem] at haudio
    rw [media, if_pos (hfits.isAudio_of_isAudio haudio)] at hmedia
    exact absurd hmedia (by decide)

/-- A name that would. -/
example : IsMisnamed "0000001_ps0_audio_h264_4_0.data" :=
  ⟨.h264, .inl ⟨rfl, "0000001_ps0".toList, "4_0.data".toList, by decide⟩⟩

end Dump

/-! ## Sessions -/

namespace Session

variable {ε : Type} {fed : List UInt8} {moves : List Move} {log : Log} {s : Session}

theorem Reaches.isOfKinds (h : Reaches fed moves log s) : s.codecs.IsOfKinds := by
  rw [h.codecs_eq]
  exact CodecTable.isOfKinds_empty.foldl_learn (told moves)

/-- **Every packet's codec fits**, as the table did when the packet was taken. -/
theorem Reaches.fits (h : Reaches fed moves log s) {r : Record} {p : Packet} {codec : Codec}
    (hr : r ∈ log.records) (hcontent : r.content = .packet p codec) : codec.Fits p.streamId := by
  obtain ⟨id, bytes, hmove⟩ := h.getElem?_index hr
  obtain ⟨i, hi⟩ := List.mem_iff_getElem?.1 (List.mem_filter.1 (List.mem_of_getElem? hmove)).1
  have hid := h.isPacketId_of_mem (Array.mem_toList_iff.2 hr) hcontent
  rw [h.codec_eq hi hcontent, ← CodecTable.label_foldl_learn _ hid]
  exact (CodecTable.isOfKinds_empty.foldl_learn _).fits_label hid

/-- **The kinds of streams and of codecs agree.** Whatever calls are made, with
whatever receivers: each stream has a codec of its kind, or none that is
known, and so has each packet's record. The last audio codec is one, and the
last video codec is one. A payload's file is named by the kind of the stream
and the codec, and never by the one kind and a codec of the other. -/
theorem kinds_performAll (calls : List (Call ε)) :
    let s := (performAll calls).1
    let log := (performAll calls).2
    (∀ e ∈ s.codecs.entries, e.2.Fits e.1) ∧
      (∀ codec ∈ s.codecs.lastAudio, codec.isAudio) ∧
      (∀ codec ∈ s.codecs.lastVideo, codec.isVideo) ∧
      ∀ r ∈ log.records, ∀ p codec, r.content = .packet p codec →
        codec.Fits p.streamId ∧
        ∀ name, Dump.fileName? r = some name →
          ("_" ++ Dump.media p ++ "_" ++ codec.name ++ "_").toList <:+: name.toList ∧
            ¬Dump.IsMisnamed name := by
  intro s log
  obtain ⟨moves, h⟩ := reaches_performAll calls
  refine ⟨h.isOfKinds.entries, h.isOfKinds.lastAudio, h.isOfKinds.lastVideo, ?_⟩
  intro r hr p codec hcontent
  have hfits := h.fits hr hcontent
  exact ⟨hfits, fun name hname =>
    ⟨Dump.isInfix_of_fileName? hcontent hname, Dump.not_isMisnamed hcontent hfits hname⟩⟩

end Session

end ProgramStream
