import ProgramStream.Proofs.Parser
import ProgramStream.Record
/-!
# Units — what reading one can do

`StreamUnit.Reads` says once what it is to read a unit that starts with a
given stream id, a case for each kind of unit, and `parse_eq_ok_iff` that
reading does this and nothing else. What is left open is what the parsers of
the kinds do. `judge` is what becomes of a unit in a session: it has to be
read, and all of its bytes have to be taken.
-/

namespace ProgramStream

open ProgramStream.Parser ProgramStream.Parser.State

namespace StreamUnit

variable {codecs codecs' : CodecTable} {streamId : UInt8} {content : StreamUnit}
  {s s' : Parser.State}

/-- The stream ids of packets. -/
def IsPacketId (streamId : UInt8) : Prop :=
  (StreamId.isAudio streamId || StreamId.isVideo streamId) = true

instance (streamId : UInt8) : Decidable (IsPacketId streamId) := inferInstanceAs (Decidable (_ = _))

/-- The two ranges of packets make one. -/
theorem isPacketId_iff : IsPacketId streamId ↔ 0xC0 ≤ streamId ∧ streamId ≤ 0xEF := by
  simp only [IsPacketId, StreamId.isAudio, StreamId.isVideo, Bool.or_eq_true, Bool.and_eq_true,
    decide_eq_true_eq, UInt8.le_iff_toNat_le]
  change (192 ≤ streamId.toNat ∧ streamId.toNat ≤ 223) ∨
    (224 ≤ streamId.toNat ∧ streamId.toNat ≤ 239) ↔
      192 ≤ streamId.toNat ∧ streamId.toNat ≤ 239
  omega

/-- The stream ids of units that are passed over. -/
def IsOtherId (streamId : UInt8) : Prop :=
  streamId ≠ StreamId.streamEnd ∧ streamId ≠ StreamId.pack ∧ streamId ≠ StreamId.system ∧
    streamId ≠ StreamId.map ∧ ¬IsPacketId streamId

instance (streamId : UInt8) : Decidable (IsOtherId streamId) :=
  inferInstanceAs (Decidable (_ ∧ _))

/-- The codec a packet is labelled with. -/
def label (codecs : CodecTable) (streamId : UInt8) : Codec :=
  (codecs.resolve? streamId).getD (.unknown 0)

/-- What is reported about the label. -/
def labelWarnings (codecs : CodecTable) (streamId : UInt8) : List Warning :=
  if (codecs.resolve? streamId).isNone then [.unmappedStream streamId] else []

/-- **Reading a unit**, with the codecs known before and after. Only a map
tells about codecs. -/
inductive Reads (codecs : CodecTable) (s : Parser.State) :
    UInt8 → StreamUnit → CodecTable → Parser.State → Prop
  | streamEnd {t : Parser.State} (code : BitVec 32) (h : s.Takes (Bits.ofField code) [] t) :
      Reads codecs s StreamId.streamEnd .streamEnd codecs t
  | pack {header : PackHeader} {t : Parser.State} (h : PackHeader.parse s = .ok header t) :
      Reads codecs s StreamId.pack (.pack header) codecs t
  | system {header : SystemHeader} {t : Parser.State} (h : SystemHeader.parse s = .ok header t) :
      Reads codecs s StreamId.system (.system header) codecs t
  | map {m : StreamMap} {t : Parser.State} (h : StreamMap.parse s = .ok m t) :
      Reads codecs s StreamId.map (.map m) (codecs.learnAll m) t
  | packet {id : UInt8} {p : Packet} {t u : Parser.State} (hid : IsPacketId id)
      (h : Packet.parse s = .ok p t) (hlabel : t.Takes [] (labelWarnings codecs id) u) :
      Reads codecs s id (.packet p (label codecs id)) codecs u
  | other {id : UInt8} {bytes : List UInt8} {t : Parser.State} (hid : IsOtherId id)
      (hs : s.IsAligned) (hlen : bytes.length = s.cursor.left / 8)
      (h : s.Takes (Bits.ofBytes bytes) [] t) :
      Reads codecs s id (.other id bytes.length) codecs t

/-- A packet is labelled once it is read. -/
theorem label_eq_ok_iff {p : Packet} :
    (match codecs.resolve? streamId with
      | some codec => pure (.packet p codec, codecs)
      | none => do
        warn (.unmappedStream streamId)
        pure (.packet p (.unknown 0), codecs) : Parser (StreamUnit × CodecTable)) s =
        .ok (content, codecs') s' ↔
      (content = .packet p (label codecs streamId) ∧ codecs' = codecs) ∧
        s.Takes [] (labelWarnings codecs streamId) s' := by
  unfold label labelWarnings
  cases codecs.resolve? streamId with
  | none =>
    simp only [bind_eq_ok_iff, warn_eq_ok_iff, pure_eq_ok_iff, Prod.mk.injEq]
    constructor
    · rintro ⟨_, _, h, ⟨rfl, rfl⟩, rfl⟩
      exact ⟨⟨rfl, rfl⟩, h⟩
    · rintro ⟨⟨rfl, rfl⟩, h⟩
      exact ⟨(), _, h, ⟨rfl, rfl⟩, rfl⟩
  | some codec =>
    simp only [pure_eq_ok_iff, Prod.mk.injEq]
    constructor
    · rintro ⟨⟨rfl, rfl⟩, rfl⟩
      exact ⟨⟨rfl, rfl⟩, .refl _⟩
    · rintro ⟨⟨rfl, rfl⟩, h⟩
      exact ⟨⟨rfl, rfl⟩, (takes_nil_iff.1 h).symm⟩

/-- A unit that was read has been read in one of these ways. -/
theorem reads_of_parse (h : parse codecs streamId s = .ok (content, codecs') s') :
    Reads codecs s streamId content codecs' s' := by
  unfold parse at h
  simp only [ite_eq_ok_iff] at h
  rcases h with ⟨rfl, h⟩ | ⟨hend, ⟨rfl, h⟩ | ⟨hpack, ⟨rfl, h⟩ | ⟨hsystem, ⟨rfl, h⟩ | ⟨hmap,
    ⟨hid, h⟩ | ⟨hid, h⟩⟩⟩⟩⟩
  · obtain ⟨_, hparse, heq⟩ := bind_pure_eq_ok_iff.1 h
    obtain ⟨code, htakes⟩ := (reserved_eq_ok_iff (by decide)).1 hparse
    cases heq
    exact .streamEnd code htakes
  · obtain ⟨_, hparse, heq⟩ := bind_pure_eq_ok_iff.1 h
    cases heq
    exact .pack hparse
  · obtain ⟨_, hparse, heq⟩ := bind_pure_eq_ok_iff.1 h
    cases heq
    exact .system hparse
  · obtain ⟨_, hparse, heq⟩ := bind_pure_eq_ok_iff.1 h
    cases heq
    exact .map hparse
  · obtain ⟨p, t, hp, hlabel⟩ := bind_eq_ok_iff.1 h
    obtain ⟨⟨rfl, rfl⟩, htakes⟩ := label_eq_ok_iff.1 hlabel
    exact .packet hid hp htakes
  · simp only [bind_eq_ok_iff, get_eq_ok_iff, skip_eq_ok_iff, pure_eq_ok_iff] at h
    obtain ⟨_, _, ⟨rfl, rfl⟩, _, _, ⟨hs, bytes, hlen, h⟩, heq, rfl⟩ := h
    cases heq
    rw [← hlen]
    exact .other ⟨hend, hpack, hsystem, hmap, hid⟩ hs hlen h

/-- In each of these ways a unit is read. -/
theorem parse_of_reads (h : Reads codecs s streamId content codecs' s') :
    parse codecs streamId s = .ok (content, codecs') s' := by
  unfold parse
  cases h with
  | streamEnd code h =>
    rw [if_pos rfl]
    exact bind_pure_eq_ok_iff.2 ⟨(), (reserved_eq_ok_iff (by decide)).2 ⟨code, h⟩, rfl⟩
  | pack h =>
    rw [if_neg (by decide), if_pos rfl]
    exact bind_pure_eq_ok_iff.2 ⟨_, h, rfl⟩
  | system h =>
    rw [if_neg (by decide), if_neg (by decide), if_pos rfl]
    exact bind_pure_eq_ok_iff.2 ⟨_, h, rfl⟩
  | map h =>
    rw [if_neg (by decide), if_neg (by decide), if_neg (by decide), if_pos rfl]
    exact bind_pure_eq_ok_iff.2 ⟨_, h, rfl⟩
  | packet hid h hlabel =>
    -- an id of a packet is none of the four that are asked for first
    have hne : ∀ {id : UInt8}, ¬IsPacketId id → streamId ≠ id :=
      fun hnot heq => hnot (heq ▸ hid)
    rw [if_neg (hne (by decide)), if_neg (hne (by decide)), if_neg (hne (by decide)),
      if_neg (hne (by decide)),
      if_pos (show (StreamId.isAudio streamId || StreamId.isVideo streamId) = true from hid)]
    exact bind_eq_ok_iff.2 ⟨_, _, h, label_eq_ok_iff.2 ⟨⟨rfl, rfl⟩, hlabel⟩⟩
  | other hid hs hlen h =>
    obtain ⟨hend, hpack, hsystem, hmap, hpacket⟩ := hid
    rw [if_neg hend, if_neg hpack, if_neg hsystem, if_neg hmap,
      if_neg (show ¬(StreamId.isAudio streamId || StreamId.isVideo streamId) = true from hpacket),
      hlen]
    exact bind_eq_ok_iff.2 ⟨s, s, rfl, bind_eq_ok_iff.2 ⟨(), s', skip_eq_ok_iff.2
      ⟨hs, _, hlen, h⟩, rfl⟩⟩

/-- **This is what reading a unit does.** -/
theorem parse_eq_ok_iff :
    parse codecs streamId s = .ok (content, codecs') s' ↔
      Reads codecs s streamId content codecs' s' :=
  ⟨reads_of_parse, parse_of_reads⟩

/-! ## The verdict on a unit -/

/-- What becomes of a framed unit: its content, or the fault it is dropped
for, and what its parser tells besides. -/
structure Verdict where
  content : Except Fault StreamUnit
  /-- the codecs known from then on -/
  codecs : CodecTable
  warnings : Array Warning

/-- The verdict on a framed unit. Its parser has to succeed and to take all
of its bytes. -/
def judge (codecs : CodecTable) (streamId : UInt8) (bytes : List UInt8) : Verdict :=
  let outcome := (parse codecs streamId).run (BitCursor.ofBytes bytes)
  match outcome.result with
  | .ok (content, codecs) =>
    { content :=
        if outcome.cursor.taken = bytes.length then .ok content
        else .error (.lengthMismatch bytes.length outcome.cursor.taken)
      codecs
      warnings := outcome.warnings }
  | .error fault => { content := .error fault, codecs, warnings := outcome.warnings }

variable {bytes : List UInt8}

/-- A unit that is read has told its codecs, whether all of it was taken or
not. -/
theorem judge_of_reads (h : Reads codecs (State.ofBytes bytes) streamId content codecs' s') :
    judge codecs streamId bytes =
      { content :=
          if s'.cursor.taken = bytes.length then .ok content
          else .error (.lengthMismatch bytes.length s'.cursor.taken)
        codecs := codecs'
        warnings := s'.warnings } := by
  unfold judge
  rw [run_of_ok (parse_eq_ok_iff.2 h)]

/-- A unit that is not read has told none. -/
theorem judge_of_error {fault : Fault}
    (h : parse codecs streamId (State.ofBytes bytes) = .error fault s') :
    judge codecs streamId bytes =
      { content := .error fault, codecs, warnings := s'.warnings } := by
  unfold judge
  rw [run_of_error h]

/-- A unit has content if it can be read and all of its bytes are taken. -/
theorem content_judge_eq_ok_iff :
    (judge codecs streamId bytes).content = .ok content ↔
      ∃ codecs' s', Reads codecs (State.ofBytes bytes) streamId content codecs' s' ∧
        s'.cursor.taken = bytes.length := by
  constructor
  · intro h
    cases hparse : parse codecs streamId (State.ofBytes bytes) with
    | ok found s' =>
      obtain ⟨content', codecs'⟩ := found
      have hreads := parse_eq_ok_iff.1 hparse
      rw [judge_of_reads hreads] at h
      simp only at h
      split at h
      · cases h
        exact ⟨codecs', s', hreads, ‹_›⟩
      · cases h
    | error fault s' =>
      rw [judge_of_error hparse] at h
      cases h
  · rintro ⟨codecs', s', hreads, htaken⟩
    rw [judge_of_reads hreads]
    exact if_pos htaken

end StreamUnit

end ProgramStream
