import ProgramStream.Proofs.PackHeader
import ProgramStream.SystemHeader
/-!
# System headers — what is read is what was laid out

`SystemHeader.bits` lays a system header out, seven bits of it that mean
nothing given beside it. All its fields can be read anywhere in a byte, so a
system header is read off a layout of it at any position, and off nothing
else (`parse_eq_ok_iff`).
-/

namespace ProgramStream

open ProgramStream.Parser ProgramStream.Parser.State

variable {s s' : Parser.State}

namespace StreamBound

/-- The layout of a stream bound. -/
def bits (b : StreamBound) : List Bool :=
  Bits.ofByte b.streamId ++ (Bits.ofField (0b11 : BitVec 2) ++ ([b.scale] ++ Bits.ofField b.bound))

@[simp] theorem length_bits (b : StreamBound) : b.bits.length = 8 * length := by
  simp [bits, length]

/-- A stream bound is read off its layout. -/
theorem parse_eq_ok_iff {b : StreamBound} : parse s = .ok b s' ↔ s.Takes b.bits [] s' := by
  simp (disch := decide) only [parse, bind_eq_ok_iff, field8_eq_ok_iff, field_eq_ok_iff,
    flag_eq_ok_iff, ite_throw_eq_ok_iff, pure_eq_ok_iff]
  constructor
  · rintro ⟨_, _, h₁, _, _, h₂, rfl, _, _, h₃, _, _, h₄, rfl, rfl⟩
    exact h₁.trans <| h₂.trans <| h₃.trans h₄
  · intro h
    simp only [bits, takes_append_last_iff] at h
    obtain ⟨_, h₁, _, h₂, _, h₃, h₄⟩ := h
    exact ⟨_, _, h₁, _, _, h₂, rfl, _, _, h₃, _, _, h₄, rfl, rfl⟩

theorem length_flatMap_bits (bs : List StreamBound) :
    (bs.flatMap bits).length = 8 * (length * bs.length) := by
  induction bs with
  | nil => rfl
  | cons b bs ih =>
    rw [List.flatMap_cons, List.length_append, ih, length_bits, List.length_cons, length]
    omega

/-- Stream bounds are read off their layouts, one after the other. -/
theorem parseMany_eq_ok_iff {n : Nat} {bs : List StreamBound} :
    parseMany n s = .ok bs s' ↔ bs.length = n ∧ s.Takes (bs.flatMap bits) [] s' := by
  induction n generalizing s s' bs with
  | zero =>
    simp only [parseMany, pure_eq_ok_iff, List.length_eq_zero_iff]
    constructor
    · rintro ⟨rfl, rfl⟩
      exact ⟨rfl, .refl s⟩
    · rintro ⟨rfl, h⟩
      exact ⟨rfl, (takes_nil_iff.1 h).symm⟩
  | succ n ih =>
    simp only [parseMany, bind_eq_ok_iff, pure_eq_ok_iff, parse_eq_ok_iff, ih]
    constructor
    · rintro ⟨b, _, h₁, bs, _, ⟨hlen, h₂⟩, rfl, rfl⟩
      exact ⟨by rw [List.length_cons, hlen], h₁.trans h₂⟩
    · rintro ⟨hlen, h⟩
      match bs, hlen with
      | b :: bs, hlen =>
        obtain ⟨_, h₁, h₂⟩ := takes_append_last_iff.1 h
        exact ⟨b, _, h₁, bs, _, ⟨Nat.succ.inj hlen, h₂⟩, rfl, rfl⟩

end StreamBound

namespace SystemHeader

/-- The number of bytes of the fixed part after the header length. -/
def fixedLength : Nat := 6

/-- The header length counts the fixed part and the stream bounds. -/
def IsValid (h : SystemHeader) : Prop :=
  h.headerLength.toNat = fixedLength + StreamBound.length * h.streams.length

instance (h : SystemHeader) : Decidable h.IsValid := inferInstanceAs (Decidable (_ = _))

/-- The layout of the fixed part after the header length. -/
def fixedBits (h : SystemHeader) (reserved : BitVec 7) : List Bool :=
  [true] ++ (Bits.ofField h.rateBound ++ ([true] ++ (Bits.ofField h.audioBound ++ ([h.fixed] ++
    ([h.csps] ++ ([h.audioLock] ++ ([h.videoLock] ++ ([true] ++ (Bits.ofField h.videoBound ++
    ([h.packetRateRestriction] ++ Bits.ofField reserved))))))))))

@[simp] theorem length_fixedBits (h : SystemHeader) (reserved : BitVec 7) :
    (h.fixedBits reserved).length = 8 * fixedLength := by
  simp [fixedBits, fixedLength]

/-- The layout of what comes before the stream bounds. -/
def frontBits (h : SystemHeader) (reserved : BitVec 7) : List Bool :=
  Bits.ofBytes (startBytes StreamId.system) ++
    (Bits.ofField h.headerLength.toBitVec ++ h.fixedBits reserved)

@[simp] theorem length_frontBits (h : SystemHeader) (reserved : BitVec 7) :
    (h.frontBits reserved).length = 8 * (6 + fixedLength) := by
  simp only [frontBits, List.length_append, Bits.length_ofBytes, startBytes, Bits.length_ofField,
    length_fixedBits, List.length_cons, List.length_nil]
  omega

/-- The layout of a system header. -/
def bits (h : SystemHeader) (reserved : BitVec 7) : List Bool :=
  Bits.ofBytes (startBytes StreamId.system) ++ (Bits.ofField h.headerLength.toBitVec ++
    (h.fixedBits reserved ++ h.streams.flatMap StreamBound.bits))

theorem bits_eq (h : SystemHeader) (reserved : BitVec 7) :
    h.bits reserved = h.frontBits reserved ++ h.streams.flatMap StreamBound.bits := by
  simp only [bits, frontBits, List.append_assoc]

theorem length_bits {h : SystemHeader} (hvalid : h.IsValid) (reserved : BitVec 7) :
    (h.bits reserved).length = 8 * (6 + h.headerLength.toNat) := by
  rw [show h.headerLength.toNat = _ from hvalid, bits_eq, List.length_append, length_frontBits,
    StreamBound.length_flatMap_bits]
  omega

/-- What is read behind the fixed part. -/
def parseBounds (h : SystemHeader) : Parser SystemHeader := do
  if h.headerLength.toNat < fixedLength then throw (.tooShort h.headerLength.toNat fixedLength)
  let boundsLength := h.headerLength.toNat - fixedLength
  if boundsLength % StreamBound.length ≠ 0 then throw (.malformed (.boundsLength boundsLength))
  let streams ← StreamBound.parseMany (boundsLength / StreamBound.length)
  return { h with streams }

/-- **Behind the fixed part come the stream bounds**, whatever they are. -/
theorem parse_of_frontBits {h : SystemHeader} {reserved : BitVec 7}
    (htakes : s.Takes (h.frontBits reserved) [] s') : parse s = parseBounds h s' := by
  simp only [frontBits, takes_append_last_iff] at htakes
  obtain ⟨_, h₁, t, h₂, hfixed⟩ := htakes
  -- what the parser counts between its two looks at the position is the fixed part
  have htaken : s'.cursor.taken - t.cursor.taken = fixedLength := by
    rw [hfixed.taken_eq (n := fixedLength) (by simp)]
    omega
  simp only [fixedBits, takes_append_last_iff] at hfixed
  obtain ⟨_, h₃, _, h₄, _, h₅, _, h₆, _, h₇, _, h₈, _, h₉, _, h₁₀, _, h₁₁, _, h₁₂, _, h₁₃, h₁₄⟩ :=
    hfixed
  rw [parse, bind_of_ok (PackHeader.parseStart_eq_ok_iff (a := ()).2 h₁),
    bind_of_ok (field16_eq_ok_iff.2 h₂), bind_of_ok (taken_eq_ok_iff.2 ⟨rfl, rfl⟩),
    bind_of_ok (marker_eq_ok_iff (a := ()).2 h₃), bind_of_ok ((field_eq_ok_iff (by decide)).2 h₄),
    bind_of_ok (marker_eq_ok_iff (a := ()).2 h₅), bind_of_ok ((field_eq_ok_iff (by decide)).2 h₆),
    bind_of_ok (flag_eq_ok_iff.2 h₇), bind_of_ok (flag_eq_ok_iff.2 h₈),
    bind_of_ok (flag_eq_ok_iff.2 h₉), bind_of_ok (flag_eq_ok_iff.2 h₁₀),
    bind_of_ok (marker_eq_ok_iff (a := ()).2 h₁₁), bind_of_ok ((field_eq_ok_iff (by decide)).2 h₁₂),
    bind_of_ok (flag_eq_ok_iff.2 h₁₃),
    bind_of_ok ((reserved_eq_ok_iff (a := ()) (by decide)).2 ⟨reserved, h₁₄⟩),
    bind_of_ok (taken_eq_ok_iff.2 ⟨rfl, rfl⟩), htaken]
  rfl

/-- A system header that is read has a fixed part. -/
theorem exists_takes_frontBits {h : SystemHeader} (hparse : parse s = .ok h s') :
    ∃ (h : SystemHeader) (reserved : BitVec 7) (t : Parser.State),
      s.Takes (h.frontBits reserved) [] t := by
  simp (disch := decide) only [parse, bind_eq_ok_iff, PackHeader.parseStart_eq_ok_iff,
    field16_eq_ok_iff, taken_eq_ok_iff, marker_eq_ok_iff, field_eq_ok_iff, flag_eq_ok_iff,
    reserved_eq_ok_iff] at hparse
  obtain ⟨_, _, h₁, headerLength, _, h₂, _, _, ⟨rfl, rfl⟩, _, _, h₃, rateBound, _, h₄, _, _, h₅,
    audioBound, _, h₆, fixed, _, h₇, csps, _, h₈, audioLock, _, h₉, videoLock, _, h₁₀, _, _, h₁₁,
    videoBound, _, h₁₂, restriction, _, h₁₃, _, t, ⟨reserved, h₁₄⟩, -⟩ := hparse
  have hfixed := h₃.trans <| h₄.trans <| h₅.trans <| h₆.trans <| h₇.trans <| h₈.trans <|
    h₉.trans <| h₁₀.trans <| h₁₁.trans <| h₁₂.trans <| h₁₃.trans h₁₄
  exact ⟨⟨headerLength, rateBound, audioBound, fixed, csps, audioLock, videoLock, videoBound,
    restriction, []⟩, reserved, t, h₁.trans <| h₂.trans hfixed⟩

/-- Stream bounds are read behind a header length that counts them. -/
theorem parseBounds_eq_ok_iff {h₀ h : SystemHeader} :
    parseBounds h₀ s = .ok h s' ↔
      { h₀ with streams := h.streams } = h ∧ h.IsValid ∧
        s.Takes (h.streams.flatMap StreamBound.bits) [] s' := by
  simp only [parseBounds, ite_eq_ok_iff, bind_eq_ok_iff, throw_eq_ok_iff, pure_eq_ok_iff,
    StreamBound.parseMany_eq_ok_iff, false_and, exists_false, and_false, false_or]
  constructor
  · rintro ⟨henough, hwhole, streams, _, ⟨hlen, htakes⟩, rfl, rfl⟩
    refine ⟨rfl, ?_, htakes⟩
    simp only [IsValid, StreamBound.length] at *
    omega
  · rintro ⟨hsame, hvalid, htakes⟩
    have hlength : h.headerLength = h₀.headerLength := by rw [← hsame]
    simp only [IsValid, StreamBound.length, hlength] at *
    exact ⟨by omega, by omega, h.streams, s', ⟨by omega, htakes⟩, hsame, rfl⟩

/-- **A system header is read off its layout**, at any position. -/
theorem parse_eq_ok_iff {h : SystemHeader} :
    parse s = .ok h s' ↔ h.IsValid ∧ ∃ reserved, s.Takes (h.bits reserved) [] s' := by
  simp only [bits_eq, takes_append_last_iff]
  constructor
  · intro hparse
    obtain ⟨h₀, reserved, t, hfront⟩ := exists_takes_frontBits hparse
    rw [parse_of_frontBits hfront, parseBounds_eq_ok_iff] at hparse
    obtain ⟨hsame, hvalid, hstreams⟩ := hparse
    refine ⟨hvalid, reserved, t, ?_, hstreams⟩
    rw [← hsame]
    exact hfront
  · rintro ⟨hvalid, reserved, t, hfront, hstreams⟩
    rw [parse_of_frontBits hfront]
    exact parseBounds_eq_ok_iff.2 ⟨rfl, hvalid, hstreams⟩

end SystemHeader

end ProgramStream
