import ProgramStream.Packet
import ProgramStream.Proofs.Packet.Extension
import ProgramStream.Proofs.Packet.TrickMode
/-!
# Packets — what is read is what was laid out

`Packet.bits` lays a packet out: the header, the optional fields its flags
ask for, stuffing, and the payload. What a layout has besides the packet,
reserved bits and stuffing, is its `Filling`. A packet is read off a layout
of it, at a byte boundary, and off nothing else (`parse_eq_ok_iff`); the
lengths it declares are those of its parts (`IsValid`).
-/

namespace ProgramStream

open ProgramStream.Parser ProgramStream.Parser.State

variable {s s' : Parser.State}

namespace Packet

/-! ## The header -/

/-- The layout of the flags. -/
def Flags.bits (f : Flags) : List Bool :=
  Bits.ofField f.times ++ ([f.clock] ++ ([f.rate] ++ ([f.trickMode] ++ ([f.copyInfo] ++
    ([f.previousChecksum] ++ [f.extension])))))

@[simp] theorem Flags.length_bits (f : Flags) : f.bits.length = 8 := by simp [bits]

/-- Flags are read off their layout. -/
theorem Flags.parse_eq_ok_iff {f : Flags} : Flags.parse s = .ok f s' ↔ s.Takes f.bits [] s' := by
  simp (disch := decide) only [Flags.parse, bind_eq_ok_iff, field_eq_ok_iff, flag_eq_ok_iff,
    pure_eq_ok_iff]
  constructor
  · rintro ⟨_, _, h₁, _, _, h₂, _, _, h₃, _, _, h₄, _, _, h₅, _, _, h₆, _, _, h₇, rfl, rfl⟩
    exact h₁.trans <| h₂.trans <| h₃.trans <| h₄.trans <| h₅.trans <| h₆.trans h₇
  · intro h
    simp only [Flags.bits, takes_append_last_iff] at h
    obtain ⟨_, h₁, _, h₂, _, h₃, _, h₄, _, h₅, _, h₆, h₇⟩ := h
    exact ⟨_, _, h₁, _, _, h₂, _, _, h₃, _, _, h₄, _, _, h₅, _, _, h₆, _, _, h₇, rfl, rfl⟩

/-- The layout of a header up to its optional fields. -/
def Header.bits (h : Header) : List Bool :=
  Bits.ofField (0b10 : BitVec 2) ++ (Bits.ofField h.scrambling ++ ([h.priority] ++
    ([h.alignment] ++ ([h.protectedContent] ++ ([h.notCopied] ++ (h.flags.bits ++
    Bits.ofByte h.dataLength))))))

@[simp] theorem Header.length_bits (h : Header) : h.bits.length = 8 * headerLength := by
  simp [bits, headerLength]

/-- A header is read off its layout, at a byte boundary. -/
theorem Header.parse_eq_ok_iff {h : Header} :
    Header.parse s = .ok h s' ↔ s.IsAligned ∧ s.Takes h.bits [] s' := by
  simp (disch := decide) only [Header.parse, bind_eq_ok_iff, PackHeader.parseVersion_eq_ok_iff,
    field_eq_ok_iff, flag_eq_ok_iff, Flags.parse_eq_ok_iff, byte_eq_ok_iff, pure_eq_ok_iff]
  constructor
  · rintro ⟨_, _, ⟨haligned, h₁⟩, _, _, h₂, _, _, h₃, _, _, h₄, _, _, h₅, _, _, h₆, _, _, h₇,
      _, _, ⟨-, h₈⟩, rfl, rfl⟩
    exact ⟨haligned, h₁.trans <| h₂.trans <| h₃.trans <| h₄.trans <| h₅.trans <| h₆.trans <|
      h₇.trans h₈⟩
  · rintro ⟨haligned, htakes⟩
    simp only [Header.bits, takes_append_last_iff] at htakes
    obtain ⟨_, h₁, _, h₂, _, h₃, _, h₄, _, h₅, _, h₆, _, h₇, h₈⟩ := htakes
    have hflags := h₁.trans <| h₂.trans <| h₃.trans <| h₄.trans <| h₅.trans <| h₆.trans h₇
    exact ⟨(), _, ⟨haligned, h₁⟩, _, _, h₂, _, _, h₃, _, _, h₄, _, _, h₅, _, _, h₆, _, _, h₇,
      _, _, ⟨(hflags.isAligned_iff (by simp)).2 haligned, h₈⟩, rfl, rfl⟩

/-! ## The times -/

theorem times_cases (times : BitVec 2) :
    times = 0b00 ∨ times = 0b01 ∨ times = 0b10 ∨ times = 0b11 := by
  revert times
  decide

/-- The code that a presentation time has to have, if there is one. -/
def presentationCode? (times : BitVec 2) : Option Nat :=
  if times = 0b10 then some Timestamp.presentationAlone
  else if times = 0b11 then some Timestamp.presentation
  else none

/-- The code that a decoding time has to have, if there is one. -/
def decodingCode? (times : BitVec 2) : Option Nat :=
  if times = 0b11 then some Timestamp.decoding else none

/-- What is reported about the flags of the times. -/
def timeWarnings (streamId : UInt8) (times : BitVec 2) : List Warning :=
  if times = 0b01 then [.forbiddenTimestampFlags streamId] else []

/-- A timestamp that may be missing has the code asked for. -/
def HasCode (code? : Option Nat) (t? : Option Timestamp) : Prop :=
  t?.map Timestamp.code = code? ∧ ∀ t ∈ t?, t.IsValid

instance (code? : Option Nat) (t? : Option Timestamp) : Decidable (HasCode code? t?) :=
  inferInstanceAs (Decidable (_ ∧ _))

theorem hasCode_none_iff {t? : Option Timestamp} : HasCode none t? ↔ t? = none := by
  cases t? <;> simp [HasCode]

theorem hasCode_some_iff {code : Nat} {t? : Option Timestamp} :
    HasCode (some code) t? ↔ ∃ t, t? = some t ∧ t.code = code ∧ t.IsValid := by
  cases t? <;> simp [HasCode]

/-- **Times are read off their layouts**, as the flags ask for. -/
theorem parseTimes_eq_ok_iff {streamId : UInt8} {times : BitVec 2}
    {presentation decoding : Option Timestamp} :
    parseTimes streamId times s = .ok (presentation, decoding) s' ↔
      HasCode (presentationCode? times) presentation ∧ HasCode (decodingCode? times) decoding ∧
        s.Takes (presentation.elim [] Timestamp.bits ++ decoding.elim [] Timestamp.bits)
          (timeWarnings streamId times) s' := by
  rcases times_cases times with rfl | rfl | rfl | rfl
  -- each case names what is left of the parser, of the codes and of the warnings
  · change (pure (none, none) : Parser _) s = .ok _ s' ↔
      HasCode none _ ∧ HasCode none _ ∧ s.Takes _ [] s'
    rw [pure_eq_ok_iff, hasCode_none_iff, hasCode_none_iff]
    constructor
    · rintro ⟨hpair, rfl⟩
      cases hpair
      exact ⟨rfl, rfl, .refl _⟩
    · rintro ⟨rfl, rfl, h⟩
      exact ⟨rfl, (takes_nil_iff.1 h).symm⟩
  · change (do
        warn (.forbiddenTimestampFlags streamId)
        pure (none, none) : Parser _) s = .ok _ s' ↔
      HasCode none _ ∧ HasCode none _ ∧ s.Takes _ [.forbiddenTimestampFlags streamId] s'
    simp only [bind_eq_ok_iff, warn_eq_ok_iff, pure_eq_ok_iff, hasCode_none_iff]
    constructor
    · rintro ⟨_, _, h, hpair, rfl⟩
      cases hpair
      exact ⟨rfl, rfl, h⟩
    · rintro ⟨rfl, rfl, h⟩
      exact ⟨(), _, h, rfl, rfl⟩
  · change (do
        return (some (← Timestamp.parseCode Timestamp.presentationAlone), none) : Parser _) s =
        .ok _ s' ↔
      HasCode (some Timestamp.presentationAlone) _ ∧ HasCode none _ ∧ s.Takes _ [] s'
    simp only [bind_eq_ok_iff, Timestamp.parseCode_eq_ok_iff, pure_eq_ok_iff, hasCode_none_iff,
      hasCode_some_iff]
    constructor
    · rintro ⟨t, _, ⟨hcode, hvalid, h⟩, hpair, rfl⟩
      cases hpair
      exact ⟨⟨t, rfl, hcode, hvalid⟩, rfl, by simpa using h⟩
    · rintro ⟨⟨t, rfl, hcode, hvalid⟩, rfl, h⟩
      exact ⟨t, _, ⟨hcode, hvalid, by simpa using h⟩, rfl, rfl⟩
  · change (do
        let presentation ← Timestamp.parseCode Timestamp.presentation
        let decoding ← Timestamp.parseCode Timestamp.decoding
        return (some presentation, some decoding) : Parser _) s = .ok _ s' ↔
      HasCode (some Timestamp.presentation) _ ∧ HasCode (some Timestamp.decoding) _ ∧
        s.Takes _ [] s'
    simp only [bind_eq_ok_iff, Timestamp.parseCode_eq_ok_iff, pure_eq_ok_iff, hasCode_some_iff]
    constructor
    · rintro ⟨t, _, ⟨hcode, hvalid, h₁⟩, t', _, ⟨hcode', hvalid', h₂⟩, hpair, rfl⟩
      cases hpair
      exact ⟨⟨t, rfl, hcode, hvalid⟩, ⟨t', rfl, hcode', hvalid'⟩, h₁.trans h₂⟩
    · rintro ⟨⟨t, rfl, hcode, hvalid⟩, ⟨t', rfl, hcode', hvalid'⟩, h⟩
      obtain ⟨_, h₁, h₂⟩ := takes_append_last_iff.1 h
      exact ⟨t, _, ⟨hcode, hvalid, h₁⟩, t', _, ⟨hcode', hvalid', h₂⟩, rfl, rfl⟩

/-! ## The optional fields -/

/-- The layout of the clock of an elementary stream. -/
def clockBits (c : ClockReference) (reserved : BitVec 2) : List Bool :=
  Bits.ofField reserved ++ c.bits

/-- The layout of the rate of an elementary stream. -/
def rateBits (rate : BitVec 22) : List Bool := [true] ++ (Bits.ofField rate ++ [true])

/-- The layout of the additional copy information. -/
def copyInfoBits (info : BitVec 7) : List Bool := [true] ++ Bits.ofField info

/-- The layout of the checksum of the packet before. -/
def checksumBits (checksum : UInt16) : List Bool := Bits.ofField checksum.toBitVec

@[simp] theorem length_clockBits (c : ClockReference) (reserved : BitVec 2) :
    (clockBits c reserved).length = 48 := by
  simp [clockBits]

@[simp] theorem length_rateBits (rate : BitVec 22) : (rateBits rate).length = 24 := by
  simp [rateBits]

@[simp] theorem length_copyInfoBits (info : BitVec 7) : (copyInfoBits info).length = 8 := by
  simp [copyInfoBits]

@[simp] theorem length_checksumBits (checksum : UInt16) : (checksumBits checksum).length = 16 := by
  simp [checksumBits]

theorem parseClock_eq_ok_iff {c : ClockReference} :
    parseClock s = .ok c s' ↔ c.IsValid ∧ ∃ reserved, s.Takes (clockBits c reserved) [] s' := by
  simp (disch := decide) only [parseClock, bind_eq_ok_iff, reserved_eq_ok_iff,
    ClockReference.parse_eq_ok_iff]
  constructor
  · rintro ⟨_, _, ⟨reserved, h₁⟩, hvalid, h₂⟩
    exact ⟨hvalid, reserved, h₁.trans h₂⟩
  · rintro ⟨hvalid, reserved, h⟩
    obtain ⟨_, h₁, h₂⟩ := takes_append_last_iff.1 h
    exact ⟨(), _, ⟨reserved, h₁⟩, hvalid, h₂⟩

theorem parseRate_eq_ok_iff {rate : BitVec 22} :
    parseRate s = .ok rate s' ↔ s.Takes (rateBits rate) [] s' := by
  simp (disch := decide) only [parseRate, bind_eq_ok_iff, marker_eq_ok_iff, field_eq_ok_iff,
    pure_eq_ok_iff]
  constructor
  · rintro ⟨_, _, h₁, _, _, h₂, _, _, h₃, rfl, rfl⟩
    exact h₁.trans <| h₂.trans h₃
  · intro h
    simp only [rateBits, takes_append_last_iff] at h
    obtain ⟨_, h₁, _, h₂, h₃⟩ := h
    exact ⟨(), _, h₁, _, _, h₂, (), _, h₃, rfl, rfl⟩

theorem parseCopyInfo_eq_ok_iff {info : BitVec 7} :
    parseCopyInfo s = .ok info s' ↔ s.Takes (copyInfoBits info) [] s' := by
  simp (disch := decide) only [parseCopyInfo, bind_eq_ok_iff, marker_eq_ok_iff, field_eq_ok_iff,
    copyInfoBits, takes_append_last_iff]
  exact ⟨fun ⟨_, t, h⟩ => ⟨t, h⟩, fun ⟨t, h⟩ => ⟨(), t, h⟩⟩

/-- What a layout of a packet has besides the packet. -/
structure Filling where
  /-- before a clock -/
  clock : BitVec 2
  /-- in a trick mode -/
  trickMode : BitVec 5
  /-- among the flags of an extension -/
  extension : BitVec 3
  /-- between the optional fields and the payload -/
  stuffing : List UInt8
  deriving DecidableEq, Repr

namespace Fields

/-- The layout of the optional fields before the extension. -/
def earlyBits (f : Fields) (fill : Filling) : List Bool :=
  (f.presentation.elim [] Timestamp.bits ++ f.decoding.elim [] Timestamp.bits) ++
    (f.clock.elim [] (clockBits · fill.clock) ++ (f.rate.elim [] rateBits ++
    (f.trickMode.elim [] (·.bits fill.trickMode) ++ (f.copyInfo.elim [] copyInfoBits ++
    f.previousChecksum.elim [] checksumBits))))

/-- The layout of the optional fields. -/
def bits (f : Fields) (fill : Filling) : List Bool :=
  f.earlyBits fill ++ f.extension.elim [] (·.bits fill.extension)

/-- The fields are those the flags ask for, and each of them is valid. -/
structure IsValid (flags : Flags) (f : Fields) : Prop where
  presentation : HasCode (presentationCode? flags.times) f.presentation
  decoding : HasCode (decodingCode? flags.times) f.decoding
  clock : f.clock.isSome = flags.clock
  rate : f.rate.isSome = flags.rate
  trickMode : f.trickMode.isSome = flags.trickMode
  copyInfo : f.copyInfo.isSome = flags.copyInfo
  previousChecksum : f.previousChecksum.isSome = flags.previousChecksum
  extension : f.extension.isSome = flags.extension
  clock_isValid : ∀ c ∈ f.clock, c.IsValid
  extension_isValid : ∀ e ∈ f.extension, e.IsValid

instance (flags : Flags) (f : Fields) : Decidable (f.IsValid flags) :=
  decidable_of_iff
    ((HasCode (presentationCode? flags.times) f.presentation ∧
        HasCode (decodingCode? flags.times) f.decoding) ∧
      (f.clock.isSome = flags.clock ∧ f.rate.isSome = flags.rate ∧
        f.trickMode.isSome = flags.trickMode ∧ f.copyInfo.isSome = flags.copyInfo ∧
        f.previousChecksum.isSome = flags.previousChecksum ∧
        f.extension.isSome = flags.extension) ∧
      (∀ c ∈ f.clock, c.IsValid) ∧ ∀ e ∈ f.extension, e.IsValid)
    ⟨fun ⟨⟨h₁, h₂⟩, ⟨h₃, h₄, h₅, h₆, h₇, h₈⟩, h₉, h₁₀⟩ => ⟨h₁, h₂, h₃, h₄, h₅, h₆, h₇, h₈, h₉, h₁₀⟩,
      fun h => ⟨⟨h.1, h.2⟩, ⟨h.3, h.4, h.5, h.6, h.7, h.8⟩, h.9, h.10⟩⟩

/-- The length of the optional fields before the extension, in bytes. -/
def earlySize (f : Fields) : Nat :=
  5 * f.presentation.isSome.toNat + 5 * f.decoding.isSome.toNat + 6 * f.clock.isSome.toNat +
    3 * f.rate.isSome.toNat + f.trickMode.isSome.toNat + f.copyInfo.isSome.toNat +
    2 * f.previousChecksum.isSome.toNat

/-- The length of the optional fields in bytes. -/
def size (f : Fields) : Nat := f.earlySize + f.extension.elim 0 Extension.size

theorem length_earlyBits (f : Fields) (fill : Filling) :
    (f.earlyBits fill).length = 8 * f.earlySize := by
  simp only [earlyBits, List.length_append, length_elim Timestamp.length_bits,
    length_elim (length_clockBits · fill.clock), length_elim length_rateBits,
    length_elim (TrickMode.length_bits · fill.trickMode), length_elim length_copyInfoBits,
    length_elim length_checksumBits, earlySize]
  omega

theorem length_bits (f : Fields) (fill : Filling) : (f.bits fill).length = 8 * f.size := by
  rw [bits, List.length_append, length_earlyBits,
    length_elim_of (Extension.length_bits · fill.extension), size, Nat.mul_add]

/-- **Optional fields are read off their layouts**, at a byte boundary. -/
theorem parse_eq_ok_iff {streamId : UInt8} {flags : Flags} {f : Fields} (hs : s.IsAligned) :
    parse streamId flags s = .ok f s' ↔
      f.IsValid flags ∧ ∃ fill, s.Takes (f.bits fill) (timeWarnings streamId flags.times) s' := by
  simp only [parse, bind_eq_ok_iff, Prod.exists, parseTimes_eq_ok_iff, pure_eq_ok_iff,
    given_eq_ok_iff_of_fill fun _ _ => parseClock_eq_ok_iff,
    given_eq_ok_iff_of_takes fun _ _ => parseRate_eq_ok_iff, TrickMode.given_parse_eq_ok_iff,
    given_eq_ok_iff_of_takes fun _ _ => parseCopyInfo_eq_ok_iff,
    given_eq_ok_iff_of_takes fun _ _ => field16_eq_ok_iff]
  constructor
  · rintro ⟨_, _, _, ⟨hpresentation, hdecoding, h₁⟩, _, _, ⟨hclock, hclocks, reserved, h₂⟩,
      _, _, ⟨hrate, h₃⟩, _, _, ⟨htrick, reserved', h₄⟩, _, _, ⟨hcopy, h₅⟩, _, t, ⟨hchecksum, h₆⟩,
      _, _, hgiven, rfl, rfl⟩
    have hlate := h₂.trans <| h₃.trans <| h₄.trans <| h₅.trans h₆
    -- the fields so far are those of a packet without an extension
    have hearly := takes_append_first_iff.2 ⟨_, h₁, hlate⟩
    have ht : t.IsAligned :=
      (hearly.isAligned_iff ⟨_, length_earlyBits ⟨_, _, _, _, _, _, _, none⟩
        ⟨reserved, reserved', 0, []⟩⟩).2 hs
    obtain ⟨hextension, hextensions, reserved'', h₇⟩ :=
      (given_eq_ok_iff_of_fill fun _ _ => Extension.parse_eq_ok_iff ht).1 hgiven
    refine ⟨⟨hpresentation, hdecoding, hclock, hrate, htrick, hcopy, hchecksum, hextension,
      hclocks, hextensions⟩, ⟨reserved, reserved', reserved'', []⟩, ?_⟩
    exact takes_append_first_iff.2 ⟨_, hearly, h₇⟩
  · rintro ⟨hvalid, fill, htakes⟩
    obtain ⟨t, hearly, h₇⟩ := takes_append_first_iff.1 htakes
    have ht : t.IsAligned := (hearly.isAligned_iff ⟨_, f.length_earlyBits fill⟩).2 hs
    obtain ⟨_, h₁, hlate⟩ := takes_append_first_iff.1 hearly
    simp only [takes_append_last_iff] at hlate
    obtain ⟨_, h₂, _, h₃, _, h₄, _, h₅, h₆⟩ := hlate
    exact ⟨_, _, _, ⟨hvalid.presentation, hvalid.decoding, h₁⟩,
      _, _, ⟨hvalid.clock, hvalid.clock_isValid, _, h₂⟩, _, _, ⟨hvalid.rate, h₃⟩,
      _, _, ⟨hvalid.trickMode, _, h₄⟩, _, _, ⟨hvalid.copyInfo, h₅⟩,
      _, _, ⟨hvalid.previousChecksum, h₆⟩, _, _, (given_eq_ok_iff_of_fill fun _ _ =>
        Extension.parse_eq_ok_iff ht).2 ⟨hvalid.extension, hvalid.extension_isValid, _, h₇⟩,
      rfl, rfl⟩

end Fields

/-! ## The length the flags ask for -/

namespace Flags

theorem foldr_filter (fs : List (Bool × OptionalField)) :
    ((fs.filter (·.1)).map (·.2)).foldr (·.width + ·) 0 =
      fs.foldr (fun f n => f.2.width * f.1.toNat + n) 0 := by
  induction fs with
  | nil => rfl
  | cons f fs ih =>
    obtain ⟨b, f⟩ := f
    cases b <;> simp [ih]

/-- The widths of the flagged fields, added up. -/
theorem requiredLength_eq (f : Flags) :
    f.requiredLength =
      5 * (presentationCode? f.times).isSome.toNat + 5 * (decodingCode? f.times).isSome.toNat +
        6 * f.clock.toNat + 3 * f.rate.toNat + f.trickMode.toNat + f.copyInfo.toNat +
        2 * f.previousChecksum.toNat + f.extension.toNat := by
  have htimes : ∀ (times : BitVec 2) (n : Nat), (timeFields times).foldr (·.width + ·) n =
      5 * (presentationCode? times).isSome.toNat + 5 * (decodingCode? times).isSome.toNat + n := by
    intro times n
    rcases times_cases times with rfl | rfl | rfl | rfl <;>
      simp [timeFields, presentationCode?, decodingCode?, OptionalField.width]
  rw [requiredLength, fields, List.foldr_append, foldr_filter, htimes]
  simp only [List.foldr_cons, List.foldr_nil, OptionalField.width]
  omega

end Flags

theorem HasCode.isSome_eq {code? : Option Nat} {t? : Option Timestamp} (h : HasCode code? t?) :
    t?.isSome = code?.isSome := by
  rw [← h.1, Option.isSome_map]

/-- The flags ask for the fields before the extension, and for a byte of it. -/
theorem Fields.requiredLength_eq {flags : Flags} {f : Fields} (h : f.IsValid flags) :
    flags.requiredLength = f.earlySize + f.extension.isSome.toNat := by
  rw [Flags.requiredLength_eq, ← h.presentation.isSome_eq, ← h.decoding.isSome_eq, ← h.clock,
    ← h.rate, ← h.trickMode, ← h.copyInfo, ← h.previousChecksum, ← h.extension, earlySize]

/-- **Fields take up no less than their flags ask for.** -/
theorem Fields.requiredLength_le {flags : Flags} {f : Fields} (h : f.IsValid flags) :
    flags.requiredLength ≤ f.size := by
  have hextension : f.extension.isSome.toNat ≤ f.extension.elim 0 Extension.size := by
    cases f.extension with
    | none => exact Nat.le_refl 0
    | some e =>
      simp only [Option.isSome_some, Bool.toNat_true, Option.elim_some, Extension.size]
      omega
  rw [requiredLength_eq h, size]
  omega

/-! ## The packet -/

/-- The packet's lengths are those of its parts, and its fields are those its
flags ask for. -/
structure IsValid (p : Packet) (fill : Filling) : Prop where
  fields : p.fields.IsValid p.header.flags
  dataLength : (p.fields.bits fill).length + 8 * fill.stuffing.length =
    8 * p.header.dataLength.toNat
  packetLength : p.packetLength.toNat =
    headerLength + p.header.dataLength.toNat + p.payload.length

instance (p : Packet) (fill : Filling) : Decidable (p.IsValid fill) :=
  decidable_of_iff
    (p.fields.IsValid p.header.flags ∧
      (p.fields.bits fill).length + 8 * fill.stuffing.length = 8 * p.header.dataLength.toNat ∧
      p.packetLength.toNat = headerLength + p.header.dataLength.toNat + p.payload.length)
    ⟨fun ⟨h₁, h₂, h₃⟩ => ⟨h₁, h₂, h₃⟩, fun h => ⟨h.1, h.2, h.3⟩⟩

/-- The layout of a packet. -/
def bits (p : Packet) (fill : Filling) : List Bool :=
  Bits.ofBytes (startBytes p.streamId) ++ (Bits.ofField p.packetLength.toBitVec ++
    (p.header.bits ++ (p.fields.bits fill ++ (Bits.ofBytes fill.stuffing ++
    Bits.ofBytes p.payload))))

theorem length_bits {p : Packet} {fill : Filling} (h : p.IsValid fill) :
    (p.bits fill).length = 8 * p.size := by
  have hdata := h.dataLength
  simp only [bits, List.length_append, Bits.length_ofBytes, startBytes, List.length_cons,
    List.length_nil, Bits.length_ofField, Header.length_bits, size, prologueLength, h.packetLength]
  omega

/-- Any start code is taken for one of a packet. -/
theorem parseStart_eq_ok_iff {streamId : UInt8} :
    parseStart s = .ok streamId s' ↔ s.Takes (Bits.ofBytes (startBytes streamId)) [] s' := by
  have hcode : ∀ found : UInt32, found >>> 8 = 1 ↔ found = startCode found.toUInt8 := by
    intro found
    rw [← UInt32.toNat_inj, ← UInt32.toNat_inj, toNat_startCode, UInt32.toNat_toUInt8,
      UInt32.toNat_shiftRight, show (8 : UInt32).toNat % 32 = 8 from rfl,
      Nat.shiftRight_eq_div_pow, show (1 : UInt32).toNat = 1 from rfl]
    omega
  have htoUInt8 : (startCode streamId).toUInt8 = streamId := by
    rw [← UInt8.toNat_inj, UInt32.toNat_toUInt8, toNat_startCode]
    have := streamId.toNat_lt
    omega
  simp only [parseStart, bind_eq_ok_iff, field32_eq_ok_iff, ite_throw_eq_ok_iff, pure_eq_ok_iff,
    ofBytes_startBytes, hcode]
  constructor
  · rintro ⟨found, _, h, hfound, rfl, rfl⟩
    rwa [← hfound]
  · exact fun h => ⟨_, _, h, by rw [htoUInt8], htoUInt8, rfl⟩

/-- **A packet is read off its layout**, at a byte boundary. -/
theorem parse_eq_ok_iff {p : Packet} :
    parse s = .ok p s' ↔
      s.IsAligned ∧ ∃ fill, p.IsValid fill ∧
        s.Takes (p.bits fill) (timeWarnings p.streamId p.header.flags.times) s' := by
  simp only [parse, bind_eq_ok_iff, parseStart_eq_ok_iff, field16_eq_ok_iff, ite_eq_ok_iff,
    throw_eq_ok_iff, Header.parse_eq_ok_iff, taken_eq_ok_iff, skip_eq_ok_iff, bytes_eq_ok_iff,
    pure_eq_ok_iff, false_and, exists_false, and_false, false_or]
  constructor
  · rintro ⟨streamId, _, h₁, packetLength, _, h₂, -, header, _, ⟨haligned, h₃⟩, -, hdeclared, _, t,
      ⟨rfl, rfl⟩, fields, _, hfields, _, u, ⟨rfl, rfl⟩, hused, _, _, ⟨-, stuffing, hstuffing, h₅⟩,
      payload, _, ⟨-, hpayload, h₆⟩, rfl, rfl⟩
    have hs : s.IsAligned := ((h₁.trans h₂).isAligned_iff (by simp [startBytes])).1 haligned
    have ht : t.IsAligned := (h₃.isAligned_iff (by simp)).2 haligned
    obtain ⟨hvalid, fill, h₄⟩ := (Fields.parse_eq_ok_iff ht).1 hfields
    have hlength := fields.length_bits fill
    rw [h₄.taken_eq hlength, Nat.add_sub_cancel_left] at hused hstuffing
    -- the fields are read before the stuffing, and their layout does not show it
    have hfill : fields.bits { fill with stuffing } = fields.bits fill := rfl
    refine ⟨hs, { fill with stuffing }, ⟨hvalid, ?_, ?_⟩, ?_⟩
    · rw [hfill, hlength]
      simp only
      omega
    · simp only [headerLength] at hdeclared hpayload ⊢
      omega
    · refine takes_append_last_iff.2 ⟨_, h₁, takes_append_last_iff.2 ⟨_, h₂,
        takes_append_last_iff.2 ⟨_, h₃, ?_⟩⟩⟩
      exact takes_append_first_iff.2 ⟨_, h₄, h₅.trans h₆⟩
  · rintro ⟨hs, fill, hvalid, htakes⟩
    obtain ⟨_, h₁, htakes⟩ := takes_append_last_iff.1 htakes
    obtain ⟨_, h₂, htakes⟩ := takes_append_last_iff.1 htakes
    obtain ⟨t, h₃, htakes⟩ := takes_append_last_iff.1 htakes
    obtain ⟨u, h₄, htakes⟩ := takes_append_first_iff.1 htakes
    obtain ⟨v, h₅, h₆⟩ := takes_append_last_iff.1 htakes
    have haligned := ((h₁.trans h₂).isAligned_iff (by simp [startBytes])).2 hs
    have ht : t.IsAligned := (h₃.isAligned_iff (by simp)).2 haligned
    have hu : u.IsAligned := (h₄.isAligned_iff ⟨_, p.fields.length_bits fill⟩).2 ht
    have hv : v.IsAligned := (h₅.isAligned_iff (by simp)).2 hu
    have hrequired := Fields.requiredLength_le hvalid.fields
    have hdata := hvalid.dataLength
    have hpacket := hvalid.packetLength
    have hlength := p.fields.length_bits fill
    have htaken : u.cursor.taken - t.cursor.taken = p.fields.size := by
      rw [h₄.taken_eq hlength, Nat.add_sub_cancel_left]
    rw [hlength] at hdata
    refine ⟨_, _, h₁, _, _, h₂, ?_, _, t, ⟨haligned, h₃⟩, ?_, ?_, _, t, ⟨rfl, rfl⟩, p.fields, u,
      (Fields.parse_eq_ok_iff ht).2 ⟨hvalid.fields, fill, h₄⟩, _, u, ⟨rfl, rfl⟩, ?_, (), v,
      ⟨hu, fill.stuffing, ?_, h₅⟩, p.payload, s', ⟨hv, ?_, h₆⟩, rfl, rfl⟩
    all_goals try rw [htaken]
    all_goals omega

end Packet

end ProgramStream
