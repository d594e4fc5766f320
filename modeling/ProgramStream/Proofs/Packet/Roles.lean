import ProgramStream.Proofs.Packet
import ProgramStream.Proofs.Roles.Headers
/-!
# Roles in packets — markers of fields that may be missing

Which markers a packet has, and where, its flags tell: a field that is not
there has no bits, so the roles of a packet are those of the fields it has.
The bytes between the fields and the payload are reserved like the bits in
front of a clock, in some trick modes and among the flags of an extension.
-/

namespace ProgramStream

open ProgramStream.Parser ProgramStream.Parser.State

variable {k : Nat}

namespace Packet

/-! ## Trick modes -/

namespace TrickMode

/-- The roles of the bits of a trick mode. -/
def roles : TrickMode → List Role
  | .freeze _ => Role.values 3 ++ (Role.values 2 ++ Role.unused 3)
  | .unassigned _ => Role.values 3 ++ Role.unused 5
  | _ => Role.values 8

theorem length_roles (t : TrickMode) : t.roles.length = 8 := by cases t <;> simp [roles]

theorem follows_parse (t : TrickMode) (reserved : BitVec 5) :
    parse.Follows k t.roles (t.bits reserved) [] t := by
  match t with
  | .fast .. | .slow .. =>
    exact .of_values (length_bits _ reserved) fun _ h => parse_eq_ok_iff.2 ⟨reserved, h⟩
  | .freeze fieldId =>
    exact (follows_field (by decide) (2 : BitVec 3)).bind <|
      (follows_field (by decide) fieldId).bind <|
      (follows_reserved (by decide) (reserved.setWidth 3)).bind_pure rfl
  | .unassigned 0 =>
    exact (follows_field (by decide) (5 : BitVec 3)).bind <|
      (follows_reserved (by decide) reserved).bind_pure rfl
  | .unassigned 1 =>
    exact (follows_field (by decide) (6 : BitVec 3)).bind <|
      (follows_reserved (by decide) reserved).bind_pure rfl
  | .unassigned 2 =>
    exact (follows_field (by decide) (7 : BitVec 3)).bind <|
      (follows_reserved (by decide) reserved).bind_pure rfl

theorem alike_bits (t : TrickMode) (reserved reserved' : BitVec 5) :
    Role.Alike t.roles (t.bits reserved) (t.bits reserved') := by
  cases t with
  | fast => exact .refl (length_bits _ reserved)
  | slow => exact .refl (length_bits _ reserved)
  | freeze fieldId =>
    exact .after (Bits.length_ofNat 3 _) <| .after (Bits.length_ofField fieldId) <|
      .unused (Bits.length_ofField _) (Bits.length_ofField _)
  | unassigned =>
    exact .after (Bits.length_ofNat 3 _) <| .unused (Bits.length_ofField _) (Bits.length_ofField _)

end TrickMode

/-! ## Extensions -/

namespace SequenceCounter

/-- The roles of the bits of a sequence counter. -/
def roles : List Role :=
  [.marker "program_packet_sequence_counter"] ++ (Role.values 7 ++
    ([.marker "program_packet_sequence_counter"] ++ (Role.values 1 ++ Role.values 6)))

theorem length_roles : roles.length = 16 := by simp [roles]

theorem follows_parse (c : SequenceCounter) : parse.Follows k roles c.bits [] c :=
  (follows_marker _).bind <| (follows_field (by decide) c.counter).bind <|
    (follows_marker _).bind <| (follows_flag c.firstVersion).bind <|
    (follows_field (by decide) c.stuffing).bind_pure rfl

end SequenceCounter

theorem DecoderBuffer.follows_parse (b : DecoderBuffer) :
    parse.Follows k (Role.values 16) b.bits [] b :=
  .of_values (length_bits b) fun _ => parse_eq_ok_iff.2

namespace Extension

/-- The roles of the bits of an extension field. -/
def fieldRoles (bytes : List UInt8) : List Role :=
  [.marker "PES_extension_field_length"] ++ (Role.values 7 ++ Role.values (8 * bytes.length))

/-- The roles of the bits of an extension. -/
def roles (e : Extension) : List Role :=
  Role.values 1 ++ (Role.values 1 ++ (Role.values 1 ++ (Role.values 1 ++ (Role.unused 3 ++
    (Role.values 1 ++ (e.privateData.elim [] (fun bytes => Role.values (8 * bytes.length)) ++
    (e.packHeader.elim [] (fun bytes => Role.values (8 * (1 + bytes.length))) ++
    (e.sequenceCounter.elim [] (fun _ => SequenceCounter.roles) ++
    (e.buffer.elim [] (fun _ => Role.values 16) ++ e.field.elim [] fieldRoles)))))))))

theorem follows_parsePackHeader (hk : 8 ∣ k) {bytes : List UInt8} (hlt : bytes.length < 2 ^ 8) :
    parsePackHeader.Follows k (Role.values (8 * (1 + bytes.length))) (packHeaderBits bytes) []
      bytes :=
  .of_values (length_packHeaderBits bytes) fun hs h =>
    parsePackHeader_eq_ok_iff.2 ⟨⟨isAligned_iff_dvd_position.2 (hs ▸ hk), hlt⟩, h⟩

theorem follows_parseField (hk : 8 ∣ k) {bytes : List UInt8} (hlt : bytes.length < 2 ^ 7) :
    parseField.Follows k (fieldRoles bytes) (fieldBits bytes) [] bytes := by
  obtain ⟨length, hlength⟩ := Bits.exists_toNat_eq hlt
  rw [fieldBits, ← hlength]
  refine (follows_marker _).bind <| (follows_field (by decide) length).bind <|
    follows_bytes ?_ hlength.symm
  simp
  omega

/-- **The parts of an extension stand where the bytes before them end.** -/
theorem follows_parse (hk : 8 ∣ k) {e : Extension} (he : e.IsValid) (reserved : BitVec 3) :
    parse.Follows k e.roles (e.bits reserved) [] e := by
  simp only [bits, flagBits, List.append_assoc]
  refine (follows_flag e.privateData.isSome).bind <| (follows_flag e.packHeader.isSome).bind <|
    (follows_flag e.sequenceCounter.isSome).bind <| (follows_flag e.buffer.isSome).bind <|
    (follows_reserved (by decide) reserved).bind <| (follows_flag e.field.isSome).bind <|
    (Follows.given rfl fun bytes hbytes => follows_bytes ?_ (he.privateData bytes hbytes)).bind <|
    (Follows.given rfl fun bytes hbytes =>
      follows_parsePackHeader ?_ (he.packHeader bytes hbytes)).bind <|
    (Follows.given rfl fun c _ => SequenceCounter.follows_parse c).bind <|
    (Follows.given rfl fun b _ => DecoderBuffer.follows_parse b).bind <|
    (Follows.given rfl fun bytes hbytes =>
      follows_parseField ?_ (he.field bytes hbytes)).bind_pure rfl
  all_goals simp only [Role.length_values, Role.length_unused,
    length_elim_of fun bytes : List UInt8 => Role.length_values (8 * bytes.length),
    length_elim_of fun bytes : List UInt8 => Role.length_values (8 * (1 + bytes.length)),
    length_elim fun _ : SequenceCounter => SequenceCounter.length_roles,
    length_elim fun _ : DecoderBuffer => Role.length_values 16]
  all_goals omega

theorem alike_bits (e : Extension) (reserved reserved' : BitVec 3) :
    Role.Alike e.roles (e.bits reserved) (e.bits reserved') := by
  simp only [bits, flagBits, List.append_assoc]
  refine .after rfl <| .after rfl <| .after rfl <| .after rfl <|
    (Role.Alike.unused ?_ ?_).append <| .after rfl <|
    (Role.Alike.elim fun bytes => .refl ?_).append <|
    (Role.Alike.elim fun bytes => .refl ?_).append <| (Role.Alike.elim fun c => .refl ?_).append <|
    (Role.Alike.elim fun b => .refl ?_).append <| .elim fun bytes => .refl ?_
  all_goals simp [length_packHeaderBits, length_fieldBits, fieldRoles, SequenceCounter.length_roles]
  omega

end Extension

/-! ## Optional fields -/

/-- The roles of the bits of the clock of an elementary stream. -/
def clockRoles : List Role := Role.unused 2 ++ ClockReference.roles "ESCR"

/-- The roles of the bits of the rate of an elementary stream. -/
def rateRoles : List Role :=
  [.marker "ES_rate"] ++ (Role.values 22 ++ [.marker "ES_rate"])

/-- The roles of the bits of the additional copy information. -/
def copyInfoRoles : List Role := [.marker "additional_copy_info"] ++ Role.values 7

theorem length_clockRoles : clockRoles.length = 48 := by simp [clockRoles]

theorem length_rateRoles : rateRoles.length = 24 := by simp [rateRoles]

theorem length_copyInfoRoles : copyInfoRoles.length = 8 := by simp [copyInfoRoles]

theorem follows_parseClock {c : ClockReference} (hc : c.IsValid) (reserved : BitVec 2) :
    parseClock.Follows k clockRoles (clockBits c reserved) [] c :=
  (follows_reserved (by decide) reserved).bind <| ClockReference.follows_parse "ESCR" hc

theorem follows_parseRate (rate : BitVec 22) :
    parseRate.Follows k rateRoles (rateBits rate) [] rate :=
  (follows_marker _).bind <| (follows_field (by decide) rate).bind <|
    (follows_marker _).bind_pure rfl

theorem follows_parseCopyInfo (info : BitVec 7) :
    parseCopyInfo.Follows k copyInfoRoles (copyInfoBits info) [] info :=
  (follows_marker _).bind <| follows_field (by decide) info

/-- **Times have their markers as the flags ask for them.** -/
theorem follows_parseTimes (streamId : UInt8) {times : BitVec 2}
    {presentation decoding : Option Timestamp}
    (hpresentation : HasCode (presentationCode? times) presentation)
    (hdecoding : HasCode (decodingCode? times) decoding) :
    (parseTimes streamId times).Follows k
      (presentation.elim [] (fun _ => Timestamp.roles) ++
        decoding.elim [] (fun _ => Timestamp.roles))
      (presentation.elim [] Timestamp.bits ++ decoding.elim [] Timestamp.bits)
      (timeWarnings streamId times) (presentation, decoding) := by
  rcases times_cases times with rfl | rfl | rfl | rfl
  · obtain rfl := hasCode_none_iff.1 hpresentation
    obtain rfl := hasCode_none_iff.1 hdecoding
    exact .pure (none, none)
  · obtain rfl := hasCode_none_iff.1 hpresentation
    obtain rfl := hasCode_none_iff.1 hdecoding
    exact (follows_warn (.forbiddenTimestampFlags streamId)).bind_pure rfl
  · obtain ⟨t, rfl, hcode, ht⟩ := hasCode_some_iff.1 hpresentation
    obtain rfl := hasCode_none_iff.1 hdecoding
    simp only [Option.elim_some, Option.elim_none, List.append_nil]
    exact (Timestamp.follows_parseCode hcode ht).bind_pure rfl
  · obtain ⟨t, rfl, hcode, ht⟩ := hasCode_some_iff.1 hpresentation
    obtain ⟨u, rfl, hcode', hu⟩ := hasCode_some_iff.1 hdecoding
    exact (Timestamp.follows_parseCode hcode ht).bind <|
      (Timestamp.follows_parseCode hcode' hu).bind_pure rfl

namespace Fields

/-- The roles of the bits of the optional fields. -/
def roles (f : Fields) : List Role :=
  (f.presentation.elim [] (fun _ => Timestamp.roles) ++
      f.decoding.elim [] (fun _ => Timestamp.roles)) ++
    (f.clock.elim [] (fun _ => clockRoles) ++ (f.rate.elim [] (fun _ => rateRoles) ++
    (f.trickMode.elim [] TrickMode.roles ++ (f.copyInfo.elim [] (fun _ => copyInfoRoles) ++
    (f.previousChecksum.elim [] (fun _ => Role.values 16) ++
    f.extension.elim [] Extension.roles)))))

/-- The fields one behind the other, the extension with the others. -/
theorem bits_eq_append (f : Fields) (fill : Filling) :
    f.bits fill =
      (f.presentation.elim [] Timestamp.bits ++ f.decoding.elim [] Timestamp.bits) ++
        (f.clock.elim [] (clockBits · fill.clock) ++ (f.rate.elim [] rateBits ++
        (f.trickMode.elim [] (·.bits fill.trickMode) ++ (f.copyInfo.elim [] copyInfoBits ++
        (f.previousChecksum.elim [] checksumBits ++
        f.extension.elim [] (·.bits fill.extension)))))) := by
  simp only [bits, earlyBits, List.append_assoc]

theorem follows_parse (hk : 8 ∣ k) (streamId : UInt8) {flags : Flags} {f : Fields}
    (hf : f.IsValid flags) (fill : Filling) :
    (parse streamId flags).Follows k f.roles (f.bits fill) (timeWarnings streamId flags.times)
      f := by
  rw [bits_eq_append]
  refine (follows_parseTimes streamId hf.presentation hf.decoding).bind_first <|
    (Follows.given hf.clock fun c hc =>
      follows_parseClock (hf.clock_isValid c hc) fill.clock).bind <|
    (Follows.given hf.rate fun rate _ => follows_parseRate rate).bind <|
    (Follows.given hf.trickMode fun t _ => t.follows_parse fill.trickMode).bind <|
    (Follows.given hf.copyInfo fun info _ => follows_parseCopyInfo info).bind <|
    (Follows.given hf.previousChecksum fun checksum _ => follows_field16 checksum).bind <|
    (Follows.given hf.extension fun e he =>
      Extension.follows_parse ?_ (hf.extension_isValid e he) fill.extension).bind_pure rfl
  simp only [List.length_append, length_elim fun _ : Timestamp => Timestamp.length_roles,
    length_elim fun _ : ClockReference => length_clockRoles,
    length_elim fun _ : BitVec 22 => length_rateRoles, length_elim TrickMode.length_roles,
    length_elim fun _ : BitVec 7 => length_copyInfoRoles,
    length_elim fun _ : UInt16 => Role.length_values 16]
  omega

theorem alike_bits (f : Fields) (fill fill' : Filling) :
    Role.Alike f.roles (f.bits fill) (f.bits fill') := by
  rw [bits_eq_append, bits_eq_append]
  refine ((Role.Alike.elim fun t => .refl ?_).append (.elim fun t => .refl ?_)).append <|
    (Role.Alike.elim fun c => (Role.Alike.unused ?_ ?_).append (.refl ?_)).append <|
    (Role.Alike.elim fun rate => .refl ?_).append <|
    (Role.Alike.elim fun t => t.alike_bits _ _).append <|
    (Role.Alike.elim fun info => .refl ?_).append <|
    (Role.Alike.elim fun checksum => .refl ?_).append <| .elim fun e => e.alike_bits _ _
  all_goals simp [length_rateRoles, length_copyInfoRoles]

end Fields

/-! ## Packets -/

/-- The roles of the bits of a packet. -/
def roles (p : Packet) : List Role :=
  Role.values 32 ++ (Role.values 16 ++ (Role.values (8 * headerLength) ++ (p.fields.roles ++
    (Role.unused (8 * (p.header.dataLength.toNat - p.fields.size)) ++
    Role.values (8 * p.payload.length)))))

theorem Header.follows_parse (hk : 8 ∣ k) (h : Header) :
    Header.parse.Follows k (Role.values (8 * headerLength)) h.bits [] h :=
  .of_values h.length_bits fun hs htakes =>
    Header.parse_eq_ok_iff.2 ⟨isAligned_iff_dvd_position.2 (hs ▸ hk), htakes⟩

theorem follows_parseStart (streamId : UInt8) :
    parseStart.Follows k (Role.values 32) (Bits.ofBytes (startBytes streamId)) [] streamId :=
  .of_values (by simp [startBytes]) fun _ => parseStart_eq_ok_iff.2

/-- **A packet's parser follows the roles of the packet.** -/
theorem follows_parse (hk : 8 ∣ k) {p : Packet} {fill : Filling} (hp : p.IsValid fill) :
    parse.Follows k p.roles (p.bits fill) (timeWarnings p.streamId p.header.flags.times) p := by
  have hrequired := Fields.requiredLength_le hp.fields
  have hdata := hp.dataLength
  have hpacket : p.packetLength.toNat = 3 + _ + _ := hp.packetLength
  rw [Fields.length_bits] at hdata
  have hstuffing : p.header.dataLength.toNat - p.fields.size = fill.stuffing.length := by omega
  rw [roles, hstuffing]
  have hroles : p.fields.roles.length = 8 * p.fields.size :=
    (Fields.follows_parse (k := 0) (Nat.dvd_zero 8) p.streamId hp.fields fill).length.symm.trans
      (p.fields.length_bits fill)
  refine (follows_parseStart p.streamId).bind <| (follows_field16 p.packetLength).bind <|
    Follows.ite_neg ?_ <| (Header.follows_parse ?_ p.header).bind <|
    Follows.ite_neg (by omega) <| Follows.ite_neg ?_ <| follows_taken_bind <|
    (Fields.follows_parse ?_ p.streamId hp.fields fill).bind_first <| follows_taken_bind <|
    Follows.ite_neg ?_ <| (follows_skip ?_ ?_).bind <| (follows_bytes ?_ ?_).bind_pure rfl
  all_goals simp only [Role.length_values, Role.length_unused, hroles, headerLength]
  all_goals omega

theorem alike_bits {p : Packet} {fill fill' : Filling} (hp : p.IsValid fill)
    (hp' : p.IsValid fill') : Role.Alike p.roles (p.bits fill) (p.bits fill') := by
  have hlen {fill : Filling} (hp : p.IsValid fill) :
      (Bits.ofBytes fill.stuffing).length = 8 * (p.header.dataLength.toNat - p.fields.size) := by
    have hdata := hp.dataLength
    rw [Fields.length_bits] at hdata
    rw [Bits.length_ofBytes]
    omega
  refine .after ?_ <| .after ?_ <| .after ?_ <| (p.fields.alike_bits fill fill').append <|
    (Role.Alike.unused (hlen hp) (hlen hp')).append <| .refl ?_
  all_goals simp [startBytes]

theorem hasRoles_parse : parse.HasRoles roles :=
  .of_follows (fun h => (parse_eq_ok_iff.1 h).2) (fun hp => follows_parse (Nat.dvd_refl 8) hp)
    alike_bits

end Packet

/-- **What the bits of a unit are for.** The markers and the reserved bits of
timestamps, pack headers, system headers and packets are those of their
layouts, and a packet has the fields that its flags ask for. -/
theorem hasRoles_units :
    (Timestamp.parse.HasRoles fun _ => Timestamp.roles) ∧
      (∀ code, (Timestamp.parseCode code).HasRoles fun _ => Timestamp.roles) ∧
      PackHeader.parse.HasRoles PackHeader.roles ∧
      SystemHeader.parse.HasRoles SystemHeader.roles ∧
      Packet.parse.HasRoles Packet.roles ∧
      ∀ (bytes : List UInt8) (p : Packet), (Packet.parse.run (.ofBytes bytes)).result = .ok p →
        p.fields.IsValid p.header.flags :=
  ⟨Timestamp.hasRoles_parse, Timestamp.hasRoles_parseCode, PackHeader.hasRoles_parse,
    SystemHeader.hasRoles_parse, Packet.hasRoles_parse, fun _ _ hp => by
      obtain ⟨_, hparse, -⟩ := exists_of_result_run hp
      obtain ⟨-, _, hvalid, -⟩ := Packet.parse_eq_ok_iff.1 hparse
      exact hvalid.fields⟩

/-- A packet with a presentation time, a clock, a trick mode and a byte of
stuffing. -/
def samplePacket : List UInt8 :=
  [0, 0, 1, 0xE0, 0, 17, 0x80, 0xA8, 13, 0x21, 0, 1, 0, 1, 4, 0, 4, 0, 4, 1, 0x40, 0xFF, 0xAA]

/-- What the packet says. -/
def sampleValue : Packet where
  streamId := 0xE0
  packetLength := 17
  header :=
    { scrambling := 0, priority := false, alignment := false, protectedContent := false,
      notCopied := false, dataLength := 13,
      flags := { times := 0b10, clock := true, rate := false, trickMode := true, copyInfo := false,
                 previousChecksum := false, extension := false } }
  fields :=
    { presentation := some ⟨2, 0⟩, decoding := none, clock := some ⟨0, 0⟩, rate := none,
      trickMode := some (.freeze 0), copyInfo := none, previousChecksum := none,
      extension := none }
  payload := [0xAA]

/-- The bits before the clock, those of the trick mode and the stuffing of the
packet are changed, and then a marker of the clock is cleared. -/
theorem read_samplePacket :
    (Packet.parse.run (.ofBytes samplePacket)).result = .ok sampleValue ∧
      (Packet.parse.run (.ofBytes (((samplePacket.set 14 0xC4).set 20 0x47).set 21 0))).result =
        .ok sampleValue ∧
      (Packet.parse.run (.ofBytes (samplePacket.set 16 0))).result = .error (.marker "ESCR") := by
  have hsample : (Packet.parse.run (.ofBytes samplePacket)).result = .ok sampleValue := by
    decide +kernel
  obtain ⟨-, -, -, -, hroles, -⟩ := hasRoles_units
  exact ⟨hsample, (hroles.reserved _ _ _ hsample (by decide +kernel)).1,
    (hroles.marker _ _ _ 133 "ESCR" hsample (by decide +kernel) (by decide +kernel)).2⟩

end ProgramStream
