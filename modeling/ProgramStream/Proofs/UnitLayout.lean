import ProgramStream.Proofs.Packet
import ProgramStream.Proofs.Record
import ProgramStream.Proofs.Session.Step
import ProgramStream.Proofs.StreamMap
/-!
# Unit layouts — the bytes of a unit, framed and read

A `UnitLayout` is a unit to be laid out, of any kind, with the reserved bits
and stuffing that its layout has besides. Its bytes are framed as one unit
whatever stands behind them (`next_bytes_append`), and read as what was laid
out (`judge_bytes`). Both hold of every valid layout: one whose numbers fit
their fields and whose lengths and checksum are those of its parts.
-/

namespace ProgramStream

open ProgramStream.Parser ProgramStream.Parser.State

/-- A unit to be laid out. -/
inductive UnitLayout where
  | streamEnd
  | pack (header : PackHeader) (reserved : BitVec 5)
  | system (header : SystemHeader) (reserved : BitVec 7)
  | map (map : StreamMap) (first : BitVec 1) (second : BitVec 7)
  | packet (packet : Packet) (fill : Packet.Filling)
  /-- a unit of a kind that is passed over, with the bytes after its length -/
  | other (streamId : UInt8) (body : List UInt8)
  deriving DecidableEq, Repr

namespace UnitLayout

/-- The stream id of a unit. -/
def streamId : UnitLayout → UInt8
  | .streamEnd => StreamId.streamEnd
  | .pack .. => StreamId.pack
  | .system .. => StreamId.system
  | .map .. => StreamId.map
  | .packet p _ => p.streamId
  | .other id _ => id

/-- The length of a unit in bytes. -/
def length : UnitLayout → Nat
  | .streamEnd => Frame.startLength
  | .pack h _ => h.size
  | .system h _ => Frame.prologueLength + h.headerLength.toNat
  | .map m _ _ => Frame.prologueLength + m.length.toNat
  | .packet p _ => p.size
  | .other _ body => Frame.prologueLength + body.length

/-- The bits of a unit. -/
def bits : UnitLayout → List Bool
  | .streamEnd => Bits.ofBytes (startBytes StreamId.streamEnd)
  | .pack h reserved => h.bits reserved
  | .system h reserved => h.bits reserved
  | .map m first second => m.bits first second
  | .packet p fill => p.bits fill
  | .other id body =>
    Bits.ofBytes (startBytes id) ++ (Bits.ofNat 16 body.length ++ Bits.ofBytes body)

/-- The bytes of a unit. -/
def bytes (u : UnitLayout) : List UInt8 := Bits.pack u.bits

/-- A unit that can be laid out. -/
def IsValid : UnitLayout → Prop
  | .streamEnd => True
  | .pack h _ => h.IsValid
  | .system h _ => h.IsValid
  | .map m first second => m.IsValid first second
  | .packet p fill => StreamUnit.IsPacketId p.streamId ∧ p.IsValid fill
  | .other id body => ((0xBD ≤ id ∧ id ≤ 0xBF) ∨ 0xF0 ≤ id) ∧ body.length < 2 ^ 16

instance : DecidablePred IsValid := fun u =>
  match u with
  | .streamEnd => inferInstanceAs (Decidable True)
  | .pack h _ => inferInstanceAs (Decidable h.IsValid)
  | .system h _ => inferInstanceAs (Decidable h.IsValid)
  | .map m first second => inferInstanceAs (Decidable (m.IsValid first second))
  | .packet _ _ => inferInstanceAs (Decidable (_ ∧ _))
  | .other _ _ => inferInstanceAs (Decidable (_ ∧ _))

/-- What a unit is read as, with the codecs known before it. -/
def content (codecs : CodecTable) : UnitLayout → StreamUnit
  | .streamEnd => .streamEnd
  | .pack h _ => .pack h
  | .system h _ => .system h
  | .map m _ _ => .map m
  | .packet p _ => .packet p (StreamUnit.label codecs p.streamId)
  | .other id body => .other id (Frame.prologueLength + body.length)

/-- The codecs known after a unit. -/
def learn (codecs : CodecTable) : UnitLayout → CodecTable
  | .map m _ _ => codecs.learnAll m
  | _ => codecs

/-- What is reported about a unit. -/
def warnings (codecs : CodecTable) : UnitLayout → List Warning
  | .map m _ _ => m.entries.flatMap MapEntry.warnings
  | .packet p _ =>
    Packet.timeWarnings p.streamId p.header.flags.times ++
      StreamUnit.labelWarnings codecs p.streamId
  | _ => []

variable {u : UnitLayout}

theorem length_bits (h : u.IsValid) : u.bits.length = 8 * u.length := by
  cases u with
  | streamEnd => rfl
  | pack header reserved => exact PackHeader.length_bits h reserved
  | system header reserved => exact SystemHeader.length_bits h reserved
  | map m first second => exact StreamMap.length_bits h
  | packet p fill => exact Packet.length_bits h.2
  | other id body =>
    simp only [bits, length, Frame.prologueLength, startBytes, List.length_append,
      Bits.length_ofBytes, Bits.length_ofNat, List.length_cons, List.length_nil]
    omega

theorem ofBytes_bytes (h : u.IsValid) : Bits.ofBytes u.bytes = u.bits :=
  Bits.ofBytes_pack ⟨_, length_bits h⟩

theorem length_bytes (h : u.IsValid) : u.bytes.length = u.length := by
  have hlength : 8 * u.bytes.length = u.bits.length := Bits.length_pack ⟨_, length_bits h⟩
  rw [length_bits h] at hlength
  exact Nat.eq_of_mul_eq_mul_left (by decide) hlength

/-! ## Framing -/

theorem map_lt_of_isPacketId {id : UInt8} (h : StreamUnit.IsPacketId id) : StreamId.map < id :=
  Std.lt_of_lt_of_le (show StreamId.map < 0xC0 by decide) (StreamUnit.isPacketId_iff.1 h).1

theorem map_lt_of_range {id : UInt8} (h : (0xBD ≤ id ∧ id ≤ 0xBF) ∨ 0xF0 ≤ id) :
    StreamId.map < id := by
  rcases h with ⟨hle, -⟩ | hle
  · exact Std.lt_of_lt_of_le (show StreamId.map < 0xBD by decide) hle
  · exact Std.lt_of_lt_of_le (show StreamId.map < 0xF0 by decide) hle

/-- The ids behind that of a map are of no system unit. -/
theorem ne_of_map_lt {id : UInt8} (h : StreamId.map < id) :
    StreamId.streamEnd < id ∧ id ≠ StreamId.pack ∧ id ≠ StreamId.system ∧ id ≠ StreamId.map := by
  have hend : StreamId.streamEnd < id :=
    UInt8.lt_trans (show StreamId.streamEnd < StreamId.map by decide) h
  have hpack : StreamId.pack < id := UInt8.lt_trans (show StreamId.pack < StreamId.map by decide) h
  have hsystem : StreamId.system < id :=
    UInt8.lt_trans (show StreamId.system < StreamId.map by decide) h
  exact ⟨hend, (UInt8.ne_of_lt hpack).symm, (UInt8.ne_of_lt hsystem).symm,
    (UInt8.ne_of_lt h).symm⟩

/-- The ids that are passed over are those of no other kind. -/
theorem isOtherId_of_range {id : UInt8} (h : (0xBD ≤ id ∧ id ≤ 0xBF) ∨ 0xF0 ≤ id) :
    StreamUnit.IsOtherId id := by
  obtain ⟨hend, hne⟩ := ne_of_map_lt (map_lt_of_range h)
  refine ⟨(UInt8.ne_of_lt hend).symm, hne.1, hne.2.1, hne.2.2, fun hpacket => ?_⟩
  obtain ⟨hlow, hhigh⟩ := StreamUnit.isPacketId_iff.1 hpacket
  rcases h with ⟨-, hle⟩ | hle
  · exact absurd (UInt8.le_trans hlow hle) (by decide)
  · exact absurd (UInt8.le_trans hle hhigh) (by decide)

/-- The length of a unit with a length field. -/
theorem exists_hasLength_of_field {id : UInt8} {length : UInt16} {bits rest : List Bool}
    (hid : StreamId.streamEnd < id) (hpack : id ≠ StreamId.pack)
    (hbits : bits = Bits.ofBytes (startBytes id) ++ (Bits.ofField length.toBitVec ++ rest)) :
    ∃ tail, Bits.pack bits = startBytes id ++ tail ∧
      Frame.HasLength id tail (Frame.prologueLength + length.toNat) := by
  obtain ⟨high, low, hfield, hvalue⟩ := exists_lengthBytes length
  refine ⟨high :: low :: Bits.pack rest, ?_, ?_⟩
  · rw [hbits, pack_prologue, hfield]
    rfl
  · rw [← hvalue]
    exact .field _ hid hpack

/-- The stuffing length of a pack header stands in its last byte before the
stuffing. -/
theorem exists_hasLength_pack {header : PackHeader} (reserved : BitVec 5) :
    ∃ tail, Bits.pack (header.bits reserved) = startBytes StreamId.pack ++ tail ∧
      Frame.HasLength StreamId.pack tail header.size := by
  let middle := Bits.ofField (0b01 : BitVec 2) ++ (header.clock.bits ++
    (Bits.ofField header.muxRate ++ ([true] ++ [true])))
  let last := Bits.ofField reserved ++ Bits.ofField header.stuffingLength
  have hmiddle : middle.length = 8 * 9 := by simp [middle]
  have hlast : last.length = 8 := by simp [last]
  have hbits : header.bits reserved = Bits.ofBytes (startBytes StreamId.pack) ++
      (middle ++ (last ++ Bits.ofBytes header.stuffing)) := by
    simp only [PackHeader.bits, middle, last, List.append_assoc]
  have hbyte : Bits.pack last = [UInt8.ofNat (Bits.toNat last)] := by
    refine Bits.ofBytes_inj ?_
    rw [Bits.ofBytes_pack ⟨1, hlast⟩, Bits.ofBytes_cons, Bits.ofByte_ofNat_toNat hlast]
    simp
  have hnine : (Bits.pack middle).length = 9 := by
    have := Bits.length_pack ⟨9, hmiddle⟩
    omega
  -- the reserved bits stand above the stuffing length, and are masked out
  have hstuffing :
      (UInt8.ofNat (Bits.toNat last) &&& 0x07).toNat = header.stuffingLength.toNat := by
    have hlt := Bits.toNat_lt last
    rw [hlast] at hlt
    rw [UInt8.toNat_and, UInt8.toNat_ofNat_of_lt' hlt,
      show (0x07 : UInt8).toNat = 2 ^ 3 - 1 from rfl, Nat.and_two_pow_sub_one_eq_mod,
      Bits.toNat_append, Bits.length_ofField, Nat.mul_add_mod_self_right, Bits.ofField,
      Bits.toNat_ofNat, Nat.mod_mod]
    exact Nat.mod_eq_of_lt header.stuffingLength.isLt
  refine ⟨Bits.pack middle ++ (UInt8.ofNat (Bits.toNat last) :: header.stuffing), ?_, ?_⟩
  · rw [hbits, Bits.pack_ofBytes_append, Bits.pack_append ⟨9, hmiddle⟩,
      Bits.pack_append ⟨1, hlast⟩, hbyte, Bits.pack_ofBytes]
    rfl
  · rw [PackHeader.size, ← hstuffing]
    refine .pack ?_
    rw [show Frame.packLength - Frame.startLength - 1 = 9 from rfl,
      List.getElem?_append_right (Nat.le_of_eq hnine), hnine]
    rfl

/-- Behind the start code stand bytes that tell the length. -/
theorem exists_hasLength (h : u.IsValid) :
    ∃ tail, u.bytes = startBytes u.streamId ++ tail ∧
      Frame.HasLength u.streamId tail u.length := by
  cases u with
  | streamEnd => exact ⟨[], by rw [bytes, bits, Bits.pack_ofBytes]; rfl, .streamEnd []⟩
  | pack header reserved => exact exists_hasLength_pack reserved
  | system header reserved =>
    exact exists_hasLength_of_field (show StreamId.streamEnd < StreamId.system by decide)
      (show StreamId.system ≠ StreamId.pack by decide) rfl
  | map m first second =>
    obtain ⟨rest, hbits⟩ := StreamMap.exists_bits_eq m first second
    exact exists_hasLength_of_field (show StreamId.streamEnd < StreamId.map by decide)
      (show StreamId.map ≠ StreamId.pack by decide) hbits
  | packet p fill =>
    obtain ⟨hend, hpack, -⟩ := ne_of_map_lt (map_lt_of_isPacketId h.1)
    exact exists_hasLength_of_field hend hpack rfl
  | other id body =>
    obtain ⟨hend, hpack, -⟩ := ne_of_map_lt (map_lt_of_range h.1)
    have hlength := UInt16.toNat_ofNat_of_lt' h.2
    have hbits : bits (.other id body) = Bits.ofBytes (startBytes id) ++
        (Bits.ofField (UInt16.ofNat body.length).toBitVec ++ Bits.ofBytes body) := by
      rw [bits, ← Bits.ofField_ofNat]
      rfl
    have hfield := exists_hasLength_of_field hend hpack hbits
    rwa [hlength] at hfield

/-- **The bytes of a unit are framed as one**, whatever stands behind
them. -/
theorem next_bytes_append (h : u.IsValid) (more : List UInt8) :
    Frame.next (u.bytes ++ more) = .whole u.streamId u.length := by
  obtain ⟨rest, hbytes, hlength⟩ := exists_hasLength h
  refine Frame.next_append_of_whole (Frame.next_eq_whole_iff.2 ⟨rest, hbytes, hlength, ?_⟩)
  exact Nat.le_of_eq (length_bytes h).symm

/-! ## Reading -/

/-- **The bytes of a unit are read as what was laid out**, and all of them
are taken. -/
theorem reads_bytes (codecs : CodecTable) (h : u.IsValid) :
    StreamUnit.Reads codecs (State.ofBytes u.bytes) u.streamId (u.content codecs)
      (u.learn codecs) ⟨⟨[], [], u.length, by decide⟩, (u.warnings codecs).toArray⟩ := by
  have htakes : (State.ofBytes u.bytes).Takes u.bits (u.warnings codecs)
      ⟨⟨[], [], u.length, by decide⟩, (u.warnings codecs).toArray⟩ := by
    have htakes := takes_ofBytes u.bytes [] (u.warnings codecs)
    simpa only [List.append_nil, ofBytes_bytes h, length_bytes h] using htakes
  have hstart : (State.ofBytes u.bytes).IsAligned := isAligned_ofBytes _
  cases u with
  | streamEnd => exact .streamEnd _ (by rwa [bits, ofBytes_startBytes] at htakes)
  | pack header reserved => exact .pack (PackHeader.parse_eq_ok_iff.2 ⟨hstart, h, _, htakes⟩)
  | system header reserved => exact .system (SystemHeader.parse_eq_ok_iff.2 ⟨h, _, htakes⟩)
  | map m first second => exact .map (StreamMap.parse_of_isValid h hstart htakes)
  | packet p fill =>
    rw [← List.append_nil (bits _)] at htakes
    obtain ⟨t, hpacket, hlabel⟩ := takes_append_iff.1 htakes
    exact .packet h.1 (Packet.parse_eq_ok_iff.2 ⟨hstart, fill, h.2, hpacket⟩) hlabel
  | other id body =>
    rw [← ofBytes_bytes h] at htakes
    rw [show content codecs (.other id body) = .other id (bytes (.other id body)).length by
      rw [length_bytes h]; rfl]
    refine .other (isOtherId_of_range h.1) hstart ?_ htakes
    simp [State.ofBytes, BitCursor.ofBytes, BitCursor.left]

/-- The verdict on the bytes of a unit. -/
theorem judge_bytes (codecs : CodecTable) (h : u.IsValid) :
    StreamUnit.judge codecs u.streamId u.bytes =
      ⟨.ok (u.content codecs), u.learn codecs, (u.warnings codecs).toArray⟩ := by
  rw [StreamUnit.judge_of_reads (reads_bytes codecs h), length_bytes h]
  simp only [if_true]

end UnitLayout

end ProgramStream
