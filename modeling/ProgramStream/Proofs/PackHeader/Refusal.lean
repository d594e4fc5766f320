import ProgramStream.Proofs.PackHeader
/-!
# Pack headers — read off their layouts, or refused

A pack header with any numbers that fit its fields and with up to seven bytes
of stuffing is read off its layout at a byte boundary, and one that is read
was laid out, so its times cannot overflow. What stands in the place of the
start code is looked at first, then the two bits of the version, and only then
the markers: whatever follows a wrong start code or a wrong version, that is
what is reported.
-/

namespace ProgramStream

open ProgramStream.Parser ProgramStream.Parser.State

variable {s t : Parser.State} {start : BitCursor}

namespace PackHeader

/-! ## Headers of given fields -/

/-- The pack header with some fields, and with the length that counts its
stuffing. -/
def ofFields (base : BitVec 33) (extension : BitVec 9) (muxRate : BitVec 22)
    (stuffing : List UInt8) : PackHeader :=
  ⟨⟨base.toNat, extension.toNat⟩, muxRate, BitVec.ofNat 3 stuffing.length, stuffing⟩

section

variable {base : BitVec 33} {extension : BitVec 9} {muxRate : BitVec 22} {stuffing : List UInt8}

theorem isValid_ofFields (hlen : stuffing.length ≤ 7) :
    (ofFields base extension muxRate stuffing).IsValid :=
  ⟨⟨base.isLt, extension.isLt⟩, (Bits.toNat_ofNat_of_lt (Nat.lt_succ_of_le hlen)).symm⟩

theorem size_ofFields (hlen : stuffing.length ≤ 7) :
    (ofFields base extension muxRate stuffing).size = 14 + stuffing.length :=
  congrArg (fixedLength + ·) (isValid_ofFields hlen).2.symm

/-- The clock of a pack header counts in a machine word. -/
theorem ticks_ofFields :
    (ofFields base extension muxRate stuffing).clock.ticks =
        300 * base.toNat + extension.toNat ∧
      (ofFields base extension muxRate stuffing).clock.ticks < 2 ^ 64 := by
  have hbase := base.isLt
  have hextension := extension.isLt
  simp only [ofFields, ClockReference.ticks]
  omega

end

/-- A header that fits its fields is the header of some. -/
theorem IsValid.exists_eq_ofFields {h : PackHeader} (hvalid : h.IsValid) :
    ∃ base extension muxRate stuffing, stuffing.length ≤ 7 ∧
      h = ofFields base extension muxRate stuffing := by
  obtain ⟨⟨base, extension⟩, muxRate, stuffingLength, stuffing⟩ := h
  obtain ⟨⟨hbase, hextension⟩, hlen⟩ := hvalid
  simp only at hbase hextension hlen
  have hle := Nat.le_of_lt_succ stuffingLength.isLt
  refine ⟨BitVec.ofNat 33 base, BitVec.ofNat 9 extension, muxRate, stuffing, hlen ▸ hle, ?_⟩
  rw [ofFields, Bits.toNat_ofNat_of_lt hbase, Bits.toNat_ofNat_of_lt hextension, hlen,
    BitVec.ofNat_toNat, BitVec.setWidth_eq]

/-! ## The layout in bytes -/

/-- The bytes of a pack header. -/
def layout (h : PackHeader) (reserved : BitVec 5) : List UInt8 := Bits.pack (h.bits reserved)

theorem ofBytes_layout {h : PackHeader} (hvalid : h.IsValid) (reserved : BitVec 5) :
    Bits.ofBytes (h.layout reserved) = h.bits reserved :=
  Bits.ofBytes_pack ⟨_, length_bits hvalid reserved⟩

theorem length_layout {h : PackHeader} (hvalid : h.IsValid) (reserved : BitVec 5) :
    (h.layout reserved).length = h.size := by
  have hlength := congrArg List.length (ofBytes_layout hvalid reserved)
  rw [Bits.length_ofBytes, length_bits hvalid reserved] at hlength
  exact Nat.eq_of_mul_eq_mul_left (by decide) hlength

/-- **A layout at a byte boundary is read**, and what follows it is left. -/
theorem run_of_layout {h : PackHeader} {reserved : BitVec 5} {rest : List UInt8}
    (hvalid : h.IsValid) (hpending : start.pending = [])
    (hbytes : start.bytes = h.layout reserved ++ rest) :
    parse.run start = ⟨.ok h, ⟨[], rest, start.taken + h.size, by decide⟩, #[]⟩ := by
  have htakes := State.takes_bytes hpending hbytes
  simp only [ofBytes_layout hvalid, length_layout hvalid] at htakes
  exact run_of_ok (parse_eq_ok_iff.2 ⟨hpending, hvalid, reserved, htakes⟩)

/-- **A header that is read was laid out.** -/
theorem exists_layout_of_result_run {h : PackHeader} (hread : (parse.run start).result = .ok h) :
    start.pending = [] ∧ h.IsValid ∧ ∃ reserved, h.layout reserved <+: start.bytes := by
  obtain ⟨s', hparse, -⟩ := exists_of_result_run hread
  obtain ⟨hpending, hvalid, reserved, htakes⟩ := parse_eq_ok_iff.1 hparse
  rw [← ofBytes_layout hvalid] at htakes
  exact ⟨hpending, hvalid, reserved, htakes.bytes_isPrefix hpending⟩

/-! ## What is looked at first -/

theorem parseStart_of_ne {streamId : UInt8} {found : UInt32}
    (htakes : s.Takes (Bits.ofField found.toBitVec) [] t) (hne : found ≠ startCode streamId) :
    parseStart streamId s = .error (.startCode found) t := by
  refine (bind_of_ok (field32_eq_ok_iff.2 htakes)).trans ?_
  rw [if_neg hne]
  rfl

/-- **A byte of another version is refused** for its two highest bits. -/
theorem parseVersion_of_ne {b : UInt8} {rest : List UInt8} (haligned : s.IsAligned)
    (hbytes : s.cursor.bytes = b :: rest) (hne : b >>> 6 ≠ 0b01) :
    ∃ t, parseVersion 0b01 s = .error (.version b) t := by
  obtain ⟨mark, low, hb⟩ := Bits.exists_append_field (k := 2) (n := 6) b.toBitVec
  have hpeek : peek 1 s = .ok [b] s := peek_eq_ok_iff.2 ⟨rfl, haligned, rfl, rest, hbytes.symm⟩
  -- the byte is looked at as a whole, but only its mark is taken
  have hmark : mark ≠ 0b01 := by
    rintro rfl
    have hvalue : b.toNat = 1 * 2 ^ 6 + low.toNat := by
      rw [← UInt8.toNat_toBitVec, hb, Bits.toNat_append_field]
      rfl
    have hlow := low.isLt
    refine hne (UInt8.toNat_inj.1 ?_)
    rw [UInt8.toNat_shiftRight, hvalue, Nat.shiftRight_eq_div_pow]
    change (1 * 2 ^ 6 + low.toNat) / 2 ^ 6 = 1
    omega
  have hahead : Bits.ofField mark <+: s.cursor.ahead := by
    have hbyte : Bits.ofByte b = Bits.ofField mark ++ Bits.ofField low := by
      rw [← Bits.ofField_append, ← hb]
      rfl
    rw [BitCursor.ahead_of_pending haligned, hbytes, Bits.ofBytes_cons, hbyte, List.append_assoc]
    exact List.prefix_append _ _
  obtain ⟨t, htakes⟩ := s.exists_takes hahead []
  have hfield := (field_eq_ok_iff (by decide)).2 htakes
  refine ⟨t, (bind_of_ok hpeek).trans ((bind_of_ok hfield).trans ?_)⟩
  rw [if_neg hmark]
  rfl

/-- **Pack headers are read exactly as they are laid out**, at a byte boundary.
A header with any fields is read off its layout, which is taken as a whole, and
a header that is read was laid out, so that its clock fits a machine word in
either unit. A wrong start code is refused wherever the header begins, and a
wrong version behind a right one, whatever follows them. -/
theorem run_parse_at_boundary (start : BitCursor) :
    (∀ (base : BitVec 33) (extension : BitVec 9) (muxRate : BitVec 22) (reserved : BitVec 5)
        (stuffing rest : List UInt8), stuffing.length ≤ 7 → start.pending = [] →
      let h := ofFields base extension muxRate stuffing
      start.bytes = h.layout reserved ++ rest →
        h.size = 14 + stuffing.length ∧
          parse.run start = ⟨.ok h, ⟨[], rest, start.taken + h.size, by decide⟩, #[]⟩) ∧
      (∀ h : PackHeader, (parse.run start).result = .ok h →
        ∃ base extension muxRate reserved stuffing, stuffing.length ≤ 7 ∧ start.pending = [] ∧
          h = ofFields base extension muxRate stuffing ∧ h.layout reserved <+: start.bytes ∧
          h.clock.base < 2 ^ 33 ∧ h.clock.extension < 512 ∧
          h.clock.ticks = 300 * h.clock.base + h.clock.extension ∧ h.clock.ticks < 2 ^ 64 ∧
          h.clock.milliseconds = h.clock.base / 90) ∧
      (∀ found : UInt32, found ≠ startCode StreamId.pack →
        Bits.ofField found.toBitVec <+: start.ahead →
          (parse.run start).result = .error (.startCode found)) ∧
      (∀ (b : UInt8) (rest : List UInt8), b >>> 6 ≠ 0b01 → start.pending = [] →
        start.bytes = startBytes StreamId.pack ++ b :: rest →
          (parse.run start).result = .error (.version b)) := by
  refine ⟨fun base extension muxRate reserved stuffing rest hlen hpending hbytes => ?_,
    fun h hread => ?_, fun found hne hfront => ?_, fun b rest hne hpending hbytes => ?_⟩
  · exact ⟨size_ofFields hlen, run_of_layout (isValid_ofFields hlen) hpending hbytes⟩
  · obtain ⟨hpending, hvalid, reserved, hfront⟩ := exists_layout_of_result_run hread
    obtain ⟨base, extension, muxRate, stuffing, hlen, rfl⟩ := hvalid.exists_eq_ofFields
    exact ⟨base, extension, muxRate, reserved, stuffing, hlen, hpending, rfl, hfront, hvalid.1.1,
      hvalid.1.2, ticks_ofFields.1, ticks_ofFields.2, rfl⟩
  · obtain ⟨t, htakes⟩ := State.exists_takes (s := ⟨start, #[]⟩) hfront []
    exact congrArg Outcome.result (run_of_error (bind_of_error (parseStart_of_ne htakes hne)))
  · have hstart := State.takes_bytes hpending hbytes
    have haligned : State.IsAligned ⟨⟨[], b :: rest, start.taken + 4, by decide⟩, #[]⟩ := rfl
    obtain ⟨t, hversion⟩ := parseVersion_of_ne haligned rfl hne
    have hparse : parse ⟨start, #[]⟩ = .error (.version b) t :=
      (bind_of_ok ((parseStart_eq_ok_iff (a := ())).2 hstart)).trans (bind_of_error hversion)
    exact congrArg Outcome.result (run_of_error hparse)

/-- A header with two bytes of stuffing and a clock with no empty part is
read from its bytes. With another start code it is refused for that, although
its version is wrong as well, and with its own for the version, although its
markers are not set. -/
theorem run_parse_stuffedBytes :
    let clock : List UInt8 := [0x6C, 0x91, 0xA4, 0x2B, 0x3E, 0xAB]
    let rate : List UInt8 := [0x00, 0x5F, 0x6B]
    let whole := BitCursor.ofBytes ([0, 0, 1, 0xBA] ++ clock ++ rate ++ [0xFA, 0xFF, 0xFE, 0x00])
    let other := BitCursor.ofBytes [0, 0, 1, 0xBB, 0x21]
    let old := BitCursor.ofBytes [0, 0, 1, 0xBA, 0x20]
    parse.run whole = ⟨.ok ⟨⟨5521409383, 341⟩, 6106, 2, [0xFF, 0xFE]⟩,
        ⟨[], [0x00], 16, by decide⟩, #[]⟩ ∧
      (parse.run other).result = .error (.startCode 0x000001BB) ∧
      (parse.run old).result = .error (.version 0x20) := by
  intro clock rate whole other old
  have hbytes : whole.bytes =
      (ofFields 5521409383 341 6106 [0xFF, 0xFE]).layout 0x1F ++ [0x00] := by decide +kernel
  obtain ⟨-, hwhole⟩ := (run_parse_at_boundary whole).1 5521409383 341 6106 0x1F [0xFF, 0xFE] [0x00]
    (by decide) rfl hbytes
  exact ⟨hwhole,
    (run_parse_at_boundary other).2.2.1 0x000001BB (by decide) (by decide),
    (run_parse_at_boundary old).2.2.2 0x20 [] (by decide) rfl rfl⟩

end PackHeader

end ProgramStream
