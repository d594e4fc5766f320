import ProgramStream.PackHeader
import ProgramStream.Proofs.Clock
/-!
# Pack headers — what is read is what was laid out

`PackHeader.bits` lays a pack header out. Five bits of the layout mean
nothing and may be any, so they are given beside the header. A pack header
is read off a layout of it, at a byte boundary, and off nothing else
(`parse_eq_ok_iff`).
-/

namespace ProgramStream

open ProgramStream.Parser ProgramStream.Parser.State

variable {s s' : Parser.State}

/-! ## Start codes -/

/-- The four bytes of a start code. -/
def startBytes (streamId : UInt8) : List UInt8 := [0, 0, 1, streamId]

theorem toNat_startCode (streamId : UInt8) :
    (startCode streamId).toNat = 256 + streamId.toNat := by
  have hor := Nat.two_pow_add_eq_or_of_lt (i := 8) streamId.toNat_lt 1
  rw [startCode, UInt32.toNat_or, UInt8.toNat_toUInt32]
  exact hor.symm

theorem value_startBytes (streamId : UInt8) :
    ByteOrder.big.value (startBytes streamId) = (startCode streamId).toNat := by
  rw [toNat_startCode]
  simp [startBytes, ByteOrder.value, ByteOrder.littleValue, Nat.add_comm]

/-- **A start code stands in its four bytes.** -/
theorem ofBytes_startBytes (streamId : UInt8) :
    Bits.ofBytes (startBytes streamId) = Bits.ofField (startCode streamId).toBitVec := by
  rw [← ByteOrder.ofNat_value_big, value_startBytes]
  rfl

/-- And in no others. -/
theorem eq_startCode_iff {bs : List UInt8} {streamId : UInt8} (h : bs.length = 4) :
    UInt32.ofNat (ByteOrder.big.value bs) = startCode streamId ↔ bs = startBytes streamId := by
  rw [← UInt32.toNat_inj, ByteOrder.toNat_word_of_length h, ← value_startBytes]
  constructor
  · intro hvalue
    rw [← ByteOrder.big_bytes_value bs, hvalue, h]
    exact ByteOrder.big_bytes_value (startBytes streamId)
  · rintro rfl
    rfl

/-- A length field is two bytes. -/
theorem exists_lengthBytes (length : UInt16) :
    ∃ high low, ByteOrder.big.bytes 2 length.toNat = [high, low] ∧
      ByteOrder.big.value [high, low] = length.toNat := by
  have hvalue := ByteOrder.value_bytes .big 2 length.toNat
  match hbytes : ByteOrder.big.bytes 2 length.toNat, ByteOrder.length_bytes .big 2 length.toNat with
  | [high, low], _ =>
    rw [hbytes, show 256 ^ 2 = 2 ^ 16 from rfl, Nat.mod_eq_of_lt length.toNat_lt] at hvalue
    exact ⟨high, low, rfl, hvalue⟩

/-- The bytes of a start code, a length field and what follows them. -/
theorem pack_prologue (streamId : UInt8) (length : UInt16) (bits : List Bool) :
    Bits.pack (Bits.ofBytes (startBytes streamId) ++ (Bits.ofField length.toBitVec ++ bits)) =
      startBytes streamId ++ (ByteOrder.big.bytes 2 length.toNat ++ Bits.pack bits) := by
  have hlength : Bits.ofField length.toBitVec =
      Bits.ofBytes (ByteOrder.big.bytes 2 length.toNat) := (ByteOrder.ofBytes_big 2 _).symm
  rw [Bits.pack_ofBytes_append, hlength, Bits.pack_ofBytes_append]

namespace PackHeader

theorem parseStart_eq_ok_iff {streamId : UInt8} {a : Unit} :
    parseStart streamId s = .ok a s' ↔ s.Takes (Bits.ofBytes (startBytes streamId)) [] s' := by
  simp only [parseStart, bind_eq_ok_iff, field32_eq_ok_iff, ite_throw_eq_ok_iff, pure_eq_ok_iff,
    ofBytes_startBytes]
  constructor
  · rintro ⟨_, _, h, rfl, -, rfl⟩
    exact h
  · exact fun h => ⟨_, _, h, rfl, trivial, rfl⟩

/-- **The version bits stand at a byte boundary.** The byte looked at first
is there whenever its two bits are. -/
theorem parseVersion_eq_ok_iff {mark : BitVec 2} {a : Unit} :
    parseVersion mark s = .ok a s' ↔ s.IsAligned ∧ s.Takes (Bits.ofField mark) [] s' := by
  simp only [parseVersion, bind_eq_ok_iff, peek_eq_ok_iff, field_eq_ok_iff (show 2 ≤ 64 by decide),
    ite_throw_eq_ok_iff, pure_eq_ok_iff]
  constructor
  · rintro ⟨_, _, ⟨rfl, haligned, -, -⟩, _, _, h, rfl, -, rfl⟩
    exact ⟨haligned, h⟩
  · rintro ⟨haligned, h⟩
    obtain ⟨b, bytes, hbytes⟩ : ∃ b bytes, s.cursor.bytes = b :: bytes := by
      refine List.exists_cons_of_ne_nil fun hnil => ?_
      have hahead := congrArg List.length h.cursor.ahead_eq
      rw [BitCursor.ahead, hnil, show s.cursor.pending = [] from haligned] at hahead
      simp only [Bits.ofBytes_nil, List.append_nil, List.length_nil, List.length_append,
        Bits.length_ofField] at hahead
      omega
    exact ⟨[b], s, ⟨rfl, haligned, rfl, bytes, hbytes.symm⟩, mark, s', h, rfl, trivial, rfl⟩

/-! ## The layout -/

/-- The numbers of a pack header fit its fields, and its stuffing is as long
as it says. -/
def IsValid (h : PackHeader) : Prop :=
  h.clock.IsValid ∧ h.stuffing.length = h.stuffingLength.toNat

instance (h : PackHeader) : Decidable h.IsValid := inferInstanceAs (Decidable (_ ∧ _))

/-- The layout of a pack header. -/
def bits (h : PackHeader) (reserved : BitVec 5) : List Bool :=
  Bits.ofBytes (startBytes StreamId.pack) ++
    (Bits.ofField (0b01 : BitVec 2) ++ (h.clock.bits ++ (Bits.ofField h.muxRate ++
    ([true] ++ ([true] ++ (Bits.ofField reserved ++ (Bits.ofField h.stuffingLength ++
    Bits.ofBytes h.stuffing)))))))

theorem length_bits {h : PackHeader} (hvalid : h.IsValid) (reserved : BitVec 5) :
    (h.bits reserved).length = 8 * h.size := by
  simp only [bits, List.length_append, Bits.length_ofBytes, Bits.length_ofField,
    ClockReference.length_bits, hvalid.2, size, fixedLength, startBytes, List.length_cons,
    List.length_nil]
  omega

/-- **A pack header is read off its layout**, at a byte boundary. -/
theorem parse_eq_ok_iff {h : PackHeader} :
    parse s = .ok h s' ↔
      s.IsAligned ∧ h.IsValid ∧ ∃ reserved, s.Takes (h.bits reserved) [] s' := by
  simp (disch := decide) only [parse, bind_eq_ok_iff, parseStart_eq_ok_iff,
    parseVersion_eq_ok_iff, ClockReference.parse_eq_ok_iff, field_eq_ok_iff, marker_eq_ok_iff,
    reserved_eq_ok_iff, bytes_eq_ok_iff, pure_eq_ok_iff]
  constructor
  · rintro ⟨_, _, h₁, _, _, ⟨haligned, h₂⟩, _, _, ⟨hclock, h₃⟩, _, _, h₄, _, _, h₅, _, _, h₆, _, _,
      ⟨reserved, h₇⟩, _, _, h₈, _, _, ⟨-, hlen, h₉⟩, rfl, rfl⟩
    refine ⟨(h₁.isAligned_iff (by simp)).1 haligned, ⟨hclock, hlen⟩, reserved, ?_⟩
    exact h₁.trans <| h₂.trans <| h₃.trans <| h₄.trans <| h₅.trans <| h₆.trans <| h₇.trans <|
      h₈.trans h₉
  · rintro ⟨haligned, ⟨hclock, hlen⟩, reserved, htakes⟩
    simp only [bits, takes_append_last_iff] at htakes
    obtain ⟨_, h₁, _, h₂, _, h₃, _, h₄, _, h₅, _, h₆, _, h₇, _, h₈, h₉⟩ := htakes
    have hfixed := h₁.trans <| h₂.trans <| h₃.trans <| h₄.trans <| h₅.trans <| h₆.trans <|
      h₇.trans h₈
    exact ⟨(), _, h₁, (), _, ⟨(h₁.isAligned_iff (by simp)).2 haligned, h₂⟩, _, _, ⟨hclock, h₃⟩,
      _, _, h₄, (), _, h₅, (), _, h₆, (), _, ⟨reserved, h₇⟩, _, _, h₈, _, _,
      ⟨(hfixed.isAligned_iff (by simp [startBytes])).2 haligned, hlen, h₉⟩, rfl, rfl⟩

end PackHeader

end ProgramStream
