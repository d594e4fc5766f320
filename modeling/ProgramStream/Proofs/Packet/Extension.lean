import ProgramStream.Packet.Extension
import ProgramStream.Proofs.SystemHeader
/-!
# Packet extensions — what is read is what was laid out

The flags of an extension are laid out from the parts that are there, each
part behind its flag. Parts of any length stand behind a length of their
own, which bounds them (`Extension.IsValid`).
-/

namespace ProgramStream

open ProgramStream.Parser ProgramStream.Parser.State

variable {s s' : Parser.State}

/-- A part that may be missing is as long as it is when there. -/
theorem length_elim_of {α β : Type} {layout : α → List β} {size : α → Nat}
    (h : ∀ a, (layout a).length = 8 * size a) (o : Option α) :
    (o.elim [] layout).length = 8 * o.elim 0 size := by
  cases o with
  | none => rfl
  | some a => exact h a

/-- A part of fixed length is laid out once or not at all. -/
theorem length_elim {α β : Type} {n : Nat} {layout : α → List β}
    (h : ∀ a, (layout a).length = n) (o : Option α) :
    (o.elim [] layout).length = n * o.isSome.toNat := by
  cases o with
  | none => rfl
  | some a => simp [h]

namespace Packet

/-! ## The parts -/

namespace SequenceCounter

/-- The layout of a sequence counter. -/
def bits (c : SequenceCounter) : List Bool :=
  [true] ++ (Bits.ofField c.counter ++ ([true] ++ ([c.firstVersion] ++ Bits.ofField c.stuffing)))

@[simp] theorem length_bits (c : SequenceCounter) : c.bits.length = 16 := by simp [bits]

/-- A sequence counter is read off its layout. -/
theorem parse_eq_ok_iff {c : SequenceCounter} : parse s = .ok c s' ↔ s.Takes c.bits [] s' := by
  simp (disch := decide) only [parse, bind_eq_ok_iff, marker_eq_ok_iff, field_eq_ok_iff,
    flag_eq_ok_iff, pure_eq_ok_iff]
  constructor
  · rintro ⟨_, _, h₁, _, _, h₂, _, _, h₃, _, _, h₄, _, _, h₅, rfl, rfl⟩
    exact h₁.trans <| h₂.trans <| h₃.trans <| h₄.trans h₅
  · intro h
    simp only [bits, takes_append_last_iff] at h
    obtain ⟨_, h₁, _, h₂, _, h₃, _, h₄, h₅⟩ := h
    exact ⟨(), _, h₁, _, _, h₂, (), _, h₃, _, _, h₄, _, _, h₅, rfl, rfl⟩

end SequenceCounter

namespace DecoderBuffer

/-- The layout of the size of a decoder's buffer. -/
def bits (b : DecoderBuffer) : List Bool :=
  Bits.ofField (0b01 : BitVec 2) ++ ([b.scale] ++ Bits.ofField b.bound)

@[simp] theorem length_bits (b : DecoderBuffer) : b.bits.length = 16 := by simp [bits]

/-- The size of a decoder's buffer is read off its layout. -/
theorem parse_eq_ok_iff {b : DecoderBuffer} : parse s = .ok b s' ↔ s.Takes b.bits [] s' := by
  simp (disch := decide) only [parse, bind_eq_ok_iff, field_eq_ok_iff, flag_eq_ok_iff,
    ite_throw_eq_ok_iff, pure_eq_ok_iff]
  constructor
  · rintro ⟨_, _, h₁, rfl, _, _, h₂, _, _, h₃, rfl, rfl⟩
    exact h₁.trans <| h₂.trans h₃
  · intro h
    simp only [bits, takes_append_last_iff] at h
    obtain ⟨_, h₁, _, h₂, h₃⟩ := h
    exact ⟨_, _, h₁, rfl, _, _, h₂, _, _, h₃, rfl, rfl⟩

end DecoderBuffer

namespace Extension

/-- The layout of the bytes of a pack header, after their length. -/
def packHeaderBits (bytes : List UInt8) : List Bool :=
  Bits.ofByte (UInt8.ofNat bytes.length) ++ Bits.ofBytes bytes

/-- The layout of the bytes of an extension field, after their length. -/
def fieldBits (bytes : List UInt8) : List Bool :=
  [true] ++ (Bits.ofNat 7 bytes.length ++ Bits.ofBytes bytes)

theorem parsePackHeader_eq_ok_iff {bytes : List UInt8} :
    parsePackHeader s = .ok bytes s' ↔
      (s.IsAligned ∧ bytes.length < 2 ^ 8) ∧ s.Takes (packHeaderBits bytes) [] s' := by
  simp only [parsePackHeader, bind_eq_ok_iff, byte_eq_ok_iff, bytes_eq_ok_iff]
  constructor
  · rintro ⟨length, _, ⟨haligned, h₁⟩, -, hlen, h₂⟩
    refine ⟨⟨haligned, hlen ▸ length.toNat_lt⟩, ?_⟩
    rw [packHeaderBits, hlen, UInt8.ofNat_toNat]
    exact h₁.trans h₂
  · rintro ⟨⟨haligned, hlt⟩, h⟩
    obtain ⟨_, h₁, h₂⟩ := takes_append_last_iff.1 h
    exact ⟨_, _, ⟨haligned, h₁⟩, (h₁.isAligned_iff (by simp)).2 haligned,
      (UInt8.toNat_ofNat_of_lt' hlt).symm, h₂⟩

theorem parseField_eq_ok_iff {bytes : List UInt8} :
    parseField s = .ok bytes s' ↔
      (s.IsAligned ∧ bytes.length < 2 ^ 7) ∧ s.Takes (fieldBits bytes) [] s' := by
  simp (disch := decide) only [parseField, bind_eq_ok_iff, marker_eq_ok_iff, field_eq_ok_iff,
    bytes_eq_ok_iff]
  constructor
  · rintro ⟨_, _, h₁, length, _, h₂, haligned, hlen, h₃⟩
    refine ⟨⟨((h₁.trans h₂).isAligned_iff (by simp)).1 haligned, hlen ▸ length.isLt⟩, ?_⟩
    rw [fieldBits, hlen]
    exact h₁.trans <| h₂.trans h₃
  · rintro ⟨⟨haligned, hlt⟩, h⟩
    simp only [fieldBits, takes_append_last_iff] at h
    obtain ⟨_, h₁, _, h₂, h₃⟩ := h
    exact ⟨(), _, h₁, BitVec.ofNat 7 bytes.length, _, by rwa [Bits.ofField_ofNat],
      ((h₁.trans h₂).isAligned_iff (by simp)).2 haligned,
      (Bits.toNat_ofNat_of_lt hlt).symm, h₃⟩

/-! ## The extension -/

/-- The parts of an extension have the lengths that fit it. -/
structure IsValid (e : Extension) : Prop where
  privateData : ∀ bytes ∈ e.privateData, bytes.length = privateLength
  packHeader : ∀ bytes ∈ e.packHeader, bytes.length < 2 ^ 8
  field : ∀ bytes ∈ e.field, bytes.length < 2 ^ 7

instance (e : Extension) : Decidable e.IsValid :=
  decidable_of_iff
    ((∀ bytes ∈ e.privateData, bytes.length = privateLength) ∧
      (∀ bytes ∈ e.packHeader, bytes.length < 2 ^ 8) ∧ ∀ bytes ∈ e.field, bytes.length < 2 ^ 7)
    ⟨fun ⟨h₁, h₂, h₃⟩ => ⟨h₁, h₂, h₃⟩, fun h => ⟨h.1, h.2, h.3⟩⟩

/-- The layout of the flags of an extension. -/
def flagBits (e : Extension) (reserved : BitVec 3) : List Bool :=
  [e.privateData.isSome] ++ ([e.packHeader.isSome] ++ ([e.sequenceCounter.isSome] ++
    ([e.buffer.isSome] ++ (Bits.ofField reserved ++ [e.field.isSome]))))

/-- The layout of an extension. -/
def bits (e : Extension) (reserved : BitVec 3) : List Bool :=
  e.flagBits reserved ++ (e.privateData.elim [] Bits.ofBytes ++
    (e.packHeader.elim [] packHeaderBits ++ (e.sequenceCounter.elim [] SequenceCounter.bits ++
    (e.buffer.elim [] DecoderBuffer.bits ++ e.field.elim [] fieldBits))))

theorem length_packHeaderBits (bytes : List UInt8) :
    (packHeaderBits bytes).length = 8 * (1 + bytes.length) := by
  simp only [packHeaderBits, List.length_append, Bits.length_ofByte, Bits.length_ofBytes]
  omega

theorem length_fieldBits (bytes : List UInt8) :
    (fieldBits bytes).length = 8 * (1 + bytes.length) := by
  simp only [fieldBits, List.length_append, List.length_cons, List.length_nil,
    Bits.length_ofNat, Bits.length_ofBytes]
  omega

/-- **An extension is read off its layout**, at a byte boundary. -/
theorem parse_eq_ok_iff {e : Extension} (hs : s.IsAligned) :
    parse s = .ok e s' ↔ e.IsValid ∧ ∃ reserved, s.Takes (e.bits reserved) [] s' := by
  simp (disch := decide) only [parse, bind_eq_ok_iff, flag_eq_ok_iff, reserved_eq_ok_iff,
    given_eq_ok_iff_of fun _ _ => bytes_eq_ok_iff.trans and_assoc.symm,
    given_eq_ok_iff_of fun _ _ => parsePackHeader_eq_ok_iff,
    given_eq_ok_iff_of_takes fun _ _ => SequenceCounter.parse_eq_ok_iff,
    given_eq_ok_iff_of_takes fun _ _ => DecoderBuffer.parse_eq_ok_iff,
    given_eq_ok_iff_of fun _ _ => parseField_eq_ok_iff, pure_eq_ok_iff]
  constructor
  · rintro ⟨_, _, h₁, _, _, h₂, _, _, h₃, _, _, h₄, _, _, ⟨reserved, h₅⟩, _, _, h₆,
      _, _, ⟨rfl, hprivate, h₇⟩, _, _, ⟨rfl, hpack, h₈⟩, _, _, ⟨rfl, h₉⟩, _, _, ⟨rfl, h₁₀⟩,
      _, _, ⟨rfl, hfield, h₁₁⟩, rfl, rfl⟩
    refine ⟨⟨fun b hb => (hprivate b hb).2, fun b hb => (hpack b hb).2,
      fun b hb => (hfield b hb).2⟩, reserved, ?_⟩
    have hflags := h₁.trans <| h₂.trans <| h₃.trans <| h₄.trans <| h₅.trans h₆
    exact hflags.trans <| h₇.trans <| h₈.trans <| h₉.trans <| h₁₀.trans h₁₁
  · rintro ⟨⟨hprivate, hpack, hfield⟩, reserved, htakes⟩
    simp only [bits, takes_append_last_iff] at htakes
    obtain ⟨u, hflags, _, h₇, _, h₈, _, h₉, _, h₁₀, h₁₁⟩ := htakes
    have hu : u.IsAligned := (hflags.isAligned_iff (by simp [flagBits])).2 hs
    have ht := (h₇.isAligned_iff ⟨_, length_elim_of Bits.length_ofBytes _⟩).2 hu
    have ht' := ((h₈.trans <| h₉.trans h₁₀).isAligned_iff ?_).2 ht
    · simp only [flagBits, takes_append_last_iff] at hflags
      obtain ⟨_, h₁, _, h₂, _, h₃, _, h₄, _, h₅, h₆⟩ := hflags
      exact ⟨_, _, h₁, _, _, h₂, _, _, h₃, _, _, h₄, (), _, ⟨reserved, h₅⟩, _, _, h₆,
        _, _, ⟨rfl, fun b hb => ⟨hu, hprivate b hb⟩, h₇⟩,
        _, _, ⟨rfl, fun b hb => ⟨ht, hpack b hb⟩, h₈⟩, _, _, ⟨rfl, h₉⟩, _, _, ⟨rfl, h₁₀⟩,
        _, _, ⟨rfl, fun b hb => ⟨ht', hfield b hb⟩, h₁₁⟩, rfl, rfl⟩
    · simp only [List.length_append, length_elim_of length_packHeaderBits,
        length_elim SequenceCounter.length_bits, length_elim DecoderBuffer.length_bits]
      omega

/-- The length of an extension in bytes, with its flags. -/
def size (e : Extension) : Nat :=
  1 + e.privateData.elim 0 List.length + e.packHeader.elim 0 (1 + ·.length) +
    2 * e.sequenceCounter.isSome.toNat + 2 * e.buffer.isSome.toNat +
    e.field.elim 0 (1 + ·.length)

theorem length_bits (e : Extension) (reserved : BitVec 3) :
    (e.bits reserved).length = 8 * e.size := by
  simp only [bits, flagBits, List.length_append, List.length_cons, List.length_nil,
    Bits.length_ofField, length_elim_of Bits.length_ofBytes, length_elim_of length_packHeaderBits,
    length_elim SequenceCounter.length_bits, length_elim DecoderBuffer.length_bits,
    length_elim_of length_fieldBits, size]
  omega

end Extension

end Packet

end ProgramStream
