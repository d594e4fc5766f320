import ProgramStream.Clock
import ProgramStream.Proofs.Parser
/-!
# Clocks — what is read is what was laid out

A timestamp and a clock reference are read off their layouts and off
nothing else (`Timestamp.parse_eq_ok_iff`, `ClockReference.parse_eq_ok_iff`).
The numbers in them are as wide as their fields, and a layout of a wider one
would not show it.
-/

namespace ProgramStream

open ProgramStream.Parser ProgramStream.Parser.State

namespace Bits

@[simp] theorem length_ofCount33 (n : Nat) : (ofCount33 n).length = 36 := by
  simp [ofCount33]

/-- A count is cut into parts, each with a marker after it. -/
theorem ofCount33_append (high : BitVec 3) (middle low : BitVec 15) :
    ofCount33 (high ++ middle ++ low).toNat =
      ofField high ++ ([true] ++ (ofField middle ++ ([true] ++ (ofField low ++ [true])))) := by
  have hhigh := high.isLt
  have hmiddle := middle.isLt
  have hlow := low.isLt
  simp only [ofCount33, ofField, List.append_assoc]
  rw [toNat_append_field, toNat_append_field, Nat.shiftRight_eq_div_pow,
    Nat.shiftRight_eq_div_pow, ← ofNat_mod 15 (_ / _), ← ofNat_mod 15 (_ + _)]
  congr <;> omega

end Bits

variable {s s' : Parser.State}

/-- **A count is read off its layout**, with all markers set. -/
theorem Parser.count33_eq_ok_iff {name : String} {v : BitVec 33} :
    count33 name s = .ok v s' ↔ s.Takes (Bits.ofCount33 v.toNat) [] s' := by
  simp only [count33, bind_eq_ok_iff, field_eq_ok_iff (show 3 ≤ 64 by decide),
    field_eq_ok_iff (show 15 ≤ 64 by decide), marker_eq_ok_iff, pure_eq_ok_iff]
  constructor
  · rintro ⟨high, _, h₁, _, _, h₂, middle, _, h₃, _, _, h₄, low, _, h₅, _, _, h₆, rfl, rfl⟩
    rw [Bits.ofCount33_append]
    exact h₁.trans <| h₂.trans <| h₃.trans <| h₄.trans <| h₅.trans h₆
  · intro h
    -- the count is wider than any of its parts, so it is cut into them first
    obtain ⟨upper, low, rfl⟩ := Bits.exists_append_field (k := 18) (n := 15) v
    obtain ⟨high, middle, rfl⟩ := Bits.exists_append_field (k := 3) (n := 15) upper
    rw [Bits.ofCount33_append] at h
    simp only [takes_append_last_iff] at h
    obtain ⟨_, h₁, _, h₂, _, h₃, _, h₄, _, h₅, h₆⟩ := h
    exact ⟨high, _, h₁, (), _, h₂, middle, _, h₃, (), _, h₄, low, _, h₅, (), _, h₆, rfl, rfl⟩

/-! ## Timestamps -/

namespace Timestamp

/-- The numbers of a timestamp fit its fields. -/
def IsValid (t : Timestamp) : Prop := t.code < 2 ^ 4 ∧ t.value < 2 ^ 33

instance (t : Timestamp) : Decidable t.IsValid := inferInstanceAs (Decidable (_ ∧ _))

/-- The layout of a timestamp. -/
def bits (t : Timestamp) : List Bool := Bits.ofNat 4 t.code ++ Bits.ofCount33 t.value

@[simp] theorem length_bits (t : Timestamp) : t.bits.length = 40 := by simp [bits]

/-- **A timestamp is read off its layout.** -/
theorem parse_eq_ok_iff {t : Timestamp} :
    parse s = .ok t s' ↔ t.IsValid ∧ s.Takes t.bits [] s' := by
  simp only [parse, bind_eq_ok_iff, field_eq_ok_iff (show 4 ≤ 64 by decide), count33_eq_ok_iff,
    pure_eq_ok_iff]
  constructor
  · rintro ⟨code, _, h₁, value, _, h₂, rfl, rfl⟩
    exact ⟨⟨code.isLt, value.isLt⟩, h₁.trans h₂⟩
  · rintro ⟨⟨hcode, hvalue⟩, h⟩
    obtain ⟨_, h₁, h₂⟩ := takes_append_last_iff.1 h
    have hcode' := Bits.toNat_ofNat_of_lt hcode
    have hvalue' := Bits.toNat_ofNat_of_lt hvalue
    exact ⟨BitVec.ofNat 4 t.code, _, by rwa [Bits.ofField_ofNat], BitVec.ofNat 33 t.value, _,
      by rwa [hvalue'], by rw [hcode', hvalue'], rfl⟩

/-- A timestamp whose code is asked for. -/
theorem parseCode_eq_ok_iff {expected : Nat} {t : Timestamp} :
    parseCode expected s = .ok t s' ↔
      t.code = expected ∧ t.IsValid ∧ s.Takes t.bits [] s' := by
  simp only [parseCode, bind_eq_ok_iff, parse_eq_ok_iff]
  constructor
  · rintro ⟨found, _, ⟨hvalid, htakes⟩, h⟩
    split at h
    · obtain ⟨rfl, rfl⟩ := pure_eq_ok_iff.1 h
      exact ⟨‹_›, hvalid, htakes⟩
    · exact (throw_eq_ok_iff.1 h).elim
  · rintro ⟨hcode, hvalid, htakes⟩
    exact ⟨t, s', ⟨hvalid, htakes⟩, by rw [if_pos hcode]; rfl⟩

end Timestamp

/-! ## Clock references -/

namespace ClockReference

/-- The numbers of a clock reference fit its fields. -/
def IsValid (c : ClockReference) : Prop := c.base < 2 ^ 33 ∧ c.extension < 2 ^ 9

instance (c : ClockReference) : Decidable c.IsValid := inferInstanceAs (Decidable (_ ∧ _))

/-- The layout of a clock reference. -/
def bits (c : ClockReference) : List Bool :=
  Bits.ofCount33 c.base ++ (Bits.ofNat 9 c.extension ++ [true])

@[simp] theorem length_bits (c : ClockReference) : c.bits.length = 46 := by simp [bits]

/-- **A clock reference is read off its layout.** -/
theorem parse_eq_ok_iff {name : String} {c : ClockReference} :
    parse name s = .ok c s' ↔ c.IsValid ∧ s.Takes c.bits [] s' := by
  simp only [parse, bind_eq_ok_iff, field_eq_ok_iff (show 9 ≤ 64 by decide), count33_eq_ok_iff,
    marker_eq_ok_iff, pure_eq_ok_iff]
  constructor
  · rintro ⟨base, _, h₁, extension, _, h₂, _, _, h₃, rfl, rfl⟩
    exact ⟨⟨base.isLt, extension.isLt⟩, h₁.trans <| h₂.trans h₃⟩
  · rintro ⟨⟨hbase, hextension⟩, h⟩
    simp only [bits, takes_append_last_iff] at h
    obtain ⟨_, h₁, _, h₂, h₃⟩ := h
    have hbase' := Bits.toNat_ofNat_of_lt hbase
    have hextension' := Bits.toNat_ofNat_of_lt hextension
    exact ⟨BitVec.ofNat 33 c.base, _, by rwa [hbase'], BitVec.ofNat 9 c.extension, _,
      by rwa [Bits.ofField_ofNat], (), _, h₃, by rw [hbase', hextension'], rfl⟩

end ClockReference

end ProgramStream
