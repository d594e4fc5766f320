import ProgramStream.Packet.TrickMode
import ProgramStream.Proofs.Parser
/-!
# Trick modes — what is read is what was laid out

`TrickMode.bits` lays a trick mode out. A standing picture leaves three bits
that mean nothing and a mode without a meaning five, so five bits are given
beside the mode, the low ones of which are used.
-/

namespace ProgramStream

open ProgramStream.Parser ProgramStream.Parser.State

variable {s s' : Parser.State}

namespace Packet

namespace TrickMode

/-- The layout of what follows the bits that name the mode. -/
def restBits (reserved : BitVec 5) : TrickMode → List Bool
  | .fast _ fieldId intraOnly truncation =>
    Bits.ofField fieldId ++ ([intraOnly] ++ Bits.ofField truncation)
  | .slow _ repeats => Bits.ofField repeats
  | .freeze fieldId => Bits.ofField fieldId ++ Bits.ofField (reserved.setWidth 3)
  | .unassigned _ => Bits.ofField reserved

/-- The layout of a trick mode. -/
def bits (t : TrickMode) (reserved : BitVec 5) : List Bool :=
  Bits.ofNat 3 t.control ++ t.restBits reserved

@[simp] theorem length_bits (t : TrickMode) (reserved : BitVec 5) :
    (t.bits reserved).length = 8 := by
  cases t <;> simp [bits, restBits]

theorem parseFast_eq_ok_iff {backward : Bool} {t : TrickMode} :
    parseFast backward s = .ok t s' ↔
      ∃ fieldId intraOnly truncation, t = .fast backward fieldId intraOnly truncation ∧
        s.Takes (t.restBits 0) [] s' := by
  simp (disch := decide) only [parseFast, bind_eq_ok_iff, field_eq_ok_iff, flag_eq_ok_iff,
    pure_eq_ok_iff]
  constructor
  · rintro ⟨fieldId, _, h₁, intraOnly, _, h₂, truncation, _, h₃, rfl, rfl⟩
    exact ⟨fieldId, intraOnly, truncation, rfl, h₁.trans <| h₂.trans h₃⟩
  · rintro ⟨fieldId, intraOnly, truncation, rfl, h⟩
    simp only [restBits, takes_append_last_iff] at h
    obtain ⟨_, h₁, _, h₂, h₃⟩ := h
    exact ⟨_, _, h₁, _, _, h₂, _, _, h₃, rfl, rfl⟩

theorem parseSlow_eq_ok_iff {backward : Bool} {t : TrickMode} :
    parseSlow backward s = .ok t s' ↔
      ∃ repeats, t = .slow backward repeats ∧ s.Takes (t.restBits 0) [] s' := by
  simp (disch := decide) only [parseSlow, bind_eq_ok_iff, field_eq_ok_iff, pure_eq_ok_iff]
  constructor
  · rintro ⟨repeats, _, h, rfl, rfl⟩
    exact ⟨repeats, rfl, h⟩
  · rintro ⟨repeats, rfl, h⟩
    exact ⟨repeats, _, h, rfl, rfl⟩

theorem parseFreeze_eq_ok_iff {t : TrickMode} :
    parseFreeze s = .ok t s' ↔
      ∃ fieldId reserved, t = .freeze fieldId ∧ s.Takes (t.restBits reserved) [] s' := by
  simp (disch := decide) only [parseFreeze, bind_eq_ok_iff, field_eq_ok_iff, reserved_eq_ok_iff,
    pure_eq_ok_iff]
  constructor
  · rintro ⟨fieldId, _, h₁, _, _, ⟨v, h₂⟩, rfl, rfl⟩
    have hv : (v.setWidth 5).setWidth 3 = v := by simp
    exact ⟨fieldId, v.setWidth 5, rfl, h₁.trans (by rwa [hv])⟩
  · rintro ⟨fieldId, reserved, rfl, h⟩
    obtain ⟨_, h₁, h₂⟩ := takes_append_last_iff.1 h
    exact ⟨_, _, h₁, (), _, ⟨_, h₂⟩, rfl, rfl⟩

theorem parseUnassigned_eq_ok_iff {control : Nat} {t : TrickMode} :
    parseUnassigned control s = .ok t s' ↔
      t = .unassigned (Fin.ofNat 3 (control - 5)) ∧
        ∃ reserved, s.Takes (t.restBits reserved) [] s' := by
  simp (disch := decide) only [parseUnassigned, bind_eq_ok_iff, reserved_eq_ok_iff,
    pure_eq_ok_iff]
  constructor
  · rintro ⟨_, _, ⟨v, h⟩, rfl, rfl⟩
    exact ⟨rfl, v, h⟩
  · rintro ⟨rfl, v, h⟩
    exact ⟨(), _, ⟨v, h⟩, rfl, rfl⟩

theorem control_lt (t : TrickMode) : t.control < 2 ^ 3 := by
  match t with
  | .fast false .. | .fast true .. | .slow false _ | .slow true _ | .freeze _ => simp [control]
  | .unassigned code =>
    have := code.isLt
    simp only [control]
    omega

/-- **A trick mode is read off its layout.** -/
theorem parse_eq_ok_iff {t : TrickMode} :
    parse s = .ok t s' ↔ ∃ reserved, s.Takes (t.bits reserved) [] s' := by
  simp only [parse, bind_eq_ok_iff, field_eq_ok_iff (show 3 ≤ 64 by decide), bits,
    takes_append_last_iff]
  constructor
  · rintro ⟨control, u, h₁, h⟩
    have hlt := control.isLt
    suffices hrest : control.toNat = t.control ∧ ∃ reserved, u.Takes (t.restBits reserved) [] s' by
      obtain ⟨hcontrol, reserved, hrest⟩ := hrest
      exact ⟨reserved, u, hcontrol ▸ h₁, hrest⟩
    -- only a number can be matched on, and `control` is a bit vector
    obtain ⟨n, hn⟩ : ∃ n, control.toNat = n := ⟨_, rfl⟩
    rw [hn] at h hlt ⊢
    match n, h with
    | 0, h | 3, h =>
      obtain ⟨_, _, _, rfl, hrest⟩ := parseFast_eq_ok_iff.1 h
      exact ⟨rfl, 0, hrest⟩
    | 1, h | 4, h =>
      obtain ⟨_, rfl, hrest⟩ := parseSlow_eq_ok_iff.1 h
      exact ⟨rfl, 0, hrest⟩
    | 2, h =>
      obtain ⟨_, reserved, rfl, hrest⟩ := parseFreeze_eq_ok_iff.1 h
      exact ⟨rfl, reserved, hrest⟩
    | n + 5, h =>
      obtain ⟨rfl, reserved, hrest⟩ := parseUnassigned_eq_ok_iff.1 h
      refine ⟨?_, reserved, hrest⟩
      simp only [TrickMode.control, Fin.ofNat]
      omega
  · rintro ⟨reserved, u, h₁, h⟩
    have hcontrol := Bits.toNat_ofNat_of_lt t.control_lt
    refine ⟨BitVec.ofNat 3 t.control, u, by rwa [Bits.ofField_ofNat], ?_⟩
    rw [hcontrol]
    match t with
    | .fast false .. | .fast true .. => exact parseFast_eq_ok_iff.2 ⟨_, _, _, rfl, h⟩
    | .slow false _ | .slow true _ => exact parseSlow_eq_ok_iff.2 ⟨_, rfl, h⟩
    | .freeze _ => exact parseFreeze_eq_ok_iff.2 ⟨_, _, rfl, h⟩
    | .unassigned 0 | .unassigned 1 | .unassigned 2 =>
      exact parseUnassigned_eq_ok_iff.2 ⟨rfl, _, h⟩

theorem given_parse_eq_ok_iff {present : Bool} {t? : Option TrickMode} :
    given present parse s = .ok t? s' ↔
      t?.isSome = present ∧ ∃ reserved, s.Takes (t?.elim [] (·.bits reserved)) [] s' := by
  have h : given present parse s = .ok t? s' ↔
      t?.isSome = present ∧ (∀ t ∈ t?, True) ∧
        ∃ reserved, s.Takes (t?.elim [] (·.bits reserved)) [] s' := by
    refine given_eq_ok_iff_of_fill fun t s' => ?_
    rw [parse_eq_ok_iff, true_and]
  rw [h, and_iff_right (fun _ _ => trivial : ∀ t ∈ t?, True)]

end TrickMode

end Packet

end ProgramStream
