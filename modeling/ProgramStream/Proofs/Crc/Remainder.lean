import Mathlib.Algebra.CharP.Two
import Mathlib.Algebra.Field.ZMod
import Mathlib.Algebra.Polynomial.Div
import Mathlib.Algebra.Polynomial.OfFn
import Mathlib.Tactic.LinearCombination
import ProgramStream.Proofs.Crc.Division
/-!
# The checksum of sections — the remainder of a polynomial

A register is a polynomial over the field of two elements, of a degree below
thirty-two (`registerPoly`), and so is a bit string, of a degree below its
length (`bitsPoly`). The divisor with its leading term is `generator`
(`generator_eq`). Taking in a bit multiplies the register by `X`, adds the bit
above its highest term, and takes the remainder
(`shifted_eq_registerPoly_divide`), so that the register after a byte string is
the remainder of what was in it before, with the byte string behind it
(`registerPoly_update`). What is divided without a remainder passes
(`exists_verify_eq_ok_iff_dvd`).
-/

namespace ProgramStream

namespace Crc

open Polynomial

variable {r s : UInt32} {bits : List Bool}

/-! ## Registers and bit strings as polynomials -/

/-- A bit as a number modulo two. -/
def coefficient (b : Bool) : ZMod 2 := b.toNat

theorem coefficient_xor (a b : Bool) : coefficient (a ^^ b) = coefficient a + coefficient b := by
  cases a <;> cases b <;> decide

theorem coefficient_injective : Function.Injective coefficient := by
  intro a b h
  revert h
  cases a <;> cases b <;> decide

/-- The polynomial of a register, its first bit being the coefficient of the
highest term. -/
noncomputable def registerPoly (r : UInt32) : (ZMod 2)[X] :=
  ofFn 32 fun i => coefficient (bitAt r (31 - i))

/-- The polynomial of a bit string. -/
noncomputable def bitsPoly : List Bool → (ZMod 2)[X]
  | [] => 0
  | b :: bits => C (coefficient b) * X ^ bits.length + bitsPoly bits

/-- The divisor, with its leading term. -/
noncomputable def generator : (ZMod 2)[X] := X ^ 32 + registerPoly polynomial

theorem coeff_registerPoly (r : UInt32) (i : ℕ) :
    (registerPoly r).coeff i = if i < 32 then coefficient (bitAt r (31 - i)) else 0 := by
  split
  · rename_i h
    exact ofFn_coeff_eq_val_of_lt _ h
  · rename_i h
    exact ofFn_coeff_eq_zero_of_ge _ (Nat.le_of_not_lt h)

theorem degree_registerPoly_lt (r : UInt32) : (registerPoly r).degree < (32 : ℕ) :=
  ofFn_degree_lt _

theorem registerPoly_injective : Function.Injective registerPoly := by
  intro r s h
  refine ext_bitAt fun i hi => coefficient_injective ?_
  have hcoeff := congrArg (coeff · (31 - i)) h
  simp only [coeff_registerPoly, if_pos (show 31 - i < 32 by omega)] at hcoeff
  rwa [show 31 - (31 - i) = i by omega] at hcoeff

@[simp] theorem registerPoly_zero : registerPoly 0 = 0 := by
  ext i
  rw [coeff_registerPoly, bitAt_zero]
  simp [coefficient]

theorem registerPoly_xor (r s : UInt32) :
    registerPoly (r ^^^ s) = registerPoly r + registerPoly s := by
  ext i
  rw [coeff_add, coeff_registerPoly, coeff_registerPoly, coeff_registerPoly]
  split
  · rw [bitAt_xor, coefficient_xor]
  · rw [add_zero]

/-- **A shift multiplies by `X`**, but for the bit that is shifted out. -/
theorem X_mul_registerPoly (r : UInt32) :
    X * registerPoly r = registerPoly (r <<< 1) + C (coefficient (bitAt r 0)) * X ^ 32 := by
  ext i
  rw [coeff_add, coeff_C_mul_X_pow, coeff_registerPoly]
  cases i with
  | zero =>
    have hlast : bitAt r (31 - 0 + 1) = false := bitAt_of_le (by decide)
    rw [coeff_X_mul_zero, bitAt_shiftLeft_one, hlast]
    simp [coefficient]
  | succ i =>
    rw [coeff_X_mul, coeff_registerPoly, bitAt_shiftLeft_one]
    rcases Nat.lt_trichotomy i 31 with hlt | rfl | hgt
    · rw [if_pos (by omega), if_pos (by omega), if_neg (by omega), add_zero,
        show 31 - (i + 1) + 1 = 31 - i by omega]
    · simp
    · rw [if_neg (by omega), if_neg (by omega), if_neg (by omega), add_zero]

/-- The terms of the divisor. -/
theorem generator_eq :
    generator = X ^ 32 + X ^ 26 + X ^ 23 + X ^ 22 + X ^ 16 + X ^ 12 + X ^ 11 + X ^ 10 + X ^ 8 +
      X ^ 7 + X ^ 5 + X ^ 4 + X ^ 2 + X + 1 := by
  have hset : Finset.univ.filter (fun i : Fin 32 => bitAt polynomial (31 - i) = true) =
      {26, 23, 22, 16, 12, 11, 10, 8, 7, 5, 4, 2, 1, 0} := by decide
  have hsum : registerPoly polynomial =
      ∑ i ∈ Finset.univ.filter (fun i : Fin 32 => bitAt polynomial (31 - i) = true),
        X ^ (i : ℕ) := by
    rw [registerPoly, ofFn_eq_sum_monomial, Finset.sum_filter]
    refine Finset.sum_congr rfl fun i _ => ?_
    cases bitAt polynomial (31 - i) <;> simp [coefficient, X_pow_eq_monomial]
  rw [generator, hsum, hset]
  simp (disch := decide) only [Finset.sum_insert, Finset.sum_singleton]
  simp [add_assoc]

theorem monic_generator : generator.Monic := monic_X_pow_add (degree_registerPoly_lt polynomial)

theorem degree_generator : generator.degree = (32 : ℕ) := by
  rw [generator, degree_add_eq_left_of_degree_lt, degree_X_pow]
  rw [degree_X_pow]
  exact degree_registerPoly_lt polynomial

/-! ## Division -/

/-- **Taking in a bit divides once.** -/
theorem shifted_eq_registerPoly_divide (r : UInt32) (b : Bool) :
    X * registerPoly r + C (coefficient b) * X ^ 32 =
      registerPoly (divide r b) + C (coefficient (bitAt r 0 ^^ b)) * generator := by
  have hdivide : registerPoly (divide r b) =
      registerPoly (r <<< 1) + C (coefficient (bitAt r 0 ^^ b)) * registerPoly polynomial := by
    unfold divide
    split
    · rename_i h
      simp [h, coefficient]
    · rename_i h
      have hxor : (bitAt r 0 ^^ b) = true := by simpa using h
      simp [hxor, coefficient, registerPoly_xor]
  have htwice : C (coefficient (bitAt r 0 ^^ b)) * registerPoly polynomial +
      C (coefficient (bitAt r 0 ^^ b)) * registerPoly polynomial = 0 := CharTwo.add_self_eq_zero _
  rw [coefficient_xor, C_add] at hdivide htwice ⊢
  rw [X_mul_registerPoly, hdivide, generator]
  linear_combination -htwice

/-- The register after some bits, up to multiples of the divisor. -/
theorem generator_dvd_foldl_divide (r : UInt32) (bits : List Bool) :
    generator ∣ X ^ bits.length * registerPoly r + X ^ 32 * bitsPoly bits -
      registerPoly (bits.foldl divide r) := by
  induction bits generalizing r with
  | nil => simp [bitsPoly]
  | cons b bits ih =>
    have hstep := shifted_eq_registerPoly_divide r b
    obtain ⟨q, hq⟩ := ih (divide r b)
    -- the multiple taken off for the first bit moves up with those behind it
    refine ⟨q + X ^ bits.length * C (coefficient (bitAt r 0 ^^ b)), ?_⟩
    rw [List.length_cons, List.foldl_cons, bitsPoly]
    linear_combination hq + X ^ bits.length * hstep

/-- **The register after some bits is the remainder** of the register before
them, with them behind it. -/
theorem registerPoly_foldl_divide (r : UInt32) (bits : List Bool) :
    registerPoly (bits.foldl divide r) =
      (X ^ bits.length * registerPoly r + X ^ 32 * bitsPoly bits) %ₘ generator := by
  obtain ⟨q, hq⟩ := generator_dvd_foldl_divide r bits
  have hdegree : (registerPoly (bits.foldl divide r)).degree < generator.degree := by
    rw [degree_generator]
    exact degree_registerPoly_lt _
  have hsum : registerPoly (bits.foldl divide r) + generator * q =
      X ^ bits.length * registerPoly r + X ^ 32 * bitsPoly bits := by
    linear_combination -hq
  exact (div_modByMonic_unique q _ monic_generator ⟨hsum, hdegree⟩).2.symm

/-- The register after a byte string is a remainder. -/
theorem registerPoly_update (r : UInt32) (bytes : List UInt8) :
    registerPoly (update r bytes) =
      (X ^ (8 * bytes.length) * registerPoly r + X ^ 32 * bitsPoly (Bits.ofBytes bytes)) %ₘ
        generator := by
  rw [update_eq_foldl_divide, registerPoly_foldl_divide, Bits.length_ofBytes]

/-- A byte string in any parts is taken in part by part. -/
theorem update_flatten (r : UInt32) (parts : List (List UInt8)) :
    update r parts.flatten = parts.foldl update r := by
  induction parts generalizing r with
  | nil => rfl
  | cons part parts ih => rw [List.flatten_cons, update_append, ih, List.foldl_cons]

/-- **A section of which something is left over** does not carry its checksum. -/
theorem verify_of_compute_ne_zero {body tail : List UInt8} (htail : tail.length = 4)
    (h : compute (body ++ tail) ≠ 0) :
    verify (body ++ tail) =
      .error (.checksum (UInt32.ofNat (ByteOrder.big.value tail)) (compute body)) := by
  rw [Ne, compute_append_eq_zero_iff htail] at h
  simp only [verify_append htail, if_neg h]

/-- **A section passes exactly if the divisor divides it**, behind the register
it starts with. -/
theorem exists_verify_eq_ok_iff_dvd {content : List UInt8} :
    (∃ carried, verify content = .ok carried) ↔ 4 ≤ content.length ∧
      generator ∣ X ^ (8 * content.length) * registerPoly initial +
        X ^ 32 * bitsPoly (Bits.ofBytes content) := by
  rw [exists_verify_eq_ok_iff, ← modByMonic_eq_zero_iff_dvd monic_generator,
    ← registerPoly_update, ← registerPoly_zero, registerPoly_injective.eq_iff]
  rfl

/-- **The checksum through the table is the remainder of a division**, and a
section passes if nothing is left over of it. Bytes go into a register as their
bits do one by one, for any register, and as the parts do that they come in;
what is in the register is then the remainder of the polynomial that they make
behind the register before them. A section passes exactly if it has four bytes
or more and leaves nothing over. A shorter one is truncated, and any other is
refused with the checksum in its last four bytes and that of the rest. -/
theorem update_eq_remainder :
    (∀ (r : UInt32) (bytes : List UInt8),
      update r bytes = (Bits.ofBytes bytes).foldl divide r ∧
        registerPoly (update r bytes) =
          (X ^ (8 * bytes.length) * registerPoly r + X ^ 32 * bitsPoly (Bits.ofBytes bytes)) %ₘ
            generator) ∧
      (∀ (r : UInt32) (parts : List (List UInt8)),
        update r parts.flatten = parts.foldl update r) ∧
      (∀ content : List UInt8,
        (∃ carried, verify content = .ok carried) ↔
          4 ≤ content.length ∧ compute content = 0) ∧
      (∀ content : List UInt8, content.length < 4 → verify content = .error .truncated) ∧
      ∀ body tail : List UInt8, tail.length = 4 → compute (body ++ tail) ≠ 0 →
        verify (body ++ tail) =
          .error (.checksum (UInt32.ofNat (ByteOrder.big.value tail)) (compute body)) :=
  ⟨fun r bytes => ⟨update_eq_foldl_divide r bytes, registerPoly_update r bytes⟩, update_flatten,
    fun _ => exists_verify_eq_ok_iff, fun _ => verify_of_lt, fun _ _ => verify_of_compute_ne_zero⟩

/-- Nine digits have the checksum `0x0376E6E7`, whatever parts they come in.
They pass with it behind them, and with its last bit flipped they are refused,
as three bytes are. -/
theorem verify_sampleDigits :
    let digits : List UInt8 := [0x31, 0x32, 0x33, 0x34, 0x35, 0x36, 0x37, 0x38, 0x39]
    [[0x31, 0x32], [], [0x33, 0x34, 0x35, 0x36, 0x37, 0x38, 0x39]].foldl update initial =
        0x0376E6E7 ∧
      (∃ carried, verify (digits ++ [0x03, 0x76, 0xE6, 0xE7]) = .ok carried) ∧
      verify (digits ++ [0x03, 0x76, 0xE6, 0xE6]) = .error (.checksum 0x0376E6E6 0x0376E6E7) ∧
      verify [0x31, 0x32, 0x33] = .error .truncated := by
  intro digits
  obtain ⟨-, hparts, hpasses, hshort, hrefused⟩ := update_eq_remainder
  have hdigits : update initial digits = 0x0376E6E7 := by decide +kernel
  have htail (tail : List UInt8) : compute (digits ++ tail) = update 0x0376E6E7 tail := by
    rw [compute, update_append, hdigits]
  refine ⟨?_, ?_, ?_, hshort _ (by decide)⟩
  · rw [← hparts]
    exact hdigits
  · exact (hpasses _).2 ⟨by decide, by rw [htail]; decide +kernel⟩
  · rw [hrefused digits [0x03, 0x76, 0xE6, 0xE6] rfl (by rw [htail]; decide +kernel), compute,
      hdigits]
    rfl

end Crc

end ProgramStream
