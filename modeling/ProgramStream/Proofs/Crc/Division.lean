import Mathlib.Logic.Function.Iterate
import ProgramStream.Proofs.Crc
/-!
# The checksum of sections — division, a bit at a time

A byte goes into the register in one step, through a table. `divide` takes
in a single bit, as long division does, and a byte string is its bits taken
in one after the other (`update_eq_foldl_divide`). What is known of the
division is all known of the single bits of a shift (`bitAt_shift`): shifts
are linear (`shift_xor`) and lose nothing (`shift_injective`), and taking up
to thirty-two bits is putting them before the register and shifting past
them (`foldl_divide`). So a checksum behind what it is the checksum of leaves
nothing over, and a section passes exactly if nothing is left over of it
(`exists_verify_eq_ok_iff`).
-/

namespace ProgramStream

namespace Crc

variable {r s : UInt32} {bits : List Bool} {bytes : List UInt8}

/-! ## The bits of a register -/

/-- A bit of a register, the one that is shifted out first being the first. -/
def bitAt (register : UInt32) (i : Nat) : Bool := register.toBitVec.getMsbD i

/-- Registers with the same bits are the same. -/
theorem ext_bitAt (h : ∀ i < 32, bitAt r i = bitAt s i) : r = s :=
  UInt32.toBitVec_inj.1 (BitVec.eq_of_getMsbD_eq h)

@[simp] theorem bitAt_zero (i : Nat) : bitAt 0 i = false := by simp [bitAt]

theorem bitAt_of_le {i : Nat} (h : 32 ≤ i) : bitAt r i = false :=
  BitVec.getMsbD_of_ge _ i h

@[simp] theorem bitAt_xor (r s : UInt32) (i : Nat) :
    bitAt (r ^^^ s) i = (bitAt r i ^^ bitAt s i) := BitVec.getMsbD_xor

theorem bitAt_shiftLeft_one (r : UInt32) (i : Nat) : bitAt (r <<< 1) i = bitAt r (i + 1) :=
  BitVec.getMsbD_shiftLeft r.toBitVec 1

theorem bitAt_shiftLeft_eight (r : UInt32) (i : Nat) : bitAt (r <<< 8) i = bitAt r (i + 8) :=
  BitVec.getMsbD_shiftLeft r.toBitVec 8

/-- The bits of a number are those of the register that holds it. -/
theorem bitAt_eq_testBit {i : Nat} (h : i < 32) : bitAt r i = r.toNat.testBit (31 - i) := by
  rw [bitAt, BitVec.getMsbD_eq_getLsbD, decide_eq_true h, Bool.true_and]
  rfl

/-- The mask of a shift looks at the first bit. -/
theorem and_eq_zero_iff : r &&& 0x80000000 = 0 ↔ bitAt r 0 = false := by
  have hand : (r &&& 0x80000000).toBitVec = r.toBitVec &&& BitVec.twoPow 32 31 := rfl
  rw [← UInt32.toBitVec_inj, hand, BitVec.and_twoPow, bitAt, BitVec.getMsbD_eq_getLsbD]
  cases r.toBitVec.getLsbD 31 <;> simp

/-! ## Shifts -/

/-- **The bits of a shift.** -/
theorem bitAt_shift (r : UInt32) (i : Nat) :
    bitAt (shift r) i = (bitAt r (i + 1) ^^ (bitAt r 0 && bitAt polynomial i)) := by
  unfold shift
  split
  · rename_i h
    rw [and_eq_zero_iff] at h
    simp [bitAt_shiftLeft_one, h]
  · rename_i h
    rw [and_eq_zero_iff, Bool.not_eq_false] at h
    simp [bitAt_shiftLeft_one, h]

/-- **Shifts are linear.** -/
theorem shift_xor (r s : UInt32) : shift (r ^^^ s) = shift r ^^^ shift s := by
  refine ext_bitAt fun i _ => ?_
  simp only [bitAt_shift, bitAt_xor, Bool.and_xor_distrib_right]
  rw [Bool.xor_assoc, Bool.xor_assoc, Bool.xor_left_comm (bitAt s (i + 1))]

/-- **Shifts lose nothing.** The divisor is odd, so the last bit of a shift
tells what was shifted out. -/
theorem shift_injective : Function.Injective shift := by
  intro r s h
  have hbits : ∀ i, (bitAt r (i + 1) ^^ (bitAt r 0 && bitAt polynomial i)) =
      (bitAt s (i + 1) ^^ (bitAt s 0 && bitAt polynomial i)) := by
    intro i
    rw [← bitAt_shift, ← bitAt_shift, h]
  have hodd : bitAt polynomial 31 = true := by decide
  have hfirst : bitAt r 0 = bitAt s 0 := by
    have hlast := hbits 31
    have hpast : ∀ r, bitAt r (31 + 1) = false := fun r => bitAt_of_le (by decide)
    rwa [hpast, hpast, hodd, Bool.and_true, Bool.and_true, Bool.false_xor, Bool.false_xor] at hlast
  refine ext_bitAt fun i _ => ?_
  cases i with
  | zero => exact hfirst
  | succ i =>
    have hnext := hbits i
    rw [hfirst] at hnext
    exact Bool.xor_left_inj.1 hnext

theorem iterate_shift_xor (n : Nat) (r s : UInt32) :
    shift^[n] (r ^^^ s) = shift^[n] r ^^^ shift^[n] s := by
  induction n generalizing r s with
  | zero => rfl
  | succ n ih => rw [Function.iterate_succ_apply, shift_xor, ih]; rfl

theorem iterate_shift_zero (n : Nat) : shift^[n] 0 = 0 :=
  Function.iterate_fixed (by decide) n

/-- Zeros are shifted out as they are. -/
theorem bitAt_iterate_shift {n : Nat} (h : ∀ i < n, bitAt r i = false) (i : Nat) :
    bitAt (shift^[n] r) i = bitAt r (i + n) := by
  induction n generalizing r with
  | zero => rfl
  | succ n ih =>
    have hshift : ∀ i, bitAt (shift r) i = bitAt r (i + 1) := by
      intro i
      rw [bitAt_shift, h 0 (Nat.succ_pos n), Bool.false_and, Bool.xor_false]
    rw [Function.iterate_succ_apply, ih fun i hi => ?_, hshift, Nat.add_assoc]
    rw [hshift]
    exact h (i + 1) (Nat.succ_lt_succ hi)

/-! ## Bits put before a register -/

/-- The register with nothing but its first bit. -/
def lead (b : Bool) : UInt32 := if b then 0x80000000 else 0

theorem bitAt_lead (b : Bool) (i : Nat) : bitAt (lead b) i = (decide (i = 0) && b) := by
  cases b with
  | false => simp [lead]
  | true =>
    have htop : (lead true).toBitVec = BitVec.twoPow 32 31 := rfl
    rw [bitAt, BitVec.getMsbD_eq_getLsbD, htop, BitVec.getLsbD_twoPow]
    by_cases hi : i = 0
    · simp [hi]
    · simp [hi]
      omega

/-- The register that begins with some bits and has zeros after them. -/
def ofBits : List Bool → UInt32
  | [] => 0
  | b :: bits => lead b ^^^ (ofBits bits >>> 1)

theorem bitAt_ofBits (bits : List Bool) (i : Nat) :
    bitAt (ofBits bits) i = (decide (i < 32) && bits.getD i false) := by
  induction bits generalizing i with
  | nil => simp [ofBits]
  | cons b bits ih =>
    have hright : bitAt (ofBits bits >>> 1) i =
        (decide (i < 32) && (!decide (i < 1) && bitAt (ofBits bits) (i - 1))) :=
      BitVec.getMsbD_ushiftRight
    rw [ofBits, bitAt_xor, hright, bitAt_lead]
    cases i with
    | zero => simp
    | succ i =>
      rw [Nat.add_sub_cancel, ih, List.getD_cons_succ]
      by_cases hi : i + 1 < 32
      · simp [hi, Nat.lt_of_succ_lt hi]
      · simp [hi]

/-- A register is the one that begins with its own bits. -/
theorem ofBits_ofNat (r : UInt32) : ofBits (Bits.ofNat 32 r.toNat) = r := by
  refine ext_bitAt fun i hi => ?_
  rw [bitAt_ofBits, bitAt_eq_testBit hi, List.getD_eq_getElem?_getD, Bits.getElem?_ofNat, if_pos hi,
    decide_eq_true hi]
  rfl

/-! ## Division -/

/-- Takes one bit into the register: shifts it by a bit, subtracting the
divisor if the bit shifted out is not the one taken in. -/
def divide (register : UInt32) (bit : Bool) : UInt32 :=
  if bitAt register 0 = bit then register <<< 1 else (register <<< 1) ^^^ polynomial

theorem bitAt_divide (r : UInt32) (b : Bool) (i : Nat) :
    bitAt (divide r b) i = (bitAt r (i + 1) ^^ ((bitAt r 0 ^^ b) && bitAt polynomial i)) := by
  unfold divide
  split
  · rename_i h
    simp [bitAt_shiftLeft_one, h]
  · rename_i h
    have hxor : (bitAt r 0 ^^ b) = true := by simpa using h
    simp [bitAt_shiftLeft_one, hxor]

/-- **Taking in bits is putting them before the register and shifting past
them.** -/
theorem foldl_divide (h : bits.length ≤ 32) (r : UInt32) :
    bits.foldl divide r = shift^[bits.length] (r ^^^ ofBits bits) := by
  induction bits generalizing r with
  | nil => simp [ofBits]
  | cons b bits ih =>
    have hlen : bits.length ≤ 31 := Nat.le_of_succ_le_succ h
    rw [List.foldl_cons, ih (by omega), List.length_cons, Function.iterate_succ_apply]
    congr 1
    refine ext_bitAt fun i hi => ?_
    -- the last bit of a register is behind all the bits put before it
    have hnext : bitAt (ofBits (b :: bits)) (i + 1) = bitAt (ofBits bits) i := by
      rw [bitAt_ofBits, bitAt_ofBits, List.getD_cons_succ]
      rcases Nat.lt_or_ge (i + 1) 32 with hlt | hge
      · rw [decide_eq_true hi, decide_eq_true hlt]
      · rw [List.getD_eq_getElem?_getD, List.getElem?_eq_none (by omega), Option.getD_none,
          Bool.and_false, Bool.and_false]
    have hfirst : bitAt (ofBits (b :: bits)) 0 = b := by simp [bitAt_ofBits]
    rw [bitAt_xor, bitAt_divide, bitAt_shift, bitAt_xor, bitAt_xor, hnext, hfirst, Bool.xor_assoc,
      Bool.xor_assoc, Bool.xor_comm (_ && _)]

/-! ## Bytes -/

/-- A table entry is a byte shifted out. -/
theorem table_get (byte : UInt8) : table.get byte.toFin = shift8 (byte.toUInt32 <<< 24) := by
  change (Vector.ofFn fun i : Fin 256 => shift8 (UInt32.ofNat i.val <<< 24))[byte.toFin] = _
  rw [Fin.getElem_fin, Vector.getElem_ofFn]
  exact congrArg (fun w : UInt32 => shift8 (w <<< 24)) (UInt32.ofNat_uInt8ToNat byte)

/-- The low byte of a word, put before zeros. -/
theorem bitAt_toUInt8_shiftLeft (w : UInt32) (i : Nat) :
    bitAt (w.toUInt8.toUInt32 <<< 24) i = (decide (i < 8) && bitAt w (i + 24)) := by
  have hvec : (w.toUInt8.toUInt32 <<< 24).toBitVec =
      ((w.toBitVec.setWidth 8).setWidth 32) <<< 24 := rfl
  rw [bitAt, hvec, BitVec.getMsbD_shiftLeft, BitVec.getMsbD_setWidth, BitVec.getMsbD_setWidth,
    bitAt]
  by_cases hi : i < 8
  · simp [hi]
  · simp [hi, BitVec.getMsbD_of_ge w.toBitVec (i + 24) (by omega)]

theorem bitAt_shiftRight_add {i : Nat} (h : i < 8) (r : UInt32) :
    bitAt (r >>> 24) (i + 24) = bitAt r i := by
  have hright : bitAt (r >>> 24) (i + 24) =
      (decide (i + 24 < 32) && (!decide (i + 24 < 24) && bitAt r (i + 24 - 24))) :=
    BitVec.getMsbD_ushiftRight
  rw [hright, decide_eq_true (by omega), decide_eq_false (by omega), Nat.add_sub_cancel]
  rfl

/-- The bits of a byte in the register that begins with it. -/
theorem bitAt_ofBits_ofByte {i : Nat} (h : i < 8) (byte : UInt8) :
    bitAt (ofBits (Bits.ofByte byte)) i = bitAt byte.toUInt32 (i + 24) := by
  rw [bitAt_ofBits, bitAt_eq_testBit (by omega), UInt8.toNat_toUInt32, Bits.ofByte,
    List.getD_eq_getElem?_getD, Bits.getElem?_ofNat, if_pos h, decide_eq_true (by omega),
    show 31 - (i + 24) = 8 - 1 - i by omega]
  rfl

/-- **A byte is divided in one step**, through the table. -/
theorem step_eq_foldl_divide (r : UInt32) (byte : UInt8) :
    step r byte = (Bits.ofByte byte).foldl divide r := by
  have hlen : (Bits.ofByte byte).length = 8 := Bits.length_ofByte byte
  rw [foldl_divide (by rw [hlen]; decide), hlen]
  -- the first eight bits are looked up, and the others are shifted as they are
  let x := r ^^^ ofBits (Bits.ofByte byte)
  let front := ((r >>> 24) ^^^ byte.toUInt32).toUInt8.toUInt32 <<< 24
  have hfront : ∀ i, bitAt front i = (decide (i < 8) && bitAt x i) := by
    intro i
    rw [bitAt_toUInt8_shiftLeft, bitAt_xor, bitAt_xor]
    by_cases hi : i < 8
    · rw [bitAt_shiftRight_add hi, bitAt_ofBits_ofByte hi]
    · rw [decide_eq_false hi, Bool.false_and, Bool.false_and]
  have hrest : r <<< 8 = shift^[8] (x ^^^ front) := by
    refine ext_bitAt fun i _ => ?_
    have hzero : ∀ i < 8, bitAt (x ^^^ front) i = false := by
      intro i hi
      rw [bitAt_xor, hfront, decide_eq_true hi, Bool.true_and, Bool.xor_self]
    have hpast : bitAt (ofBits (Bits.ofByte byte)) (i + 8) = false := by
      rw [bitAt_ofBits, List.getD_eq_getElem?_getD, List.getElem?_eq_none (by omega),
        Option.getD_none, Bool.and_false]
    rw [bitAt_iterate_shift hzero, bitAt_shiftLeft_eight, bitAt_xor, hfront,
      decide_eq_false (by omega), Bool.false_and, Bool.xor_false, bitAt_xor, hpast,
      Bool.xor_false]
  calc step r byte = (r <<< 8) ^^^ shift^[8] front := by rw [step, table_get]; rfl
    _ = shift^[8] (x ^^^ front ^^^ front) := by rw [iterate_shift_xor, hrest]
    _ = shift^[8] x := by rw [UInt32.xor_assoc, UInt32.xor_self, UInt32.xor_zero]

/-- **The register after a byte string is that of its bits**, taken in one
after the other. -/
theorem update_eq_foldl_divide (r : UInt32) (bytes : List UInt8) :
    update r bytes = (Bits.ofBytes bytes).foldl divide r := by
  induction bytes generalizing r with
  | nil => rfl
  | cons b bytes ih =>
    rw [Bits.ofBytes_cons, List.foldl_append, ← step_eq_foldl_divide, ← ih]
    rfl

/-! ## What is left over -/

/-- **Nothing is left over of a checksum behind what it is the checksum
of**, and something of any other. -/
theorem update_checksum_eq_zero_iff {r checksum : UInt32} :
    update r (ByteOrder.big.bytes 4 checksum.toNat) = 0 ↔ r = checksum := by
  have hlen : (Bits.ofNat (8 * 4) checksum.toNat).length = 32 := Bits.length_ofNat _ _
  rw [update_eq_foldl_divide, ByteOrder.ofBytes_big, foldl_divide (by rw [hlen]), hlen,
    show 8 * 4 = 32 from rfl, ofBits_ofNat, ← iterate_shift_zero 32,
    (shift_injective.iterate 32).eq_iff, UInt32.xor_eq_zero_iff]

/-- Nothing is left over of a section that ends with its checksum. -/
theorem compute_append_eq_zero_iff {body tail : List UInt8} (htail : tail.length = 4) :
    compute (body ++ tail) = 0 ↔ UInt32.ofNat (ByteOrder.big.value tail) = compute body := by
  rw [compute, update_append, ← bytes_word htail, update_checksum_eq_zero_iff, bytes_word htail]
  exact eq_comm

/-- **A section passes exactly if nothing is left over of it**, its checksum
included. -/
theorem exists_verify_eq_ok_iff {content : List UInt8} :
    (∃ carried, verify content = .ok carried) ↔ 4 ≤ content.length ∧ compute content = 0 := by
  constructor
  · rintro ⟨carried, h⟩
    obtain ⟨body, rfl, hcompute⟩ := verify_eq_ok_iff.1 h
    have htail : (ByteOrder.big.bytes 4 carried.toNat).length = 4 := ByteOrder.length_bytes _ _ _
    rw [compute_append_eq_zero_iff htail, word_bytes]
    exact ⟨by simp, hcompute.symm⟩
  · rintro ⟨hlen, hzero⟩
    obtain ⟨body, tail, rfl, htail⟩ := exists_append_of_length hlen
    rw [compute_append_eq_zero_iff htail] at hzero
    exact ⟨_, by rw [verify_append htail, if_pos hzero]⟩

end Crc

end ProgramStream
