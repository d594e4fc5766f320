import ProgramStream.Proofs.Crc.Division
/-!
# The checksum of sections — bursts of errors

A section that passes does not pass any more once bits of it are flipped
that stand close together, wherever they stand: in its contents, in its
checksum or across both (`verify_of_burst`). Two bit strings of one length
that differ only within thirty-two bits and leave the same register are the
same (`eq_of_foldl_divide_eq`): the bits before the window leave one
register, the bits behind it keep registers apart, and no bits of the window
are lost in a register of their number.
-/

namespace ProgramStream

namespace Crc

variable {r s : UInt32} {xs ys : List Bool} {content content' : List UInt8} {start : Nat}

/-- The number of bits of a register. -/
def width : Nat := 32

/-! ## Registers that stay apart -/

/-- Bits taken in tell registers apart if they were apart before. -/
theorem eq_of_foldl_divide (bits : List Bool) (h : bits.foldl divide r = bits.foldl divide s) :
    r = s := by
  induction bits generalizing r s with
  | nil => exact h
  | cons b bits ih =>
    have hdivide : divide r b = divide s b := ih h
    have hone : ∀ r, divide r b = shift (r ^^^ ofBits [b]) := fun r =>
      foldl_divide (show [b].length ≤ 32 by simp) r
    rw [hone, hone] at hdivide
    exact (UInt32.xor_left_inj _).1 (shift_injective hdivide)

/-- **Bits that fit a register are told by it.** -/
theorem eq_of_foldl_divide_of_length (hxs : xs.length ≤ width) (hlen : ys.length = xs.length)
    (h : xs.foldl divide r = ys.foldl divide r) : xs = ys := by
  have hys : ys.length ≤ width := by rw [hlen]; exact hxs
  rw [foldl_divide hxs, foldl_divide hys, hlen] at h
  have hbits : ofBits xs = ofBits ys :=
    (UInt32.xor_right_inj _).1 (shift_injective.iterate _ h)
  refine List.ext_getElem hlen.symm fun i hi hi' => ?_
  have hbit := congrArg (bitAt · i) hbits
  have hlt : i < 32 := Nat.lt_of_lt_of_le hi hxs
  simpa [bitAt_ofBits, hlt, hi, hi'] using hbit

/-! ## Bursts -/

/-- All bits in which two bit strings differ stand in one window of a
register's width. -/
def DiffersWithin (start : Nat) (xs ys : List Bool) : Prop :=
  ∀ i < xs.length, xs[i]? ≠ ys[i]? → start ≤ i ∧ i < start + width

instance (start : Nat) (xs ys : List Bool) : Decidable (DiffersWithin start xs ys) :=
  inferInstanceAs (Decidable (∀ i < _, _ → _))

/-- Before the window, the bit strings are the same. -/
theorem DiffersWithin.take_eq (h : DiffersWithin start xs ys) (hlen : ys.length = xs.length) :
    xs.take start = ys.take start := by
  refine List.ext_getElem? fun i => ?_
  rw [List.getElem?_take, List.getElem?_take]
  split
  · rename_i hi
    rcases Nat.lt_or_ge i xs.length with hlt | hge
    · by_contra hdiffer
      exact Nat.not_le.2 hi (h i hlt hdiffer).1
    · rw [List.getElem?_eq_none hge, List.getElem?_eq_none (by omega)]
  · rfl

/-- And so they are behind it. -/
theorem DiffersWithin.drop_eq (h : DiffersWithin start xs ys) (hlen : ys.length = xs.length) :
    xs.drop (start + width) = ys.drop (start + width) := by
  refine List.ext_getElem? fun i => ?_
  rw [List.getElem?_drop, List.getElem?_drop]
  rcases Nat.lt_or_ge (start + width + i) xs.length with hlt | hge
  · by_contra hdiffer
    have := (h _ hlt hdiffer).2
    omega
  · rw [List.getElem?_eq_none hge, List.getElem?_eq_none (by omega)]

/-- **A burst shows in the register**, whatever comes before and behind it. -/
theorem eq_of_foldl_divide_eq (hlen : ys.length = xs.length) (hburst : DiffersWithin start xs ys)
    (h : xs.foldl divide r = ys.foldl divide r) : xs = ys := by
  -- a bit string is what comes before the window, the window, and what comes behind it
  have hsplit : ∀ zs : List Bool,
      zs = zs.take start ++ ((zs.drop start).take width ++ zs.drop (start + width)) := by
    intro zs
    rw [← List.drop_drop, List.take_append_drop, List.take_append_drop]
  have hwindow : (xs.drop start).take width = (ys.drop start).take width := by
    rw [hsplit xs, hsplit ys, hburst.take_eq hlen, hburst.drop_eq hlen] at h
    simp only [List.foldl_append] at h
    refine eq_of_foldl_divide_of_length (List.length_take_le _ _) ?_ (eq_of_foldl_divide _ h)
    simp only [List.length_take, List.length_drop, hlen]
  rw [hsplit xs, hsplit ys, hburst.take_eq hlen, hwindow, hburst.drop_eq hlen]

/-- A section that is long enough for a checksum passes or has another one. -/
theorem verify_cases (h : 4 ≤ content.length) :
    (∃ carried, verify content = .ok carried) ∨
      ∃ carried computed, verify content = .error (.checksum carried computed) ∧
        carried ≠ computed := by
  obtain ⟨body, tail, rfl, htail⟩ := exists_append_of_length h
  simp only [verify_append htail]
  split
  · exact .inl ⟨_, rfl⟩
  · rename_i hdiffer
    exact .inr ⟨_, _, rfl, hdiffer⟩

/-- **A burst of up to thirty-two bits is detected.** Whatever else a section
holds, one that passes does not pass with other bits in one window of that
width: the checksum it carries is then not that of its contents. -/
theorem verify_of_burst {carried : UInt32} (hpasses : verify content = .ok carried)
    (hlen : content'.length = content.length) (hdiffer : content' ≠ content)
    (hburst : DiffersWithin start (Bits.ofBytes content) (Bits.ofBytes content')) :
    ∃ carried' computed, verify content' = .error (.checksum carried' computed) ∧
      carried' ≠ computed := by
  obtain ⟨hlong, hzero⟩ := exists_verify_eq_ok_iff.1 ⟨carried, hpasses⟩
  refine (verify_cases (by omega)).resolve_left fun hpasses' => hdiffer ?_
  have hzero' := (exists_verify_eq_ok_iff.1 hpasses').2
  -- both leave nothing over, and so the same register
  rw [compute, update_eq_foldl_divide] at hzero hzero'
  refine (Bits.ofBytes_inj (eq_of_foldl_divide_eq ?_ hburst (hzero.trans hzero'.symm))).symm
  rw [Bits.length_ofBytes, Bits.length_ofBytes, hlen]

/-- An association section of one program. -/
def sampleSection : List UInt8 :=
  [0x00, 0xB0, 0x0D, 0x00, 0x01, 0xC1, 0x00, 0x00, 0x00, 0x01, 0xF0, 0x01, 0x2E, 0x70, 0x19, 0x05]

/-- The same with thirty-two bits flipped, from the pid on into the
checksum. -/
def sampleBurst : List UInt8 :=
  [0x00, 0xB0, 0x0D, 0x00, 0x01, 0xC1, 0x00, 0x00, 0x00, 0x01, 0xFF, 0xFE, 0xD1, 0x8F, 0xE9, 0x05]

theorem verify_sampleBurst :
    verify sampleSection = .ok 0x2E701905 ∧ sampleBurst.length = sampleSection.length ∧
      sampleBurst ≠ sampleSection ∧
      DiffersWithin 84 (Bits.ofBytes sampleSection) (Bits.ofBytes sampleBurst) ∧
      ∃ carried' computed, verify sampleBurst = .error (.checksum carried' computed) ∧
        carried' ≠ computed := by
  have hpasses : verify sampleSection = .ok 0x2E701905 := by decide +kernel
  have hdiffer : sampleBurst ≠ sampleSection := by decide
  have hburst : DiffersWithin 84 (Bits.ofBytes sampleSection) (Bits.ofBytes sampleBurst) := by
    decide +kernel
  exact ⟨hpasses, rfl, hdiffer, hburst, verify_of_burst hpasses rfl hdiffer hburst⟩

end Crc

end ProgramStream
