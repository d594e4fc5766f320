import ProgramStream.Crc
import ProgramStream.Proofs.Words
/-!
# The checksum of sections — sections that pass

A section passes exactly if it is a byte string with its own checksum
behind it (`verify_eq_ok_iff`).
-/

namespace ProgramStream

namespace Crc

variable {content body tail : List UInt8}

/-- A section that is long enough for a checksum ends with four bytes. -/
theorem exists_append_of_length (h : 4 ≤ content.length) :
    ∃ body tail, content = body ++ tail ∧ tail.length = 4 :=
  ⟨content.take (content.length - 4), content.drop (content.length - 4),
    (List.take_append_drop _ _).symm, by rw [List.length_drop]; omega⟩

/-- **The last four bytes are compared with the checksum of the rest.** -/
theorem verify_append (htail : tail.length = 4) :
    verify (body ++ tail) =
      let carried := UInt32.ofNat (ByteOrder.big.value tail)
      if carried = compute body then .ok carried
      else .error (.checksum carried (compute body)) := by
  have hlen : (body ++ tail).length - 4 = body.length := by
    rw [List.length_append, htail, Nat.add_sub_cancel]
  unfold verify
  rw [if_neg (by rw [List.length_append]; omega), hlen]
  simp only [List.take_left, List.drop_left]

/-- What is too short for a checksum has none. -/
theorem verify_of_lt (h : content.length < 4) : verify content = .error .truncated := by
  unfold verify
  rw [if_pos h]

/-- Four bytes are those of the word they stand for. -/
theorem bytes_word (htail : tail.length = 4) :
    ByteOrder.big.bytes 4 (UInt32.ofNat (ByteOrder.big.value tail)).toNat = tail := by
  have hword := ByteOrder.big_bytes_value tail
  rwa [htail, ← ByteOrder.toNat_word_of_length htail] at hword

/-- And a word is that of its four bytes. -/
theorem word_bytes (checksum : UInt32) :
    UInt32.ofNat (ByteOrder.big.value (ByteOrder.big.bytes 4 checksum.toNat)) = checksum := by
  rw [ByteOrder.value_bytes, show 256 ^ 4 = 2 ^ 32 from rfl, Nat.mod_eq_of_lt checksum.toNat_lt,
    UInt32.ofNat_toNat]

/-- **A section passes if its checksum stands behind it.** -/
theorem verify_eq_ok_iff {carried : UInt32} :
    verify content = .ok carried ↔
      ∃ body, content = body ++ ByteOrder.big.bytes 4 carried.toNat ∧ compute body = carried := by
  constructor
  · intro h
    rcases Nat.lt_or_ge content.length 4 with hlt | hge
    · rw [verify_of_lt hlt] at h
      cases h
    · obtain ⟨body, tail, rfl, htail⟩ := exists_append_of_length hge
      simp only [verify_append htail] at h
      split at h
      · rename_i hsame
        cases h
        exact ⟨body, by rw [bytes_word htail], hsame.symm⟩
      · cases h
  · rintro ⟨body, rfl, rfl⟩
    simp only [verify_append (ByteOrder.length_bytes .big 4 _), word_bytes, if_pos]

/-- A byte string with some checksum behind it. -/
theorem verify_append_eq_ok_iff {checksum carried : UInt32} :
    verify (content ++ ByteOrder.big.bytes 4 checksum.toNat) = .ok carried ↔
      checksum = carried ∧ compute content = carried := by
  rw [verify_eq_ok_iff]
  constructor
  · rintro ⟨body, hbytes, hcompute⟩
    obtain ⟨rfl, hword⟩ := List.append_inj' hbytes (by simp)
    have hsame : checksum = carried := by rw [← word_bytes checksum, hword, word_bytes]
    exact ⟨hsame, hcompute⟩
  · rintro ⟨rfl, hcompute⟩
    exact ⟨content, rfl, hcompute⟩

end Crc

end ProgramStream
