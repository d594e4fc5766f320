/-!
# Numbers in text — digits of a base, filled up with zeros

Every number this program prints in a fixed width goes through `padded`:
lower-case digits, filled with zeros on the left, and never cut when the
number needs more digits than the width asks for (`le_length_digits`).
-/

namespace ProgramStream

namespace Text

/-- The digits of `n` in `base`, at least `width` of them. -/
def digits (base width n : Nat) : List Char :=
  (Nat.toDigits base n).leftpad width '0'

/-- `n` in `base`, filled with zeros to at least `width` digits. -/
def padded (base width n : Nat) : String :=
  String.ofList (digits base width n)

/-- Hexadecimal with its mark: `0x` and at least `width` digits. -/
def hex (width n : Nat) : String :=
  "0x" ++ padded 16 width n

/-- Binary with its mark: `0b` and at least `width` digits. -/
def binary (width n : Nat) : String :=
  "0b" ++ padded 2 width n

/-- The digits fill the width they are given. -/
theorem le_length_digits (base width n : Nat) : width ≤ (digits base width n).length := by
  simp only [digits, List.leftpad, List.length_append, List.length_replicate]
  omega

end Text

end ProgramStream
