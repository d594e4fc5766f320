import ProgramStream.Text.Radix
/-!
# Byte strings in text — one escape for each byte

Printable characters stand for themselves, but for the quote and the
backslash. Those, and four bytes with a letter of their own, are written
behind a backslash, all other bytes as `\x` and two digits.
-/

namespace ProgramStream

namespace Diagnostic

/-- The characters a byte is written as. -/
def escapeByte (b : UInt8) : List Char :=
  if b = 0x0A then ['\\', 'n']
  else if b = 0x0D then ['\\', 'r']
  else if b = 0x09 then ['\\', 't']
  else if b = 0x5C then ['\\', '\\']
  else if b = 0x22 then ['\\', Char.ofNat 0x22]
  else if b = 0x00 then ['\\', '0']
  else if 0x20 ≤ b && b < 0x7F then [Char.ofNat b.toNat]
  else '\\' :: 'x' :: Text.digits 16 2 b.toNat

/-- A byte string between quotes. -/
def quoted (bytes : List UInt8) : String :=
  "b\"" ++ String.ofList (bytes.flatMap escapeByte) ++ "\""

end Diagnostic

end ProgramStream
