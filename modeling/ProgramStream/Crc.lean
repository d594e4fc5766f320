import ProgramStream.Fault
/-!
# The checksum of sections — division by a polynomial, a byte at a time

The checksum is the remainder of a division by `polynomial`, most
significant bit first, from an all-ones register and with no final
inversion. A byte is divided in one step through a table of the 256
remainders of a single byte.
-/

namespace ProgramStream

namespace Crc

/-- The divisor, without its leading term. -/
def polynomial : UInt32 := 0x04C11DB7

/-- The register before the first byte. -/
def initial : UInt32 := 0xFFFFFFFF

/-- Shifts the register by one bit, subtracting the divisor when a one is
shifted out. -/
def shift (register : UInt32) : UInt32 :=
  if register &&& 0x80000000 = 0 then register <<< 1 else (register <<< 1) ^^^ polynomial

/-- Shifts the register by eight bits. -/
def shift8 (register : UInt32) : UInt32 :=
  shift (shift (shift (shift (shift (shift (shift (shift register)))))))

/-- The remainders of the single bytes. -/
def table : Vector UInt32 256 :=
  Vector.ofFn fun i => shift8 (UInt32.ofNat i.val <<< 24)

/-- Takes one byte into the register. -/
def step (register : UInt32) (byte : UInt8) : UInt32 :=
  (register <<< 8) ^^^ table.get ((register >>> 24) ^^^ byte.toUInt32).toUInt8.toFin

/-- Takes a byte string into the register. -/
def update (register : UInt32) (bytes : List UInt8) : UInt32 :=
  bytes.foldl step register

/-- The checksum of a byte string. -/
def compute (bytes : List UInt8) : UInt32 := update initial bytes

/-- Compares the last four bytes of a section with the checksum of those
before them. -/
def verify (content : List UInt8) : Except Fault UInt32 :=
  if content.length < 4 then .error .truncated
  else
    let body := content.take (content.length - 4)
    let carried := UInt32.ofNat (ByteOrder.big.value (content.drop (content.length - 4)))
    let computed := compute body
    if carried = computed then .ok carried else .error (.checksum carried computed)

/-- A byte string taken in parts gives the register of the whole. -/
theorem update_append (register : UInt32) (xs ys : List UInt8) :
    update register (xs ++ ys) = update (update register xs) ys :=
  List.foldl_append

end Crc

end ProgramStream
