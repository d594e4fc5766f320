import ProgramStream.Parser
/-!
# Clocks — timestamps and clock references

Both are 33-bit counts of a 90 kHz clock, cut into 3, 15 and 15 bits with a
marker bit after each part. A timestamp has a four-bit code before it that
tells which one it is; a clock reference has a nine-bit extension at 27 MHz
after it.
-/

namespace ProgramStream

/-- Ticks of the system clock in a millisecond. -/
def ticksPerMillisecond : Nat := 90

/-- A 33-bit count with its three marker bits. -/
def Parser.count33 (name : String) : Parser (BitVec 33) := do
  let high ← field 3
  marker name
  let middle ← field 15
  marker name
  let low ← field 15
  marker name
  return high ++ middle ++ low

/-- The bits of a 33-bit count with its three marker bits set. -/
def Bits.ofCount33 (n : Nat) : List Bool :=
  Bits.ofNat 3 (n >>> 30) ++ [true] ++ Bits.ofNat 15 (n >>> 15) ++ [true] ++
    Bits.ofNat 15 n ++ [true]

/-- A presentation or decoding time and the code before it. -/
structure Timestamp where
  code : Nat
  value : Nat
  deriving DecidableEq, Repr

namespace Timestamp

/-- The code of a presentation time that stands alone. -/
def presentationAlone : Nat := 0b0010

/-- The code of a presentation time that a decoding time follows. -/
def presentation : Nat := 0b0011

/-- The code of a decoding time. -/
def decoding : Nat := 0b0001

/-- A timestamp of any two numbers, reduced to the widths of its fields. -/
def ofNat (code value : Nat) : Timestamp := ⟨code % 0x10, value % 0x200000000⟩

/-- The time in whole milliseconds. -/
def milliseconds (t : Timestamp) : Nat := t.value / ticksPerMillisecond

/-- Reads a timestamp with any code. -/
def parse : Parser Timestamp := do
  let code ← Parser.field 4
  let value ← Parser.count33 "timestamp"
  return ⟨code.toNat, value.toNat⟩

/-- Reads a timestamp that has to have a given code. The code is looked at
after the whole timestamp is read. -/
def parseCode (expected : Nat) : Parser Timestamp := do
  let t ← parse
  if t.code = expected then return t
  else throw (.timestampCode expected t.code)

/-- The five bytes of a timestamp; numbers wider than their fields lose
their high bits. -/
def bytes (t : Timestamp) : List UInt8 :=
  Bits.pack (Bits.ofNat 4 t.code ++ Bits.ofCount33 t.value)

end Timestamp

/-- A time of the system clock, finer than a timestamp. -/
structure ClockReference where
  /-- at 90 kHz -/
  base : Nat
  /-- at 27 MHz -/
  extension : Nat
  deriving DecidableEq, Repr

namespace ClockReference

/-- Reads a clock reference. Two bits before it are its reader's. -/
def parse (name : String) : Parser ClockReference := do
  let base ← Parser.count33 name
  let extension ← Parser.field 9
  Parser.marker name
  return ⟨base.toNat, extension.toNat⟩

/-- The time in whole milliseconds. -/
def milliseconds (c : ClockReference) : Nat := c.base / ticksPerMillisecond

/-- The time in ticks of the 27 MHz clock. -/
def ticks (c : ClockReference) : Nat := c.base * 300 + c.extension

end ClockReference

end ProgramStream
