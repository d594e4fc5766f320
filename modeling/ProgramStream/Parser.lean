import ProgramStream.Warning
/-!
# Parsers — a bit cursor, faults and warnings

A parser reads fields from a bit cursor. When it fails, the state keeps
what was read and reported before the failing field: a caller may look at
how far it came. A single field that fails moves nothing.
-/

namespace ProgramStream

/-- Where a parser stands and what it has reported. -/
structure Parser.State where
  cursor : BitCursor
  warnings : Array Warning := #[]

/-- A parser of a value. -/
abbrev Parser := EStateM Fault Parser.State

namespace Parser

/-- What a parser made of its input: the value or the fault, the cursor it
left and the warnings it gave. -/
structure Outcome (α : Type) where
  result : Except Fault α
  cursor : BitCursor
  warnings : Array Warning

/-- Runs a parser at a cursor. -/
def run {α : Type} (p : Parser α) (c : BitCursor) : Outcome α :=
  match EStateM.run p { cursor := c } with
  | .ok a s => ⟨.ok a, s.cursor, s.warnings⟩
  | .error f s => ⟨.error f, s.cursor, s.warnings⟩

/-- A cursor operation as a parser. -/
def ofCursor {α : Type} (op : BitCursor → Except BitFault (α × BitCursor)) : Parser α := fun s =>
  match op s.cursor with
  | .ok (a, c) => .ok a { s with cursor := c }
  | .error f => .error (Fault.ofBits f) s

/-- An unsigned field of `n` bits. -/
def field (n : Nat) : Parser (BitVec n) := do
  return BitVec.ofNat n (← ofCursor (BitCursor.readBits n))

/-- A field of one bit. -/
def flag : Parser Bool := ofCursor BitCursor.readBit

/-- An eight bit field, at any position. -/
def field8 : Parser UInt8 := do return ⟨← field 8⟩

/-- A sixteen bit field, at any position. -/
def field16 : Parser UInt16 := do return ⟨← field 16⟩

/-- A thirty-two bit field, at any position. -/
def field32 : Parser UInt32 := do return ⟨← field 32⟩

/-- A whole byte. -/
def byte : Parser UInt8 := ofCursor BitCursor.readByte

/-- A string of whole bytes. -/
def bytes (n : Nat) : Parser (List UInt8) := ofCursor (BitCursor.readBytes n)

/-- The next whole bytes, left ahead. -/
def peek (n : Nat) : Parser (List UInt8) := ofCursor (BitCursor.peekBytes n)

/-- Passes over whole bytes. -/
def skip (n : Nat) : Parser Unit := ofCursor (BitCursor.skipBytes n)

/-- Passes over reserved bits, whatever they are. -/
def reserved (n : Nat) : Parser Unit := do
  let _ ← field n

/-- A bit that has to be one, named after the field it belongs to. -/
def marker (name : String) : Parser Unit := do
  unless ← flag do throw (.marker name)

/-- The number of bytes taken so far. -/
def taken : Parser Nat := do return (← get).cursor.taken

/-- Reports a warning. -/
def warn (w : Warning) : Parser Unit :=
  modify fun s => { s with warnings := s.warnings.push w }

/-- A part that is there only if its flag is set. -/
def given {α : Type} (present : Bool) (p : Parser α) : Parser (Option α) :=
  if present then some <$> p else pure none

end Parser

end ProgramStream
