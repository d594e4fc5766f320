import ProgramStream.Bits.Field
import ProgramStream.Bytes.Buffer
/-!
# A bit cursor — fields of any width out of a byte string

A cursor stands somewhere in a byte string. It holds the bits of the byte
it stands in that are still unread, the whole bytes after it, and how many
bytes it has taken so far, a partly read byte included. Its meaning is the
bit string still ahead, `ahead`: a field is the next bits of it, whole
bytes can be had only on a byte boundary, and `align` moves to the next
one. An operation that fails returns no cursor, so nothing has moved.
-/

namespace ProgramStream

/-- Why bits could not be had. -/
inductive BitFault where
  /-- the bytes underneath did not suffice -/
  | bytes (fault : ByteFault)
  /-- a field wider than a machine word was asked for -/
  | tooWide (width : Nat)
  /-- whole bytes were asked for inside a byte -/
  | unaligned
  deriving DecidableEq, Repr

namespace BitFault

/-- The wording of a fault. -/
def message : BitFault → String
  | .bytes fault => "bytes read error: " ++ fault.message
  | .tooWide width => s!"cannot read {width} bits at once, the limit is 64"
  | .unaligned => "cannot read whole bytes from an unaligned position"

/-- The wordings of what lies behind a fault, nearest first. -/
def causes : BitFault → List String
  | .bytes fault => fault.message :: fault.causes
  | _ => []

/-- More input would mend this fault. -/
def isShortage : BitFault → Bool
  | .bytes fault => fault.isShortage
  | _ => false

end BitFault

/-- A position in a byte string, counted in bits. -/
structure BitCursor where
  /-- the unread bits of the byte the cursor stands in -/
  pending : List Bool
  /-- the whole bytes after that byte -/
  bytes : List UInt8
  /-- bytes taken so far, a partly read one included -/
  taken : Nat
  pending_lt : pending.length < 8

namespace BitCursor

/-- The cursor at the start of a byte string. -/
def ofBytes (bytes : List UInt8) : BitCursor := ⟨[], bytes, 0, by decide⟩

/-- The bits still ahead. -/
def ahead (c : BitCursor) : List Bool := c.pending ++ Bits.ofBytes c.bytes

/-- The number of bits still ahead. -/
def left (c : BitCursor) : Nat := c.bytes.length * 8 + c.pending.length

/-- No bit is ahead. -/
def isEmpty (c : BitCursor) : Bool := c.pending.isEmpty && c.bytes.isEmpty

/-- The next bit. -/
def next? : BitCursor → Option (Bool × BitCursor)
  | ⟨b :: pending, bytes, taken, h⟩ => some (b, ⟨pending, bytes, taken, Nat.lt_of_succ_lt h⟩)
  | ⟨[], byte :: bytes, taken, _⟩ =>
    some (byte.toNat.testBit 7, ⟨Bits.ofNat 7 byte.toNat, bytes, taken + 1, by simp⟩)
  | ⟨[], [], _, _⟩ => none

/-- The next `n` bits. -/
def next : Nat → BitCursor → Option (List Bool × BitCursor)
  | 0, c => some ([], c)
  | n + 1, c => do
    let (b, c) ← c.next?
    let (bs, c) ← next n c
    return (b :: bs, c)

/-- Reads one bit. -/
def readBit (c : BitCursor) : Except BitFault (Bool × BitCursor) :=
  match c.next? with
  | some r => .ok r
  | none => .error (.bytes .notEnough)

/-- Reads an unsigned field of `n` bits. The width is looked at before the
input. -/
def readBits (n : Nat) (c : BitCursor) : Except BitFault (Nat × BitCursor) :=
  if 64 < n then .error (.tooWide n)
  else match c.next n with
    | some (bits, c) => .ok (Bits.toNat bits, c)
    | none => .error (.bytes .notEnough)

/-- Reads `n` whole bytes. The position is looked at before the input. -/
def readBytes (n : Nat) (c : BitCursor) : Except BitFault (List UInt8 × BitCursor) :=
  match c with
  | ⟨_ :: _, _, _, _⟩ => .error .unaligned
  | ⟨[], bytes, taken, h⟩ => match splitFront? n bytes with
    | some (front, rest) => .ok (front, ⟨[], rest, taken + n, h⟩)
    | none => .error (.bytes .notEnough)

/-- Reads one whole byte. -/
def readByte (c : BitCursor) : Except BitFault (UInt8 × BitCursor) :=
  match c with
  | ⟨_ :: _, _, _, _⟩ => .error .unaligned
  | ⟨[], byte :: bytes, taken, h⟩ => .ok (byte, ⟨[], bytes, taken + 1, h⟩)
  | ⟨[], [], _, _⟩ => .error (.bytes .notEnough)

/-- The next `n` whole bytes, left ahead. -/
def peekBytes (n : Nat) (c : BitCursor) : Except BitFault (List UInt8 × BitCursor) :=
  (c.readBytes n).map fun r => (r.1, c)

/-- Passes over `n` whole bytes. -/
def skipBytes (n : Nat) (c : BitCursor) : Except BitFault (Unit × BitCursor) :=
  (c.readBytes n).map fun r => ((), r.2)

/-- Moves to the next byte boundary. -/
def align (c : BitCursor) : BitCursor := ⟨[], c.bytes, c.taken, by decide⟩

/-! ## What the operations do to the bits ahead -/

@[simp] theorem ahead_ofBytes (bytes : List UInt8) : (ofBytes bytes).ahead = Bits.ofBytes bytes :=
  rfl

theorem length_ahead (c : BitCursor) : c.ahead.length = c.left := by
  simp only [ahead, left, List.length_append, Bits.length_ofBytes]
  omega

/-- A bit read is the first of those ahead. -/
theorem ahead_of_next? {c c' : BitCursor} {b : Bool} (h : c.next? = some (b, c')) :
    c.ahead = b :: c'.ahead := by
  obtain ⟨_ | ⟨p, pending⟩, _ | ⟨byte, bytes⟩, taken, hlt⟩ := c <;>
    simp only [next?, reduceCtorEq, Option.some.injEq, Prod.mk.injEq] at h
  · obtain ⟨rfl, rfl⟩ := h
    simp [ahead, Bits.ofByte, Bits.ofNat]
  · obtain ⟨rfl, rfl⟩ := h; rfl
  · obtain ⟨rfl, rfl⟩ := h; rfl

end BitCursor

end ProgramStream
