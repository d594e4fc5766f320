/-!
# Words in bytes — the two byte orders

A word of `count` bytes is written most significant byte first (`big`) or
last (`little`). `value` reads any byte string as a number and `bytes`
writes a number into a given count of bytes, dropping what does not fit.
-/

namespace ProgramStream

/-- The order of the bytes of a word. -/
inductive ByteOrder where
  | big
  | little
  deriving DecidableEq, Repr

namespace ByteOrder

/-- A byte string as a number, least significant byte first. -/
def littleValue : List UInt8 → Nat
  | [] => 0
  | b :: bs => b.toNat + 256 * littleValue bs

/-- The low `count` bytes of a number, least significant byte first. -/
def littleBytes : Nat → Nat → List UInt8
  | 0, _ => []
  | count + 1, n => UInt8.ofNat n :: littleBytes count (n / 256)

/-- The number that a byte string stands for. -/
def value : ByteOrder → List UInt8 → Nat
  | .big, bs => littleValue bs.reverse
  | .little, bs => littleValue bs

/-- A number in `count` bytes. -/
def bytes : ByteOrder → Nat → Nat → List UInt8
  | .big, count, n => (littleBytes count n).reverse
  | .little, count, n => littleBytes count n

@[simp] theorem length_littleBytes (count n : Nat) : (littleBytes count n).length = count := by
  induction count generalizing n with
  | zero => rfl
  | succ count ih => simp [littleBytes, ih]

@[simp] theorem length_bytes (order : ByteOrder) (count n : Nat) :
    (order.bytes count n).length = count := by
  cases order <;> simp [bytes]

end ByteOrder

end ProgramStream
