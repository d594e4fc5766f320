/-!
# Bit strings — numbers as bits, most significant bit first

`ofNat w n` writes the low `w` bits of `n` and `toNat` reads any bit
string. A byte is eight bits (`ofByte`), and `pack` cuts a bit string into
bytes.
-/

namespace ProgramStream

namespace Bits

/-- The low `width` bits of a number, most significant first. -/
def ofNat : Nat → Nat → List Bool
  | 0, _ => []
  | width + 1, n => n.testBit width :: ofNat width n

/-- Appends a bit at the low end of a number. -/
def push (n : Nat) (b : Bool) : Nat := 2 * n + b.toNat

/-- The number a bit string stands for. -/
def toNat (bits : List Bool) : Nat := bits.foldl push 0

/-- The bits of a byte. -/
def ofByte (b : UInt8) : List Bool := ofNat 8 b.toNat

/-- The bits of a byte string. -/
def ofBytes (bytes : List UInt8) : List Bool := bytes.flatMap ofByte

/-- A bit string cut into bytes; bits short of a byte at the end are left
out. -/
def pack : List Bool → List UInt8
  | a :: b :: c :: d :: e :: f :: g :: h :: rest =>
    UInt8.ofNat (toNat [a, b, c, d, e, f, g, h]) :: pack rest
  | _ => []

/-! ## Lengths -/

@[simp] theorem length_ofNat (width n : Nat) : (ofNat width n).length = width := by
  induction width with
  | zero => rfl
  | succ width ih => simp [ofNat, ih]

@[simp] theorem length_ofByte (b : UInt8) : (ofByte b).length = 8 := length_ofNat _ _

@[simp] theorem ofBytes_nil : ofBytes [] = [] := rfl

@[simp] theorem ofBytes_cons (b : UInt8) (bs : List UInt8) :
    ofBytes (b :: bs) = ofByte b ++ ofBytes bs := List.flatMap_cons

@[simp] theorem ofBytes_append (xs ys : List UInt8) :
    ofBytes (xs ++ ys) = ofBytes xs ++ ofBytes ys := List.flatMap_append

@[simp] theorem length_ofBytes (bytes : List UInt8) :
    (ofBytes bytes).length = 8 * bytes.length := by
  induction bytes with
  | nil => rfl
  | cons b bs ih => simp [ih]; omega

end Bits

end ProgramStream
