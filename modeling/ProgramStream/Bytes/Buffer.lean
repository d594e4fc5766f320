import ProgramStream.Bytes.Word
/-!
# A byte buffer — filled at the back, read from the front

Reads (`take`, `skip`, `word`) remove bytes and looks (`peek`, `peekWord`,
`byteAt`) leave the buffer as it is. A read either gets all the bytes it
asks for or fails; what a failing read would have left behind is nowhere
in its type, so the caller still holds the buffer it had.
-/

namespace ProgramStream

/-- Why bytes could not be had. -/
inductive ByteFault where
  /-- fewer bytes are left than were asked for -/
  | notEnough
  /-- no byte stands at that index -/
  | outOfRange
  /-- the device behind the bytes failed -/
  | device (text : String)
  deriving DecidableEq, Repr

namespace ByteFault

/-- The wording of a fault. -/
def message : ByteFault → String
  | .notEnough => "not enough bytes to read"
  | .outOfRange => "index out of range"
  | .device text => "io error: " ++ text

/-- The wordings of what lies behind a fault, nearest first. -/
def causes : ByteFault → List String
  | .device text => [text]
  | _ => []

/-- More input would mend this fault. -/
def isShortage : ByteFault → Bool
  | .notEnough => true
  | _ => false

end ByteFault

/-- The first `n` elements and the rest, if there are that many. -/
def splitFront? {α : Type} (n : Nat) (xs : List α) : Option (List α × List α) :=
  let front := xs.take n
  if front.length = n then some (front, xs.drop n) else none

theorem splitFront?_eq_some_iff {α : Type} {n : Nat} {xs front rest : List α} :
    splitFront? n xs = some (front, rest) ↔ xs = front ++ rest ∧ front.length = n := by
  simp only [splitFront?]
  constructor
  · intro h
    split at h
    · rename_i hlen
      simp only [Option.some.injEq, Prod.mk.injEq] at h
      obtain ⟨rfl, rfl⟩ := h
      exact ⟨(List.take_append_drop n xs).symm, hlen⟩
    · exact nomatch h
  · rintro ⟨rfl, rfl⟩
    simp

theorem splitFront?_eq_none_iff {α : Type} {n : Nat} {xs : List α} :
    splitFront? n xs = none ↔ xs.length < n := by
  simp only [splitFront?, List.length_take]
  split <;> simp <;> omega

@[simp] theorem splitFront?_append {α : Type} (front rest : List α) :
    splitFront? front.length (front ++ rest) = some (front, rest) :=
  splitFront?_eq_some_iff.2 ⟨rfl, rfl⟩

/-- A list cut into pieces of `size` elements, the last one perhaps shorter.
Pieces of no size are none at all. -/
def inPieces {α : Type} (size : Nat) (xs : List α) : List (List α) :=
  if _h : size = 0 ∨ xs = [] then []
  else xs.take size :: inPieces size (xs.drop size)
termination_by xs.length
decreasing_by
  have : 0 < xs.length := List.length_pos_iff.2 fun hnil => _h (.inr hnil)
  simp only [List.length_drop]
  omega

/-- Pieces put together again are the list. -/
theorem flatten_inPieces {α : Type} {size : Nat} (h : size ≠ 0) (xs : List α) :
    (inPieces size xs).flatten = xs := by
  fun_induction inPieces size xs with
  | case1 xs hx =>
    simp [hx.resolve_left h]
  | case2 xs hx ih => simp [ih]

/-- Bytes waiting to be read. -/
structure ByteBuffer where
  content : List UInt8 := []
  deriving DecidableEq, Repr

namespace ByteBuffer

/-- The number of bytes waiting. -/
def size (b : ByteBuffer) : Nat := b.content.length

/-- No byte is waiting. -/
def isEmpty (b : ByteBuffer) : Bool := b.content.isEmpty

/-- Adds bytes at the back. -/
def extend (b : ByteBuffer) (bytes : List UInt8) : ByteBuffer :=
  ⟨b.content ++ bytes⟩

/-- Removes `n` bytes from the front. -/
def take (n : Nat) (b : ByteBuffer) : Except ByteFault (List UInt8 × ByteBuffer) :=
  match splitFront? n b.content with
  | some (front, rest) => .ok (front, ⟨rest⟩)
  | none => .error .notEnough

/-- The first `n` bytes, left in place. -/
def peek (n : Nat) (b : ByteBuffer) : Except ByteFault (List UInt8) :=
  (b.take n).map (·.1)

/-- Drops `n` bytes from the front. -/
def skip (n : Nat) (b : ByteBuffer) : Except ByteFault (Unit × ByteBuffer) :=
  (b.take n).map fun r => ((), r.2)

/-- Removes a word of `count` bytes from the front. -/
def word (order : ByteOrder) (count : Nat) (b : ByteBuffer) : Except ByteFault (Nat × ByteBuffer) :=
  (b.take count).map fun r => (order.value r.1, r.2)

/-- The word of `count` bytes at the front, left in place. -/
def peekWord (order : ByteOrder) (count : Nat) (b : ByteBuffer) : Except ByteFault Nat :=
  (b.word order count).map (·.1)

/-- The byte at an index, left in place. -/
def byteAt (i : Nat) (b : ByteBuffer) : Except ByteFault UInt8 :=
  match b.content[i]? with
  | some byte => .ok byte
  | none => .error .outOfRange

/-- Everything that waits, leaving the buffer empty. -/
def drain (b : ByteBuffer) : List UInt8 × ByteBuffer :=
  (b.content, ⟨[]⟩)

/-- A read succeeds exactly on a buffer that starts with its result. -/
theorem take_eq_ok_iff {n : Nat} {b b' : ByteBuffer} {front : List UInt8} :
    b.take n = .ok (front, b') ↔ b.content = front ++ b'.content ∧ front.length = n := by
  obtain ⟨rest⟩ := b'
  simp only [take]
  split
  · rename_i f r h
    rw [splitFront?_eq_some_iff] at h
    simp only [Except.ok.injEq, Prod.mk.injEq, mk.injEq]
    constructor
    · rintro ⟨rfl, rfl⟩; exact h
    · rintro ⟨h₁, h₂⟩
      exact List.append_inj (h.1.symm.trans h₁) (h.2.trans h₂.symm)
  · rename_i h
    rw [splitFront?_eq_none_iff] at h
    simp only [reduceCtorEq, false_iff, not_and]
    intro h₁ h₂
    rw [h₁, List.length_append] at h
    omega

/-- A read fails exactly on a buffer that is too short. -/
theorem take_eq_error_iff {n : Nat} {b : ByteBuffer} {f : ByteFault} :
    b.take n = .error f ↔ f = .notEnough ∧ b.size < n := by
  simp only [take, size]
  split
  · rename_i h
    rw [splitFront?_eq_some_iff] at h
    simp only [reduceCtorEq, false_iff, not_and, h.1, List.length_append]
    omega
  · rename_i h
    rw [splitFront?_eq_none_iff] at h
    simp [h, eq_comm]

end ByteBuffer

end ProgramStream
