import ProgramStream.Parser
import ProgramStream.Proofs.Cursor.Position
/-!
# Strict parsers — arithmetic that stops a machine

Numbers have no bounds in the parsers, a difference is never negative and a
list is as long as it is asked to be. A machine is not so kind: it stops at a
difference below zero and at an index past the end, and drops what does not
fit a narrower word. A strict parser does the same as a parser with all of
this spelled out, step by step: each difference, index, split and narrowing
may be a `Slip`, and each operation that refuses is named with its reason.

The operations of the cursor never slip. They look at what is left before they
take anything, and each comes to what the operation of the cursor comes to
(`bit_eq` and its like).
-/

namespace ProgramStream

/-! ## Slips -/

/-- What a machine stops at, or loses. -/
inductive Slip where
  /-- `a - b`, where `b` is the larger one -/
  | underflow (a b : Nat)
  /-- an index, or the end of a part, past the end -/
  | outOfRange (index size : Nat)
  /-- a value that does not fit a word of so many bits -/
  | lostBits (value width : Nat)
  deriving DecidableEq, Repr

namespace Slip

variable {α : Type} {xs : List α} {a b n i : Nat}

/-- A difference. -/
def sub (a b : Nat) : Except Slip Nat :=
  if b ≤ a then .ok (a - b) else .error (.underflow a b)

/-- The element at an index. -/
def elementAt (xs : List α) (i : Nat) : Except Slip α :=
  match xs[i]? with
  | some x => .ok x
  | none => .error (.outOfRange i xs.length)

/-- The elements before an index, and those from there on. -/
def splitAt (n : Nat) (xs : List α) : Except Slip (List α × List α) :=
  if n ≤ xs.length then .ok (xs.take n, xs.drop n) else .error (.outOfRange n xs.length)

/-- The elements from one index on and before another. -/
def slice (xs : List α) (start stop : Nat) : Except Slip (List α) :=
  if stop < start then .error (.underflow stop start)
  else if stop ≤ xs.length then .ok ((xs.take stop).drop start)
  else .error (.outOfRange stop xs.length)

/-- A value in a word of so many bits. -/
def narrow (width value : Nat) : Except Slip Nat :=
  if value < 2 ^ width then .ok value else .error (.lostBits value width)

theorem sub_of_le (h : b ≤ a) : sub a b = .ok (a - b) := if_pos h

theorem elementAt_of_lt (h : i < xs.length) : elementAt xs i = .ok xs[i] := by
  rw [elementAt, List.getElem?_eq_getElem h]

theorem splitAt_of_le (h : n ≤ xs.length) : splitAt n xs = .ok (xs.take n, xs.drop n) := if_pos h

theorem slice_of_le {start stop : Nat} (hle : start ≤ stop) (h : stop ≤ xs.length) :
    slice xs start stop = .ok ((xs.take stop).drop start) := by
  rw [slice, if_neg (Nat.not_lt.2 hle), if_pos h]

theorem narrow_of_lt {width value : Nat} (h : value < 2 ^ width) : narrow width value = .ok value :=
  if_pos h

end Slip

/-! ## Strict parsers -/

/-- Why a strict parser stops. -/
inductive Stop where
  | slip (slip : Slip)
  /-- an operation of the cursor refuses -/
  | refused (op : BitCursor.Operation) (fault : BitFault)
  | thrown (fault : Fault)
  deriving DecidableEq, Repr

/-- The fault that a parser reports for a stop. There is none for a slip. -/
def Stop.fault? : Stop → Option Fault
  | .slip _ => none
  | .refused _ fault => some (.ofBits fault)
  | .thrown fault => some fault

/-- A parser of a value that may slip. -/
abbrev Strict := EStateM Stop Parser.State

namespace Strict

variable {α β : Type}

/-- Arithmetic in a strict parser. -/
def lift (e : Except Slip α) : Strict α :=
  match e with
  | .ok a => pure a
  | .error slip => throw (.slip slip)

def sub (a b : Nat) : Strict Nat := lift (Slip.sub a b)

/-- Fails as a parser does. -/
def fail (fault : Fault) : Strict α := throw (.thrown fault)

/-! ### The operations -/

/-- The next bit. That there is one is looked at before a byte is begun. -/
def bit : Strict Bool := fun s =>
  if s.cursor.left = 0 then .error (.refused .bit (.bytes .notEnough)) s
  else match s.cursor.next? with
    | some (b, c) => .ok b { s with cursor := c }
    | none => .error (.slip (.outOfRange 0 s.cursor.bytes.length)) s

/-- Puts so many bits behind those of a number. -/
def pushBits : Nat → Nat → Strict Nat
  | 0, n => pure n
  | count + 1, n => do
    let b ← bit
    pushBits count (Bits.push n b)

/-- An unsigned number of so many bits, read one after the other. -/
def bits (count : Nat) : Strict Nat := fun s =>
  if 64 < count then .error (.refused (.bits count) (.tooWide count)) s
  else if s.cursor.left < count then .error (.refused (.bits count) (.bytes .notEnough)) s
  else pushBits count 0 s

/-- An operation that wants `n` whole bytes. Once they are there, `cut` has its
answer, the bytes to leave and the number of those taken. -/
def whole (op : BitCursor.Operation) (n : Nat)
    (cut : List UInt8 → Except Slip (α × List UInt8 × Nat)) : Strict α := fun s =>
  if s.cursor.pending ≠ [] then .error (.refused op .unaligned) s
  else if s.cursor.bytes.length < n then .error (.refused op (.bytes .notEnough)) s
  else match cut s.cursor.bytes with
    | .ok (a, rest, count) =>
      .ok a { s with cursor := { s.cursor with bytes := rest, taken := s.cursor.taken + count } }
    | .error slip => .error (.slip slip) s

/-- A string of whole bytes, split off those ahead. -/
def bytes (n : Nat) : Strict (List UInt8) :=
  whole (.bytes n) n fun ahead => do
    let (front, rest) ← Slip.splitAt n ahead
    return (front, rest, n)

/-- A whole byte. -/
def byte : Strict UInt8 :=
  whole .byte 1 fun ahead => do
    let first ← Slip.elementAt ahead 0
    let (_, rest) ← Slip.splitAt 1 ahead
    return (first, rest, 1)

/-- The next whole bytes, left ahead. -/
def peek (n : Nat) : Strict (List UInt8) :=
  whole (.peek n) n fun ahead => do
    let front ← Slip.slice ahead 0 n
    return (front, ahead, 0)

/-- Passes over whole bytes. -/
def skip (n : Nat) : Strict Unit :=
  whole (.skip n) n fun ahead => do
    let (_, rest) ← Slip.splitAt n ahead
    return ((), rest, n)

/-- An unsigned field of `n` bits, put into a word of `width` bits. -/
def field (n width : Nat) : Strict (BitVec n) := do
  let value ← lift (Slip.narrow width (← bits n))
  return BitVec.ofNat n value

def flag : Strict Bool := bit

def field8 : Strict UInt8 := do return ⟨← field 8 8⟩

def field16 : Strict UInt16 := do return ⟨← field 16 16⟩

def field32 : Strict UInt32 := do return ⟨← field 32 32⟩

/-- Passes over reserved bits, whatever they are. -/
def reserved (n : Nat) : Strict Unit := do
  let _ ← bits n

/-- A bit that has to be one, named after the field it belongs to. -/
def marker (name : String) : Strict Unit := do
  unless ← flag do fail (.marker name)

/-- The number of bytes taken so far. -/
def taken : Strict Nat := do return (← get).cursor.taken

/-- Reports a warning. -/
def warn (w : Warning) : Strict Unit :=
  modify fun s => { s with warnings := s.warnings.push w }

/-- A part that is there only if its flag is set. -/
def given (present : Bool) (p : Strict α) : Strict (Option α) :=
  if present then some <$> p else pure none

/-! ### What the operations come to -/

/-- An operation of the cursor that names itself when it refuses. -/
def ofCursor (op : BitCursor.Operation) (read : BitCursor → Except BitFault (α × BitCursor)) :
    Strict α := fun s =>
  match read s.cursor with
  | .ok (a, c) => .ok a { s with cursor := c }
  | .error fault => .error (.refused op fault) s

section Steps

variable {s t : Parser.State} {q : Strict α} {f : α → Strict β} {a : α}

theorem bind_of_ok (h : q s = .ok a t) : (q >>= f) s = f a t := by
  change EStateM.bind q f s = _
  unfold EStateM.bind
  rw [h]

end Steps

/-- **A bit that is left is there.** -/
theorem bit_eq : bit = ofCursor .bit BitCursor.readBit := by
  funext s
  rw [bit, ofCursor, BitCursor.readBit]
  split
  · rename_i hzero
    rw [BitCursor.next?_eq_none_iff.2 hzero]
  · rename_i hleft
    cases hnext : s.cursor.next? with
    | some r => rfl
    | none => exact absurd (BitCursor.next?_eq_none_iff.1 hnext) hleft

theorem pushBits_of_next {n acc : Nat} {bits : List Bool} {s : Parser.State} {c : BitCursor}
    (h : s.cursor.next n = some (bits, c)) :
    pushBits n acc s = .ok (bits.foldl Bits.push acc) { s with cursor := c } := by
  induction n generalizing acc bits s with
  | zero =>
    cases h
    rfl
  | succ n ih =>
    simp only [BitCursor.next, bind, Option.bind_eq_some_iff, pure, Option.some.injEq,
      Prod.mk.injEq, Prod.exists] at h
    obtain ⟨b, c₁, h₁, bs, c₂, h₂, rfl, rfl⟩ := h
    have hbit : bit s = .ok b { s with cursor := c₁ } := by
      rw [bit_eq, ofCursor, BitCursor.readBit, h₁]
    rw [pushBits, bind_of_ok hbit, ih (s := { s with cursor := c₁ }) h₂, List.foldl_cons]

/-- **Bits that are left are there**, every one of them. -/
theorem bits_eq (count : Nat) : bits count = ofCursor (.bits count) (BitCursor.readBits count) := by
  funext s
  rw [bits, ofCursor, BitCursor.readBits]
  split
  · rfl
  · split
    · rename_i hlt
      rw [BitCursor.next_eq_none_iff.2 hlt]
    · rename_i hle
      cases hnext : s.cursor.next count with
      | none => exact absurd (BitCursor.next_eq_none_iff.1 hnext) hle
      | some r => rw [pushBits_of_next hnext]; rfl

theorem readBytes_of_le {c : BitCursor} {n : Nat} (hpending : c.pending = [])
    (h : n ≤ c.bytes.length) : c.readBytes n =
      .ok (c.bytes.take n, { c with bytes := c.bytes.drop n, taken := c.taken + n }) := by
  obtain ⟨pending, bytes, taken, hlt⟩ := c
  cases hpending
  rw [BitCursor.readBytes, splitFront?_eq_some_iff.2
    ⟨(List.take_append_drop n bytes).symm, List.length_take_of_le h⟩]

/-- **Bytes that are there can be cut**: `cut` comes to what the cursor gives. -/
theorem whole_eq {op : BitCursor.Operation} {n : Nat}
    {cut : List UInt8 → Except Slip (α × List UInt8 × Nat)}
    {g : BitCursor → List UInt8 × BitCursor → α × BitCursor}
    (hcut : ∀ c : BitCursor, c.pending = [] → n ≤ c.bytes.length → ∃ a rest count,
      cut c.bytes = .ok (a, rest, count) ∧
        g c (c.bytes.take n, { c with bytes := c.bytes.drop n, taken := c.taken + n }) =
          (a, { c with bytes := rest, taken := c.taken + count })) :
    whole op n cut = ofCursor op fun c => (c.readBytes n).map (g c) := by
  funext s
  rw [whole, ofCursor]
  by_cases hpending : s.cursor.pending = []
  · rw [if_neg (not_not.2 hpending)]
    by_cases hlt : s.cursor.bytes.length < n
    · rw [if_pos hlt, BitCursor.readBytes_eq_error_iff.2 (.inr ⟨hpending, hlt, rfl⟩)]
      rfl
    · obtain ⟨a, rest, count, hok, hg⟩ := hcut s.cursor hpending (Nat.not_lt.1 hlt)
      have hread := readBytes_of_le hpending (Nat.not_lt.1 hlt)
      rw [if_neg hlt, hok, hread, Except.map, hg]
  · rw [if_pos hpending, BitCursor.readBytes_eq_error_iff.2 (.inl ⟨hpending, rfl⟩)]
    rfl

theorem bytes_eq (n : Nat) : bytes n = ofCursor (.bytes n) (BitCursor.readBytes n) := by
  have hread : (fun c : BitCursor => (c.readBytes n).map id) = BitCursor.readBytes n := by
    funext c
    cases c.readBytes n <;> rfl
  rw [← hread]
  refine whole_eq (g := fun _ r => r) fun c _ h => ⟨c.bytes.take n, c.bytes.drop n, n, ?_, rfl⟩
  rw [Slip.splitAt_of_le h]
  rfl

theorem byte_eq : byte = ofCursor .byte BitCursor.readByte := by
  have hread : BitCursor.readByte = fun c : BitCursor =>
      (c.readBytes 1).map fun r => (r.1.headD 0, r.2) := by
    funext c
    exact c.readByte_eq
  rw [hread]
  refine whole_eq fun c _ h => ?_
  match hbytes : c.bytes with
  | [] =>
    rw [hbytes] at h
    cases h
  | first :: rest => exact ⟨first, rest, 1, rfl, rfl⟩

theorem peek_eq (n : Nat) : peek n = ofCursor (.peek n) (BitCursor.peekBytes n) := by
  refine whole_eq fun c _ h => ⟨c.bytes.take n, c.bytes, 0, ?_, rfl⟩
  rw [Slip.slice_of_le (Nat.zero_le n) h]
  rfl

theorem skip_eq (n : Nat) : skip n = ofCursor (.skip n) (BitCursor.skipBytes n) := by
  refine whole_eq fun c _ h => ⟨(), c.bytes.drop n, n, ?_, rfl⟩
  rw [Slip.splitAt_of_le h]
  rfl

end Strict

end ProgramStream
