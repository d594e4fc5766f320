import Mathlib.Data.List.GetD
import Mathlib.Data.List.TakeDrop
import Mathlib.Data.Nat.Digits.Defs
import ProgramStream.Proofs.Cursor
/-!
# A bit cursor — a position in a bit string

What a cursor shows of itself can be told from its input and one number,
the bits of it that are behind (`IsAt`). `Operation.perform` asks a cursor
for something, `Operation.performAt` asks a byte string at a position for
the same thing: there is at most one reason to fail (`Operation.fault?`),
the answer is read off the bits or the bytes that come next
(`Operation.read`), and the position moves by the bits asked for. The two
agree along every sequence of operations, those that fail in it included
(`performAll_ofBytes`).
-/

namespace ProgramStream

namespace Bits

/-- The number of a bit string has its bits for digits, the last one first. -/
theorem toNat_eq_ofDigits (bits : List Bool) :
    toNat bits = Nat.ofDigits 2 (bits.reverse.map Bool.toNat) := by
  induction bits with
  | nil => rfl
  | cons b bits ih =>
    rw [toNat_cons, List.reverse_cons, List.map_append, Nat.ofDigits_append, ← ih,
      List.length_map, List.length_reverse, List.map_singleton, Nat.ofDigits_singleton]
    rw [Nat.add_comm, Nat.mul_comm]

end Bits

namespace BitCursor

/-! ## Operations -/

/-- What can be asked of a cursor. -/
inductive Operation where
  | bit
  /-- a number of so many bits -/
  | bits (count : Nat)
  | byte
  | bytes (count : Nat)
  /-- the next bytes, left ahead -/
  | peek (count : Nat)
  | skip (count : Nat)
  | align
  deriving DecidableEq, Repr

/-- What an operation gives. -/
inductive Answer where
  | bit (b : Bool)
  | number (n : Nat)
  | byte (b : UInt8)
  | bytes (bs : List UInt8)
  | done
  deriving DecidableEq, Repr

/-- The answer of a read, and the cursor to go on with: a read that fails
leaves the one there was. -/
def settle {α : Type} (c : BitCursor) (f : α → Answer) :
    Except BitFault (α × BitCursor) → Except BitFault Answer × BitCursor
  | .ok (a, c') => (.ok (f a), c')
  | .error fault => (.error fault, c)

namespace Operation

/-- Asks a cursor. -/
def perform (c : BitCursor) : Operation → Except BitFault Answer × BitCursor
  | .bit => c.settle .bit c.readBit
  | .bits n => c.settle .number (c.readBits n)
  | .byte => c.settle .byte c.readByte
  | .bytes n => c.settle .bytes (c.readBytes n)
  | .peek n => c.settle .bytes (c.peekBytes n)
  | .skip n => c.settle (fun _ => .done) (c.skipBytes n)
  | .align => (.ok .done, c.align)

/-- The number of bits asked for. -/
def width : Operation → Nat
  | .bit => 1
  | .bits n => n
  | .byte => 8
  | .bytes n | .peek n | .skip n => 8 * n
  | .align => 0

/-- Whole bytes are asked for. -/
def isWhole : Operation → Bool
  | .byte | .bytes _ | .peek _ | .skip _ => true
  | _ => false

/-- The width of the number asked for, if it is one. -/
def numberWidth : Operation → Nat
  | .bits n => n
  | _ => 0

/-- Why a byte string cannot answer at a position: the number would not fit a
word, whole bytes were asked for inside a byte, or more than is left. -/
def fault? (input : List UInt8) (pos : Nat) (op : Operation) : Option BitFault :=
  if 64 < op.numberWidth then some (.tooWide op.numberWidth)
  else if op.isWhole = true ∧ pos % 8 ≠ 0 then some .unaligned
  else if 8 * input.length < pos + op.width then some (.bytes .notEnough)
  else none

/-- The answer of a byte string at a position. A number has its most
significant bit first. -/
def read (input : List UInt8) (pos : Nat) : Operation → Answer
  | .bit => .bit ((Bits.ofBytes input).getD pos false)
  | .bits n =>
    .number (Nat.ofDigits 2 ((((Bits.ofBytes input).drop pos).take n).reverse.map Bool.toNat))
  | .byte => .byte (input.getD (pos / 8) 0)
  | .bytes n | .peek n => .bytes ((input.drop (pos / 8)).take n)
  | .skip _ | .align => .done

/-- The position after an answer. -/
def move (pos : Nat) : Operation → Nat
  | .peek _ => pos
  | .align => (pos + 7) / 8 * 8
  | op => pos + op.width

/-- Asks a byte string at a position. -/
def performAt (input : List UInt8) (pos : Nat) (op : Operation) : Except BitFault Answer × Nat :=
  match op.fault? input pos with
  | some fault => (.error fault, pos)
  | none => (.ok (op.read input pos), op.move pos)

end Operation

/-- Asks a cursor one thing after the other, whatever fails. -/
def performAll (c : BitCursor) : List Operation → List (Except BitFault Answer) × BitCursor
  | [] => ([], c)
  | op :: ops =>
    let (answer, c₁) := op.perform c
    let (answers, c₂) := performAll c₁ ops
    (answer :: answers, c₂)

/-- Asks a byte string one thing after the other, from a position on. -/
def performAllAt (input : List UInt8) (pos : Nat) :
    List Operation → List (Except BitFault Answer) × Nat
  | [] => ([], pos)
  | op :: ops =>
    let (answer, pos₁) := op.performAt input pos
    let (answers, pos₂) := performAllAt input pos₁ ops
    (answer :: answers, pos₂)

variable {c c' : BitCursor} {input : List UInt8} {pos n : Nat}

/-- The element at an index is the first one from there on. -/
theorem take_one_drop {α : Type} {xs : List α} {k : Nat} (d : α) (h : k < xs.length) :
    (xs.drop k).take 1 = [xs.getD k d] := by
  rw [List.take_one_drop_eq_of_lt_length h, List.getD_eq_getElem _ d h, List.get_eq_getElem]

/-! ## Reads that fail -/

theorem next?_eq_none_iff : c.next? = none ↔ c.left = 0 := by
  obtain ⟨_ | ⟨p, pending⟩, _ | ⟨byte, bytes⟩, taken, hlt⟩ := c <;> simp [next?, left]

theorem next_eq_none_iff : c.next n = none ↔ c.left < n := by
  constructor
  · intro hnone
    by_contra hle
    obtain ⟨c', htakes⟩ := exists_takes_of_prefix (c.ahead.take_prefix n)
    have hlen : (c.ahead.take n).length = n := by
      rw [List.length_take, length_ahead]
      omega
    rw [next_eq_some_iff.2 ⟨htakes, hlen⟩] at hnone
    cases hnone
  · intro hlt
    cases hnext : c.next n with
    | none => rfl
    | some r =>
      obtain ⟨htakes, hlen⟩ := next_eq_some_iff.1 hnext
      have := congrArg List.length htakes.ahead_eq
      rw [List.length_append, length_ahead] at this
      omega

/-- **A bit cannot be read where none is left.** -/
theorem readBit_eq_error_iff {fault : BitFault} :
    c.readBit = .error fault ↔ c.left = 0 ∧ fault = .bytes .notEnough := by
  rw [readBit, ← next?_eq_none_iff]
  cases c.next? with
  | none => simp [eq_comm]
  | some r => simp

/-- **A field cannot be read** if it is too wide for a word, or wider than
what is left. -/
theorem readBits_eq_error_iff {fault : BitFault} :
    c.readBits n = .error fault ↔
      (64 < n ∧ fault = .tooWide n) ∨ (n ≤ 64 ∧ c.left < n ∧ fault = .bytes .notEnough) := by
  rw [readBits]
  split
  · rename_i hwide
    have : ¬n ≤ 64 := by omega
    simp [hwide, this, eq_comm]
  · rename_i hfits
    have : n ≤ 64 := by omega
    rw [← next_eq_none_iff]
    cases c.next n with
    | none => simp [hfits, this, eq_comm]
    | some r => simp [hfits]

/-- **Whole bytes cannot be read** inside a byte, or if there are fewer. -/
theorem readBytes_eq_error_iff {fault : BitFault} :
    c.readBytes n = .error fault ↔
      (c.pending ≠ [] ∧ fault = .unaligned) ∨
        (c.pending = [] ∧ c.bytes.length < n ∧ fault = .bytes .notEnough) := by
  obtain ⟨_ | ⟨p, pending⟩, bytes, taken, hlt⟩ := c
  · simp only [readBytes]
    rw [← splitFront?_eq_none_iff]
    cases splitFront? n bytes with
    | none => simp [eq_comm]
    | some r => simp
  · simp [readBytes, eq_comm]

/-- A whole byte is read as one of them. -/
theorem readByte_eq (c : BitCursor) :
    c.readByte = (c.readBytes 1).map fun r => (r.1.headD 0, r.2) := by
  obtain ⟨_ | ⟨p, pending⟩, _ | ⟨byte, bytes⟩, taken, hlt⟩ := c <;>
    simp [readByte, readBytes, splitFront?, Except.map]

/-! ## Places -/

/-- **The cursor stands at a position of a byte string**, counted in bits:
it is the cursor after the bits before that position were taken. -/
structure IsAt (input : List UInt8) (pos : Nat) (c : BitCursor) : Prop where
  pos_le : pos ≤ 8 * input.length
  takes : (ofBytes input).Takes ((Bits.ofBytes input).take pos) c

namespace IsAt

theorem start (input : List UInt8) : IsAt input 0 (ofBytes input) := ⟨Nat.zero_le _, .refl _⟩

theorem length_take (h : IsAt input pos c) : ((Bits.ofBytes input).take pos).length = pos := by
  rw [List.length_take, Bits.length_ofBytes]
  exact Nat.min_eq_left h.pos_le

/-- The bits ahead are those after the position. -/
theorem ahead_eq (h : IsAt input pos c) : c.ahead = (Bits.ofBytes input).drop pos :=
  List.append_cancel_left (h.takes.ahead_eq.symm.trans (List.take_append_drop pos _).symm)

/-- So many bits are left. -/
theorem left_eq (h : IsAt input pos c) : c.left = 8 * input.length - pos := by
  rw [← length_ahead, h.ahead_eq, List.length_drop, Bits.length_ofBytes]

/-- The bits left of a byte fill it up with those behind. -/
theorem length_pending (h : IsAt input pos c) : c.pending.length = 7 * pos % 8 := by
  have hpending := h.takes.length_pending
  rwa [h.length_take, show (ofBytes input).pending = [] from rfl, List.length_nil,
    Nat.zero_add] at hpending

/-- **The bytes taken are those begun.** -/
theorem taken_eq (h : IsAt input pos c) : c.taken = (pos + 7) / 8 := by
  have htaken := h.takes.taken_eq
  have hpending := h.length_pending
  rw [h.length_take] at htaken
  simp only [ofBytes, List.length_nil] at htaken
  omega

/-- A whole byte boundary is one of the input. -/
theorem pending_eq_nil_iff (h : IsAt input pos c) : c.pending = [] ↔ pos % 8 = 0 := by
  rw [← List.length_eq_zero_iff, h.length_pending]
  omega

/-- The whole bytes ahead of a boundary. -/
theorem bytes_eq (h : IsAt input pos c) (hpos : pos % 8 = 0) : c.bytes = input.drop (pos / 8) := by
  have hahead := h.ahead_eq
  rw [ahead_of_pending (h.pending_eq_nil_iff.2 hpos),
    show pos = 8 * (pos / 8) by omega, Bits.drop_ofBytes] at hahead
  exact Bits.ofBytes_inj hahead

/-- **Taking bits moves the position by so many.** -/
theorem move (h : IsAt input pos c) (hle : pos + n ≤ 8 * input.length)
    (htakes : c.Takes (c.ahead.take n) c') : IsAt input (pos + n) c' := by
  refine ⟨hle, ?_⟩
  rw [List.take_add, ← h.ahead_eq]
  exact h.takes.trans htakes

/-- Whole bytes are read at a byte boundary, if they are there. -/
theorem exists_readBytes (h : IsAt input pos c) (hpos : pos % 8 = 0)
    (hle : pos + 8 * n ≤ 8 * input.length) :
    ∃ c', c.readBytes n = .ok ((input.drop (pos / 8)).take n, c') ∧
      IsAt input (pos + 8 * n) c' := by
  have hleft := h.left_eq
  have hinput := h.pos_le
  obtain ⟨c', htakes⟩ := exists_takes_of_prefix (c.ahead.take_prefix (8 * n))
  have hmove := h.move hle htakes
  have hbits : c.ahead.take (8 * n) = Bits.ofBytes ((input.drop (pos / 8)).take n) := by
    rw [ahead_of_pending (h.pending_eq_nil_iff.2 hpos), h.bytes_eq hpos, Bits.take_ofBytes]
  have hlen : ((input.drop (pos / 8)).take n).length = n := by
    rw [List.length_take, List.length_drop]
    omega
  rw [hbits] at htakes
  exact ⟨c', readBytes_eq_ok_iff.2 ⟨h.pending_eq_nil_iff.2 hpos, hlen, htakes⟩, hmove⟩

/-- Whole bytes are not read inside a byte, nor if they are not there. -/
theorem readBytes_of_isAt (h : IsAt input pos c) {fault : BitFault}
    (hfault : (pos % 8 ≠ 0 ∧ fault = .unaligned) ∨
      (pos % 8 = 0 ∧ 8 * input.length < pos + 8 * n ∧ fault = .bytes .notEnough)) :
    c.readBytes n = .error fault := by
  refine readBytes_eq_error_iff.2 ?_
  rcases hfault with ⟨hpos, rfl⟩ | ⟨hpos, hlt, rfl⟩
  · exact .inl ⟨fun hnil => hpos (h.pending_eq_nil_iff.1 hnil), rfl⟩
  · have hbytes := congrArg List.length (h.bytes_eq hpos)
    have hle := h.pos_le
    rw [List.length_drop] at hbytes
    exact .inr ⟨h.pending_eq_nil_iff.2 hpos, by omega, rfl⟩

/-- The boundary after a position. -/
theorem align (h : IsAt input pos c) : IsAt input ((pos + 7) / 8 * 8) c.align := by
  have hpending := h.length_pending
  have hleft := h.left_eq
  have hle := h.pos_le
  have hskip : c.Takes (c.ahead.take c.pending.length) c.align := by
    rw [ahead, List.take_left]
    refine ⟨rfl, ?_⟩
    simp only [BitCursor.align, List.length_nil]
    omega
  have hmove := h.move (by omega) hskip
  rwa [show pos + c.pending.length = (pos + 7) / 8 * 8 by omega] at hmove

end IsAt

/-! ## The operations -/

namespace Operation

variable {op : Operation} {fault : BitFault}

theorem fault?_of_isWhole (hop : op.isWhole = true) :
    op.fault? input pos = some fault ↔
      (pos % 8 ≠ 0 ∧ fault = .unaligned) ∨
        (pos % 8 = 0 ∧ 8 * input.length < pos + op.width ∧ fault = .bytes .notEnough) := by
  have hnumber : op.numberWidth = 0 := by
    cases op with
    | bits n => cases hop
    | _ => rfl
  rw [fault?, hnumber, if_neg (by omega), hop]
  by_cases hpos : pos % 8 = 0
  · simp [hpos, eq_comm]
  · simp [hpos, eq_comm]

theorem fault?_of_not_isWhole (hop : op.isWhole = false) :
    op.fault? input pos = some fault ↔
      (64 < op.numberWidth ∧ fault = .tooWide op.numberWidth) ∨
        (op.numberWidth ≤ 64 ∧ 8 * input.length < pos + op.width ∧ fault = .bytes .notEnough) := by
  rw [fault?, hop]
  by_cases hwide : 64 < op.numberWidth
  · have : ¬op.numberWidth ≤ 64 := by omega
    simp [hwide, this, eq_comm]
  · have : op.numberWidth ≤ 64 := by omega
    simp [hwide, this, eq_comm]

/-- **An operation that a position cannot answer fails on the cursor**, which
stays as it is. -/
theorem perform_of_fault? (h : IsAt input pos c) (hfault : op.fault? input pos = some fault) :
    op.perform c = (.error fault, c) := by
  have hleft := h.left_eq
  have hle := h.pos_le
  cases op with
  | bit =>
    have hread : c.readBit = .error fault := by
      refine readBit_eq_error_iff.2 ?_
      rcases (fault?_of_not_isWhole rfl).1 hfault with ⟨hwide, -⟩ | ⟨-, hlt, rfl⟩
      · simp only [numberWidth] at hwide
        omega
      · simp only [width] at hlt
        exact ⟨by omega, rfl⟩
    rw [perform, hread]
    rfl
  | bits n =>
    have hread : c.readBits n = .error fault := by
      refine readBits_eq_error_iff.2 ?_
      rcases (fault?_of_not_isWhole rfl).1 hfault with hwide | ⟨hfits, hlt, rfl⟩
      · exact .inl hwide
      · simp only [width] at hlt
        exact .inr ⟨hfits, by omega, rfl⟩
    rw [perform, hread]
    rfl
  | byte =>
    rw [perform, readByte_eq, h.readBytes_of_isAt ((fault?_of_isWhole rfl).1 hfault)]
    rfl
  | bytes n =>
    rw [perform, h.readBytes_of_isAt ((fault?_of_isWhole rfl).1 hfault)]
    rfl
  | peek n =>
    rw [perform, peekBytes, h.readBytes_of_isAt ((fault?_of_isWhole rfl).1 hfault)]
    rfl
  | skip n =>
    rw [perform, skipBytes, h.readBytes_of_isAt ((fault?_of_isWhole rfl).1 hfault)]
    rfl
  | align =>
    rcases (fault?_of_not_isWhole rfl).1 hfault with ⟨hwide, -⟩ | ⟨-, hlt, -⟩
    · simp only [numberWidth] at hwide
      omega
    · simp only [width] at hlt
      omega

/-- **Any other operation has the answer of the position**, and the cursor
moves as the position does. -/
theorem perform_of_fault?_eq_none (h : IsAt input pos c) (hfault : op.fault? input pos = none) :
    ∃ c', op.perform c = (.ok (op.read input pos), c') ∧ IsAt input (op.move pos) c' := by
  have hleft := h.left_eq
  have hle := h.pos_le
  -- what the position has is there: it is no less than is asked for, and bytes start on a boundary
  have hnumber : op.numberWidth ≤ 64 := by
    by_contra hwide
    rw [fault?, if_pos (Nat.not_le.1 hwide)] at hfault
    cases hfault
  have hwhole : op.isWhole = true → pos % 8 = 0 := by
    intro hop
    by_contra hpos
    have hsome : op.fault? input pos = some .unaligned :=
      (fault?_of_isWhole hop).2 (.inl ⟨hpos, rfl⟩)
    rw [hfault] at hsome
    cases hsome
  have hthere : pos + op.width ≤ 8 * input.length := by
    by_contra hshort
    rw [fault?, if_neg (by omega), if_neg fun hop => hop.2 (hwhole hop.1),
      if_pos (Nat.not_le.1 hshort)] at hfault
    cases hfault
  cases op with
  | bit =>
    simp only [width] at hthere
    obtain ⟨c', htakes⟩ := exists_takes_of_prefix (c.ahead.take_prefix 1)
    have hmove := h.move hthere htakes
    have hlt : pos < (Bits.ofBytes input).length := by
      rw [Bits.length_ofBytes]
      omega
    rw [h.ahead_eq, take_one_drop false hlt] at htakes
    exact ⟨c', by rw [perform, readBit_eq_ok_iff.2 htakes]; rfl, hmove⟩
  | bits n =>
    simp only [width] at hthere
    obtain ⟨c', htakes⟩ := exists_takes_of_prefix (c.ahead.take_prefix n)
    have hmove := h.move hthere htakes
    have hlen : (c.ahead.take n).length = n := by
      rw [List.length_take, length_ahead]
      omega
    have hread : c.readBits n = .ok (Bits.toNat (c.ahead.take n), c') :=
      (readBits_eq_ok_iff hnumber).2 ⟨_, htakes, hlen, rfl⟩
    exact ⟨c', by rw [perform, hread, h.ahead_eq, Bits.toNat_eq_ofDigits]; rfl, hmove⟩
  | byte =>
    have hpos := hwhole rfl
    obtain ⟨c', hread, hmove⟩ := h.exists_readBytes (n := 1) hpos hthere
    refine ⟨c', ?_, hmove⟩
    have hlt : pos / 8 < input.length := by
      simp only [width] at hthere
      omega
    rw [perform, readByte_eq, hread, take_one_drop 0 hlt]
    rfl
  | bytes n =>
    obtain ⟨c', hread, hmove⟩ := h.exists_readBytes (hwhole rfl) hthere
    exact ⟨c', by rw [perform, hread]; rfl, hmove⟩
  | peek n =>
    obtain ⟨c', hread, -⟩ := h.exists_readBytes (hwhole rfl) hthere
    exact ⟨c, by rw [perform, peekBytes, hread]; rfl, h⟩
  | skip n =>
    obtain ⟨c', hread, hmove⟩ := h.exists_readBytes (hwhole rfl) hthere
    exact ⟨c', by rw [perform, skipBytes, hread]; rfl, hmove⟩
  | align => exact ⟨c.align, rfl, h.align⟩

/-- **Asking a cursor once is asking its position.** -/
theorem perform_of_isAt (h : IsAt input pos c) (op : Operation) :
    (op.perform c).1 = (op.performAt input pos).1 ∧
      IsAt input (op.performAt input pos).2 (op.perform c).2 := by
  cases hfault : op.fault? input pos with
  | some fault =>
    rw [performAt, hfault, perform_of_fault? h hfault]
    exact ⟨rfl, h⟩
  | none =>
    obtain ⟨c', hperform, hmove⟩ := perform_of_fault?_eq_none h hfault
    rw [performAt, hfault, hperform]
    exact ⟨rfl, hmove⟩

end Operation

theorem performAll_of_isAt (h : IsAt input pos c) (ops : List Operation) :
    (performAll c ops).1 = (performAllAt input pos ops).1 ∧
      IsAt input (performAllAt input pos ops).2 (performAll c ops).2 := by
  induction ops generalizing c pos with
  | nil => exact ⟨rfl, h⟩
  | cons op ops ih =>
    obtain ⟨hanswer, hat⟩ := Operation.perform_of_isAt h op
    obtain ⟨hanswers, hat'⟩ := ih hat
    exact ⟨List.cons_eq_cons.2 ⟨hanswer, hanswers⟩, hat'⟩

/-- **A cursor is a position in the bits of its input**, whatever it is asked:
it answers as the input does at that position, the bits ahead are those after
it, `left` is their number, and `taken` is the position in bytes, a begun one
counted. -/
theorem performAll_ofBytes (input : List UInt8) (ops : List Operation) :
    let (answers, c) := performAll (ofBytes input) ops
    let (answersAt, pos) := performAllAt input 0 ops
    answers = answersAt ∧ pos ≤ 8 * input.length ∧ c.ahead = (Bits.ofBytes input).drop pos ∧
      c.left = 8 * input.length - pos ∧ c.taken = (pos + 7) / 8 := by
  obtain ⟨hanswers, hat⟩ := performAll_of_isAt (.start input) ops
  exact ⟨hanswers, hat.pos_le, hat.ahead_eq, hat.left_eq, hat.taken_eq⟩

/-- A byte cannot be read inside a byte, and can be after aligning. -/
example : (performAll (ofBytes [0xA5, 0x7F]) [.bits 3, .byte, .align, .byte, .bit]).1 =
    [.ok (.number 5), .error .unaligned, .ok .done, .ok (.byte 0x7F), .error (.bytes .notEnough)] :=
  rfl

end BitCursor

end ProgramStream
