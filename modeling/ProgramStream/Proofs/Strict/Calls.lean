import ProgramStream.Proofs.Strict.Packet
import ProgramStream.Proofs.Strict.Section
/-!
# Strict calls — one after the other, whatever fails

A buffer and a cursor are asked for bytes, bits, units and tables in any
order. Each call goes on from where the one before stopped, also if it
failed: inside a byte, or in the middle of a unit. As no strict parser slips
from any state (`Strict.Implements.run_eq`), no call does, and then no
sequence of calls (`performAllStrict_eq`).
-/

namespace ProgramStream

open Parser.State Strict

/-! ## Runs -/

namespace Strict

variable {α : Type} {P Q : Parser.State → Prop} {q : Strict α} {p : Parser α}

/-- Runs a strict parser at a cursor. It reports what a parser does, unless it
slips. -/
def run (q : Strict α) (c : BitCursor) : Except Slip (Parser.Outcome α) :=
  match EStateM.run q { cursor := c } with
  | .ok a s => .ok ⟨.ok a, s.cursor, s.warnings⟩
  | .error (.slip slip) _ => .error slip
  | .error (.refused _ fault) s => .ok ⟨.error (.ofBits fault), s.cursor, s.warnings⟩
  | .error (.thrown fault) s => .ok ⟨.error fault, s.cursor, s.warnings⟩

/-- **A run does not slip**, from any cursor. -/
theorem Implements.run_eq (h : Implements 0 P Q q p) (c : BitCursor) : q.run c = .ok (p.run c) := by
  have hs := h { cursor := c } (Nat.zero_le _)
  unfold Strict.run Parser.run EStateM.run
  generalize q { cursor := c } = q' at hs
  generalize p { cursor := c } = p' at hs
  cases hs with
  | ok => rfl
  | @error stop fault t hfault hfair =>
    cases stop with
    | slip slip => cases hfault -- a parser has no fault for it
    | refused op fault' =>
      cases hfault
      rfl
    | thrown fault' =>
      cases hfault
      rfl

/-- An operation that names itself is the operation, wherever it is asked. -/
theorem implements_ofCursor (op : BitCursor.Operation)
    (read : BitCursor → Except BitFault (α × BitCursor)) :
    Implements 0 IsNowhere IsNowhere (Strict.ofCursor op read) (Parser.ofCursor read) := by
  intro s _
  unfold Strict.ofCursor Parser.ofCursor
  cases read s.cursor with
  | ok r => exact .ok (Nat.zero_le _) False.elim
  | error fault => exact .error rfl False.elim

end Strict

/-! ## Buffers -/

namespace ByteBuffer

variable {α : Type} {b : ByteBuffer} {n : Nat}

/-- An operation that wants `n` bytes. Once they are there, `cut` has its
result. -/
def whole (n : Nat) (cut : List UInt8 → Except Slip α) (b : ByteBuffer) :
    Except Slip (Except ByteFault α) :=
  if b.size < n then .ok (.error .notEnough) else .ok <$> cut b.content

/-- Removes `n` bytes from the front. -/
def takeStrict (n : Nat) : ByteBuffer → Except Slip (Except ByteFault (List UInt8 × ByteBuffer)) :=
  whole n fun content => do
    let (front, rest) ← Slip.splitAt n content
    return (front, ⟨rest⟩)

/-- The first `n` bytes, left in place. -/
def peekStrict (n : Nat) : ByteBuffer → Except Slip (Except ByteFault (List UInt8)) :=
  whole n fun content => Slip.slice content 0 n

/-- Drops `n` bytes from the front. -/
def skipStrict (n : Nat) : ByteBuffer → Except Slip (Except ByteFault (Unit × ByteBuffer)) :=
  whole n fun content => do
    let (_, rest) ← Slip.splitAt n content
    return ((), ⟨rest⟩)

/-- Removes a word of `count` bytes from the front: it is looked at, and then
its bytes are dropped. -/
def wordStrict (order : ByteOrder) (count : Nat) :
    ByteBuffer → Except Slip (Except ByteFault (Nat × ByteBuffer)) :=
  whole count fun content => do
    let front ← Slip.slice content 0 count
    let (_, rest) ← Slip.splitAt count content
    return (order.value front, ⟨rest⟩)

/-- The word of `count` bytes at the front, left in place. -/
def peekWordStrict (order : ByteOrder) (count : Nat) :
    ByteBuffer → Except Slip (Except ByteFault Nat) :=
  whole count fun content => do
    let front ← Slip.slice content 0 count
    return order.value front

/-- Runs a strict parser of whole bytes at the front of a buffer. -/
def parseStrict (q : Strict α) (b : ByteBuffer) : Except Slip (Except Fault α × ByteBuffer) := do
  let outcome ← q.run (BitCursor.ofBytes b.content)
  return (outcome.result, ⟨outcome.cursor.bytes⟩)

/-- **Bytes that are there can be cut.** -/
theorem whole_eq {cut : List UInt8 → Except Slip α} {g : List UInt8 × ByteBuffer → α}
    (hcut : n ≤ b.content.length → cut b.content = .ok (g (b.content.take n, ⟨b.content.drop n⟩))) :
    b.whole n cut = .ok ((b.take n).map g) := by
  unfold whole
  by_cases hlt : b.size < n
  · rw [if_pos hlt, take_eq_error_iff.2 ⟨rfl, hlt⟩]
    rfl
  · have hle : n ≤ b.content.length := Nat.not_lt.1 hlt
    have htake : b.take n = .ok (b.content.take n, ⟨b.content.drop n⟩) :=
      take_eq_ok_iff.2 ⟨(List.take_append_drop n b.content).symm, List.length_take_of_le hle⟩
    rw [if_neg hlt, hcut hle, htake]
    rfl

theorem takeStrict_eq (n : Nat) (b : ByteBuffer) : b.takeStrict n = .ok (b.take n) := by
  have htake : (b.take n).map id = b.take n := by cases b.take n <;> rfl
  rw [← htake]
  refine whole_eq fun hle => ?_
  rw [Slip.splitAt_of_le hle]
  rfl

theorem peekStrict_eq (n : Nat) (b : ByteBuffer) : b.peekStrict n = .ok (b.peek n) :=
  whole_eq fun hle => Slip.slice_of_le (Nat.zero_le n) hle

theorem skipStrict_eq (n : Nat) (b : ByteBuffer) : b.skipStrict n = .ok (b.skip n) := by
  refine whole_eq fun hle => ?_
  rw [Slip.splitAt_of_le hle]
  rfl

theorem wordStrict_eq (order : ByteOrder) (count : Nat) (b : ByteBuffer) :
    b.wordStrict order count = .ok (b.word order count) := by
  refine whole_eq fun hle => ?_
  rw [Slip.slice_of_le (Nat.zero_le count) hle, Slip.splitAt_of_le hle]
  rfl

theorem peekWordStrict_eq (order : ByteOrder) (count : Nat) (b : ByteBuffer) :
    b.peekWordStrict order count = .ok (b.peekWord order count) := by
  have hpeek : b.peekWord order count = (b.take count).map fun r => order.value r.1 := by
    unfold peekWord word
    cases b.take count <;> rfl
  rw [hpeek]
  refine whole_eq fun hle => ?_
  rw [Slip.slice_of_le (Nat.zero_le count) hle]
  rfl

theorem parseStrict_eq {P Q : Parser.State → Prop} {q : Strict α} {p : Parser α}
    (h : Implements 0 P Q q p) (b : ByteBuffer) : parseStrict q b = .ok (parse p b) := by
  rw [parseStrict, h.run_eq]
  rfl

/-- What can be asked of a buffer. -/
inductive Call where
  | extend (bytes : List UInt8)
  | take (count : Nat)
  | peek (count : Nat)
  | skip (count : Nat)
  /-- a word of so many bytes -/
  | word (order : ByteOrder) (count : Nat)
  | peekWord (order : ByteOrder) (count : Nat)
  | byteAt (index : Nat)
  | drain
  | association
  | programMap

/-- What a call gives. -/
inductive Answer where
  | done
  | bytes (bs : List UInt8)
  | number (n : Nat)
  | byte (b : UInt8)
  | association (r : Except Fault Section.Association)
  | programMap (r : Except Fault Section.ProgramMap)
  | refused (fault : ByteFault)

/-- The answer of a read, and the buffer to go on with: a read that fails
leaves the one there was. -/
def settle (b : ByteBuffer) (f : α → Answer) :
    Except ByteFault (α × ByteBuffer) → Answer × ByteBuffer
  | .ok (a, b') => (f a, b')
  | .error fault => (.refused fault, b)

/-- The answer of a look, which leaves the buffer as it is. -/
def report (b : ByteBuffer) (f : α → Answer) : Except ByteFault α → Answer × ByteBuffer
  | .ok a => (f a, b)
  | .error fault => (.refused fault, b)

namespace Call

/-- Asks a buffer. -/
def perform (b : ByteBuffer) : Call → Answer × ByteBuffer
  | .extend bytes => (.done, b.extend bytes)
  | .take n => b.settle .bytes (b.take n)
  | .peek n => b.report .bytes (b.peek n)
  | .skip n => b.settle (fun _ => .done) (b.skip n)
  | .word order count => b.settle .number (b.word order count)
  | .peekWord order count => b.report .number (b.peekWord order count)
  | .byteAt i => b.report .byte (b.byteAt i)
  | .drain => (.bytes b.drain.1, b.drain.2)
  | .association => (parse Section.Association.parse b).map .association id
  | .programMap => (parse Section.ProgramMap.parse b).map .programMap id

/-- Asks a buffer strictly. -/
def performStrict (b : ByteBuffer) : Call → Except Slip (Answer × ByteBuffer)
  | .extend bytes => return (.done, b.extend bytes)
  | .take n => do return b.settle .bytes (← b.takeStrict n)
  | .peek n => do return b.report .bytes (← b.peekStrict n)
  | .skip n => do return b.settle (fun _ => .done) (← b.skipStrict n)
  | .word order count => do return b.settle .number (← b.wordStrict order count)
  | .peekWord order count => do return b.report .number (← b.peekWordStrict order count)
  | .byteAt i => return b.report .byte (b.byteAt i)
  | .drain => return (.bytes b.drain.1, b.drain.2)
  | .association => do return (← parseStrict Section.Association.parseStrict b).map .association id
  | .programMap => do return (← parseStrict Section.ProgramMap.parseStrict b).map .programMap id

/-- **No call slips**, on any buffer. -/
theorem performStrict_eq (b : ByteBuffer) (call : Call) :
    call.performStrict b = .ok (call.perform b) := by
  cases call with
  | extend bytes => rfl
  | take n => rw [performStrict, takeStrict_eq]; rfl
  | peek n => rw [performStrict, peekStrict_eq]; rfl
  | skip n => rw [performStrict, skipStrict_eq]; rfl
  | word order count => rw [performStrict, wordStrict_eq]; rfl
  | peekWord order count => rw [performStrict, peekWordStrict_eq]; rfl
  | byteAt i => rfl
  | drain => rfl
  | association => rw [performStrict, parseStrict_eq Section.Association.implements_parse]; rfl
  | programMap => rw [performStrict, parseStrict_eq Section.ProgramMap.implements_parse]; rfl

end Call

/-- Asks a buffer one thing after the other, whatever fails. -/
def performAll (b : ByteBuffer) : List Call → List Answer × ByteBuffer
  | [] => ([], b)
  | call :: calls =>
    let (answer, b₁) := call.perform b
    let (answers, b₂) := performAll b₁ calls
    (answer :: answers, b₂)

/-- Asks a buffer strictly, one thing after the other. -/
def performAllStrict (b : ByteBuffer) : List Call → Except Slip (List Answer × ByteBuffer)
  | [] => return ([], b)
  | call :: calls => do
    let (answer, b₁) ← call.performStrict b
    let (answers, b₂) ← performAllStrict b₁ calls
    return (answer :: answers, b₂)

/-- **No sequence of calls slips**, on any buffer. -/
theorem performAllStrict_eq (b : ByteBuffer) (calls : List Call) :
    b.performAllStrict calls = .ok (b.performAll calls) := by
  induction calls generalizing b with
  | nil => rfl
  | cons call calls ih =>
    simp only [performAllStrict, performAll, call.performStrict_eq, ih, bind, Except.bind, pure,
      Except.pure]

end ByteBuffer

/-! ## Cursors -/

namespace BitCursor

/-- What can be asked of a cursor: an operation, or one of the parsers. -/
inductive Call where
  | ask (op : Operation)
  | marker (name : String)
  | timestamp
  /-- a timestamp with a given code -/
  | timestampOf (code : Nat)
  | clock (name : String)
  | packHeader
  | systemHeader
  | streamMap
  | packet

/-- What a call gives, if it does not fail. -/
inductive Value where
  | answer (a : Answer)
  | timestamp (t : Timestamp)
  | clock (c : ClockReference)
  | packHeader (h : PackHeader)
  | systemHeader (h : SystemHeader)
  | streamMap (m : StreamMap)
  | packet (p : Packet)

namespace Operation

/-- An operation as a parser. -/
def parser : Operation → Parser Answer
  | .bit => .bit <$> Parser.ofCursor readBit
  | .bits n => .number <$> Parser.ofCursor (readBits n)
  | .byte => .byte <$> Parser.byte
  | .bytes n => .bytes <$> Parser.bytes n
  | .peek n => .bytes <$> Parser.peek n
  | .skip n => (fun _ => .done) <$> Parser.skip n
  | .align => fun s => .ok .done { s with cursor := s.cursor.align }

/-- An operation as a strict parser. -/
def strict : Operation → Strict Answer
  | .bit => .bit <$> Strict.bit
  | .bits n => .number <$> Strict.bits n
  | .byte => .byte <$> Strict.byte
  | .bytes n => .bytes <$> Strict.bytes n
  | .peek n => .bytes <$> Strict.peek n
  | .skip n => (fun _ => .done) <$> Strict.skip n
  | .align => fun s => .ok .done { s with cursor := s.cursor.align }

theorem implements (op : Operation) : Implements 0 IsNowhere IsNowhere op.strict op.parser := by
  cases op with
  | bit =>
    rw [strict, bit_eq]
    exact (implements_ofCursor _ _).map _
  | bits n =>
    rw [strict, bits_eq]
    exact (implements_ofCursor _ _).map _
  | byte =>
    rw [strict, byte_eq]
    exact (implements_ofCursor _ _).map _
  | bytes n =>
    rw [strict, bytes_eq]
    exact (implements_ofCursor _ _).map _
  | peek n =>
    rw [strict, peek_eq]
    exact (implements_ofCursor _ _).map _
  | skip n =>
    rw [strict, skip_eq]
    exact (implements_ofCursor _ _).map _
  | align => exact fun _ _ => .ok (Nat.zero_le _) False.elim

end Operation

namespace Call

/-- A call as a parser. -/
def parser : Call → Parser Value
  | .ask op => .answer <$> op.parser
  | .marker name => (fun _ => .answer .done) <$> Parser.marker name
  | .timestamp => .timestamp <$> Timestamp.parse
  | .timestampOf code => .timestamp <$> Timestamp.parseCode code
  | .clock name => .clock <$> ClockReference.parse name
  | .packHeader => .packHeader <$> PackHeader.parse
  | .systemHeader => .systemHeader <$> SystemHeader.parse
  | .streamMap => .streamMap <$> StreamMap.parse
  | .packet => .packet <$> Packet.parse

/-- A call as a strict parser. -/
def strict : Call → Strict Value
  | .ask op => .answer <$> op.strict
  | .marker name => (fun _ => .answer .done) <$> Strict.marker name
  | .timestamp => .timestamp <$> Timestamp.parseStrict
  | .timestampOf code => .timestamp <$> Timestamp.parseCodeStrict code
  | .clock name => .clock <$> ClockReference.parseStrict name
  | .packHeader => .packHeader <$> PackHeader.parseStrict
  | .systemHeader => .systemHeader <$> SystemHeader.parseStrict
  | .streamMap => .streamMap <$> StreamMap.parseStrict
  | .packet => .packet <$> Packet.parseStrict

theorem implements (call : Call) : Implements 0 IsNowhere IsNowhere call.strict call.parser := by
  cases call with
  | ask op => exact op.implements.map _
  | marker name => exact (Implements.marker (m := 0) name).nowhere.map _
  | timestamp => exact (Timestamp.implements_parse (m := 0)).nowhere.map _
  | timestampOf code => exact (Timestamp.implements_parseCode (m := 0) code).nowhere.map _
  | clock name => exact (ClockReference.implements_parse (m := 0) name).nowhere.map _
  | packHeader => exact PackHeader.implements_parse.nowhere.map _
  | systemHeader => exact SystemHeader.implements_parse.nowhere.map _
  | streamMap => exact StreamMap.implements_parse.nowhere.map _
  | packet => exact Packet.implements_parse.nowhere.map _

end Call

/-- Calls parsers one after the other, each at the cursor that the one before
left. -/
def callAll (c : BitCursor) : List Call → List (Parser.Outcome Value)
  | [] => []
  | call :: calls =>
    let outcome := call.parser.run c
    outcome :: callAll outcome.cursor calls

/-- Calls strict parsers one after the other. -/
def callAllStrict (c : BitCursor) : List Call → Except Slip (List (Parser.Outcome Value))
  | [] => return []
  | call :: calls => do
    let outcome ← call.strict.run c
    let outcomes ← callAllStrict outcome.cursor calls
    return outcome :: outcomes

/-- **No sequence of calls slips**, at any cursor. -/
theorem callAllStrict_eq (c : BitCursor) (calls : List Call) :
    c.callAllStrict calls = .ok (c.callAll calls) := by
  induction calls generalizing c with
  | nil => rfl
  | cons call calls ih =>
    simp only [callAllStrict, callAll, call.implements.run_eq, ih, bind, Except.bind, pure,
      Except.pure]

end BitCursor

/-- **Nothing that is asked of a buffer or a cursor slips**, in whatever order
it is asked, whatever of it fails and wherever that leaves the buffer or the
cursor: every difference, index, split and narrowing on the way has its value,
and what it comes to is what the calls come to. -/
theorem calls_do_not_slip :
    (∀ (b : ByteBuffer) (calls : List ByteBuffer.Call),
      b.performAllStrict calls = .ok (b.performAll calls)) ∧
    ∀ (c : BitCursor) (calls : List BitCursor.Call),
      c.callAllStrict calls = .ok (c.callAll calls) :=
  ⟨ByteBuffer.performAllStrict_eq, BitCursor.callAllStrict_eq⟩

end ProgramStream
