import ProgramStream.Proofs.Strict.Packet
import ProgramStream.Proofs.Strict.StreamMap
/-!
# Byte boundaries — where parsers begin and end

Whole bytes can only be read between two bytes, and a parser that came to
them inside one would fail for a reason that is not in its input. A parser of
a unit that begins at a byte boundary is never there: each of its fields, of
its optional parts and of its entries adds up to whole bytes, whatever is
selected (`Strict.Implements`). So it ends at a boundary with a value, or
with a fault it found in what it read, or where more was wanted than was
left.
-/

namespace ProgramStream

open Parser.State Strict

/-- **How a parser of a unit ends**, and the strict parser with it. -/
inductive EndsFairly {α : Type} :
    EStateM.Result Stop Parser.State α → Parser.Outcome α → Prop
  /-- with a value, at a byte boundary -/
  | value {a : α} {s : Parser.State} (h : s.cursor.pending = []) :
      EndsFairly (.ok a s) ⟨.ok a, s.cursor, s.warnings⟩
  /-- with a fault in what it has read -/
  | found {fault : Fault} {s : Parser.State} (h : fault.IsFound) :
      EndsFairly (.error (.thrown fault) s) ⟨.error fault, s.cursor, s.warnings⟩
  /-- at an operation that wants more bits than are left -/
  | truncated {op : BitCursor.Operation} {s : Parser.State} (h : s.cursor.left < op.width) :
      EndsFairly (.error (.refused op (.bytes .notEnough)) s)
        ⟨.error .truncated, s.cursor, s.warnings⟩

/-- A strict parser that is made for byte boundaries ends fairly from one. -/
theorem Strict.Implements.endsFairly {α : Type} {q : Strict α} {p : Parser α}
    (h : Implements 0 (IsPast 0) (IsPast 0) q p) {c : BitCursor} (hc : c.pending = []) :
    EndsFairly (q { cursor := c }) (p.run c) := by
  have hstart : IsPast 0 { cursor := c } := isPast_zero_iff.2 hc
  have hs := h { cursor := c } (Nat.zero_le _)
  unfold Parser.run EStateM.run
  generalize q { cursor := c } = q' at hs
  generalize p { cursor := c } = p' at hs
  cases hs with
  | ok _ hplace => exact .value (isPast_zero_iff.1 (hplace hstart))
  | error hfault hfair =>
    cases hfair hstart with
    | thrown hfound =>
      cases hfault
      exact .found hfound
    | refused hleft =>
      cases hfault
      exact .truncated hleft

/-- **From every byte boundary the parsers of units end fairly**, whatever
bytes are ahead. -/
theorem endsFairly_of_pending {c : BitCursor} (hc : c.pending = []) :
    EndsFairly (PackHeader.parseStrict { cursor := c }) (PackHeader.parse.run c) ∧
      EndsFairly (SystemHeader.parseStrict { cursor := c }) (SystemHeader.parse.run c) ∧
      EndsFairly (StreamMap.parseStrict { cursor := c }) (StreamMap.parse.run c) ∧
      EndsFairly (Packet.parseStrict { cursor := c }) (Packet.parse.run c) ∧
      EndsFairly (Timestamp.parseStrict { cursor := c }) (Timestamp.parse.run c) :=
  ⟨PackHeader.implements_parse.endsFairly hc, SystemHeader.implements_parse.endsFairly hc,
    StreamMap.implements_parse.endsFairly hc, Packet.implements_parse.endsFairly hc,
    Timestamp.implements_parse.endsFairly hc⟩

/-- A packet with a trick mode alone ends with a value where its bytes do. -/
theorem endsFairly_of_trick_mode_packet :
    let c := BitCursor.ofBytes [0x00, 0x00, 0x01, 0xE0, 0x00, 0x04, 0x80, 0x08, 0x01, 0x40]
    c.pending = [] ∧ EndsFairly (Packet.parseStrict { cursor := c }) (Packet.parse.run c) ∧
      (Packet.parse.run c).result.toOption.bind (·.fields.trickMode) = some (.freeze 0) ∧
      (Packet.parse.run c).cursor.left = 0 :=
  ⟨rfl, (endsFairly_of_pending rfl).2.2.2.1, rfl, rfl⟩

end ProgramStream
