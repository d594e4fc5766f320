import ProgramStream.Proofs.Packet.TooShort
/-!
# Packets — the table of widths and what is read by it

`OptionalField.width` is a table of what each flagged field takes up, and the
parsers of the fields take it bit by bit, with choices of their own in between.
Both come to the same: an extension begins where the widths of the flagged
fields, its own flag byte left out, have been taken (`Fields.exists_extension`),
and behind its flag byte it takes what it has there (`Extension.contentLength`).

`parseFront` is a packet read up to the end of its optional fields and
`parseBack` the rest of it. In between the header data length is compared with
what was used, which is the widths in the table and what an extension has behind
its flag byte; so of the packets that come so far only one with an extension can
be refused for a length (`used_eq_requiredLength_add`).
-/

namespace ProgramStream

open ProgramStream.Parser ProgramStream.Parser.State

variable {s t : Parser.State}

namespace Parser

variable {α β : Type}

/-- Nothing comes after a fault. -/
theorem throw_bind (fault : Fault) (f : α → Parser β) :
    ((throw fault : Parser α) >>= f) = throw fault := rfl

/-- What comes after a choice comes after either side of it. -/
theorem ite_bind (c : Prop) [Decidable c] (p q : Parser α) (f : α → Parser β) :
    ((if c then p else q) >>= f) = if c then p >>= f else q >>= f := by
  split
  · rfl
  · rfl

end Parser

namespace Packet

/-! ## Extensions -/

namespace Extension

/-- What an extension has behind its flag byte, in bytes. -/
def contentLength (e : Extension) : Nat :=
  e.privateData.elim 0 List.length + e.packHeader.elim 0 (1 + ·.length) +
    2 * e.sequenceCounter.isSome.toNat + 2 * e.buffer.isSome.toNat +
    e.field.elim 0 (1 + ·.length)

theorem size_eq (e : Extension) : e.size = 1 + e.contentLength := by
  rw [size, contentLength]
  omega

/-- **An extension takes its flag byte and what it has behind it**, and takes
nothing if it is not there. -/
theorem taken_given {present : Bool} {e? : Option Extension} (hs : s.IsAligned)
    (h : Parser.given present parse s = .ok e? t) :
    t.cursor.taken = s.cursor.taken + present.toNat + e?.elim 0 contentLength := by
  rcases given_eq_ok_iff.1 h with ⟨rfl, e, rfl, hparse⟩ | ⟨rfl, rfl, rfl⟩
  · obtain ⟨-, reserved, htakes⟩ := (parse_eq_ok_iff hs).1 hparse
    rw [htakes.taken_eq (e.length_bits reserved), size_eq, Option.elim_some, Bool.toNat_true,
      Nat.add_assoc]
  · rfl

end Extension

/-! ## The optional fields -/

/-- **Where an extension begins**, the widths of the flagged fields have been
taken, all but that of its flag byte. -/
theorem Fields.exists_extension {streamId : UInt8} {flags : Flags} {f : Fields}
    (hs : s.IsAligned) (h : parse streamId flags s = .ok f t) :
    ∃ u : Parser.State, u.IsAligned ∧
      Parser.given flags.extension Extension.parse u = .ok f.extension t ∧
      u.cursor.taken + flags.extension.toNat = s.cursor.taken + flags.requiredLength := by
  obtain ⟨hvalid, fill, htakes⟩ := (parse_eq_ok_iff hs).1 h
  obtain ⟨u, hearly, hextension⟩ := takes_append_first_iff.1 htakes
  have hu : u.IsAligned := (hearly.isAligned_iff ⟨_, f.length_earlyBits fill⟩).2 hs
  refine ⟨u, hu, ?_, ?_⟩
  · exact (given_eq_ok_iff_of_fill fun _ _ => Extension.parse_eq_ok_iff hu).2
      ⟨hvalid.extension, hvalid.extension_isValid, _, hextension⟩
  · rw [hearly.taken_eq (f.length_earlyBits fill), requiredLength_eq hvalid, hvalid.extension,
      Nat.add_assoc]

/-! ## The packet in two parts -/

/-- A packet read up to the end of its optional fields. -/
structure Front where
  streamId : UInt8
  packetLength : UInt16
  header : Header
  fields : Fields
  /-- the bytes taken for the optional fields -/
  used : Nat
  deriving DecidableEq, Repr

/-- Reads a packet up to the end of its optional fields. -/
def parseFront : Parser Front := do
  let streamId ← parseStart
  let packetLength ← Parser.field16
  let declared := packetLength.toNat
  if declared < headerLength then throw (.tooShort declared headerLength)
  let header ← Header.parse
  let dataLength := header.dataLength.toNat
  let required := header.flags.requiredLength
  if dataLength < required then throw (.tooShort dataLength required)
  if declared < headerLength + dataLength then
    throw (.tooShort declared (headerLength + dataLength))
  let start ← Parser.taken
  let fields ← Fields.parse streamId header.flags
  let used := (← Parser.taken) - start
  return { streamId, packetLength, header, fields, used }

/-- Reads what a packet has behind its optional fields, if these fit its header. -/
def parseBack (f : Front) : Parser Packet := do
  let dataLength := f.header.dataLength.toNat
  if dataLength < f.used then throw (.tooShort dataLength f.used)
  Parser.skip (dataLength - f.used)
  let payload ← Parser.bytes (f.packetLength.toNat - headerLength - dataLength)
  return { streamId := f.streamId, packetLength := f.packetLength, header := f.header,
           fields := f.fields, payload }

/-- **A packet is read in these two parts.** -/
theorem parse_eq_bind : parse = parseFront >>= parseBack := by
  simp only [parse, parseFront, parseBack, bind_assoc, pure_bind, throw_bind, ite_bind]

variable {f : Front}

/-- The optional fields begin at a byte boundary, behind a header that has room for
the widths of those that are flagged. -/
theorem exists_fields_of_parseFront (h : parseFront s = .ok f t) :
    f.header.flags.requiredLength ≤ f.header.dataLength.toNat ∧
      ∃ u : Parser.State, u.IsAligned ∧
        Fields.parse f.streamId f.header.flags u = .ok f.fields t ∧
        f.used = t.cursor.taken - u.cursor.taken := by
  simp only [parseFront, bind_eq_ok_iff, ite_eq_ok_iff, throw_eq_ok_iff, Header.parse_eq_ok_iff,
    taken_eq_ok_iff, pure_eq_ok_iff, false_and, exists_false, and_false, false_or] at h
  obtain ⟨_, _, -, _, _, -, -, header, u, ⟨haligned, htakes⟩, hroom, -, _, _, ⟨rfl, rfl⟩, _, _,
    hfields, _, _, ⟨rfl, rfl⟩, rfl, rfl⟩ := h
  refine ⟨Nat.not_lt.1 hroom, _, ?_, hfields, rfl⟩
  exact (htakes.isAligned_iff ⟨_, header.length_bits⟩).2 haligned

/-- Behind the optional fields a length is at fault only if the fields do not fit
the header. -/
theorem parseBack_eq_tooShort_iff :
    (∃ declared required u, parseBack f t = .error (.tooShort declared required) u) ↔
      f.header.dataLength.toNat < f.used := by
  constructor
  · rintro ⟨declared, required, u, h⟩
    by_contra hfits
    simp only [parseBack] at h
    rw [if_neg hfits] at h
    have hread : ∀ n m : Nat, ((do
        Parser.skip n
        let payload ← Parser.bytes m
        return { streamId := f.streamId, packetLength := f.packetLength, header := f.header,
                 fields := f.fields, payload }) : Parser Packet).ReadsFields := by
      intro n m
      unfold Parser.skip
      infer_instance
    cases (hread _ _).isOfField h
  · intro hshort
    refine ⟨f.header.dataLength.toNat, f.used, t, ?_⟩
    simp only [parseBack]
    rw [if_pos hshort]
    rfl

/-- **What a packet has used when its optional fields are read** is the widths of
the flagged fields and, with an extension, what that has behind its flag byte. So
it is no less than the widths, it is just them without an extension, and it is
more than the header data length, for which alone a length is at fault from here
on, only with an extension. -/
theorem used_eq_requiredLength_add (h : parseFront s = .ok f t) :
    let flags := f.header.flags
    let content := f.fields.extension.elim 0 Extension.contentLength
    (∃ u, Parser.given flags.extension Extension.parse u = .ok f.fields.extension t ∧
        t.cursor.taken = u.cursor.taken + flags.extension.toNat + content) ∧
      f.used = flags.requiredLength + content ∧
      flags.requiredLength ≤ f.used ∧
      (flags.extension = false → f.used = flags.requiredLength) ∧
      parse s = parseBack f t ∧
      ((∃ declared required u, parse s = .error (.tooShort declared required) u) ↔
        f.header.dataLength.toNat < f.used) ∧
      (f.header.dataLength.toNat < f.used →
        flags.extension = true) := by
  intro flags content
  obtain ⟨hroom, start, hstart, hfields, hused⟩ := exists_fields_of_parseFront h
  obtain ⟨u, hu, hgiven, hbegin⟩ := Fields.exists_extension hstart hfields
  have hend := Extension.taken_given hu hgiven
  have hsum : f.used = flags.requiredLength + content := by
    rw [hused, hend, hbegin, Nat.add_assoc, Nat.add_sub_cancel_left]
  have hbare (hflag : flags.extension = false) : f.used = flags.requiredLength := by
    have hnone : f.fields.extension = none := by
      rcases given_eq_ok_iff.1 hgiven with ⟨hset, -⟩ | ⟨-, hnone, -⟩
      · exact absurd (hflag.symm.trans hset) Bool.false_ne_true
      · exact hnone
    simp only [hsum, content, hnone, Option.elim_none, Nat.add_zero]
  have hparse : parse s = parseBack f t := by
    rw [parse_eq_bind, bind_of_ok h]
  refine ⟨⟨u, hgiven, hend⟩, hsum, hsum ▸ Nat.le_add_right _ _, hbare, hparse, ?_, ?_⟩
  · rw [hparse]
    exact parseBack_eq_tooShort_iff
  · intro hshort
    by_contra hflag
    rw [hbare (Bool.eq_false_iff.2 hflag)] at hshort
    exact Nat.not_lt.2 hroom hshort

/-- A packet whose extension has a sequence counter that its header data length
leaves out: the flags ask for one byte, and three are used. -/
theorem parse_uncountedCounter :
    let start := State.ofBytes
      [0x00, 0x00, 0x01, 0xE0, 0x00, 0x04, 0x80, 0x01, 0x01, 0x20, 0x81, 0x80]
    let header : Header := ⟨0, false, false, false, false,
      ⟨0b00, false, false, false, false, false, true⟩, 1⟩
    let counter : Extension := ⟨none, none, some ⟨1, false, 0⟩, none, none⟩
    let f : Front := ⟨0xE0, 4, header, ⟨none, none, none, none, none, none, none, some counter⟩, 3⟩
    let t : Parser.State := ⟨⟨[], [], 12, by decide⟩, #[]⟩
    parseFront start = .ok f t ∧ f.used = header.flags.requiredLength + counter.contentLength ∧
      header.flags.requiredLength = 1 ∧
      ∃ declared required u, parse start = .error (.tooShort declared required) u := by
  intro start header counter f t
  have hfront : parseFront start = .ok f t := rfl
  obtain ⟨-, hsum, -, -, -, hfault, -⟩ := used_eq_requiredLength_add hfront
  exact ⟨hfront, hsum, by decide, hfault.2 (by decide)⟩

end Packet

end ProgramStream
