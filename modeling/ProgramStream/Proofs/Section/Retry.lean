import ProgramStream.Proofs.Incremental
import ProgramStream.Proofs.Section.Checked
/-!
# Sections — reading again when more has come in

A table that is refused before its section is read leaves the buffer as it
was. So a reader may be called after each piece that comes in: as long as the
section is not all there, be it cut within its length, the reader runs out of
input and keeps what it has (`Reading.eq_truncated`), and with the piece that
completes the section it makes of it what it makes of the whole
(`readEach_of_front`).
-/

namespace ProgramStream

open ProgramStream.Parser ProgramStream.Parser.State

namespace Section

/-- Extends a buffer by each of some pieces, and reads a table of a kind after
each. Each result is returned with what was left in the buffer then. -/
def Table.Kind.readEach (kind : Kind) :
    ByteBuffer → List (List UInt8) → List (Except Fault Table × ByteBuffer)
  | _, [] => []
  | b, piece :: pieces =>
    kind.read (b.extend piece) :: kind.readEach (kind.read (b.extend piece)).2 pieces

variable {α : Type} {b : ByteBuffer} {r : Except Fault α × ByteBuffer} {kind : Table.Kind}
  {t : Table} {bytes front rest last : List UInt8} {pieces : List (List UInt8)}

namespace Reading

/-- **What is refused for its extent or its checksum stays.** -/
theorem eq_of_error {fault : Fault} (h : Reading b r) (herror : r.1 = .error fault)
    (hfault : fault = .truncated ∨ ∃ carried computed, fault = .checksum carried computed) :
    r.2 = b := by
  cases h with
  | truncated _ => rfl
  | refused _ _ => rfl
  | malformed _ _ =>
    cases herror
    rcases hfault with hfault | ⟨_, _, hfault⟩ <;> cases hfault
  | ok _ _ => cases herror

/-- A section that is not all there is known to be so. -/
theorem eq_truncated (h : Reading b r) (hshort : b.size < wholeLength b.content) :
    r = (.error .truncated, b) := by
  cases h with
  | truncated _ => rfl
  | refused h _ => exact absurd hshort (Nat.not_lt.2 h)
  | malformed h _ => exact absurd hshort (Nat.not_lt.2 h)
  | ok h _ => exact absurd hshort (Nat.not_lt.2 h)

/-- A section that is read and leaves nothing is as long as it states. -/
theorem length_eq_wholeLength {a : α} (h : Reading ⟨bytes⟩ (.ok a, {})) :
    bytes.length = wholeLength bytes := by
  generalize hr : ((.ok a, {}) : Except Fault α × ByteBuffer) = r at h
  cases h with
  | truncated _ => cases hr
  | refused _ _ => cases hr
  | malformed _ _ => cases hr
  | ok h _ =>
    have hleft : bytes.drop (wholeLength bytes) = [] := (congrArg (·.2.content) hr).symm
    exact Nat.le_antisymm (List.drop_eq_nil_iff.1 hleft) h

end Reading

/-- The length is stated by the third byte at the latest. -/
theorem lt_wholeLength_of_front (h : front <+: bytes) (hlt : front.length < wholeLength bytes) :
    front.length < wholeLength front := by
  rcases Nat.lt_or_ge front.length prologueLength with hhead | hhead
  · exact Nat.lt_of_lt_of_le hhead (Nat.le_add_right _ _)
  · obtain ⟨back, rfl⟩ := h
    have hstated : statedLength (front ++ back) = statedLength front := by
      have hlong : 2 ≤ (front.drop 1).length := by
        rw [List.length_drop]
        exact Nat.le_sub_of_add_le hhead
      rw [statedLength, wordAt, List.drop_append_of_le_length (Nat.le_trans (by decide) hhead),
        List.take_append_of_le_length hlong]
      rfl
    rwa [wholeLength, hstated] at hlt

/-- Unless it runs out of input, a reader makes the same of a buffer with more
behind it. -/
theorem Table.Kind.read_extend (h : (kind.read b).1 ≠ .error .truncated) (more : List UInt8) :
    kind.read (b.extend more) = ((kind.read b).1, (kind.read b).2.extend more) := by
  cases kind with
  | association =>
    have hparse : (b.parse Association.parse).1 ≠ .error .truncated := by
      intro hshort
      exact h (congrArg (Except.map Table.association) hshort)
    have hextend :=
      (ByteBuffer.isIncremental Association.isBuilt_parse.isStable).parse_extend b more
    exact congrArg (Prod.map (Except.map Table.association) id) (hextend hparse)
  | programMap =>
    have hparse : (b.parse ProgramMap.parse).1 ≠ .error .truncated := by
      intro hshort
      exact h (congrArg (Except.map Table.programMap) hshort)
    have hextend := (ByteBuffer.isIncremental ProgramMap.isBuilt_parse.isStable).parse_extend b more
    exact congrArg (Prod.map (Except.map Table.programMap) id) (hextend hparse)

/-- **Part of a section is kept as it is.** -/
theorem read_of_front (h : kind.read ⟨bytes⟩ = (.ok t, {})) (hfront : front <+: bytes)
    (hlt : front.length < bytes.length) :
    kind.read ⟨front⟩ = (.error .truncated, ⟨front⟩) := by
  have hwhole : bytes.length = wholeLength bytes :=
    Reading.length_eq_wholeLength (h ▸ kind.reading ⟨bytes⟩)
  have hpart : front.length < wholeLength front := lt_wholeLength_of_front hfront (hwhole ▸ hlt)
  exact (kind.reading ⟨front⟩).eq_truncated hpart

/-- **All of it is read**, whatever is behind it. -/
theorem read_append (h : kind.read ⟨bytes⟩ = (.ok t, {})) (rest : List UInt8) :
    kind.read ⟨bytes ++ rest⟩ = (.ok t, ⟨rest⟩) := by
  have hvalue : (kind.read ⟨bytes⟩).1 ≠ .error .truncated := by simp [h]
  have hextend := Table.Kind.read_extend hvalue rest
  rw [h] at hextend
  exact hextend

/-- From a buffer that has the front of a section, piece by piece. -/
theorem readEach_of_front (h : kind.read ⟨bytes⟩ = (.ok t, {}))
    (hcut : front ++ (pieces.flatten ++ last) = bytes ++ rest)
    (hshort : front.length + pieces.flatten.length < bytes.length) :
    kind.readEach ⟨front⟩ (pieces ++ [last]) =
      (List.range pieces.length).map
          (fun i => (.error .truncated, ⟨front ++ (pieces.take (i + 1)).flatten⟩)) ++
        [(.ok t, ⟨rest⟩)] := by
  induction pieces generalizing front with
  | nil =>
    change [kind.read ⟨front ++ last⟩] = _
    rw [show front ++ last = bytes ++ rest from hcut, read_append h]
    rfl
  | cons piece pieces ih =>
    rw [List.flatten_cons, List.length_append] at hshort
    rw [List.flatten_cons, List.append_assoc, ← List.append_assoc] at hcut
    have hlt : (front ++ piece).length < bytes.length := by
      rw [List.length_append]
      omega
    have hfront : front ++ piece <+: bytes :=
      List.prefix_of_prefix_length_le ⟨_, hcut⟩ ⟨rest, rfl⟩ hlt.le
    have hread : kind.read ((⟨front⟩ : ByteBuffer).extend piece) =
        (.error .truncated, ⟨front ++ piece⟩) := read_of_front h hfront hlt
    have hrest := ih hcut (by rw [List.length_append]; omega)
    rw [List.cons_append, Table.Kind.readEach, hread, hrest, List.length_cons,
      List.range_succ_eq_map, List.map_cons, List.map_map, List.cons_append]
    simp [Function.comp_def]

/-- **Reading a table can be tried again.** A reader that runs out of input,
or finds another checksum, leaves the buffer as it was, whatever the buffer
holds. So of a section that can be read, coming in by pieces of any length:
each call before the piece that completes it runs out of input with every
byte so far still there, and the call after that piece has the table of the
whole section, and leaves what came behind it. -/
theorem readEach_pieces (kind : Table.Kind) :
    (∀ (b b' : ByteBuffer) (fault : Fault), kind.read b = (.error fault, b') →
      (fault = .truncated ∨ ∃ carried computed, fault = .checksum carried computed) → b' = b) ∧
    (∀ (bytes rest last : List UInt8) (pieces : List (List UInt8)) (t : Table),
      kind.read ⟨bytes⟩ = (.ok t, {}) → pieces.flatten ++ last = bytes ++ rest →
      pieces.flatten.length < bytes.length →
      kind.readEach {} (pieces ++ [last]) =
        (List.range pieces.length).map
            (fun i => (.error .truncated, ⟨(pieces.take (i + 1)).flatten⟩)) ++
          [(.ok t, ⟨rest⟩)]) := by
  constructor
  · intro b b' fault hread hfault
    have hreading := kind.reading b
    rw [hread] at hreading
    exact hreading.eq_of_error rfl hfault
  · intro bytes rest last pieces t hread hcut hshort
    have hlt : ([] : List UInt8).length + pieces.flatten.length < bytes.length := by
      simpa using hshort
    exact readEach_of_front hread hcut hlt

/-- An association section of one program. -/
def sampleSection : List UInt8 :=
  [0x00, 0xB0, 0x0D, 0x00, 0x01, 0xC1, 0x00, 0x00, 0x00, 0x01, 0xF0, 0x01, 0x2E, 0x70, 0x19, 0x05]

/-- It is read when its last byte has come in, cut within its length and with
a byte of something else behind it, and not at all with one bit flipped. -/
theorem readEach_sampleSection :
    Table.Kind.association.readEach {}
        ([sampleSection.take 2, (sampleSection.drop 2).take 4] ++
          [sampleSection.drop 6 ++ [0x47]]) =
      [(.error .truncated, ⟨sampleSection.take 2⟩), (.error .truncated, ⟨sampleSection.take 6⟩),
        (.ok (.association ⟨1, 0, [⟨1, 0x1001⟩], 0x2E701905⟩), ⟨[0x47]⟩)] ∧
      ∃ b', Table.Kind.association.read ⟨sampleSection.set 9 3⟩ =
        (.error (.checksum 0x2E701905 0x2DC1400B), b') ∧ b' = ⟨sampleSection.set 9 3⟩ := by
  have hwhole : Table.Kind.association.read ⟨sampleSection⟩ =
      (.ok (.association ⟨1, 0, [⟨1, 0x1001⟩], 0x2E701905⟩), {}) := by
    decide +kernel
  have hflipped : Table.Kind.association.read ⟨sampleSection.set 9 3⟩ =
      (.error (.checksum 0x2E701905 0x2DC1400B), ⟨sampleSection.set 9 3⟩) := by
    decide +kernel
  obtain ⟨hkept, hpieces⟩ := readEach_pieces .association
  exact ⟨hpieces _ [0x47] _ _ _ hwhole rfl (by decide), _, hflipped,
    hkept _ _ _ hflipped (.inr ⟨_, _, rfl⟩)⟩

end Section

end ProgramStream
