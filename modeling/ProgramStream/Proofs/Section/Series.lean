import ProgramStream.Proofs.Section.Association
import ProgramStream.Proofs.Section.ProgramMap
/-!
# Sections — tables written one after the other, and read back

A writer of each kind of table writes tables in any order (`writeAll`), and
what comes out is read again from one buffer (`readAll`). Writing a table
leaves its writer as it was, so no table has anything of those before it in
it (`write_fresh`); reading one takes its section off the buffer and nothing
else (`read_written_append`). The series is an induction over these two
(`readAll_writeAll`).
-/

namespace ProgramStream

open ProgramStream.Parser ProgramStream.Parser.State

/-- A parser that takes some bytes on a boundary reads them off the front of
a buffer. -/
theorem ByteBuffer.parse_append {α : Type} {p : Parser α} {a : α} {bytes : List UInt8}
    (h : ∀ {s s' : Parser.State}, s.IsAligned → s.Takes (Bits.ofBytes bytes) [] s' →
      p s = .ok a s') (rest : List UInt8) :
    ByteBuffer.parse p ⟨bytes ++ rest⟩ = (.ok a, ⟨rest⟩) := by
  rw [parse, run_of_ok (h (isAligned_ofBytes _) (takes_ofBytes bytes rest []))]

namespace Section

/-- A table of either kind. -/
inductive Table where
  | association (t : Association)
  | programMap (t : ProgramMap)
  deriving DecidableEq, Repr

/-- The kinds of tables. -/
inductive Table.Kind where
  | association
  | programMap
  deriving DecidableEq, Repr

/-- Reads a table of a kind at the front of a buffer, and returns what is
left there. -/
def Table.Kind.read (kind : Kind) (b : ByteBuffer) : Except Fault Table × ByteBuffer :=
  match kind with
  | .association => (b.parse Association.parse).map (Except.map .association) id
  | .programMap => (b.parse ProgramMap.parse).map (Except.map .programMap) id

/-- Reads tables of some kinds, one after the other. Each result is returned
with what was left in the buffer then. -/
def readAll : List Table.Kind → ByteBuffer → List (Except Fault Table × ByteBuffer)
  | [], _ => []
  | kind :: kinds, b => kind.read b :: readAll kinds (kind.read b).2

/-- A writer for each kind of table. -/
structure Writers where
  association : Writer := {}
  programMap : Writer := {}
  deriving DecidableEq, Repr

namespace Writers

/-- Writes a table with the writer of its kind. -/
def write (w : Writers) : Table → List UInt8 × Writers
  | .association t => (Association.write w.association t).map id ({ w with association := · })
  | .programMap t => (ProgramMap.write w.programMap t).map id ({ w with programMap := · })

/-- Writes tables, one after the other. The bytes of each are returned with
the writers as they were left then. -/
def writeAll : Writers → List Table → List (List UInt8 × Writers)
  | _, [] => []
  | w, t :: ts => w.write t :: (w.write t).2.writeAll ts

end Writers

namespace Table

def kind : Table → Kind
  | .association _ => .association
  | .programMap _ => .programMap

/-- The length of the section of a table, as the table tells it. -/
def sectionLength : Table → UInt16
  | .association t => t.sectionLength
  | .programMap t => t.sectionLength

/-- The length of the section fits twelve bits. -/
def Fits : Table → Prop
  | .association t => t.Fits
  | .programMap t => t.Fits

instance (t : Table) : Decidable t.Fits :=
  match t with
  | .association t => inferInstanceAs (Decidable t.Fits)
  | .programMap t => inferInstanceAs (Decidable t.Fits)

/-- What a section carries of a table. -/
def carried : Table → Table
  | .association t => .association t.carried
  | .programMap t => .programMap t.carried

/-- The section of a table, without its checksum. -/
def content : Table → List UInt8
  | .association t => t.content
  | .programMap t => t.content

def checksum : Table → UInt32
  | .association t => t.checksum
  | .programMap t => t.checksum

/-- The section that a new writer writes. -/
def written (t : Table) : List UInt8 := (Writers.write {} t).1

/-- The section a table is written as. -/
def envelope : Table → Envelope
  | .association t => t.raw.envelope
  | .programMap t => t.raw.envelope

theorem content_envelope (t : Table) : t.envelope.content = t.content := by
  cases t with
  | association t => exact t.content_raw
  | programMap t => exact t.content_raw

theorem checksum_envelope (t : Table) : t.envelope.checksum = t.carried.checksum := by
  cases t with
  | association t =>
    simp only [envelope, checksum, carried, Association.Raw.envelope, Association.raw,
      Association.carried]
  | programMap t =>
    simp only [envelope, checksum, carried, ProgramMap.Raw.envelope, ProgramMap.raw,
      ProgramMap.carried]

theorem compute_content (t : Table) : Crc.compute t.content = t.carried.checksum := by
  cases t <;> simp only [content, checksum, carried, Association.carried, ProgramMap.carried]

theorem write_empty (t : Table) : Writers.write {} t = (t.envelope.bytes, {}) := by
  cases t with
  | association t => rw [Writers.write, Association.write_empty]; rfl
  | programMap t => rw [Writers.write, ProgramMap.write_empty]; rfl

theorem written_eq_bytes (t : Table) : t.written = t.envelope.bytes := by
  rw [written, write_empty]

/-- **Writers are left as new.** -/
theorem write_fresh (t : Table) : Writers.write {} t = (t.written, {}) := by
  rw [written_eq_bytes, write_empty]

/-- A section ends in the checksum that is carried. -/
theorem written_eq (t : Table) :
    t.written = t.content ++ ByteOrder.big.bytes 4 t.carried.checksum.toNat := by
  rw [written_eq_bytes, Envelope.bytes, content_envelope, checksum_envelope]

/-- That checksum is right. -/
theorem verify_written (t : Table) : Crc.verify t.written = .ok t.carried.checksum := by
  rw [written_eq]
  exact Crc.verify_append_eq_ok_iff.2 ⟨rfl, t.compute_content⟩

/-- A section is as long as its table tells. -/
theorem length_written {t : Table} (h : t.Fits) :
    t.written.length = prologueLength + t.sectionLength.toNat := by
  rw [written_eq_bytes, Envelope.length_bytes]
  cases t with
  | association t =>
    have hbody : t.raw.envelope.body.length = _ := t.raw.length_body
    rw [envelope, sectionLength, Association.toNat_sectionLength h, hbody]
    simp only [Association.raw, List.length_map]
  | programMap t =>
    rw [sectionLength, ProgramMap.toNat_sectionLength h, ← t.raw.length_body]
    rfl

/-- **What is written is read**, and nothing that stands behind it. -/
theorem read_written_append {t : Table} (h : t.Fits) (rest : List UInt8) :
    t.kind.read ⟨t.written ++ rest⟩ = (.ok t.carried, ⟨rest⟩) := by
  rw [written_eq_bytes]
  cases t with
  | association t =>
    have hread := ByteBuffer.parse_append (p := Association.parse) (a := t.carried)
      (fun hs htakes => Association.parse_eq_ok_iff.2
        ⟨hs, t.raw, Association.isSound_raw h, t.value_raw, htakes⟩) rest
    exact congrArg (Prod.map (Except.map Table.association) id) hread
  | programMap t =>
    have hread := ByteBuffer.parse_append (p := ProgramMap.parse) (a := t.carried)
      (fun hs htakes => ProgramMap.parse_eq_ok_iff.2
        ⟨hs, t.raw, ProgramMap.isSound_raw h, t.value_raw, htakes⟩) rest
    exact congrArg (Prod.map (Except.map Table.programMap) id) hread

end Table

variable {ts : List Table}

/-- Writers write each table as new ones would. -/
theorem writeAll_fresh (ts : List Table) :
    Writers.writeAll {} ts = ts.map fun t => (t.written, {}) := by
  induction ts with
  | nil => rfl
  | cons t ts ih => rw [Writers.writeAll, t.write_fresh, ih, List.map_cons]

@[simp] theorem length_readAll (kinds : List Table.Kind) (b : ByteBuffer) :
    (readAll kinds b).length = kinds.length := by
  induction kinds generalizing b with
  | nil => rfl
  | cons kind kinds ih => rw [readAll, List.length_cons, ih, List.length_cons]

/-- Sections, one after the other, are read one after the other, each with
those after it still ahead. -/
theorem getElem?_readAll (h : ∀ t ∈ ts, t.Fits) {i : Nat} {t : Table} (hi : ts[i]? = some t) :
    (readAll (ts.map Table.kind) ⟨ts.flatMap Table.written⟩)[i]? =
      some (.ok t.carried, ⟨(ts.drop (i + 1)).flatMap Table.written⟩) := by
  induction ts generalizing i with
  | nil => cases hi
  | cons t' ts ih =>
    obtain ⟨ht, hts⟩ := List.forall_mem_cons.1 h
    rw [List.map_cons, List.flatMap_cons, readAll, Table.read_written_append ht]
    cases i with
    | zero =>
      cases hi
      rfl
    | succ i => exact ih hts hi

/-- **What is written is read back, table by table.** Of tables with sections
that are not too long, written in any order by one writer for each kind: each
comes out as from a new writer, and leaves the writers as new; its section is
as long as it tells, ends in its checksum and passes. Read from one buffer,
the tables come back in the order they were written in, as much of them as a
section carries. Each read leaves the sections after its own, and the last
one leaves nothing. -/
theorem readAll_writeAll (h : ∀ t ∈ ts, t.Fits) :
    let outputs := Writers.writeAll {} ts
    let input : ByteBuffer := ⟨outputs.flatMap Prod.fst⟩
    let results := readAll (ts.map Table.kind) input
    (outputs = ts.map fun t => ((Writers.write {} t).1, {})) ∧
      (∀ t ∈ ts, t.written.length = prologueLength + t.sectionLength.toNat ∧
        Crc.verify t.written = .ok t.carried.checksum ∧
        t.written = t.content ++ ByteOrder.big.bytes 4 t.carried.checksum.toNat) ∧
      results.length = ts.length ∧
      (∀ (i : Nat) (t : Table), ts[i]? = some t →
        results[i]? = some (.ok t.carried, ⟨(ts.drop (i + 1)).flatMap Table.written⟩)) ∧
      results.getLast?.elim input Prod.snd = {} := by
  intro outputs input results
  have houtputs : outputs = ts.map fun t => (t.written, {}) := writeAll_fresh ts
  have hinput : input = ⟨ts.flatMap Table.written⟩ := by
    simp only [input, houtputs, List.flatMap_map]
  have hlength : results.length = ts.length := by
    simp only [results, length_readAll, List.length_map]
  have hresults {i : Nat} {t : Table} (hi : ts[i]? = some t) :
      results[i]? = some (.ok t.carried, ⟨(ts.drop (i + 1)).flatMap Table.written⟩) := by
    simp only [results, hinput]
    exact getElem?_readAll h hi
  refine ⟨houtputs, fun t ht => ⟨Table.length_written (h t ht), t.verify_written, t.written_eq⟩,
    hlength, fun _ _ => hresults, ?_⟩
  rw [List.getLast?_eq_getElem?, hlength]
  cases hts : ts[ts.length - 1]? with
  | none =>
    -- there is nothing to write, or to read
    have hnil : ts = [] := by
      rw [List.getElem?_eq_none_iff] at hts
      exact List.length_eq_zero_iff.1 (by omega)
    subst hnil
    rfl
  | some t =>
    rw [hresults hts, List.drop_eq_nil_of_le (by omega)]
    rfl

/-- A series of both kinds, with a version and pids that are too wide. -/
def sampleTables : List Table :=
  [.association ⟨1, 0x25, [⟨1, 0x1001⟩, ⟨2, 0xFFFF⟩], 0⟩,
    .programMap ⟨1, 3, 0x2100, [9, 0], [⟨0x1B, 0x100, []⟩, ⟨0x0F, 0x8101, [0x0A, 1, 7]⟩], 5⟩,
    .association ⟨7, 0, [], 0⟩]

/-- The second of them comes back with its own pids narrowed, and the third
is left. -/
theorem readAll_sampleTables :
    (∀ t ∈ sampleTables, t.Fits) ∧
      ∃ result rest,
        (readAll (sampleTables.map Table.kind)
            ⟨(Writers.writeAll {} sampleTables).flatMap Prod.fst⟩)[1]? =
          some (.ok (.programMap result), rest) ∧
        result.version = 3 ∧ result.clockPid = 0x100 ∧ result.programInfo = [9, 0] ∧
        result.streams = [⟨0x1B, 0x100, []⟩, ⟨0x0F, 0x101, [0x0A, 1, 7]⟩] ∧
        rest.size = 12 := by
  have hfits : ∀ t ∈ sampleTables, t.Fits := by decide
  obtain ⟨-, -, -, hresults, -⟩ := readAll_writeAll hfits
  exact ⟨hfits, _, _, hresults 1 _ rfl, rfl, rfl, rfl, rfl, by decide +kernel⟩

end Section

end ProgramStream
