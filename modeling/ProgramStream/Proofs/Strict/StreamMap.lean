import ProgramStream.Proofs.StreamMap
import ProgramStream.Proofs.Strict.Headers
/-!
# Strict stream maps — a checksum, and entries in what remains

A checksum is looked up in a table of 256 words by a number of eight bits, so
the index is one of the table. An entry is taken off what remains of its map
after the guard that it fits.
-/

namespace ProgramStream

open Parser.State Strict

/-! ## Checksums -/

namespace Crc

/-- Takes one byte into the register. -/
def stepStrict (register : UInt32) (byte : UInt8) : Except Slip UInt32 := do
  let index := ((register >>> 24) ^^^ byte.toUInt32).toNat &&& 0xFF
  let remainder ← Slip.elementAt table.toList index
  return (register <<< 8) ^^^ remainder

/-- Takes a byte string into the register. -/
def updateStrict (register : UInt32) (bytes : List UInt8) : Except Slip UInt32 :=
  bytes.foldlM stepStrict register

/-- Compares the last four bytes of a section with the checksum of those
before them. -/
def verifyStrict (content : List UInt8) : Strict UInt32 := do
  if content.length < 4 then fail .truncated
  let start ← Strict.sub content.length 4
  let (body, rest) ← lift (Slip.splitAt start content)
  let word ← lift (Slip.slice rest 0 4)
  let carried := UInt32.ofNat (ByteOrder.big.value word)
  let computed ← lift (updateStrict initial body)
  if carried = computed then return carried else fail (.checksum carried computed)

/-- **The index is one of the table.** -/
theorem stepStrict_eq (register : UInt32) (byte : UInt8) :
    stepStrict register byte = .ok (step register byte) := by
  have hindex : ((register >>> 24) ^^^ byte.toUInt32).toNat &&& 0xFF =
      ((register >>> 24) ^^^ byte.toUInt32).toUInt8.toFin.val := by
    rw [Nat.and_two_pow_sub_one_eq_mod _ 8]
    rfl
  have hlt : ((register >>> 24) ^^^ byte.toUInt32).toUInt8.toFin.val < table.toList.length := by
    rw [Vector.length_toList]
    exact Fin.isLt _
  rw [stepStrict, hindex, Slip.elementAt_of_lt hlt, Vector.getElem_toList]
  rfl

theorem updateStrict_eq (register : UInt32) (bytes : List UInt8) :
    updateStrict register bytes = .ok (update register bytes) := by
  induction bytes generalizing register with
  | nil => rfl
  | cons byte bytes ih =>
    rw [updateStrict, List.foldlM_cons, stepStrict_eq]
    exact ih (step register byte)

/-- **The parts of a section are there** behind the guard for its length. -/
theorem verifyStrict_eq (content : List UInt8) :
    verifyStrict content = match verify content with
      | .ok carried => pure carried
      | .error fault => fail fault := by
  unfold verifyStrict verify
  by_cases hlt : content.length < 4
  · rw [if_pos hlt, if_pos hlt]
    rfl
  · have hle : 4 ≤ content.length := Nat.not_lt.1 hlt
    have hrest : (content.drop (content.length - 4)).length = 4 := by
      rw [List.length_drop]
      omega
    have hword : Slip.slice (content.drop (content.length - 4)) 0 4 =
        .ok (content.drop (content.length - 4)) := by
      rw [Slip.slice_of_le (Nat.zero_le 4) hrest.ge, List.take_of_length_le hrest.le]
      rfl
    rw [if_neg hlt, if_neg hlt]
    have hcompute (bytes : List UInt8) : updateStrict initial bytes = .ok (compute bytes) :=
      updateStrict_eq initial bytes
    simp only [Strict.sub, Slip.sub_of_le hle, Slip.splitAt_of_le (Nat.sub_le _ _), hword,
      hcompute, lift, pure_bind]
    split <;> rfl

end Crc

/-- What is wrong with a section that is long enough is its checksum. -/
theorem Crc.isFound_of_verify {content : List UInt8} {fault : Fault}
    (h : verify content = .error fault) (hle : 4 ≤ content.length) : fault.IsFound := by
  simp only [verify, if_neg (Nat.not_lt.2 hle)] at h
  split at h
  · cases h
  · cases h
    exact .checksum _ _

/-! ## Entries -/

/-- Reads a pseudo descriptor. -/
def PseudoDescriptor.parseStrict : Strict PseudoDescriptor := do
  let code ← byte
  let length ← byte
  marker "elementary_stream_id_extension"
  let idExtension ← field 7 8
  return { code, length, idExtension }

theorem PseudoDescriptor.implements_parse {k m : Nat} (hm : m % 8 = 0) :
    Implements k (IsPast m) (IsPast m) parseStrict parse := by
  unfold parseStrict parse
  refine (Implements.byte hm).bind fun code => ?_
  refine (Implements.byte hm).bind fun length => ?_
  refine (Implements.marker _).bind fun _ => ?_
  exact (Implements.field (by decide) (by decide)).bind fun id => .pure_past _ (by omega)

namespace MapEntry

/-- The length of the descriptors in an entry's info, behind the pseudo
descriptor if there is one. -/
def descriptorsLengthStrict (extended : Prop) [Decidable extended] (info : Nat) : Strict Nat :=
  if extended then Strict.sub info PseudoDescriptor.size else pure info

/-- Reads an entry that has to end within the `remaining` bytes of its map. -/
def parseStrict (single : Bool) (remaining : Nat) : Strict MapEntry := do
  if remaining < fixedLength then fail (.malformed (.mapTail remaining))
  let streamType ← byte
  let streamId ← byte
  let infoLength ← field16
  let info := infoLength.toNat
  if remaining < fixedLength + info then fail (.malformed (.mapEntry streamId info))
  let extended := streamId = StreamId.extended ∧ single = false
  if extended ∧ info < PseudoDescriptor.size then fail (.malformed (.extendedEntry info))
  let pseudo ← given extended PseudoDescriptor.parseStrict
  let length ← descriptorsLengthStrict extended info
  let descriptors ← bytes length
  let entry := { streamType, streamId, infoLength, pseudo, descriptors : MapEntry }
  match entry.codec with
  | .unknown type => warn (.unknownCodec type streamId)
  | _ => pure ()
  return entry

/-- Reads the entries that fill the `remaining` bytes of a map. What remains
after an entry is a difference. -/
def parseAllStrict (single : Bool) (remaining : Nat) : Strict (List MapEntry) :=
  if remaining = 0 then pure []
  else do
    let entry ← parseStrict single remaining
    let used := fixedLength + entry.infoLength.toNat
    if _h : used ≤ remaining then
      let entries ← parseAllStrict single (remaining - used)
      return entry :: entries
    else throw (.slip (.underflow remaining used))
termination_by remaining
decreasing_by simp only [fixedLength] at *; omega

variable {k m : Nat} {single : Bool} {remaining : Nat}

theorem descriptorsLengthStrict_eq {extended : Prop} [Decidable extended] {info : Nat}
    (h : extended → PseudoDescriptor.size ≤ info) :
    descriptorsLengthStrict extended info =
      pure (if extended then info - PseudoDescriptor.size else info) := by
  unfold descriptorsLengthStrict
  split
  · rename_i hextended
    rw [Strict.sub, Slip.sub_of_le (h hextended)]
    rfl
  · rfl

theorem implements_parse (hm : m % 8 = 0) :
    Implements k (IsPast m) (IsPast m) (parseStrict single remaining) (parse single remaining) := by
  unfold parseStrict parse
  refine .ite (fun _ => .fail_bind (.malformed _) _ _) fun _ => ?_
  refine (Implements.byte hm).bind fun streamType => ?_
  refine (Implements.byte hm).bind fun streamId => ?_
  refine Implements.field16.bind fun infoLength => ?_
  refine .ite (fun _ => .fail_bind (.malformed _) _ _) fun _ => ?_
  refine .ite (fun _ => .fail_bind (.malformed _) _ _) fun hextended => ?_
  refine ((PseudoDescriptor.implements_parse (by omega)).given _).bind fun pseudo => ?_
  rw [descriptorsLengthStrict_eq fun h => Nat.not_lt.1 fun hlt => hextended ⟨h, hlt⟩, pure_bind]
  refine (Implements.bytes _ (by omega)).bind fun descriptors => ?_
  dsimp only
  generalize MapEntry.codec _ = codec
  cases codec with
  | unknown type => exact (Implements.warn _).bind fun _ => .pure_past _ (by omega)
  | _ => exact .pure_past _ (by omega)

theorem implements_parseAll (hm : m % 8 = 0) :
    Implements k (IsPast m) (IsPast m) (parseAllStrict single remaining)
      (parseAll single remaining) := by
  fun_induction parseAll single remaining with
  | case1 =>
    rw [parseAllStrict, if_pos rfl]
    exact .pure [] fun _ hs => hs
  | case2 remaining hne ih =>
    rw [parseAllStrict, if_neg hne]
    refine (implements_parse hm).bind_of_ok fun entry s t h => ?_
    have hfits : fixedLength + entry.infoLength.toNat ≤ remaining := (parse_eq_ok_iff.1 h).2.1
    simp only [dif_pos hfits]
    exact (ih entry).bind fun entries => .pure _ fun _ hs => hs

end MapEntry

/-! ## Maps -/

namespace StreamMap

/-- Looks at the start code, the length and the checksum of the map ahead. -/
def checkStrict : Strict UInt32 := do
  let head ← peek prologueLength
  let start ← lift (Slip.slice head 0 4)
  let found := UInt32.ofNat (ByteOrder.big.value start)
  if found ≠ startCode StreamId.map then fail (.startCode found)
  let length ← lift (Slip.slice head 4 6)
  let whole ← peek (prologueLength + ByteOrder.big.value length)
  Crc.verifyStrict whole

/-- Reads a program stream map. -/
def parseStrict : Strict StreamMap := do
  let checksum ← checkStrict
  reserved 32
  let length ← field16
  let currentNext ← flag
  let singleExtension ← flag
  reserved 1
  let version ← field 5 8
  reserved 7
  marker "program_stream_map_version"
  let infoLength ← field16
  let descriptors ← bytes infoLength.toNat
  let entriesLength ← field16
  let entries ← MapEntry.parseAllStrict singleExtension entriesLength.toNat
  reserved 32
  return { length, currentNext, singleExtension, version, infoLength, descriptors, entriesLength,
           entries, checksum }

variable {k : Nat}

theorem implements_check : Implements k (IsPast 0) (IsPast 0) checkStrict check := by
  unfold checkStrict check
  refine (Implements.peek prologueLength rfl).bind_of_ok fun head s t h => ?_
  obtain ⟨-, -, hhead, -⟩ := Parser.peek_eq_ok_iff.1 h
  simp only [prologueLength] at hhead
  refine .lift_bind (Slip.slice_of_le (Nat.zero_le 4) (by omega)) ?_
  refine .ite (fun _ => .fail_bind (.startCode _) _ _) fun _ => ?_
  have hlength : Slip.slice head 4 6 = .ok (head.drop 4) := by
    rw [Slip.slice_of_le (by decide) hhead.ge, List.take_of_length_le hhead.le]
  refine .lift_bind hlength ?_
  refine (Implements.peek _ rfl).bind_of_ok fun whole s t h => ?_
  obtain ⟨-, -, hwhole, -⟩ := Parser.peek_eq_ok_iff.1 h
  -- the section of a map is never too short for its checksum
  have hle : 4 ≤ whole.length := by
    simp only [prologueLength] at hwhole
    omega
  rw [Crc.verifyStrict_eq]
  cases hverify : Crc.verify whole with
  | ok carried => exact .pure carried fun _ hs => hs
  | error fault => exact .fail (Crc.isFound_of_verify hverify hle)

theorem implements_parse : Implements k (IsPast 0) (IsPast 0) parseStrict parse := by
  unfold parseStrict parse
  refine implements_check.bind fun checksum => ?_
  refine (Implements.reserved (by decide)).bind fun _ => ?_
  refine Implements.field16.bind fun length => ?_
  refine Implements.flag.bind fun currentNext => ?_
  refine Implements.flag.bind fun singleExtension => ?_
  refine (Implements.reserved (by decide)).bind fun _ => ?_
  refine (Implements.field (by decide) (by decide)).bind fun version => ?_
  refine (Implements.reserved (by decide)).bind fun _ => ?_
  refine (Implements.marker _).bind fun _ => ?_
  refine Implements.field16.bind fun infoLength => ?_
  refine (Implements.bytes _ rfl).bind fun descriptors => ?_
  refine Implements.field16.bind fun entriesLength => ?_
  refine (MapEntry.implements_parseAll rfl).bind fun entries => ?_
  exact (Implements.reserved (by decide)).bind fun _ => .pure_past _ rfl

end StreamMap

end ProgramStream
