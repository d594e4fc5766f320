import ProgramStream.Section.ProgramMap
import ProgramStream.Proofs.Section.Basic
import ProgramStream.Proofs.Strict.StreamMap
/-!
# Strict sections — what a section length leaves

A section length has to cover the fixed fields and the checksum before either
is taken off it. What is then left of a program map is taken off twice more,
by the program's descriptors and by each of its streams, and each time after
the guard that it fits.

A section may be too short for its checksum without the input being so, hence
nothing is said here of how fairly its parsers stop.
-/

namespace ProgramStream

open Parser.State Strict

namespace Section

/-- Looks at a whole section and returns its length and its checksum. -/
def checkStrict : Strict (Nat × UInt32) := do
  let head ← peek prologueLength
  let word ← lift (Slip.slice head 1 3)
  let length := ByteOrder.big.value word % 0x1000
  let whole ← peek (prologueLength + length)
  let carried ← Crc.verifyStrict whole
  return (length, carried)

/-- The version of a table, between reserved bits and a flag. -/
def parseVersionStrict : Strict UInt8 := do
  reserved 2
  let version ← field 5 8
  reserved 1
  return UInt8.ofNat version.toNat

/-- The pid of a table, after reserved bits. -/
def parsePidStrict : Strict UInt16 := do
  reserved 3
  let pid ← field 13 16
  return UInt16.ofNat pid.toNat

/-- A length of a table, after reserved bits. -/
def parseLengthStrict : Strict Nat := do
  reserved 4
  let length ← field 12 16
  return length.toNat

variable {k m : Nat}

theorem implements_check : Implements k IsNowhere IsNowhere checkStrict check := by
  unfold checkStrict check
  refine (Implements.peek (m := 0) prologueLength rfl).nowhere.bind_of_ok fun head s t h => ?_
  obtain ⟨-, -, hhead, -⟩ := Parser.peek_eq_ok_iff.1 h
  have hword : Slip.slice head 1 prologueLength = .ok (head.drop 1) := by
    rw [Slip.slice_of_le (by decide) hhead.ge, List.take_of_length_le hhead.le]
  refine .lift_bind hword ?_
  refine (Implements.peek (m := 0) _ rfl).nowhere.bind fun whole => ?_
  rw [Crc.verifyStrict_eq]
  cases Crc.verify whole with
  | ok carried => exact .pure _ fun _ => id
  | error fault => exact fun _ _ => .error rfl False.elim

theorem implements_parseVersion :
    Implements k (IsPast m) (IsPast m) parseVersionStrict parseVersion := by
  refine (Implements.reserved (by decide)).bind fun _ => ?_
  refine (Implements.field (by decide) (by decide)).bind fun version => ?_
  exact (Implements.reserved (by decide)).bind fun _ => .pure_past _ (by omega)

theorem implements_parsePid : Implements k (IsPast m) (IsPast m) parsePidStrict parsePid := by
  refine (Implements.reserved (by decide)).bind fun _ => ?_
  exact (Implements.field (by decide) (by decide)).bind fun pid => .pure_past _ (by omega)

theorem implements_parseLength :
    Implements k (IsPast m) (IsPast m) parseLengthStrict parseLength := by
  refine (Implements.reserved (by decide)).bind fun _ => ?_
  exact (Implements.field (by decide) (by decide)).bind fun length => .pure_past _ (by omega)

/-! ## Associations -/

namespace Association

/-- Reads programs, as many as are asked for. -/
def parseProgramsStrict : Nat → Strict (List ProgramPid)
  | 0 => pure []
  | n + 1 => do
    let programNumber ← field16
    let pid ← parsePidStrict
    let programs ← parseProgramsStrict n
    return { programNumber, pid } :: programs

/-- Reads an association section. -/
def parseStrict : Strict Association := do
  let (length, checksum) ← checkStrict
  let id ← byte
  if id ≠ tableId then fail (.malformed (.notAssociation id))
  reserved 16
  if length < fixedLength + checksumLength then fail (.malformed (.associationLength length))
  let behindHeader ← Strict.sub length fixedLength
  let programsLength ← Strict.sub behindHeader checksumLength
  if programsLength % programLength ≠ 0 then fail (.malformed (.associationLength length))
  let transportStreamId ← field16
  let version ← parseVersionStrict
  reserved 16
  let programs ← parseProgramsStrict (programsLength / programLength)
  reserved 32
  return { transportStreamId, version, programs, checksum }

theorem implements_parsePrograms (n : Nat) :
    Implements k (IsPast m) (IsPast m) (parseProgramsStrict n) (parsePrograms n) := by
  induction n generalizing m with
  | zero => exact .pure [] fun _ hs => hs
  | succ n ih =>
    refine Implements.field16.bind fun programNumber => ?_
    refine implements_parsePid.bind fun pid => ?_
    exact ih.bind fun programs => .pure_past _ (by omega)

theorem implements_parse : Implements k IsNowhere IsNowhere parseStrict parse := by
  unfold parseStrict parse
  refine implements_check.bind fun checked => .nowhere (P := IsPast 0) (Q := IsPast 0) ?_
  refine (Implements.byte rfl).bind fun id => ?_
  refine .ite (fun _ => .fail_bind (.malformed _) _ _) fun _ => ?_
  refine (Implements.reserved (by decide)).bind fun _ => ?_
  -- one guard of the parser is two here, as the second is about a difference
  by_cases hshort : checked.1 < fixedLength + checksumLength
  · rw [if_pos hshort, if_pos (.inl hshort)]
    exact .fail_bind (.malformed _) _ _
  rw [if_neg hshort]
  have hle : fixedLength + checksumLength ≤ checked.1 := Nat.not_lt.1 hshort
  refine .sub_bind (by omega) (.sub_bind (by omega) ?_)
  simp only [hshort, false_or, Nat.sub_sub]
  refine .ite (fun _ => .fail_bind (.malformed _) _ _) fun _ => ?_
  refine Implements.field16.bind fun transportStreamId => ?_
  refine implements_parseVersion.bind fun version => ?_
  refine (Implements.reserved (by decide)).bind fun _ => ?_
  refine (implements_parsePrograms _).bind fun programs => ?_
  exact (Implements.reserved (by decide)).bind fun _ => .pure_past _ rfl

end Association

/-! ## Program maps -/

namespace ProgramMap

/-- Reads the streams that fill the `remaining` bytes of a section. What
remains after a stream is a difference. -/
def parseStreamsStrict (remaining : Nat) : Strict (List StreamPid) :=
  if remaining = 0 then pure []
  else if remaining < StreamPid.fixedLength then fail (.malformed (.streamTail remaining))
  else do
    let streamType ← byte
    let pid ← parsePidStrict
    let infoLength ← parseLengthStrict
    if remaining < StreamPid.fixedLength + infoLength then
      fail (.malformed (.streamInfo infoLength pid.toNat))
    let info ← Strict.bytes infoLength
    let used := StreamPid.fixedLength + infoLength
    if _h : used ≤ remaining then
      let streams ← parseStreamsStrict (remaining - used)
      return { streamType, pid, info } :: streams
    else throw (.slip (.underflow remaining used))
termination_by remaining
decreasing_by simp only [StreamPid.fixedLength] at *; omega

/-- Reads a program map section. -/
def parseStrict : Strict ProgramMap := do
  let (length, checksum) ← checkStrict
  let id ← byte
  if id ≠ tableId then fail (.malformed (.notProgramMap id))
  reserved 16
  if length < fixedLength + checksumLength then fail (.malformed (.programMapLength length))
  let programNumber ← field16
  let version ← parseVersionStrict
  reserved 16
  let clockPid ← parsePidStrict
  let infoLength ← parseLengthStrict
  let behindHeader ← Strict.sub length fixedLength
  let remaining ← Strict.sub behindHeader checksumLength
  if remaining < infoLength then fail (.malformed (.programInfo infoLength))
  let programInfo ← Strict.bytes infoLength
  let streamsLength ← Strict.sub remaining infoLength
  let streams ← parseStreamsStrict streamsLength
  reserved 32
  return { programNumber, version, clockPid, programInfo, streams, checksum }

theorem implements_parseStreams (hm : m % 8 = 0) (remaining : Nat) :
    Implements k (IsPast m) (IsPast m) (parseStreamsStrict remaining) (parseStreams remaining) := by
  fun_induction parseStreams remaining with
  | case1 =>
    rw [parseStreamsStrict, if_pos rfl]
    exact .pure [] fun _ hs => hs
  | case2 remaining hne hshort =>
    rw [parseStreamsStrict, if_neg hne, if_pos hshort]
    exact .fail (.malformed _)
  | case3 remaining hne hshort ih =>
    rw [parseStreamsStrict, if_neg hne, if_neg hshort]
    refine (Implements.byte hm).bind fun streamType => ?_
    refine implements_parsePid.bind fun pid => ?_
    refine implements_parseLength.bind fun infoLength => ?_
    refine .ite (fun _ => .fail_bind (.malformed _) _ _) fun hfits => ?_
    refine (Implements.bytes _ hm).bind fun info => ?_
    simp only [dif_pos (Nat.not_lt.1 hfits)]
    exact (ih infoLength).bind fun streams => .pure _ fun _ hs => hs

theorem implements_parse : Implements k IsNowhere IsNowhere parseStrict parse := by
  unfold parseStrict parse
  refine implements_check.bind fun checked => .nowhere (P := IsPast 0) (Q := IsPast 0) ?_
  refine (Implements.byte rfl).bind fun id => ?_
  refine .ite (fun _ => .fail_bind (.malformed _) _ _) fun _ => ?_
  refine (Implements.reserved (by decide)).bind fun _ => ?_
  refine .ite (fun _ => .fail_bind (.malformed _) _ _) fun hshort => ?_
  refine Implements.field16.bind fun programNumber => ?_
  refine implements_parseVersion.bind fun version => ?_
  refine (Implements.reserved (by decide)).bind fun _ => ?_
  refine implements_parsePid.bind fun clockPid => ?_
  refine implements_parseLength.bind fun infoLength => ?_
  refine .sub_bind (by omega) (.sub_bind (by omega) ?_)
  rw [Nat.sub_sub]
  refine .ite (fun _ => .fail_bind (.malformed _) _ _) fun hfits => ?_
  refine (Implements.bytes _ (by decide)).bind fun programInfo => ?_
  refine .sub_bind (Nat.not_lt.1 hfits) ?_
  refine (implements_parseStreams (by decide) _).bind fun streams => ?_
  exact (Implements.reserved (by decide)).bind fun _ => .pure_past _ rfl

end ProgramMap

end Section

end ProgramStream
