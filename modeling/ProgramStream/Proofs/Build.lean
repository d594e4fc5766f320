import ProgramStream.Packet
import ProgramStream.Proofs.Parser
import ProgramStream.Section.ProgramMap
import ProgramStream.StreamMap
/-!
# Parsers — what they are put together of

Every parser here is built from the operations of a cursor, from faults that
lie in its input, and from warnings about what it holds (`Parser.IsBuilt`).
Whatever holds of these and of one parser followed by another holds of all of
them, by one induction. A parser does not know how long the unit is that it
reads, so a length that does not match is never its fault
(`IsBuilt.liesInInput`), and it reports no unit as dropped
(`IsBuilt.isOfContent`).
-/

namespace ProgramStream

/-- The operations of a cursor. -/
inductive BitCursor.IsOperation :
    {α : Type} → (BitCursor → Except BitFault (α × BitCursor)) → Prop
  | readBit : IsOperation readBit
  | readBits (n : Nat) : IsOperation (readBits n)
  | readByte : IsOperation readByte
  | readBytes (n : Nat) : IsOperation (readBytes n)
  | peekBytes (n : Nat) : IsOperation (peekBytes n)
  | skipBytes (n : Nat) : IsOperation (skipBytes n)

/-- The faults that lie in the input of a parser. -/
class inductive Fault.LiesInInput : Fault → Prop
  | truncated : LiesInInput .truncated
  | bits (fault : BitFault) : LiesInInput (.bits fault)
  | startCode (found : UInt32) : LiesInInput (.startCode found)
  | version (firstByte : UInt8) : LiesInInput (.version firstByte)
  | marker (field : String) : LiesInInput (.marker field)
  | timestampCode (expected found : Nat) : LiesInInput (.timestampCode expected found)
  | malformed (what : Malformation) : LiesInInput (.malformed what)
  | tooShort (declared required : Nat) : LiesInInput (.tooShort declared required)
  | checksum (carried computed : UInt32) : LiesInInput (.checksum carried computed)

attribute [instance] Fault.LiesInInput.truncated Fault.LiesInInput.bits
  Fault.LiesInInput.startCode Fault.LiesInInput.version Fault.LiesInInput.marker
  Fault.LiesInInput.timestampCode Fault.LiesInInput.malformed Fault.LiesInInput.tooShort
  Fault.LiesInInput.checksum

/-- The warnings about what a unit holds. -/
class inductive Warning.IsOfContent : Warning → Prop
  | unmappedStream (streamId : UInt8) : IsOfContent (.unmappedStream streamId)
  | unknownCodec (streamType streamId : UInt8) : IsOfContent (.unknownCodec streamType streamId)
  | forbiddenTimestampFlags (streamId : UInt8) : IsOfContent (.forbiddenTimestampFlags streamId)

attribute [instance] Warning.IsOfContent.unmappedStream Warning.IsOfContent.unknownCodec
  Warning.IsOfContent.forbiddenTimestampFlags

namespace Parser

variable {α β : Type}

/-- **A parser that is put together of operations.** -/
class inductive IsBuilt : {α : Type} → Parser α → Prop
  | pure {α : Type} (a : α) : IsBuilt (pure a)
  | throw {α : Type} (fault : Fault) (h : fault.LiesInInput) : IsBuilt (throw fault : Parser α)
  | bind {α β : Type} {p : Parser α} {f : α → Parser β} (hp : IsBuilt p)
      (hf : ∀ a, IsBuilt (f a)) : IsBuilt (p >>= f)
  | ofCursor {α : Type} {op : BitCursor → Except BitFault (α × BitCursor)}
      (hop : BitCursor.IsOperation op) : IsBuilt (ofCursor op)
  | taken : IsBuilt taken
  | warn (w : Warning) (h : w.IsOfContent) : IsBuilt (warn w)

instance isBuilt_bind {p : Parser α} {f : α → Parser β} [p.IsBuilt] [∀ a, (f a).IsBuilt] :
    (p >>= f).IsBuilt :=
  .bind inferInstance inferInstance

instance isBuilt_pure (a : α) : (pure a : Parser α).IsBuilt := .pure a

instance isBuilt_throw (fault : Fault) [fault.LiesInInput] : (throw fault : Parser α).IsBuilt :=
  .throw fault inferInstance

instance IsBuilt.map {p : Parser α} [hp : p.IsBuilt] (f : α → β) : (f <$> p).IsBuilt := by
  rw [map_eq_pure_bind]
  infer_instance

instance IsBuilt.ite {c : Prop} [Decidable c] {p q : Parser α} [hp : p.IsBuilt] [hq : q.IsBuilt] :
    (if c then p else q).IsBuilt := by
  split
  · exact hp
  · exact hq

instance isBuilt_field (n : Nat) : (field n).IsBuilt :=
  have := IsBuilt.ofCursor (.readBits n); by unfold field; infer_instance

instance isBuilt_flag : flag.IsBuilt := .ofCursor .readBit

instance isBuilt_field8 : field8.IsBuilt := by unfold field8; infer_instance

instance isBuilt_field16 : field16.IsBuilt := by unfold field16; infer_instance

instance isBuilt_field32 : field32.IsBuilt := by unfold field32; infer_instance

instance isBuilt_byte : byte.IsBuilt := .ofCursor .readByte

instance isBuilt_bytes (n : Nat) : (bytes n).IsBuilt := .ofCursor (.readBytes n)

instance isBuilt_peek (n : Nat) : (peek n).IsBuilt := .ofCursor (.peekBytes n)

instance isBuilt_skip (n : Nat) : (skip n).IsBuilt := .ofCursor (.skipBytes n)

instance isBuilt_reserved (n : Nat) : (reserved n).IsBuilt := by
  unfold reserved; infer_instance

instance isBuilt_marker (name : String) : (marker name).IsBuilt := by
  unfold marker; infer_instance

instance isBuilt_taken : taken.IsBuilt := .taken

instance isBuilt_warn (w : Warning) [w.IsOfContent] : (warn w).IsBuilt := .warn w inferInstance

instance IsBuilt.given {p : Parser α} [hp : p.IsBuilt] (present : Bool) :
    (given present p).IsBuilt := by
  cases present with
  | true => exact IsBuilt.map some
  | false => exact isBuilt_pure none

/-! ## What is said of the input -/

/-- A fault of the bits underneath is one of the input. -/
theorem liesInInput_ofBits (fault : BitFault) : (Fault.ofBits fault).LiesInInput := by
  unfold Fault.ofBits
  split <;> infer_instance

/-- **The faults of a parser lie in its input.** -/
theorem IsBuilt.liesInInput {p : Parser α} (hp : p.IsBuilt) {s t : State} {fault : Fault}
    (h : p s = .error fault t) : fault.LiesInInput := by
  induction hp generalizing s t with
  | pure a => cases h
  | throw fault' hfault =>
    change EStateM.Result.error fault' s = .error fault t at h
    cases h
    exact hfault
  | bind _ _ ihp ihf =>
    rcases bind_eq_error_iff.1 h with h | ⟨a, u, -, h⟩
    · exact ihp h
    · exact ihf a h
  | ofCursor _ =>
    unfold Parser.ofCursor at h
    split at h
    · cases h
    · cases h
      exact liesInInput_ofBits _
  | taken => cases h
  | warn w => cases h

/-- The state that a parser leaves, whatever it made of its input. -/
def after (p : Parser α) (s : State) : State :=
  match p s with
  | .ok _ t => t
  | .error _ t => t

/-- **What a parser reports is about what it holds.** -/
theorem IsBuilt.isOfContent {p : Parser α} (hp : p.IsBuilt) {s : State}
    (hs : ∀ w ∈ s.warnings, w.IsOfContent) : ∀ w ∈ (p.after s).warnings, w.IsOfContent := by
  induction hp generalizing s with
  | pure a => exact hs
  | throw fault => exact hs
  | @bind _ _ p f _ _ ihp ihf =>
    have hfirst := ihp hs
    change ∀ w ∈ (after (EStateM.bind p f) s).warnings, _
    unfold after EStateM.bind at *
    cases hrun : p s with
    | ok a t =>
      rw [hrun] at hfirst
      exact ihf a hfirst
    | error fault t =>
      rw [hrun] at hfirst
      exact hfirst
  | @ofCursor _ op _ =>
    unfold after Parser.ofCursor
    cases op s.cursor with
    | ok r => exact hs
    | error fault => exact hs
  | taken => exact hs
  | warn w hw =>
    intro w' hmem
    rcases Array.mem_push.1 hmem with hold | rfl
    · exact hs w' hold
    · exact hw

end Parser

/-! ## The parsers -/

instance Parser.isBuilt_count33 (name : String) : (Parser.count33 name).IsBuilt := by
  unfold Parser.count33; infer_instance

namespace Timestamp

instance isBuilt_parse : parse.IsBuilt := by unfold parse; infer_instance

instance isBuilt_parseCode (code : Nat) : (parseCode code).IsBuilt := by
  unfold parseCode; infer_instance

end Timestamp

instance ClockReference.isBuilt_parse (name : String) :
    (ClockReference.parse name).IsBuilt := by
  unfold parse; infer_instance

-- the search keeps a goal for each field that a parser reads
set_option synthInstance.maxSize 4000

namespace PackHeader

instance isBuilt_parseStart (id : UInt8) : (parseStart id).IsBuilt := by
  unfold parseStart; infer_instance

instance isBuilt_parseVersion (mark : BitVec 2) : (parseVersion mark).IsBuilt := by
  unfold parseVersion; infer_instance

instance isBuilt_parse : parse.IsBuilt := by unfold parse; infer_instance

end PackHeader

namespace SystemHeader

instance isBuilt_streamBound : StreamBound.parse.IsBuilt := by
  unfold StreamBound.parse; infer_instance

instance isBuilt_parseMany (n : Nat) : (StreamBound.parseMany n).IsBuilt := by
  induction n with
  | zero => exact Parser.isBuilt_pure []
  | succ n ih => exact .bind isBuilt_streamBound fun b => .bind ih fun bs => inferInstance

instance isBuilt_parse : parse.IsBuilt := by unfold parse; infer_instance

end SystemHeader

namespace MapEntry

instance isBuilt_pseudo : PseudoDescriptor.parse.IsBuilt := by
  unfold PseudoDescriptor.parse; infer_instance

instance isBuilt_parse (single : Bool) (n : Nat) : (parse single n).IsBuilt := by
  have hcodec (entry : MapEntry) (streamId : UInt8) : (match entry.codec with
      | .unknown type => do Parser.warn (.unknownCodec type streamId); return entry
      | _ => pure entry).IsBuilt := by
    split <;> infer_instance
  unfold parse; infer_instance

instance isBuilt_parseAll (single : Bool) (n : Nat) : (parseAll single n).IsBuilt := by
  fun_induction parseAll single n with
  | case1 => infer_instance
  | case2 n hn ih => infer_instance

end MapEntry

/-- A section that does not pass is too short or has another checksum. -/
theorem Crc.liesInInput_of_verify {whole : List UInt8} {fault : Fault}
    (h : Crc.verify whole = .error fault) : fault.LiesInInput := by
  unfold Crc.verify at h
  split at h
  · cases h
    infer_instance
  · simp only at h
    split at h
    · cases h
    · cases h
      infer_instance

/-- A checksum that is carried, or the fault of the bytes it is not in. -/
theorem Crc.isBuilt_verify (whole : List UInt8) {α : Type} (f : UInt32 → α) :
    (match Crc.verify whole with
      | .ok carried => (pure (f carried) : Parser α)
      | .error fault => throw fault).IsBuilt := by
  split
  · infer_instance
  · have := Crc.liesInInput_of_verify ‹_›
    infer_instance

namespace StreamMap

instance isBuilt_check : check.IsBuilt := by
  have hverify (whole : List UInt8) := Crc.isBuilt_verify whole fun carried => carried
  unfold check; infer_instance

instance isBuilt_parse : parse.IsBuilt := by unfold parse; infer_instance

end StreamMap

namespace Packet

instance isBuilt_parseStart : parseStart.IsBuilt := by unfold parseStart; infer_instance

instance isBuilt_flags : Flags.parse.IsBuilt := by unfold Flags.parse; infer_instance

instance isBuilt_header : Header.parse.IsBuilt := by unfold Header.parse; infer_instance

instance isBuilt_parseTimes (id : UInt8) (times : BitVec 2) : (parseTimes id times).IsBuilt := by
  unfold parseTimes; infer_instance

instance isBuilt_parseClock : parseClock.IsBuilt := by unfold parseClock; infer_instance

instance isBuilt_parseRate : parseRate.IsBuilt := by unfold parseRate; infer_instance

instance isBuilt_parseCopyInfo : parseCopyInfo.IsBuilt := by unfold parseCopyInfo; infer_instance

namespace TrickMode

instance isBuilt_parseFast (backward : Bool) : (parseFast backward).IsBuilt := by
  unfold parseFast; infer_instance

instance isBuilt_parseSlow (backward : Bool) : (parseSlow backward).IsBuilt := by
  unfold parseSlow; infer_instance

instance isBuilt_parseFreeze : parseFreeze.IsBuilt := by unfold parseFreeze; infer_instance

instance isBuilt_parseUnassigned (control : Nat) : (parseUnassigned control).IsBuilt := by
  unfold parseUnassigned; infer_instance

instance isBuilt_parse : parse.IsBuilt :=
  .bind inferInstance fun control => by split <;> infer_instance

end TrickMode

namespace Extension

instance isBuilt_packHeader : parsePackHeader.IsBuilt := by unfold parsePackHeader; infer_instance

instance isBuilt_counter : SequenceCounter.parse.IsBuilt := by
  unfold SequenceCounter.parse; infer_instance

instance isBuilt_buffer : DecoderBuffer.parse.IsBuilt := by
  unfold DecoderBuffer.parse; infer_instance

instance isBuilt_field : parseField.IsBuilt := by unfold parseField; infer_instance

instance isBuilt_parse : parse.IsBuilt := by unfold parse; infer_instance

end Extension

instance isBuilt_fields (id : UInt8) (flags : Flags) : (Fields.parse id flags).IsBuilt := by
  unfold Fields.parse; infer_instance

instance isBuilt_parse : parse.IsBuilt := by unfold parse; infer_instance

end Packet

namespace Section

instance isBuilt_check : check.IsBuilt := by
  have hverify (whole : List UInt8) (length : Nat) :=
    Crc.isBuilt_verify whole fun carried => (length, carried)
  unfold check; infer_instance

instance isBuilt_parsePid : parsePid.IsBuilt := by unfold parsePid; infer_instance

instance isBuilt_parseLength : parseLength.IsBuilt := by unfold parseLength; infer_instance

instance isBuilt_parseVersion : parseVersion.IsBuilt := by unfold parseVersion; infer_instance

namespace Association

instance isBuilt_parsePrograms (n : Nat) : (parsePrograms n).IsBuilt := by
  induction n with
  | zero => exact Parser.isBuilt_pure []
  | succ n ih =>
    exact .bind inferInstance fun number => .bind isBuilt_parsePid fun pid =>
      .bind ih fun programs => inferInstance

instance isBuilt_parse : parse.IsBuilt := by unfold parse; infer_instance

end Association

namespace ProgramMap

instance isBuilt_parseStreams (n : Nat) : (parseStreams n).IsBuilt := by
  fun_induction parseStreams n with
  | case1 => infer_instance
  | case2 => infer_instance
  | case3 n hn hlong ih => infer_instance

instance isBuilt_parse : parse.IsBuilt := by unfold parse; infer_instance

end ProgramMap

end Section

end ProgramStream
