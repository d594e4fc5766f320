import ProgramStream.Proofs.Cursor.Position
import ProgramStream.Proofs.Incremental
import ProgramStream.Proofs.Packet
/-!
# Packets — too short for what their flags ask for

The flags of a packet ask for fields, and the flag byte of an extension for the
parts of it (`Flags.neededLength`). Two lengths are compared with what is asked
for before any field is read: the header data length with the widths of the
flagged fields, an extension counted as its flag byte, and the packet length
with the header and its data. Reading the fields faults no length
(`readsFields_fields`), and it fails if the packet ends before they do
(`exists_error_of_lt`). So a packet that is too short is refused in any case,
but for one of its lengths only if one of these two is at fault
(`run_parse_of_lt_needed`); a packet that ends in its extension is refused for
the bytes that are missing (`run_parse_missingPrivateData`).
-/

namespace ProgramStream

open ProgramStream.Parser ProgramStream.Parser.State

/-- The faults of a single field: the input ends in it, or it does not have the
bits that it has to have. No length is among them. -/
class inductive Fault.IsOfField : Fault → Prop
  | truncated : IsOfField .truncated
  | bits (fault : BitFault) : IsOfField (.bits fault)
  | marker (field : String) : IsOfField (.marker field)
  | timestampCode (expected found : Nat) : IsOfField (.timestampCode expected found)
  | malformed (what : Malformation) : IsOfField (.malformed what)

attribute [instance] Fault.IsOfField.truncated Fault.IsOfField.bits Fault.IsOfField.marker
  Fault.IsOfField.timestampCode Fault.IsOfField.malformed

namespace Parser

variable {α β : Type}

/-- A parser that fails with faults of single fields only. -/
class ReadsFields (p : Parser α) : Prop where
  isOfField {s t : State} {fault : Fault} (h : p s = .error fault t) : fault.IsOfField

instance ReadsFields.pure (a : α) : (pure a : Parser α).ReadsFields where
  isOfField h := by cases h

instance ReadsFields.throw (fault : Fault) [hfault : fault.IsOfField] :
    (throw fault : Parser α).ReadsFields where
  isOfField {s t fault'} h := by
    change EStateM.Result.error fault s = .error fault' t at h
    cases h
    exact hfault

instance ReadsFields.bind {p : Parser α} {f : α → Parser β} [hp : p.ReadsFields]
    [hf : ∀ a, (f a).ReadsFields] : (p >>= f).ReadsFields where
  isOfField h := by
    rcases bind_eq_error_iff.1 h with hfirst | ⟨a, u, -, hthen⟩
    · exact hp.isOfField hfirst
    · exact (hf a).isOfField hthen

instance ReadsFields.map {p : Parser α} [hp : p.ReadsFields] (f : α → β) :
    (f <$> p).ReadsFields := by
  rw [map_eq_pure_bind]
  infer_instance

instance ReadsFields.ite {c : Prop} [Decidable c] {p q : Parser α} [hp : p.ReadsFields]
    [hq : q.ReadsFields] : (if c then p else q).ReadsFields := by
  split
  · exact hp
  · exact hq

/-- An operation of the cursor fails for the bits underneath. -/
instance ReadsFields.ofCursor (op : BitCursor → Except BitFault (α × BitCursor)) :
    (ofCursor op).ReadsFields where
  isOfField h := by
    unfold Parser.ofCursor at h
    split at h
    · cases h
    · cases h
      unfold Fault.ofBits
      split <;> infer_instance

instance ReadsFields.warn (w : Warning) : (warn w).ReadsFields where
  isOfField h := by cases h

instance ReadsFields.given {p : Parser α} [hp : p.ReadsFields] (present : Bool) :
    (given present p).ReadsFields := by
  cases present with
  | true => exact ReadsFields.map some
  | false => exact ReadsFields.pure none

instance ReadsFields.field (n : Nat) : (field n).ReadsFields := by
  unfold Parser.field; infer_instance

instance ReadsFields.flag : flag.ReadsFields := ReadsFields.ofCursor _

instance ReadsFields.byte : byte.ReadsFields := ReadsFields.ofCursor _

instance ReadsFields.bytes (n : Nat) : (bytes n).ReadsFields := ReadsFields.ofCursor _

instance ReadsFields.field16 : field16.ReadsFields := by unfold Parser.field16; infer_instance

instance ReadsFields.reserved (n : Nat) : (reserved n).ReadsFields := by
  unfold Parser.reserved; infer_instance

instance ReadsFields.marker (name : String) : (marker name).ReadsFields := by
  unfold Parser.marker; infer_instance

instance ReadsFields.count33 (name : String) : (count33 name).ReadsFields := by
  unfold Parser.count33; infer_instance

end Parser

namespace Packet

/-! ## The optional fields -/

-- the search keeps a goal for each field that a parser reads
set_option synthInstance.maxSize 4000

instance readsFields_timestamp (code : Nat) : (Timestamp.parseCode code).ReadsFields := by
  unfold Timestamp.parseCode Timestamp.parse; infer_instance

instance readsFields_times (id : UInt8) (times : BitVec 2) : (parseTimes id times).ReadsFields := by
  unfold parseTimes; infer_instance

instance readsFields_clock : parseClock.ReadsFields := by
  unfold parseClock ClockReference.parse; infer_instance

instance readsFields_rate : parseRate.ReadsFields := by unfold parseRate; infer_instance

instance readsFields_copyInfo : parseCopyInfo.ReadsFields := by unfold parseCopyInfo; infer_instance

instance readsFields_trickMode : TrickMode.parse.ReadsFields := by
  unfold TrickMode.parse TrickMode.parseFast TrickMode.parseSlow TrickMode.parseFreeze
    TrickMode.parseUnassigned
  refine @ReadsFields.bind _ _ _ _ inferInstance fun control => ?_
  split <;> infer_instance

namespace Extension

instance readsFields_counter : SequenceCounter.parse.ReadsFields := by
  unfold SequenceCounter.parse; infer_instance

instance readsFields_buffer : DecoderBuffer.parse.ReadsFields := by
  unfold DecoderBuffer.parse; infer_instance

instance readsFields_parse : parse.ReadsFields := by
  unfold parse parsePackHeader parseField; infer_instance

end Extension

/-- **No length is at fault in the optional fields.** -/
instance readsFields_fields (id : UInt8) (flags : Flags) : (Fields.parse id flags).ReadsFields := by
  unfold Fields.parse; infer_instance

/-! ## The length that is needed -/

/-- What the flag byte of an extension asks for after itself, a part of no fixed
length with the byte that tells its length. -/
def Extension.selectedLength (flagByte : UInt8) : Nat :=
  privateLength * (flagByte.toNat.testBit 7).toNat + (flagByte.toNat.testBit 6).toNat +
    2 * (flagByte.toNat.testBit 5).toNat + 2 * (flagByte.toNat.testBit 4).toNat +
    (flagByte.toNat.testBit 0).toNat

/-- What the flags of a packet ask for, in front of the bytes where the fields
begin: their fields, and what the flag byte of an extension asks for if it is
among these bytes. -/
def Flags.neededLength (flags : Flags) (body : List UInt8) : Nat :=
  flags.requiredLength +
    if flags.extension then (body[flags.requiredLength - 1]?).elim 0 Extension.selectedLength
    else 0

variable {flags : Flags} {f : Fields} {fill : Filling} {body : List UInt8}

/-- An extension is no shorter than its flag byte asks for. -/
theorem Extension.selectedLength_le {e : Extension} (hvalid : e.IsValid) {flagByte : UInt8}
    {reserved : BitVec 3} (hbits : Bits.ofByte flagByte = e.flagBits reserved) :
    1 + selectedLength flagByte ≤ e.size := by
  simp only [Bits.ofByte, Bits.ofNat, flagBits, Bits.ofField, List.cons_append, List.nil_append,
    List.cons.injEq] at hbits
  obtain ⟨hprivate, hpack, hcounter, hbuffer, -, -, -, hfield, -⟩ := hbits
  have hprivateLength : privateLength * e.privateData.isSome.toNat =
      e.privateData.elim 0 List.length := by
    cases hdata : e.privateData with
    | none => rfl
    | some bytes =>
      rw [Option.elim_some, hvalid.privateData bytes hdata]
      rfl
  have hpackLength : e.packHeader.isSome.toNat ≤ e.packHeader.elim 0 (1 + ·.length) := by
    cases e.packHeader with
    | none => exact Nat.le_refl 0
    | some bytes => exact Nat.le_add_right 1 _
  have hfieldLength : e.field.isSome.toNat ≤ e.field.elim 0 (1 + ·.length) := by
    cases e.field with
    | none => exact Nat.le_refl 0
    | some bytes => exact Nat.le_add_right 1 _
  rw [selectedLength, hprivate, hpack, hcounter, hbuffer, hfield, hprivateLength, size]
  omega

/-- The byte that eight bits at its place are of. -/
theorem exists_getElem?_of_bits {front eight : List Bool} {i : Nat}
    (hbits : front ++ eight <+: Bits.ofBytes body) (hfront : front.length = 8 * i)
    (height : eight.length = 8) : ∃ b, body[i]? = some b ∧ Bits.ofByte b = eight := by
  obtain ⟨rest, hrest⟩ := hbits
  have hdrop : Bits.ofBytes (body.drop i) = eight ++ rest := by
    rw [← Bits.drop_ofBytes, ← hrest, List.append_assoc, ← hfront, List.drop_left]
  cases htail : body.drop i with
  | nil =>
    have hlength := congrArg List.length hdrop
    rw [htail, Bits.ofBytes_nil, List.length_append, height, List.length_nil] at hlength
    omega
  | cons b tail =>
    rw [htail, Bits.ofBytes_cons] at hdrop
    have hbyte : Bits.ofByte b = eight :=
      (List.append_inj hdrop (by rw [Bits.length_ofByte, height])).1
    have hget : body[i]? = (body.drop i)[0]? := by rw [List.getElem?_drop, Nat.add_zero]
    exact ⟨b, by rw [hget, htail]; rfl, hbyte⟩

/-- **Fields are no shorter than is needed for them.** -/
theorem Fields.neededLength_le (hvalid : f.IsValid flags)
    (hbits : f.bits fill <+: Bits.ofBytes body) : flags.neededLength body ≤ f.size := by
  have hrequired := requiredLength_eq hvalid
  have hextension := hvalid.extension
  unfold Flags.neededLength
  cases he : f.extension with
  | none =>
    have hnone : ¬ flags.extension = true := by
      rw [← hextension, he]
      simp
    rw [if_neg hnone]
    exact requiredLength_le hvalid
  | some e =>
    have hsome : flags.extension = true := by
      rw [← hextension, he]
      rfl
    -- the flag byte stands behind the fields before the extension
    have hfront : f.earlyBits fill ++ e.flagBits fill.extension <+: f.bits fill := by
      rw [bits, he, Option.elim_some, Extension.bits, ← List.append_assoc]
      exact List.prefix_append _ _
    obtain ⟨flagByte, hget, hflags⟩ := exists_getElem?_of_bits (hfront.trans hbits)
      (f.length_earlyBits fill) (by simp [Extension.flagBits])
    have hselected := Extension.selectedLength_le (hvalid.extension_isValid e he) hflags
    have hindex : flags.requiredLength - 1 = f.earlySize := by
      rw [hrequired, he]
      rfl
    rw [if_pos hsome, hindex, hget, Option.elim_some, hrequired, size, he, Option.elim_some,
      Option.isSome_some, Bool.toNat_true]
    omega

/-! ## A packet that is too short -/

/-- **A packet with nothing behind it**, at a byte boundary: a start code, the
packet length, a header, and what the packet length counts behind the header. -/
structure Holds (start : BitCursor) (streamId : UInt8) (packetLength : UInt16) (header : Header)
    (body : List UInt8) : Prop where
  aligned : start.pending = []
  bytes_eq : start.bytes = startBytes streamId ++
    (ByteOrder.big.bytes 2 packetLength.toNat ++ (Bits.pack header.bits ++ body))
  length_eq : packetLength.toNat = headerLength + body.length

/-- The bytes begin like fields that the flags ask for, so every code and every
marker bit among them is right. -/
def Flags.BeginFields (flags : Flags) (body : List UInt8) : Prop :=
  ∃ (more : List UInt8) (f : Fields) (fill : Filling), f.IsValid flags ∧
    f.bits fill <+: Bits.ofBytes (body ++ more)

/-- What is read of a packet behind its header. -/
def parseRest (streamId : UInt8) (packetLength : UInt16) (header : Header) : Parser Packet := do
  let declared := packetLength.toNat
  let dataLength := header.dataLength.toNat
  let required := header.flags.requiredLength
  if dataLength < required then throw (.tooShort dataLength required)
  if declared < headerLength + dataLength then
    throw (.tooShort declared (headerLength + dataLength))
  let start ← Parser.taken
  let fields ← Fields.parse streamId header.flags
  let used := (← Parser.taken) - start
  if dataLength < used then throw (.tooShort dataLength used)
  Parser.skip (dataLength - used)
  let payload ← Parser.bytes (declared - headerLength - dataLength)
  return { streamId, packetLength, header, fields, payload }

theorem parse_eq :
    parse = (do
      let streamId ← parseStart
      let packetLength ← Parser.field16
      if packetLength.toNat < headerLength then
        throw (.tooShort packetLength.toNat headerLength)
      let header ← Header.parse
      parseRest streamId packetLength header) := rfl

variable {streamId : UInt8} {header : Header} {start : BitCursor} {packetLength : UInt16}
  {s t u : Parser.State} {fault : Fault}

/-- **The fields of a packet begin behind its header**, where nothing but they
and what follows them is ahead. -/
theorem Holds.exists_parseRest (h : Holds start streamId packetLength header body) :
    ∃ t : Parser.State, t.IsAligned ∧ t.cursor.bytes = body ∧
      parse ⟨start, #[]⟩ = parseRest streamId packetLength header t := by
  obtain ⟨haligned, hbytes, hlength⟩ := h
  let front := startBytes streamId ++
    (ByteOrder.big.bytes 2 packetLength.toNat ++ Bits.pack header.bits)
  have hfront : start.bytes = front ++ body := by
    simp only [hbytes, front, List.append_assoc]
  have hbits : Bits.ofBytes front = Bits.ofBytes (startBytes streamId) ++
      (Bits.ofField packetLength.toBitVec ++ header.bits) := by
    have hheader : Bits.ofBytes (Bits.pack header.bits) = header.bits :=
      Bits.ofBytes_pack ⟨headerLength, header.length_bits⟩
    rw [Bits.ofBytes_append, Bits.ofBytes_append, hheader, Bits.ofField_word]
  let t : Parser.State := ⟨⟨[], body, start.taken + front.length, by decide⟩, #[]⟩
  have htakes : State.Takes ⟨start, #[]⟩ (Bits.ofBytes front) [] t :=
    ⟨BitCursor.takes_bytes haligned hfront, rfl⟩
  rw [hbits] at htakes
  obtain ⟨u, hstart, htakes⟩ := takes_append_last_iff.1 htakes
  obtain ⟨v, hword, hheader⟩ := takes_append_last_iff.1 htakes
  have hv : v.IsAligned := (hheader.isAligned_iff (by simp)).1 rfl
  refine ⟨t, rfl, rfl, ?_⟩
  rw [parse_eq, bind_of_ok (parseStart_eq_ok_iff.2 hstart), bind_of_ok (field16_eq_ok_iff.2 hword),
    if_neg (by omega)]
  exact bind_of_ok (Header.parse_eq_ok_iff.2 ⟨hv, hheader⟩)

/-- **Fields that do not end in the bytes there are cannot be read.** -/
theorem exists_error_of_lt (streamId : UInt8) (ht : t.IsAligned) (hbody : t.cursor.bytes = body)
    (hlt : body.length < header.flags.neededLength body) :
    ∃ fault u, Fields.parse streamId header.flags t = .error fault u ∧ fault.IsOfField ∧
      (header.flags.BeginFields body → fault = .truncated) := by
  have hahead : t.cursor.ahead = Bits.ofBytes body := by
    rw [BitCursor.ahead_of_pending ht, hbody]
  cases hparse : Fields.parse streamId header.flags t with
  | ok f u =>
    -- fields that are read are among the bytes, and no shorter than is needed
    obtain ⟨hvalid, fill, htakes⟩ := (Fields.parse_eq_ok_iff ht).1 hparse
    have hbits : f.bits fill <+: Bits.ofBytes body := by
      rw [← hahead, htakes.cursor.ahead_eq]
      exact List.prefix_append _ _
    have hneeded := Fields.neededLength_le hvalid hbits
    have hlength := hbits.length_le
    rw [Fields.length_bits, Bits.length_ofBytes] at hlength
    omega
  | error fault u =>
    refine ⟨fault, u, rfl, ReadsFields.isOfField hparse, ?_⟩
    rintro ⟨more, f, fill, hvalid, hbits⟩
    by_contra hfault
    -- any other fault would stand with more bytes behind, where the fields are read
    have hmore := (isBuilt_fields streamId header.flags).isStable.error hparse hfault more
    have hahead' : (t.extend more).cursor.ahead = Bits.ofBytes (body ++ more) := by
      rw [Bits.ofBytes_append, ← hahead]
      simp [State.extend, BitCursor.extend, BitCursor.ahead]
    rw [← hahead'] at hbits
    obtain ⟨v, htakes⟩ := exists_takes hbits (timeWarnings streamId header.flags.times)
    have hok : Fields.parse streamId header.flags (t.extend more) = .ok f _ :=
      (Fields.parse_eq_ok_iff (s := t.extend more) ht).2 ⟨hvalid, fill, htakes⟩
    rw [hmore] at hok
    cases hok

/-! ## Which length is at fault -/

/-- The fields do not fit the header. -/
theorem parseRest_of_lt_required (h : header.dataLength.toNat < header.flags.requiredLength) :
    parseRest streamId packetLength header t =
      .error (.tooShort header.dataLength.toNat header.flags.requiredLength) t := by
  simp only [parseRest]
  rw [if_pos h]
  rfl

/-- The header does not fit the packet. -/
theorem parseRest_of_lt_header (h : header.flags.requiredLength ≤ header.dataLength.toNat)
    (hlt : packetLength.toNat < headerLength + header.dataLength.toNat) :
    parseRest streamId packetLength header t =
      .error (.tooShort packetLength.toNat (headerLength + header.dataLength.toNat)) t := by
  simp only [parseRest]
  rw [if_neg (Nat.not_lt.2 h), if_pos hlt]
  rfl

/-- Both fit, and the fields cannot be read. -/
theorem parseRest_of_error (h : header.flags.requiredLength ≤ header.dataLength.toNat)
    (hle : headerLength + header.dataLength.toNat ≤ packetLength.toNat)
    (hfields : Fields.parse streamId header.flags t = .error fault u) :
    parseRest streamId packetLength header t = .error fault u := by
  simp only [parseRest]
  rw [if_neg (Nat.not_lt.2 h), if_neg (Nat.not_lt.2 hle)]
  refine bind_eq_error_iff.2 (.inr ⟨_, t, taken_eq_ok_iff.2 ⟨rfl, rfl⟩, ?_⟩)
  exact bind_eq_error_iff.2 (.inl hfields)

/-- **A packet shorter than its flags ask for is refused**, with nothing behind
it. A length is at fault exactly if the header data length is smaller than the
widths of the flagged fields, or the packet length smaller than the header with
its data; the fault has that length and what it would have to be. What the flag
byte of an extension asks for is in neither: a packet that ends before it is
refused for a field, and as truncated if no other bit of the fields is wrong. -/
theorem run_parse_of_lt_needed (h : Holds start streamId packetLength header body)
    (hlt : packetLength.toNat < headerLength + header.flags.neededLength body) :
    let declared := header.dataLength.toNat
    let required := header.flags.requiredLength
    let result := (parse.run start).result
    (declared < required → result = .error (.tooShort declared required)) ∧
      (required ≤ declared → packetLength.toNat < headerLength + declared →
        result = .error (.tooShort packetLength.toNat (headerLength + declared))) ∧
      (required ≤ declared → headerLength + declared ≤ packetLength.toNat →
        ∃ fault, result = .error fault ∧ fault.IsOfField ∧
          (header.flags.BeginFields body → fault = .truncated)) ∧
      ((∃ length least, result = .error (.tooShort length least)) ↔
        declared < required ∨ packetLength.toNat < headerLength + declared) := by
  intro declared required result
  obtain ⟨t, ht, hbody, hparse⟩ := h.exists_parseRest
  have hresult {fault : Fault} {u : Parser.State}
      (hrest : parseRest streamId packetLength header t = .error fault u) :
      result = .error fault :=
    congrArg Outcome.result (run_of_error (hparse.trans hrest))
  have hrequired (hshort : declared < required) : result = .error (.tooShort declared required) :=
    hresult (parseRest_of_lt_required hshort)
  have hheader (hfits : required ≤ declared)
      (hshort : packetLength.toNat < headerLength + declared) :
      result = .error (.tooShort packetLength.toNat (headerLength + declared)) :=
    hresult (parseRest_of_lt_header hfits hshort)
  have hfields (hfits : required ≤ declared) (hle : headerLength + declared ≤ packetLength.toNat) :
      ∃ fault, result = .error fault ∧ fault.IsOfField ∧
        (header.flags.BeginFields body → fault = .truncated) := by
    have hneeded : body.length < header.flags.neededLength body := by
      have hlength := h.length_eq
      omega
    obtain ⟨fault, u, herror, hfault, htruncated⟩ :=
      exists_error_of_lt streamId ht hbody hneeded
    exact ⟨fault, hresult (parseRest_of_error hfits hle herror), hfault, htruncated⟩
  refine ⟨hrequired, hheader, hfields, ?_⟩
  constructor
  · rintro ⟨length, least, hlength⟩
    by_contra hnot
    obtain ⟨hfits, hle⟩ := not_or.1 hnot
    obtain ⟨fault, herror, hfault, -⟩ := hfields (Nat.not_lt.1 hfits) (Nat.not_lt.1 hle)
    rw [hlength] at herror
    cases herror
    cases hfault
  · intro hshort
    by_cases hfits : declared < required
    · exact ⟨_, _, hrequired hfits⟩
    · exact ⟨_, _, hheader (Nat.not_lt.1 hfits) (hshort.resolve_left hfits)⟩

/-- A packet that has no room for the time its flags ask for. -/
theorem run_parse_missingTime :
    let header : Header := ⟨0, false, false, false, false, ⟨0b10, false, false, false, false, false,
      false⟩, 0⟩
    let start := BitCursor.ofBytes [0x00, 0x00, 0x01, 0xE0, 0x00, 0x03, 0x80, 0x80, 0x00]
    Holds start 0xE0 3 header [] ∧ 3 < headerLength + header.flags.neededLength [] ∧
      (parse.run start).result = .error (.tooShort 0 5) := by
  intro header start
  have hholds : Holds start 0xE0 3 header [] := ⟨rfl, by decide, rfl⟩
  have hlt : (3 : UInt16).toNat < headerLength + header.flags.neededLength [] := by decide
  obtain ⟨hrequired, -⟩ := run_parse_of_lt_needed hholds hlt
  exact ⟨hholds, hlt, hrequired (by decide)⟩

/-- **A packet that ends behind the flag byte of its extension** needs sixteen
bytes more, and no length is at fault. -/
theorem run_parse_missingPrivateData :
    let header : Header := ⟨0, false, false, false, false, ⟨0b00, false, false, false, false, false,
      true⟩, 1⟩
    let start := BitCursor.ofBytes [0x00, 0x00, 0x01, 0xE0, 0x00, 0x04, 0x80, 0x01, 0x01, 0x80]
    Holds start 0xE0 4 header [0x80] ∧ header.flags.BeginFields [0x80] ∧
      header.flags.neededLength [0x80] = 17 ∧
      (parse.run start).result = .error .truncated ∧
      ¬ ∃ declared required, (parse.run start).result = .error (.tooShort declared required) := by
  intro header start
  have hfields : header.flags.BeginFields [0x80] := by
    let f : Fields := ⟨none, none, none, none, none, none, none,
      some ⟨some (List.replicate 16 0), none, none, none, none⟩⟩
    exact ⟨List.replicate 16 0, f, ⟨0, 0, 0, []⟩, by decide, by decide⟩
  have hresult : (parse.run start).result = .error .truncated := by decide
  refine ⟨⟨rfl, by decide, rfl⟩, hfields, by decide, hresult, ?_⟩
  rintro ⟨declared, required, hlength⟩
  rw [hresult] at hlength
  cases hlength

end Packet

end ProgramStream
