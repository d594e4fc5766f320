import Mathlib.Algebra.Order.BigOperators.Group.List
import Mathlib.Data.List.Basic
import ProgramStream.Proofs.StreamMap
/-!
# Program stream maps — their grammar

A map is some bytes cut into parts (`StreamMap.Raw`): the lengths it states,
the entries it is made of, each with the info it carries, and a checksum.
Which of these are maps is `StreamMap.Raw.IsSound`, said of the bytes and the
lengths alone. What such bytes say is `value`; they are laid out as it
(`sectionBits_value`), and whatever is filled is said by some bytes
(`exists_value_eq`), so that the grammar is that of the parser.
-/

namespace ProgramStream

/-! ## Entries -/

/-- An entry as it stands in a map, its info not looked into. -/
structure MapEntry.Raw where
  streamType : UInt8
  streamId : UInt8
  info : List UInt8
  deriving DecidableEq, Repr

namespace MapEntry.Raw

/-- The bytes of an entry. -/
def bytes (e : Raw) : List UInt8 :=
  e.streamType :: e.streamId :: (ByteOrder.big.bytes 2 e.info.length ++ e.info)

/-- The length of an entry. -/
def size (e : Raw) : Nat := fixedLength + e.info.length

/-- An entry that is extended has the bytes of a pseudo descriptor, with its
marker set. -/
def IsSound (single : Bool) (e : Raw) : Prop :=
  IsExtended single e.streamId →
    PseudoDescriptor.size ≤ e.info.length ∧ (e.info.getD 2 0).toNat.testBit 7 = true

instance (single : Bool) (e : Raw) : Decidable (e.IsSound single) :=
  inferInstanceAs (Decidable (_ → _))

/-- The pseudo descriptor at the start of some info. -/
def pseudo (info : List UInt8) : PseudoDescriptor :=
  ⟨info.getD 0 0, info.getD 1 0, BitVec.ofNat 7 (info.getD 2 0).toNat⟩

/-- What an entry says. -/
def value (single : Bool) (e : Raw) : MapEntry :=
  { streamType := e.streamType
    streamId := e.streamId
    infoLength := UInt16.ofNat e.info.length
    pseudo := if IsExtended single e.streamId then some (pseudo e.info) else none
    descriptors :=
      if IsExtended single e.streamId then e.info.drop PseudoDescriptor.size else e.info }

variable {single : Bool} {e : Raw}

/-- Info of three bytes and more is a pseudo descriptor and what follows. -/
theorem ofBytes_info {info : List UInt8} (hlen : PseudoDescriptor.size ≤ info.length)
    (hmarker : (info.getD 2 0).toNat.testBit 7 = true) :
    Bits.ofBytes info =
      (pseudo info).bits ++ Bits.ofBytes (info.drop PseudoDescriptor.size) := by
  match info, hlen with
  | code :: length :: extension :: rest, _ =>
    have hmarker' : extension.toNat.testBit 7 = true := hmarker
    have hbyte : Bits.ofByte extension =
        [extension.toNat.testBit 7] ++ Bits.ofField (BitVec.ofNat 7 extension.toNat) := by
      rw [Bits.ofField_ofNat]
      rfl
    simp only [Bits.ofBytes_cons, hbyte, hmarker', pseudo, PseudoDescriptor.bits,
      PseudoDescriptor.size, List.append_assoc, List.drop_succ_cons, List.drop_zero]
    rfl

/-- **An entry is laid out as what it says.** -/
theorem bits_value (h : e.IsSound single) (hlt : e.info.length < 2 ^ 16) :
    (e.value single).bits = Bits.ofBytes e.bytes := by
  have hword := Bits.ofField_word (UInt16.ofNat e.info.length)
  rw [UInt16.toNat_ofNat_of_lt' hlt] at hword
  have hinfo : (e.value single).infoBits = Bits.ofBytes e.info := by
    by_cases hextended : IsExtended single e.streamId
    · obtain ⟨hlen, hmarker⟩ := h hextended
      simp only [infoBits, value, if_pos hextended, Option.elim_some]
      exact (ofBytes_info hlen hmarker).symm
    · simp only [infoBits, value, if_neg hextended, Option.elim_none, List.nil_append]
  rw [bits, hinfo]
  simp only [value, hword, bytes, Bits.ofBytes_cons, Bits.ofBytes_append]

theorem isValid_value (h : e.IsSound single) (hlt : e.info.length < 2 ^ 16) :
    (e.value single).IsValid single := by
  have hword : (UInt16.ofNat e.info.length).toNat = e.info.length := UInt16.toNat_ofNat_of_lt' hlt
  by_cases hextended : IsExtended single e.streamId
  · have hlen := (h hextended).1
    refine ⟨by simp [value, hextended], ?_⟩
    simp only [value, if_pos hextended, Option.elim_some, List.length_drop, hword]
    omega
  · refine ⟨by simp [value, hextended], ?_⟩
    simp only [value, if_neg hextended, Option.elim_none, hword]
    omega

/-- **Every valid entry stands in a map as some bytes.** -/
theorem exists_value_eq {e : MapEntry} (h : e.IsValid single) :
    ∃ raw : Raw, raw.IsSound single ∧ raw.value single = e ∧
      raw.info.length = e.infoLength.toNat := by
  obtain ⟨hsome, hlen⟩ := h
  have hword : UInt16.ofNat e.infoLength.toNat = e.infoLength := UInt16.ofNat_toNat
  obtain ⟨streamType, streamId, infoLength, pseudo, descriptors⟩ := e
  simp only at hsome hlen hword
  cases pseudo with
  | none =>
    have hnot : ¬IsExtended single streamId := fun hext => by simpa using hsome.2 hext
    have hinfo : descriptors.length = infoLength.toNat := by simpa using hlen
    refine ⟨⟨streamType, streamId, descriptors⟩, fun hext => absurd hext hnot, ?_, hinfo⟩
    simp only [value, if_neg hnot, hinfo, hword]
  | some p =>
    have hext : IsExtended single streamId := hsome.1 rfl
    obtain ⟨last, hlast⟩ :=
      Bits.exists_ofByte_eq (show ([true] ++ Bits.ofField p.idExtension).length = 8 by simp)
    have hmarker : last.toNat.testBit 7 = true := (List.cons.inj hlast).1
    have hid : BitVec.ofNat 7 last.toNat = p.idExtension := by
      refine Bits.ofField_inj ?_
      rw [Bits.ofField_ofNat]
      exact (List.cons.inj hlast).2
    have hinfo : (p.code :: p.length :: last :: descriptors).length = infoLength.toNat := by
      simp only [Option.elim_some, PseudoDescriptor.size] at hlen
      simp only [List.length_cons]
      omega
    refine ⟨⟨streamType, streamId, p.code :: p.length :: last :: descriptors⟩,
      fun _ => ⟨?_, hmarker⟩, ?_, hinfo⟩
    · simp [PseudoDescriptor.size]
    · simp only [value, if_pos hext, hinfo, hword]
      simp [Raw.pseudo, hid, PseudoDescriptor.size]

end MapEntry.Raw

/-! ## Maps -/

/-- A map as it stands in a unit, cut into its parts. -/
structure StreamMap.Raw where
  length : UInt16
  /-- current/next, single extension, a reserved bit, and the version -/
  flags : UInt8
  /-- reserved bits, and the marker -/
  marker : UInt8
  infoLength : UInt16
  descriptors : List UInt8
  entriesLength : UInt16
  entries : List MapEntry.Raw
  checksum : UInt32
  deriving DecidableEq, Repr

namespace StreamMap.Raw

/-- The bytes the checksum is for. -/
def body (r : Raw) : List UInt8 :=
  startBytes StreamId.map ++ (ByteOrder.big.bytes 2 r.length.toNat ++ ([r.flags] ++ ([r.marker] ++
    (ByteOrder.big.bytes 2 r.infoLength.toNat ++ (r.descriptors ++
    (ByteOrder.big.bytes 2 r.entriesLength.toNat ++ r.entries.flatMap MapEntry.Raw.bytes))))))

/-- The bytes of the unit. -/
def bytes (r : Raw) : List UInt8 := r.body ++ ByteOrder.big.bytes 4 r.checksum.toNat

/-- The flag that no stream of the map is extended. -/
def single (r : Raw) : Bool := r.flags.toNat.testBit 6

/-- The parts of a map are as long as it says, its marker is set, and its
entries are sound. -/
structure IsFilled (r : Raw) : Prop where
  marker : r.marker.toNat.testBit 0 = true
  descriptors : r.descriptors.length = r.infoLength.toNat
  entries : (r.entries.map MapEntry.Raw.size).sum = r.entriesLength.toNat
  isSound : ∀ e ∈ r.entries, e.IsSound r.single

/-- **The grammar of maps**: a map that is filled, the length of which is that
of its parts, and the checksum that of the bytes before it. -/
structure IsSound (r : Raw) : Prop extends r.IsFilled where
  length : r.length.toNat = 10 + r.infoLength.toNat + r.entriesLength.toNat
  checksum : Crc.compute r.body = r.checksum

instance (r : Raw) : Decidable r.IsSound :=
  decidable_of_iff
    ((r.marker.toNat.testBit 0 = true ∧ r.descriptors.length = r.infoLength.toNat ∧
        (r.entries.map MapEntry.Raw.size).sum = r.entriesLength.toNat ∧
        ∀ e ∈ r.entries, e.IsSound r.single) ∧
      r.length.toNat = 10 + r.infoLength.toNat + r.entriesLength.toNat ∧
      Crc.compute r.body = r.checksum)
    ⟨fun ⟨⟨h₁, h₂, h₃, h₄⟩, h₅, h₆⟩ => ⟨⟨h₁, h₂, h₃, h₄⟩, h₅, h₆⟩,
      fun h => ⟨⟨h.marker, h.descriptors, h.entries, h.isSound⟩, h.length, h.checksum⟩⟩

/-- What a map says. -/
def value (r : Raw) : StreamMap :=
  { length := r.length
    currentNext := r.flags.toNat.testBit 7
    singleExtension := r.single
    version := BitVec.ofNat 5 r.flags.toNat
    infoLength := r.infoLength
    descriptors := r.descriptors
    entriesLength := r.entriesLength
    entries := r.entries.map (MapEntry.Raw.value r.single)
    checksum := r.checksum }

/-- The reserved bit of the flags. -/
def first (r : Raw) : BitVec 1 := BitVec.ofNat 1 (r.flags.toNat >>> 5)

/-- The reserved bits before the marker. -/
def second (r : Raw) : BitVec 7 := BitVec.ofNat 7 (r.marker.toNat >>> 1)

variable {r : Raw}

theorem ofByte_flags (r : Raw) :
    Bits.ofByte r.flags =
      [r.flags.toNat.testBit 7] ++ ([r.single] ++ (Bits.ofField r.first ++
        Bits.ofField (BitVec.ofNat 5 r.flags.toNat))) := by
  rw [first, Bits.ofField_ofNat, Bits.ofField_ofNat]
  simp [Bits.ofByte, Bits.ofNat, single]

theorem ofByte_marker (r : Raw) :
    Bits.ofByte r.marker = Bits.ofField r.second ++ [r.marker.toNat.testBit 0] := by
  rw [second, Bits.ofField_ofNat]
  simp [Bits.ofByte, Bits.ofNat, Nat.testBit_shiftRight]

/-- The info of an entry is no longer than the entries together. -/
theorem length_info_lt (h : r.IsFilled) {e : MapEntry.Raw} (he : e ∈ r.entries) :
    e.info.length < 2 ^ 16 := by
  have hmem : e.size ∈ r.entries.map MapEntry.Raw.size := List.mem_map_of_mem he
  have hle := List.le_sum_of_mem hmem
  have hlt := r.entriesLength.toNat_lt
  rw [h.entries, MapEntry.Raw.size] at hle
  omega

theorem size_value {e : MapEntry.Raw} (single : Bool) (h : e.info.length < 2 ^ 16) :
    (e.value single).size = e.size := by
  simp only [MapEntry.size, MapEntry.Raw.value, MapEntry.Raw.size, UInt16.toNat_ofNat_of_lt' h]

theorem map_size_value (h : r.IsFilled) :
    r.value.entries.map MapEntry.size = r.entries.map MapEntry.Raw.size := by
  simp only [value, List.map_map]
  exact List.map_congr_left fun e he => size_value r.single (length_info_lt h he)

theorem isFilled_value (h : r.IsFilled) : r.value.IsFilled where
  descriptors := h.descriptors
  entries := by rw [map_size_value h, h.entries]; rfl
  isValid := by
    intro e he
    obtain ⟨raw, hraw, rfl⟩ := List.mem_map.1 he
    exact MapEntry.Raw.isValid_value (h.isSound raw hraw) (length_info_lt h hraw)

/-- **A filled map is laid out as what it says.** -/
theorem sectionBits_value (h : r.IsFilled) :
    r.value.sectionBits (startCode StreamId.map).toBitVec r.first r.second =
      Bits.ofBytes r.body := by
  have hentries : r.value.entries.flatMap MapEntry.bits =
      Bits.ofBytes (r.entries.flatMap MapEntry.Raw.bytes) := by
    rw [Bits.ofBytes, List.flatMap_assoc, value, List.flatMap_map]
    exact List.flatMap_congr fun e he =>
      MapEntry.Raw.bits_value (h.isSound e he) (length_info_lt h he)
  have hmarker := ofByte_marker r
  rw [h.marker] at hmarker
  rw [sectionBits, hentries, ← ofBytes_startBytes]
  simp only [value, Bits.ofField_word, body, Bits.ofBytes_append, Bits.ofBytes_cons,
    Bits.ofBytes_nil, List.append_nil, ofByte_flags, hmarker, List.append_assoc]

theorem exists_entries_eq {single : Bool} {es : List MapEntry}
    (h : ∀ e ∈ es, e.IsValid single) :
    ∃ raws : List MapEntry.Raw, (∀ e ∈ raws, e.IsSound single) ∧
      raws.map (MapEntry.Raw.value single) = es ∧
      raws.map MapEntry.Raw.size = es.map MapEntry.size := by
  induction es with
  | nil => exact ⟨[], by simp, rfl, rfl⟩
  | cons e es ih =>
    obtain ⟨he, hes⟩ := List.forall_mem_cons.1 h
    obtain ⟨raw, hsound, hvalue, hlength⟩ := MapEntry.Raw.exists_value_eq he
    obtain ⟨raws, hsounds, hvalues, hlengths⟩ := ih hes
    refine ⟨raw :: raws, List.forall_mem_cons.2 ⟨hsound, hsounds⟩, ?_, ?_⟩
    · rw [List.map_cons, hvalue, hvalues]
    · rw [List.map_cons, List.map_cons, hlengths, MapEntry.Raw.size, hlength]
      rfl

/-- **Every filled map stands in a unit as some bytes**, with any reserved
bits. -/
theorem exists_value_eq {m : StreamMap} (h : m.IsFilled) (first : BitVec 1) (second : BitVec 7) :
    ∃ r : Raw, r.value = m ∧ r.first = first ∧ r.second = second ∧ r.IsFilled := by
  obtain ⟨flags, hflags⟩ := Bits.exists_ofByte_eq
    (show ([m.currentNext] ++ ([m.singleExtension] ++ (Bits.ofField first ++
      Bits.ofField m.version))).length = 8 by simp)
  obtain ⟨marker, hmarker⟩ := Bits.exists_ofByte_eq
    (show (Bits.ofField second ++ [true]).length = 8 by simp)
  obtain ⟨entries, hsound, hvalue, hsize⟩ := exists_entries_eq h.isValid
  let r : Raw :=
    ⟨m.length, flags, marker, m.infoLength, m.descriptors, m.entriesLength, entries, m.checksum⟩
  obtain ⟨hnext, hbits⟩ := List.append_inj ((ofByte_flags r).symm.trans hflags) rfl
  obtain ⟨hsingle, hbits⟩ := List.append_inj hbits rfl
  obtain ⟨hfirst, hversion⟩ := List.append_inj hbits (by simp)
  obtain ⟨hsecond, hlast⟩ := List.append_inj ((ofByte_marker r).symm.trans hmarker) (by simp)
  have hsingle' : r.single = m.singleExtension := (List.cons.inj hsingle).1
  refine ⟨r, ?_, Bits.ofField_inj hfirst, Bits.ofField_inj hsecond,
    (List.cons.inj hlast).1, h.descriptors, ?_, ?_⟩
  · rw [value, hsingle', (List.cons.inj hnext).1, Bits.ofField_inj hversion]
    exact congrArg (fun es => { m with entries := es }) hvalue
  · rw [hsize, h.entries]
  · rw [hsingle']
    exact hsound

end StreamMap.Raw

end ProgramStream
