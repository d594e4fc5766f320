import ProgramStream.Proofs.Crc
import ProgramStream.Proofs.PackHeader
import ProgramStream.StreamMap
/-!
# Program stream maps — what is read is what was laid out

A map's checksum is looked at before anything is decoded (`check_eq_ok_iff`),
over as many bytes as the map says it has. What is decoded after that takes
its own lengths from the map, so a map that is read need not end where it
says (`parse_eq_ok_iff`); one whose lengths agree does (`length_bits`).
-/

namespace ProgramStream

open ProgramStream.Parser ProgramStream.Parser.State

variable {s s' : Parser.State}

namespace PseudoDescriptor

/-- The layout of a pseudo descriptor. -/
def bits (p : PseudoDescriptor) : List Bool :=
  Bits.ofByte p.code ++ (Bits.ofByte p.length ++ ([true] ++ Bits.ofField p.idExtension))

@[simp] theorem length_bits (p : PseudoDescriptor) : p.bits.length = 8 * size := by
  simp [bits, size]

/-- A pseudo descriptor is read off its layout, at a byte boundary. -/
theorem parse_eq_ok_iff {p : PseudoDescriptor} :
    parse s = .ok p s' ↔ s.IsAligned ∧ s.Takes p.bits [] s' := by
  simp (disch := decide) only [parse, bind_eq_ok_iff, byte_eq_ok_iff, marker_eq_ok_iff,
    field_eq_ok_iff, pure_eq_ok_iff]
  constructor
  · rintro ⟨_, _, ⟨haligned, h₁⟩, _, _, ⟨-, h₂⟩, _, _, h₃, _, _, h₄, rfl, rfl⟩
    exact ⟨haligned, h₁.trans <| h₂.trans <| h₃.trans h₄⟩
  · rintro ⟨haligned, h⟩
    simp only [bits, takes_append_last_iff] at h
    obtain ⟨_, h₁, _, h₂, _, h₃, h₄⟩ := h
    exact ⟨_, _, ⟨haligned, h₁⟩, _, _, ⟨(h₁.isAligned_iff (by simp)).2 haligned, h₂⟩, (), _, h₃,
      _, _, h₄, rfl, rfl⟩

end PseudoDescriptor

namespace MapEntry

/-- An entry starts its info with a pseudo descriptor. -/
def IsExtended (single : Bool) (streamId : UInt8) : Prop :=
  streamId = StreamId.extended ∧ single = false

instance (single : Bool) (streamId : UInt8) : Decidable (IsExtended single streamId) :=
  inferInstanceAs (Decidable (_ ∧ _))

/-- The layout of an entry's info. -/
def infoBits (e : MapEntry) : List Bool :=
  e.pseudo.elim [] PseudoDescriptor.bits ++ Bits.ofBytes e.descriptors

/-- The layout of an entry. -/
def bits (e : MapEntry) : List Bool :=
  Bits.ofByte e.streamType ++ (Bits.ofByte e.streamId ++ (Bits.ofField e.infoLength.toBitVec ++
    e.infoBits))

/-- An entry has a pseudo descriptor where the map asks for one, and its info
is as long as it says. -/
def IsValid (single : Bool) (e : MapEntry) : Prop :=
  (e.pseudo.isSome = true ↔ IsExtended single e.streamId) ∧
    (e.pseudo.elim 0 fun _ => PseudoDescriptor.size) + e.descriptors.length = e.infoLength.toNat

instance (single : Bool) (e : MapEntry) : Decidable (e.IsValid single) :=
  inferInstanceAs (Decidable (_ ∧ _))

/-- What is reported about an entry. -/
def warnings (e : MapEntry) : List Warning :=
  match e.codec with
  | .unknown type => [.unknownCodec type e.streamId]
  | _ => []

theorem length_infoBits {single : Bool} {e : MapEntry} (h : e.IsValid single) :
    e.infoBits.length = 8 * e.infoLength.toNat := by
  rw [← h.2, infoBits, List.length_append, Bits.length_ofBytes]
  cases e.pseudo with
  | none => simp
  | some p => simp only [Option.elim_some, PseudoDescriptor.length_bits]; omega

theorem length_bits {single : Bool} {e : MapEntry} (h : e.IsValid single) :
    e.bits.length = 8 * e.size := by
  simp only [bits, List.length_append, Bits.length_ofByte, Bits.length_ofField,
    length_infoBits h, size, fixedLength]
  omega

/-- What is reported at the end of an entry. -/
theorem report_eq_ok_iff {e e' : MapEntry} :
    (match e.codec with
      | .unknown type => do
        warn (.unknownCodec type e.streamId)
        return e
      | _ => return e : Parser MapEntry) s = .ok e' s' ↔ e = e' ∧ s.Takes [] e.warnings s' := by
  unfold warnings
  cases e.codec with
  | unknown type =>
    simp only [bind_eq_ok_iff, warn_eq_ok_iff, pure_eq_ok_iff]
    constructor
    · rintro ⟨_, _, h, rfl, rfl⟩
      exact ⟨rfl, h⟩
    · rintro ⟨rfl, h⟩
      exact ⟨(), _, h, rfl, rfl⟩
  | _ => simp only [pure_eq_ok_iff, takes_nil_iff, eq_comm (a := s)]

/-- The descriptors fill what a pseudo descriptor leaves of the info. -/
theorem length_descriptors_iff {pseudo : Option PseudoDescriptor} {extended : Prop}
    [Decidable extended] {info n : Nat} (hpseudo : pseudo.isSome = decide extended) :
    (¬(extended ∧ info < PseudoDescriptor.size) ∧
        n = if extended then info - PseudoDescriptor.size else info) ↔
      (pseudo.elim 0 fun _ => PseudoDescriptor.size) + n = info := by
  by_cases hextended : extended
  · rw [decide_eq_true hextended] at hpseudo
    obtain ⟨p, rfl⟩ := Option.isSome_iff_exists.1 hpseudo
    simp only [hextended, true_and, if_true, Option.elim_some]
    omega
  · rw [decide_eq_false hextended] at hpseudo
    obtain rfl := Option.isSome_eq_false_iff.1 hpseudo |> Option.isNone_iff_eq_none.1
    simp [hextended]

/-- **An entry is read off its layout**, if it ends within its map. -/
theorem parse_eq_ok_iff {single : Bool} {remaining : Nat} {e : MapEntry} :
    parse single remaining s = .ok e s' ↔
      s.IsAligned ∧ e.size ≤ remaining ∧ e.IsValid single ∧ s.Takes e.bits e.warnings s' := by
  simp only [parse, bind_eq_ok_iff, byte_eq_ok_iff, field16_eq_ok_iff, bytes_eq_ok_iff,
    ite_eq_ok_iff, throw_eq_ok_iff, false_and, exists_false, and_false, false_or,
    given_eq_ok_iff_of fun _ _ => PseudoDescriptor.parse_eq_ok_iff]
  constructor
  · rintro ⟨-, _, _, ⟨haligned, h₁⟩, _, _, ⟨-, h₂⟩, _, _, h₃, hfits, hextended, _, _,
      ⟨hpseudo, -, h₄⟩, _, _, ⟨-, hlen, h₅⟩, hreport⟩
    obtain ⟨rfl, h₆⟩ := report_eq_ok_iff.1 hreport
    refine ⟨haligned, Nat.not_lt.1 hfits, ⟨?_, ?_⟩, ?_⟩
    · rw [hpseudo, decide_eq_true_eq]
      rfl
    · exact (length_descriptors_iff hpseudo).1 ⟨hextended, hlen⟩
    · have hbits := h₁.trans <| h₂.trans <| h₃.trans <| h₄.trans <| h₅.trans h₆
      simpa only [bits, infoBits, List.append_nil, List.nil_append] using hbits
  · rintro ⟨haligned, hfits, ⟨hsome, hlen⟩, htakes⟩
    have hpseudo : e.pseudo.isSome = decide (e.streamId = StreamId.extended ∧ single = false) :=
      Bool.eq_iff_iff.2 (hsome.trans decide_eq_true_iff.symm)
    obtain ⟨hextended, hlen'⟩ := (length_descriptors_iff hpseudo).2 hlen
    rw [← List.append_nil e.bits, takes_append_last_iff] at htakes
    obtain ⟨_, hbits, h₆⟩ := htakes
    simp only [bits, infoBits, takes_append_last_iff] at hbits
    obtain ⟨_, h₁, _, h₂, _, h₃, _, h₄, h₅⟩ := hbits
    have hinfo := h₁.trans <| h₂.trans h₃
    refine ⟨?_, _, _, ⟨haligned, h₁⟩, _, _, ⟨?_, h₂⟩, _, _, h₃, Nat.not_lt.2 hfits, hextended, _, _,
      ⟨hpseudo, ?_, h₄⟩, _, _, ⟨?_, hlen', h₅⟩, report_eq_ok_iff.2 ⟨rfl, h₆⟩⟩
    · simp only [size] at hfits
      omega
    · exact (h₁.isAligned_iff (by simp)).2 haligned
    · exact fun _ _ => (hinfo.isAligned_iff (by simp)).2 haligned
    · refine ((hinfo.trans h₄).isAligned_iff ?_).2 haligned
      cases e.pseudo <;> simp [PseudoDescriptor.size]

/-- The lengths of entries add up to that of the whole. -/
theorem length_flatMap_bits {single : Bool} {es : List MapEntry}
    (h : ∀ e ∈ es, e.IsValid single) : (es.flatMap bits).length = 8 * (es.map size).sum := by
  induction es with
  | nil => rfl
  | cons e es ih =>
    obtain ⟨he, hes⟩ := List.forall_mem_cons.1 h
    rw [List.flatMap_cons, List.length_append, ih hes, length_bits he, List.map_cons,
      List.sum_cons]
    omega

/-- **Entries are read off their layouts**, and they fill their map. -/
theorem parseAll_eq_ok_iff {single : Bool} {remaining : Nat} {es : List MapEntry}
    (hs : s.IsAligned) :
    parseAll single remaining s = .ok es s' ↔
      (es.map size).sum = remaining ∧ (∀ e ∈ es, e.IsValid single) ∧
        s.Takes (es.flatMap bits) (es.flatMap warnings) s' := by
  -- an entry takes some of the bytes that remain, and never a known number of them
  induction remaining using Nat.strongRecOn generalizing s s' es with
  | ind remaining ih =>
  unfold parseAll
  by_cases hzero : remaining = 0
  · subst hzero
    rw [if_pos rfl, pure_eq_ok_iff]
    constructor
    · rintro ⟨rfl, rfl⟩
      exact ⟨rfl, by simp, .refl _⟩
    · rintro ⟨hsum, hvalid, htakes⟩
      cases es with
      | nil => exact ⟨rfl, (takes_nil_iff.1 htakes).symm⟩
      | cons e es =>
        simp only [List.map_cons, List.sum_cons, size, fixedLength] at hsum
        omega
  · rw [if_neg hzero]
    simp only [bind_eq_ok_iff, pure_eq_ok_iff, parse_eq_ok_iff]
    constructor
    · rintro ⟨e, t, ⟨-, hfits, hvalid, htakes⟩, es', t', hrest, rfl, rfl⟩
      have ht : t.IsAligned := (htakes.isAligned_iff ⟨_, length_bits hvalid⟩).2 hs
      obtain ⟨hsum, hvalids, htakes'⟩ :=
        (ih _ (by simp only [fixedLength]; omega) ht).1 hrest
      refine ⟨?_, List.forall_mem_cons.2 ⟨hvalid, hvalids⟩, htakes.trans htakes'⟩
      simp only [size] at hfits
      simp only [List.map_cons, List.sum_cons, size, hsum]
      omega
    · rintro ⟨hsum, hvalid, htakes⟩
      cases es with
      | nil => exact absurd hsum.symm hzero
      | cons e es =>
        rw [List.map_cons, List.sum_cons] at hsum
        obtain ⟨he, hes⟩ := List.forall_mem_cons.1 hvalid
        obtain ⟨t, h₁, h₂⟩ := takes_append_iff.1 htakes
        have ht : t.IsAligned := (h₁.isAligned_iff ⟨_, length_bits he⟩).2 hs
        have hrest : (es.map size).sum = remaining - (fixedLength + e.infoLength.toNat) := by
          simp only [size] at hsum ⊢
          omega
        exact ⟨e, t, ⟨hs, by omega, he, h₁⟩, es, s',
          (ih _ (by simp only [fixedLength]; omega) ht).2 ⟨hrest, hes, h₂⟩, rfl, rfl⟩

end MapEntry

namespace StreamMap

/-- **The checksum is looked at over the bytes the map says it has**, all of
which have to be ahead. -/
theorem check_eq_ok_iff {carried : UInt32} :
    check s = .ok carried s' ↔
      s' = s ∧ s.IsAligned ∧ ∃ high low body,
        body.length = ByteOrder.big.value [high, low] ∧
          startBytes StreamId.map ++ high :: low :: body <+: s.cursor.bytes ∧
          Crc.verify (startBytes StreamId.map ++ high :: low :: body) = .ok carried := by
  simp only [check, bind_eq_ok_iff, peek_eq_ok_iff, ite_eq_ok_iff, throw_eq_ok_iff, false_and,
    exists_false, and_false, false_or]
  constructor
  · rintro ⟨head, _, ⟨rfl, haligned, hhead, hahead⟩, hcode, whole, _, ⟨rfl, -, hwhole, hahead'⟩,
      hverify⟩
    match head, hhead with
    | [a, b, c, d, high, low], _ =>
      have hstart : [a, b, c, d] = startBytes StreamId.map :=
        (eq_startCode_iff rfl).1 (Decidable.not_not.1 hcode)
      -- both looks are at the same bytes, so the second begins with the first
      obtain ⟨body, rfl⟩ := List.prefix_of_prefix_length_le hahead hahead'
        (by rw [hwhole]; simp [prologueLength])
      have hsame : [a, b, c, d, high, low] ++ body =
          startBytes StreamId.map ++ high :: low :: body := by
        rw [← hstart]
        rfl
      rw [hsame] at hwhole hahead' hverify
      cases hresult : Crc.verify (startBytes StreamId.map ++ high :: low :: body) with
      | ok found =>
        rw [hresult] at hverify
        obtain ⟨rfl, rfl⟩ := pure_eq_ok_iff.1 hverify
        refine ⟨rfl, haligned, high, low, body, ?_, hahead', hresult⟩
        simp only [prologueLength, startBytes, List.length_append, List.length_cons,
          List.length_nil, List.drop_succ_cons, List.drop_zero] at hwhole
        omega
      | error fault =>
        rw [hresult] at hverify
        exact (throw_eq_ok_iff.1 hverify).elim
  · rintro ⟨rfl, haligned, high, low, body, hlen, hahead, hverify⟩
    refine ⟨startBytes StreamId.map ++ [high, low], s', ⟨rfl, haligned, rfl, ?_⟩, ?_,
      startBytes StreamId.map ++ high :: low :: body, s', ⟨rfl, haligned, ?_, hahead⟩, ?_⟩
    · exact List.IsPrefix.trans ⟨body, by simp⟩ hahead
    · exact Decidable.not_not.2 ((eq_startCode_iff rfl).2 rfl)
    · simp only [startBytes, prologueLength, List.length_cons, List.cons_append, List.nil_append,
        List.drop_succ_cons, List.drop_zero, hlen]
      omega
    · rw [hverify]
      rfl

/-! ## The layout -/

/-- The layout of a map up to its checksum. -/
def sectionBits (m : StreamMap) (start : BitVec 32) (first : BitVec 1) (second : BitVec 7) :
    List Bool :=
  Bits.ofField start ++ (Bits.ofField m.length.toBitVec ++ ([m.currentNext] ++
    ([m.singleExtension] ++ (Bits.ofField first ++ (Bits.ofField m.version ++
    (Bits.ofField second ++ ([true] ++ (Bits.ofField m.infoLength.toBitVec ++
    (Bits.ofBytes m.descriptors ++ (Bits.ofField m.entriesLength.toBitVec ++
    m.entries.flatMap MapEntry.bits))))))))))

/-- The two lengths inside a map are those of what they stand before, and its
entries are valid. -/
structure IsFilled (m : StreamMap) : Prop where
  descriptors : m.descriptors.length = m.infoLength.toNat
  entries : (m.entries.map MapEntry.size).sum = m.entriesLength.toNat
  isValid : ∀ e ∈ m.entries, e.IsValid m.singleExtension

instance (m : StreamMap) : Decidable m.IsFilled :=
  decidable_of_iff
    (m.descriptors.length = m.infoLength.toNat ∧
      (m.entries.map MapEntry.size).sum = m.entriesLength.toNat ∧
      ∀ e ∈ m.entries, e.IsValid m.singleExtension)
    ⟨fun ⟨h₁, h₂, h₃⟩ => ⟨h₁, h₂, h₃⟩, fun h => ⟨h.1, h.2, h.3⟩⟩

/-- The length of the layout depends on the two lengths inside the map, not
on that of the map. -/
theorem length_sectionBits {m : StreamMap} (h : m.IsFilled) (start : BitVec 32) (first : BitVec 1)
    (second : BitVec 7) :
    (m.sectionBits start first second).length =
      8 * (12 + m.infoLength.toNat + m.entriesLength.toNat) := by
  simp only [sectionBits, List.length_append, Bits.length_ofField, Bits.length_ofBytes,
    List.length_cons, List.length_nil, MapEntry.length_flatMap_bits h.isValid, h.entries,
    h.descriptors]
  omega

/-- **A map is read off its layout**, once its checksum was found right. What
stands where the layout ends is passed over, whether it is the checksum or
not. -/
theorem parse_eq_ok_iff {m : StreamMap} :
    parse s = .ok m s' ↔
      check s = .ok m.checksum s ∧ m.IsFilled ∧ ∃ start first second, ∃ trailer : BitVec 32,
        s.Takes (m.sectionBits start first second ++ Bits.ofField trailer)
          (m.entries.flatMap MapEntry.warnings) s' := by
  simp (disch := decide) only [parse, bind_eq_ok_iff, reserved_eq_ok_iff, field16_eq_ok_iff,
    flag_eq_ok_iff, field_eq_ok_iff, marker_eq_ok_iff, bytes_eq_ok_iff, pure_eq_ok_iff]
  constructor
  · rintro ⟨_, _, hcheck, _, _, ⟨start, h₁⟩, _, _, h₂, _, _, h₃, _, _, h₄, _, _, ⟨first, h₅⟩, _, _,
      h₆, _, _, ⟨second, h₇⟩, _, _, h₈, _, _, h₉, _, _, ⟨haligned, hlen, h₁₀⟩, _, _, h₁₁, _, _,
      hentries, _, _, ⟨trailer, h₁₂⟩, rfl, rfl⟩
    obtain ⟨rfl, -⟩ := check_eq_ok_iff.1 hcheck
    have hstart := ((h₁₀.trans h₁₁).isAligned_iff (by simp)).2 haligned
    obtain ⟨hsum, hvalid, htakes⟩ := (MapEntry.parseAll_eq_ok_iff hstart).1 hentries
    refine ⟨hcheck, ⟨hlen, hsum, hvalid⟩, start, first, second, trailer, ?_⟩
    have hbits := h₁.trans <| h₂.trans <| h₃.trans <| h₄.trans <| h₅.trans <| h₆.trans <|
      h₇.trans <| h₈.trans <| h₉.trans <| h₁₀.trans <| h₁₁.trans htakes
    exact takes_append_first_iff.2 ⟨_, hbits, h₁₂⟩
  · rintro ⟨hcheck, ⟨hlen, hsum, hvalid⟩, start, first, second, trailer, htakes⟩
    obtain ⟨_, hsection, h₁₂⟩ := takes_append_first_iff.1 htakes
    simp only [sectionBits, takes_append_last_iff] at hsection
    obtain ⟨_, h₁, _, h₂, _, h₃, _, h₄, _, h₅, _, h₆, _, h₇, _, h₈, _, h₉, _, h₁₀, _, h₁₁,
      hentries⟩ := hsection
    have hs := (check_eq_ok_iff.1 hcheck).2.1
    have hhead := h₁.trans <| h₂.trans <| h₃.trans <| h₄.trans <| h₅.trans <| h₆.trans <|
      h₇.trans <| h₈.trans h₉
    have haligned := (hhead.isAligned_iff (by simp)).2 hs
    have hstart := ((h₁₀.trans h₁₁).isAligned_iff (by simp)).2 haligned
    exact ⟨_, s, hcheck, (), _, ⟨start, h₁⟩, _, _, h₂, _, _, h₃, _, _, h₄, (), _, ⟨first, h₅⟩, _, _,
      h₆, (), _, ⟨second, h₇⟩, (), _, h₈, _, _, h₉, _, _, ⟨haligned, hlen, h₁₀⟩, _, _, h₁₁, _, _,
      (MapEntry.parseAll_eq_ok_iff hstart).2 ⟨hsum, hvalid, hentries⟩, (), _, ⟨trailer, h₁₂⟩, rfl,
      rfl⟩

/-- A map laid out where the bytes begin as those of one has the start code of
one, and the length that they state. -/
theorem length_of_sectionBits {m : StreamMap} {start : BitVec 32} {first : BitVec 1}
    {second : BitVec 7} {rest : List Bool} {high low : UInt8} {body : List UInt8}
    (hbits : m.sectionBits start first second ++ rest =
      Bits.ofBytes (startBytes StreamId.map ++ high :: low :: body)) :
    start = (startCode StreamId.map).toBitVec ∧
      m.length.toNat = ByteOrder.big.value [high, low] := by
  rw [Bits.ofBytes_append, ofBytes_startBytes, sectionBits, List.append_assoc] at hbits
  obtain ⟨hstart, hafter⟩ := List.append_inj hbits (by simp)
  rw [show high :: low :: body = [high, low] ++ body from rfl, Bits.ofBytes_append,
    List.append_assoc] at hafter
  have hfield := List.append_inj_left hafter (by simp)
  refine ⟨Bits.ofField_inj hstart, ?_⟩
  rw [ByteOrder.value_big, ← hfield, Bits.ofField, Bits.toNat_ofNat]
  exact (Nat.mod_eq_of_lt m.length.toNat_lt).symm

/-! ## Maps that agree with themselves -/

/-- The number of bytes that a map's length counts besides its descriptors
and entries. -/
def fixedLength : Nat := 10

/-- A map whose lengths agree and whose checksum is that of its bytes. -/
structure IsValid (m : StreamMap) (first : BitVec 1) (second : BitVec 7) : Prop where
  isFilled : m.IsFilled
  length_eq : m.length.toNat = fixedLength + m.infoLength.toNat + m.entriesLength.toNat
  checksum_eq :
    Crc.compute (Bits.pack (m.sectionBits (startCode StreamId.map).toBitVec first second)) =
      m.checksum

instance (m : StreamMap) (first : BitVec 1) (second : BitVec 7) :
    Decidable (m.IsValid first second) :=
  decidable_of_iff
    (m.IsFilled ∧
      m.length.toNat = fixedLength + m.infoLength.toNat + m.entriesLength.toNat ∧
      Crc.compute (Bits.pack (m.sectionBits (startCode StreamId.map).toBitVec first second)) =
        m.checksum)
    ⟨fun ⟨h₁, h₂, h₃⟩ => ⟨h₁, h₂, h₃⟩, fun h => ⟨h.1, h.2, h.3⟩⟩

/-- The layout of a map. -/
def bits (m : StreamMap) (first : BitVec 1) (second : BitVec 7) : List Bool :=
  m.sectionBits (startCode StreamId.map).toBitVec first second ++
    Bits.ofField m.checksum.toBitVec

variable {m : StreamMap} {first : BitVec 1} {second : BitVec 7}

theorem length_bits (h : m.IsValid first second) :
    (m.bits first second).length = 8 * (prologueLength + m.length.toNat) := by
  rw [bits, List.length_append, length_sectionBits h.isFilled, Bits.length_ofField, h.length_eq,
    prologueLength, fixedLength]
  omega

/-- The layout begins as that of any unit with a length field. -/
theorem exists_bits_eq (m : StreamMap) (first : BitVec 1) (second : BitVec 7) :
    ∃ rest, m.bits first second =
      Bits.ofBytes (startBytes StreamId.map) ++ (Bits.ofField m.length.toBitVec ++ rest) := by
  simp only [bits, sectionBits, ofBytes_startBytes, List.append_assoc]
  exact ⟨_, rfl⟩

/-- **A map that agrees with itself is read off its layout**, at a byte
boundary. -/
theorem parse_of_isValid (h : m.IsValid first second) (hs : s.IsAligned)
    (htakes : s.Takes (m.bits first second) (m.entries.flatMap MapEntry.warnings) s') :
    parse s = .ok m s' := by
  refine parse_eq_ok_iff.2
    ⟨check_eq_ok_iff.2 ⟨rfl, hs, ?_⟩, h.isFilled, _, first, second, _, htakes⟩
  obtain ⟨rest, hbits⟩ := exists_bits_eq m first second
  have hlength := length_bits h
  obtain ⟨high, low, hfield, hvalue⟩ := exists_lengthBytes m.length
  have hpack : Bits.pack (m.bits first second) =
      startBytes StreamId.map ++ high :: low :: Bits.pack rest := by
    rw [hbits, pack_prologue, hfield]
    rfl
  have hwhole : 8 ∣ (m.bits first second).length := ⟨_, hlength⟩
  refine ⟨high, low, Bits.pack rest, ?_, ?_, ?_⟩
  · have hbytes := Bits.length_pack hwhole
    rw [hlength, hpack] at hbytes
    simp only [startBytes, prologueLength, List.length_append, List.length_cons,
      List.length_nil] at hbytes
    omega
  · rw [← hpack]
    rw [← Bits.ofBytes_pack hwhole] at htakes
    exact htakes.bytes_isPrefix hs
  · rw [← hpack, Crc.verify_eq_ok_iff]
    refine ⟨_, ?_, h.checksum_eq⟩
    have hchecksum : Bits.ofField m.checksum.toBitVec =
        Bits.ofBytes (ByteOrder.big.bytes 4 m.checksum.toNat) := (ByteOrder.ofBytes_big 4 _).symm
    rw [bits, Bits.pack_append ⟨_, length_sectionBits h.isFilled _ _ _⟩, hchecksum,
      Bits.pack_ofBytes]

end StreamMap

end ProgramStream
