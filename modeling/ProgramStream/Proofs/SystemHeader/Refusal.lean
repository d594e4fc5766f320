import ProgramStream.Proofs.Build
import ProgramStream.Proofs.Cursor.Position
import ProgramStream.Proofs.SystemHeader
/-!
# System headers — read off their layouts, or refused

A header with any stream bounds that its length can count is read off its
layout, wherever that begins inside a byte, and a header that is read was laid
out. If the fixed part is there and in order (`HasFixed`), what is wrong is
wrong with the stream bounds: their length is no length of whole ones, or one
of them cannot be read. The first that cannot be read decides
(`StreamBound.parseMany_of_first`): its mark is looked at as soon as its two
bits are there, so a bound that is cut off behind a wrong mark is malformed
(`run_parse_cutBound`), and any other that is cut off runs out of input.
-/

namespace ProgramStream

open ProgramStream.Parser ProgramStream.Parser.State

variable {s t : Parser.State} {bits : List Bool}

namespace Parser

variable {α : Type}

/-- An operation that fails moves nothing. -/
theorem ofCursor_of_error {op : BitCursor → Except BitFault (α × BitCursor)} {fault : BitFault}
    (h : op s.cursor = .error fault) : ofCursor op s = .error (Fault.ofBits fault) s := by
  unfold ofCursor
  rw [h]

/-- So many bits are ahead, or they cannot be taken. -/
theorem exists_takes_or_lt (s : State) (n : Nat) :
    s.cursor.left < n ∨ ∃ bits t, bits.length = n ∧ s.Takes bits [] t := by
  rcases Nat.lt_or_ge s.cursor.left n with hlt | hle
  · exact .inl hlt
  · obtain ⟨t, htakes⟩ := s.exists_takes (s.cursor.ahead.take_prefix n) []
    refine .inr ⟨_, t, ?_, htakes⟩
    rw [List.length_take, BitCursor.length_ahead]
    exact Nat.min_eq_left hle

/-- **A field is read, or the input ends in it.** -/
theorem field_cases {n : Nat} (hn : n ≤ 64) (s : State) :
    (s.cursor.left < n ∧ field n s = .error .truncated s) ∨
      ∃ v t, s.Takes (Bits.ofField v) [] t ∧ field n s = .ok v t := by
  rcases exists_takes_or_lt s n with hlt | ⟨bits, t, hlen, htakes⟩
  · have hread : s.cursor.readBits n = .error (.bytes .notEnough) :=
      BitCursor.readBits_eq_error_iff.2 (.inr ⟨hn, hlt, rfl⟩)
    exact .inl ⟨hlt, bind_of_error (ofCursor_of_error hread)⟩
  · rw [(Bits.ofNat_toNat_eq_iff hlen).1 rfl] at htakes
    exact .inr ⟨_, t, htakes, (field_eq_ok_iff hn).2 htakes⟩

theorem field8_cases (s : State) :
    (s.cursor.left < 8 ∧ field8 s = .error .truncated s) ∨
      ∃ v t, s.Takes (Bits.ofByte v) [] t ∧ field8 s = .ok v t := by
  rcases field_cases (n := 8) (by decide) s with ⟨hlt, hfield⟩ | ⟨v, t, htakes, -⟩
  · exact .inl ⟨hlt, bind_of_error hfield⟩
  · exact .inr ⟨⟨v⟩, t, htakes, field8_eq_ok_iff.2 htakes⟩

theorem flag_cases (s : State) :
    (s.cursor.left < 1 ∧ flag s = .error .truncated s) ∨
      ∃ b t, s.Takes [b] [] t ∧ flag s = .ok b t := by
  rcases exists_takes_or_lt s 1 with hlt | ⟨bits, t, hlen, htakes⟩
  · have hread : s.cursor.readBit = .error (.bytes .notEnough) :=
      BitCursor.readBit_eq_error_iff.2 ⟨Nat.lt_one_iff.1 hlt, rfl⟩
    exact .inl ⟨hlt, ofCursor_of_error hread⟩
  · obtain ⟨b, rfl⟩ := List.length_eq_one_iff.1 hlen
    exact .inr ⟨b, t, htakes, flag_eq_ok_iff.2 htakes⟩

end Parser

namespace StreamBound

/-! ## Stream bounds that cannot be read -/

/-- Some bits begin with a stream bound: all of it is there, and the two bits
behind the id are set. -/
def Begins (bits : List Bool) : Prop :=
  8 * length ≤ bits.length ∧ (bits.drop 8).take 2 = [true, true]

instance (bits : List Bool) : Decidable (Begins bits) := inferInstanceAs (Decidable (_ ∧ _))

/-- What is wrong with bits that begin with no stream bound. -/
def faultOf (bits : List Bool) : Fault :=
  if 10 ≤ bits.length ∧ (bits.drop 8).take 2 ≠ [true, true] then
    .malformed (.boundMark (UInt8.ofNat (Bits.toNat (bits.take 8))))
  else .truncated

theorem faultOf_of_lt (h : bits.length < 10) : faultOf bits = .truncated :=
  if_neg fun hlong => absurd h (Nat.not_lt.2 hlong.1)

/-- **Bits that begin with a stream bound** begin with the layout of one. -/
theorem begins_iff : Begins bits ↔ ∃ b : StreamBound, b.bits <+: bits := by
  constructor
  · rintro ⟨hlen, hmark⟩
    simp only [length] at hlen
    obtain ⟨id, hid⟩ := Bits.exists_field_drop bits 0 8 (by omega)
    obtain ⟨mark, hafter⟩ := Bits.exists_field_drop bits 8 2 (by omega)
    obtain ⟨scale, hscale⟩ := Bits.exists_bit_drop bits 10 (by omega)
    obtain ⟨bound, hbound⟩ := Bits.exists_field_drop bits 11 13 (by omega)
    have hset : mark = 0b11 := by
      rw [hafter, List.take_left' (Bits.length_ofField mark)] at hmark
      exact Bits.ofField_inj hmark
    refine ⟨⟨⟨id⟩, scale, bound⟩, bits.drop 24, ?_⟩
    simp only [StreamBound.bits, List.append_assoc]
    rw [← hbound, ← hscale, ← hset, ← hafter]
    exact hid.symm
  · rintro ⟨b, rest, rfl⟩
    refine ⟨by simp, ?_⟩
    rw [StreamBound.bits, List.append_assoc, List.drop_left' (Bits.length_ofByte b.streamId),
      List.append_assoc, List.take_left' (Bits.length_ofField _)]
    decide

/-- What follows the mark of a stream bound is there, or the input ends in it. -/
theorem parse_of_marked {id : UInt8}
    (h : s.Takes (Bits.ofByte id ++ Bits.ofField (0b11 : BitVec 2)) [] t)
    (hnot : ¬ Begins s.cursor.ahead) : ∃ u, parse s = .error .truncated u := by
  obtain ⟨_, hid, hmark⟩ := takes_append_last_iff.1 h
  rw [show parse s = _ from bind_of_ok (field8_eq_ok_iff.2 hid),
    bind_of_ok ((field_eq_ok_iff (by decide)).2 hmark), if_pos rfl]
  rcases flag_cases t with ⟨-, hscale⟩ | ⟨scale, u, htakes, hscale⟩
  · exact ⟨t, bind_of_error hscale⟩
  rw [bind_of_ok hscale]
  rcases field_cases (n := 13) (by decide) u with ⟨-, hbound⟩ | ⟨bound, v, htakes', -⟩
  · exact ⟨u, bind_of_error hbound⟩
  · have hall := hid.trans <| hmark.trans <| htakes.trans htakes'
    exact absurd (begins_iff.2 ⟨⟨id, scale, bound⟩, _, hall.cursor.ahead_eq.symm⟩) hnot

/-- **Bits that begin with no stream bound** are refused for their mark or for
their end. -/
theorem parse_of_not_begins (h : ¬ Begins s.cursor.ahead) :
    ∃ t, parse s = .error (faultOf s.cursor.ahead) t := by
  have hlen := BitCursor.length_ahead s.cursor
  rcases field8_cases s with ⟨hlt, hid⟩ | ⟨id, t, htakes, hid⟩
  · rw [faultOf_of_lt (by omega)]
    exact ⟨s, bind_of_error hid⟩
  rcases field_cases (n := 2) (by decide) t with ⟨hlt, hmark⟩ | ⟨mark, u, htakes', hmark⟩
  · have hahead := congrArg List.length htakes.cursor.ahead_eq
    rw [List.length_append, Bits.length_ofByte, BitCursor.length_ahead t.cursor] at hahead
    rw [faultOf_of_lt (by omega)]
    exact ⟨t, (bind_of_ok hid).trans (bind_of_error hmark)⟩
  have hfront := (htakes.trans htakes').cursor.ahead_eq
  have hdrop : (s.cursor.ahead.drop 8).take 2 = Bits.ofField mark := by
    rw [hfront, List.append_assoc, List.drop_left' (Bits.length_ofByte id),
      List.take_left' (Bits.length_ofField mark)]
  by_cases hset : mark = 0b11
  · subst hset
    have hfault : faultOf s.cursor.ahead = .truncated := if_neg fun hwrong => hwrong.2 hdrop
    rw [hfault]
    exact parse_of_marked (htakes.trans htakes') h
  · have hlong : 10 ≤ s.cursor.ahead.length := by
      rw [hfront, List.length_append, List.length_append, Bits.length_ofByte, Bits.length_ofField]
      exact Nat.le_add_right _ _
    have hwrong : Bits.ofField mark ≠ [true, true] := fun heq => hset (Bits.ofField_inj heq)
    have hid' : UInt8.ofNat (Bits.toNat (s.cursor.ahead.take 8)) = id := by
      rw [hfront, List.append_assoc, List.take_left' (Bits.length_ofByte id),
        Bits.ofNat_toNat_ofByte]
    rw [faultOf, if_pos ⟨hlong, hdrop ▸ hwrong⟩, hid']
    refine ⟨u, (bind_of_ok hid).trans ((bind_of_ok hmark).trans ?_)⟩
    rw [if_neg hset]
    rfl

/-- **The first stream bound that cannot be read decides.** -/
theorem parseMany_of_first {n k : Nat} (hk : k < n)
    (hbefore : ∀ i < k, Begins (s.cursor.ahead.drop (8 * length * i)))
    (hfirst : ¬ Begins (s.cursor.ahead.drop (8 * length * k))) :
    ∃ t, parseMany n s = .error (faultOf (s.cursor.ahead.drop (8 * length * k))) t := by
  induction k generalizing n s with
  | zero =>
    obtain ⟨n, rfl⟩ := Nat.exists_eq_succ_of_ne_zero (Nat.ne_of_gt hk)
    obtain ⟨t, ht⟩ := parse_of_not_begins (s := s) hfirst
    exact ⟨t, bind_of_error ht⟩
  | succ k ih =>
    obtain ⟨n, rfl⟩ := Nat.exists_eq_succ_of_ne_zero (Nat.ne_of_gt (Nat.zero_lt_of_lt hk))
    obtain ⟨b, hb⟩ := begins_iff.1 (hbefore 0 (Nat.succ_pos k))
    obtain ⟨t, htakes⟩ := s.exists_takes hb []
    -- the bounds behind the first one are those behind where its parser ends
    have hahead (i : Nat) : t.cursor.ahead.drop (8 * length * i) =
        s.cursor.ahead.drop (8 * length * (i + 1)) := by
      rw [htakes.cursor.ahead_eq, Nat.mul_succ, Nat.add_comm, ← List.drop_drop,
        List.drop_left' b.length_bits]
    have hrest : ∃ u, parseMany n t =
        .error (faultOf (s.cursor.ahead.drop (8 * length * (k + 1)))) u := by
      rw [← hahead] at hfirst ⊢
      refine ih (Nat.lt_of_succ_lt_succ hk) (fun i hi => ?_) hfirst
      rw [hahead]
      exact hbefore (i + 1) (Nat.succ_lt_succ hi)
    obtain ⟨u, hu⟩ := hrest
    exact ⟨u, (bind_of_ok (parse_eq_ok_iff.2 htakes)).trans (bind_of_error hu)⟩

end StreamBound

namespace SystemHeader

/-! ## The fixed part -/

/-- The number of bits before the stream bounds. -/
def frontLength : Nat := 8 * (6 + fixedLength)

/-- The header length that stands in the fixed part. -/
def statedLength (bits : List Bool) : Nat := Bits.toNat ((bits.drop 32).take 16)

/-- **The fixed part is there and in order**: the bits begin with the start
code, go on to where the stream bounds begin, and have the three markers. -/
structure HasFixed (bits : List Bool) : Prop where
  start : Bits.ofBytes (startBytes StreamId.system) <+: bits
  length_le : frontLength ≤ bits.length
  markers : ∀ i ∈ [48, 71, 82], bits[i]? = some true

/-- A fixed part in order is a layout of some fields. -/
theorem HasFixed.exists_frontBits (hbits : HasFixed bits) :
    ∃ (h : SystemHeader) (reserved : BitVec 7),
      bits = h.frontBits reserved ++ bits.drop frontLength ∧
        h.headerLength.toNat = statedLength bits := by
  have hlen := hbits.length_le
  simp only [frontLength, fixedLength] at hlen
  obtain ⟨headerLength, h₂⟩ := Bits.exists_field_drop bits 32 16 (by omega)
  have h₃ := Bits.drop_of_getElem? (hbits.markers 48 (by decide))
  obtain ⟨rateBound, h₄⟩ := Bits.exists_field_drop bits 49 22 (by omega)
  have h₅ := Bits.drop_of_getElem? (hbits.markers 71 (by decide))
  obtain ⟨audioBound, h₆⟩ := Bits.exists_field_drop bits 72 6 (by omega)
  obtain ⟨fixed, h₇⟩ := Bits.exists_bit_drop bits 78 (by omega)
  obtain ⟨csps, h₈⟩ := Bits.exists_bit_drop bits 79 (by omega)
  obtain ⟨audioLock, h₉⟩ := Bits.exists_bit_drop bits 80 (by omega)
  obtain ⟨videoLock, h₁₀⟩ := Bits.exists_bit_drop bits 81 (by omega)
  have h₁₁ := Bits.drop_of_getElem? (hbits.markers 82 (by decide))
  obtain ⟨videoBound, h₁₂⟩ := Bits.exists_field_drop bits 83 5 (by omega)
  obtain ⟨restriction, h₁₃⟩ := Bits.exists_bit_drop bits 88 (by omega)
  obtain ⟨reserved, h₁₄⟩ := Bits.exists_field_drop bits 89 7 (by omega)
  obtain ⟨behind, hstart⟩ := hbits.start
  have hbehind : bits.drop 32 = behind := by
    rw [← hstart]
    exact List.drop_left' (Bits.length_ofBytes _)
  refine ⟨⟨⟨headerLength⟩, rateBound, audioBound, fixed, csps, audioLock, videoLock, videoBound,
    restriction, []⟩, reserved, ?_, ?_⟩
  · simp only [frontBits, fixedBits, List.append_assoc, frontLength, fixedLength]
    rw [← h₁₄, ← h₁₃, ← h₁₂, ← h₁₁, ← h₁₀, ← h₉, ← h₈, ← h₇, ← h₆, ← h₅, ← h₄, ← h₃, ← h₂, hbehind]
    exact hstart.symm
  · rw [statedLength, h₂, List.take_left' (Bits.length_ofField headerLength), Bits.ofField,
      Bits.toNat_ofNat, Nat.mod_eq_of_lt headerLength.isLt]
    rfl

/-! ## Headers that are read, and headers that are not -/

/-- The most stream bounds that a header length can count. -/
def maxStreams : Nat := 21843

/-- The fields of a system header, with some stream bounds and the length that
counts them. -/
def withStreams (h : SystemHeader) (streams : List StreamBound) : SystemHeader :=
  { h with
    headerLength := UInt16.ofNat (fixedLength + StreamBound.length * streams.length)
    streams }

theorem isValid_withStreams {streams : List StreamBound} (h : SystemHeader)
    (hlen : streams.length ≤ maxStreams) : (h.withStreams streams).IsValid := by
  simp only [maxStreams] at hlen
  refine UInt16.toNat_ofNat_of_lt' ?_
  simp only [fixedLength, StreamBound.length, UInt16.size]
  omega

theorem IsValid.length_le {h : SystemHeader} (hvalid : h.IsValid) :
    h.streams.length ≤ maxStreams := by
  have hlt := h.headerLength.toNat_lt
  simp only [IsValid, fixedLength, StreamBound.length] at hvalid
  simp only [maxStreams]
  omega

theorem IsValid.withStreams_eq {h : SystemHeader} (hvalid : h.IsValid) :
    h.withStreams h.streams = h := by
  simp only [withStreams, ← show h.headerLength.toNat = _ from hvalid, UInt16.ofNat_toNat]

variable {start : BitCursor} {h : SystemHeader}

/-- **A layout that stands ahead is read**, and nothing is left of it. -/
theorem exists_run_of_bits {rest : List Bool} (hvalid : h.IsValid) {reserved : BitVec 7}
    (hahead : start.ahead = h.bits reserved ++ rest) :
    ∃ c, parse.run start = ⟨.ok h, c, #[]⟩ ∧ c.ahead = rest ∧
      c.taken = start.taken + (6 + h.headerLength.toNat) ∧
      c.left + 8 * (6 + h.headerLength.toNat) = start.left := by
  have hlength := length_bits hvalid reserved
  obtain ⟨c, htakes⟩ := BitCursor.exists_takes_of_prefix (hahead ▸ List.prefix_append _ rest)
  have hparse : parse ⟨start, #[]⟩ = .ok h ⟨c, #[]⟩ :=
    parse_eq_ok_iff.2 ⟨hvalid, reserved, takes_nil_warnings_iff.2 ⟨htakes, rfl⟩⟩
  refine ⟨c, run_of_ok hparse, ?_, htakes.taken_of_length hlength, ?_⟩
  · exact List.append_cancel_left (htakes.ahead_eq.symm.trans hahead)
  · have hleft := congrArg List.length htakes.ahead_eq
    rw [List.length_append, BitCursor.length_ahead, BitCursor.length_ahead, hlength] at hleft
    omega

/-- No fixed part fits the header length. -/
theorem parseBounds_of_lt (hlt : h.headerLength.toNat < fixedLength) :
    parseBounds h s = .error (.tooShort h.headerLength.toNat fixedLength) s := by
  rw [parseBounds, if_pos hlt]
  rfl

/-- What is left of it is no length of whole stream bounds. -/
theorem parseBounds_of_part (hle : fixedLength ≤ h.headerLength.toNat)
    (hpart : (h.headerLength.toNat - fixedLength) % StreamBound.length ≠ 0) :
    parseBounds h s =
      .error (.malformed (.boundsLength (h.headerLength.toNat - fixedLength))) s := by
  rw [parseBounds, if_neg (Nat.not_lt.2 hle), if_pos hpart]
  rfl

/-- A stream bound that it counts cannot be read. -/
theorem parseBounds_of_error (hle : fixedLength ≤ h.headerLength.toNat)
    (hwhole : (h.headerLength.toNat - fixedLength) % StreamBound.length = 0) {fault : Fault}
    (hbounds : StreamBound.parseMany
      ((h.headerLength.toNat - fixedLength) / StreamBound.length) s = .error fault t) :
    parseBounds h s = .error fault t := by
  rw [parseBounds, if_neg (Nat.not_lt.2 hle), if_neg (not_not_intro hwhole)]
  exact bind_of_error hbounds

/-- **Behind a fixed part in order, the stream bounds decide**: by the length
that is left for them, and then by the first that cannot be read. -/
theorem result_run_of_hasFixed (hfixed : HasFixed start.ahead) :
    let length := statedLength start.ahead
    let bound (i : Nat) := start.ahead.drop (frontLength + 8 * StreamBound.length * i)
    let result := (parse.run start).result
    (length < fixedLength → result = .error (.tooShort length fixedLength)) ∧
      (fixedLength ≤ length → (length - fixedLength) % StreamBound.length ≠ 0 →
        result = .error (.malformed (.boundsLength (length - fixedLength)))) ∧
      (fixedLength ≤ length → (length - fixedLength) % StreamBound.length = 0 →
        ∀ i < (length - fixedLength) / StreamBound.length,
          (∀ j < i, StreamBound.Begins (bound j)) → ¬ StreamBound.Begins (bound i) →
            result = .error (StreamBound.faultOf (bound i))) := by
  intro length bound result
  obtain ⟨h, reserved, hahead, hlength⟩ := hfixed.exists_frontBits
  obtain ⟨c, htakes⟩ := BitCursor.exists_takes_of_prefix (hahead ▸ List.prefix_append _ _)
  let s : Parser.State := ⟨c, #[]⟩
  have hparse : parse ⟨start, #[]⟩ = parseBounds h s :=
    parse_of_frontBits (takes_nil_warnings_iff.2 ⟨htakes, rfl⟩)
  have hresult {fault : Fault} {u : Parser.State} (hbounds : parseBounds h s = .error fault u) :
      result = .error fault :=
    congrArg Outcome.result (run_of_error (hparse.trans hbounds))
  have hbound (i : Nat) : s.cursor.ahead.drop (8 * StreamBound.length * i) = bound i := by
    have hfront : s.cursor.ahead = start.ahead.drop frontLength := by
      rw [htakes.ahead_eq]
      exact (List.drop_left' (length_frontBits h reserved)).symm
    rw [hfront, List.drop_drop]
  simp only [show length = h.headerLength.toNat from hlength.symm]
  refine ⟨fun hshort => ?_, fun hlong hpart => ?_, fun hlong hwhole i hi hbefore hfirst => ?_⟩
  · exact hresult (parseBounds_of_lt hshort)
  · exact hresult (parseBounds_of_part hlong hpart)
  · rw [← hbound] at hfirst ⊢
    obtain ⟨u, hu⟩ := StreamBound.parseMany_of_first hi (fun j hj => hbound j ▸ hbefore j hj) hfirst
    exact hresult (parseBounds_of_error hlong hwhole hu)

/-- **System headers are read exactly as they are laid out**, from any position
inside a byte. A header with any fields and any stream bounds that its length
can count is read off its layout, which is taken as a whole, and a header that
is read was laid out. Behind a fixed part in order, a length that does not hold
the fixed part is refused, then one that does not hold whole stream bounds, and
then the first stream bound that cannot be read: for its mark if that is there
and wrong, whether the rest of the bound is there or not, and otherwise for the
bits that are missing. -/
theorem run_parse_by_layout (start : BitCursor) :
    (∀ (h : SystemHeader) (streams : List StreamBound) (reserved : BitVec 7) (rest : List Bool),
      streams.length ≤ maxStreams → start.ahead = (h.withStreams streams).bits reserved ++ rest →
        let read := h.withStreams streams
        read.headerLength.toNat = fixedLength + StreamBound.length * streams.length ∧
          ∃ c, parse.run start = ⟨.ok read, c, #[]⟩ ∧ c.ahead = rest ∧
            c.taken = start.taken + (6 + read.headerLength.toNat) ∧
            c.left + 8 * (6 + read.headerLength.toNat) = start.left) ∧
      (∀ h : SystemHeader, (parse.run start).result = .ok h →
        h.streams.length ≤ maxStreams ∧ h.withStreams h.streams = h ∧
          ∃ reserved, h.bits reserved <+: start.ahead) ∧
      (HasFixed start.ahead →
        let length := statedLength start.ahead
        let bound (i : Nat) := start.ahead.drop (frontLength + 8 * StreamBound.length * i)
        let result := (parse.run start).result
        (length < fixedLength → result = .error (.tooShort length fixedLength)) ∧
          (fixedLength ≤ length → (length - fixedLength) % StreamBound.length ≠ 0 →
            result = .error (.malformed (.boundsLength (length - fixedLength)))) ∧
          (fixedLength ≤ length → (length - fixedLength) % StreamBound.length = 0 →
            ∀ i < (length - fixedLength) / StreamBound.length,
              (∀ j < i, StreamBound.Begins (bound j)) → ¬ StreamBound.Begins (bound i) →
                result = .error (StreamBound.faultOf (bound i)))) := by
  refine ⟨fun h streams reserved rest hlen hahead => ?_, fun h hread => ?_, result_run_of_hasFixed⟩
  · have hvalid := isValid_withStreams h hlen
    exact ⟨hvalid, exists_run_of_bits hvalid hahead⟩
  · obtain ⟨s', hparse, -⟩ := exists_of_result_run hread
    obtain ⟨hvalid, reserved, htakes⟩ := parse_eq_ok_iff.1 hparse
    exact ⟨hvalid.length_le, hvalid.withStreams_eq, reserved, _, htakes.cursor.ahead_eq.symm⟩

/-- A header with two stream bounds. -/
def sampleHeader : SystemHeader :=
  ⟨12, 50000, 1, false, false, true, true, 1, false, [⟨0xE0, true, 0x100⟩, ⟨0xC0, false, 0x20⟩]⟩

/-- It is read where it begins three bits before the end of a byte. With the
last byte missing it is truncated. -/
theorem run_parse_sampleHeader :
    let layout := sampleHeader.bits 0x7F
    let inside : BitCursor :=
      ⟨layout.take 3, Bits.pack (layout.drop 3 ++ List.replicate 3 false), 1, by decide⟩
    let cut := BitCursor.ofBytes ((Bits.pack layout).take 17)
    (∃ c, parse.run inside = ⟨.ok sampleHeader, c, #[]⟩ ∧ c.ahead = List.replicate 3 false ∧
        c.taken = 19) ∧
      HasFixed cut.ahead ∧ (parse.run cut).result = .error .truncated := by
  intro layout inside cut
  have hahead : inside.ahead = (sampleHeader.withStreams sampleHeader.streams).bits 0x7F ++
      List.replicate 3 false := by decide +kernel
  obtain ⟨-, c, hrun, hrest, htaken, -⟩ :=
    (run_parse_by_layout inside).1 sampleHeader sampleHeader.streams 0x7F _ (by decide) hahead
  have hfixed : HasFixed cut.ahead :=
    ⟨by decide +kernel, by decide +kernel, by decide +kernel⟩
  have hcut := ((run_parse_by_layout cut).2.2 hfixed).2.2 (by decide +kernel) (by decide +kernel) 1
    (by decide +kernel) (by decide +kernel) (by decide +kernel)
  exact ⟨⟨c, hrun, hrest, htaken⟩, hfixed, hcut.trans (by decide +kernel)⟩

/-- **A stream bound cut off behind a wrong mark is malformed.** Its last byte
is missing, and the input has not run out when it is refused. -/
theorem run_parse_cutBound :
    let start := BitCursor.ofBytes [0x00, 0x00, 0x01, 0xBB, 0x00, 0x09, 0x81, 0x86, 0xA1, 0x04,
      0xE1, 0x7F, 0xE0, 0x21]
    HasFixed start.ahead ∧ statedLength start.ahead = fixedLength + StreamBound.length ∧
      start.left < frontLength + 8 * StreamBound.length ∧
      (parse.run start).result = .error (.malformed (.boundMark 0xE0)) ∧
      (parse.run start).result ≠ .error .truncated := by
  intro start
  have hresult : (parse.run start).result = .error (.malformed (.boundMark 0xE0)) := by
    decide +kernel
  refine ⟨⟨by decide, by decide, by decide⟩, by decide, by decide, hresult, ?_⟩
  rw [hresult]
  exact nofun

end SystemHeader

end ProgramStream
