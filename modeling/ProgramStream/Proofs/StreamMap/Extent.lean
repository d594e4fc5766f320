import ProgramStream.Proofs.Incremental
import ProgramStream.Proofs.StreamMap
/-!
# Program stream maps — which bytes they come from

The checksum of a map is looked at over as many bytes as the map says it has
(`checkedLength`). Its contents are read after that, and take up what the two
lengths inside them say (`extent`). The parser compares neither with the other.
A map that is read and ends where it says, or before, comes from the bytes that
were checked and from no others; one that says too little of itself is read
past them (`run_parse_extent`), and the codecs it has may be what was never
checked (`run_parse_pastChecked`).
-/

namespace ProgramStream

open ProgramStream.Parser

namespace StreamMap

/-- The number of bytes that the checksum is looked at over. -/
def checkedLength (m : StreamMap) : Nat := prologueLength + m.length.toNat

/-- The number of bytes in front of the place of the checksum. -/
def sectionLength (m : StreamMap) : Nat := 12 + m.infoLength.toNat + m.entriesLength.toNat

/-- The number of bytes that a map takes up. -/
def extent (m : StreamMap) : Nat := m.sectionLength + 4

variable {m m' : StreamMap} {start other : BitCursor} {first : BitVec 1} {second : BitVec 7}

/-- A map ends within what was checked if its length counts what it holds. -/
theorem extent_le_checkedLength_iff :
    m.extent ≤ m.checkedLength ↔
      fixedLength + m.infoLength.toNat + m.entriesLength.toNat ≤ m.length.toNat := by
  simp only [extent, sectionLength, checkedLength, prologueLength, fixedLength]
  omega

/-! ## What a map is read off -/

/-- Whether some bits come first among bytes is told by as many bytes as they
fill. -/
theorem prefix_ofBytes_take_iff {bits : List Bool} {bytes : List UInt8} {n : Nat}
    (hlen : bits.length ≤ 8 * n) :
    bits <+: Bits.ofBytes (bytes.take n) ↔ bits <+: Bits.ofBytes bytes := by
  rw [← Bits.take_ofBytes, List.prefix_take_iff]
  exact and_iff_left hlen

/-- Four bytes behind whole bytes are the place of a checksum. -/
theorem exists_trailer {bits : List Bool} {bytes : List UInt8} {n : Nat}
    (hbits : bits <+: Bits.ofBytes bytes) (hn : bits.length = 8 * n) (hlen : n + 4 ≤ bytes.length) :
    ∃ trailer : BitVec 32, bits ++ Bits.ofField trailer <+: Bits.ofBytes bytes := by
  obtain ⟨rest, hrest⟩ := hbits
  have htotal := congrArg List.length hrest
  rw [List.length_append, Bits.length_ofBytes, hn] at htotal
  have htrailer : (rest.take 32).length = 32 := by
    rw [List.length_take]
    omega
  refine ⟨BitVec.ofNat 32 (Bits.toNat (rest.take 32)), ?_⟩
  rw [Bits.ofField_ofNat, Bits.ofNat_toNat_of_length htrailer, ← hrest]
  exact (List.prefix_append_right_inj bits).2 (rest.take_prefix 32)

/-- The start code and the length field are the first bytes of a layout. -/
theorem exists_bytes_eq {bytes : List UInt8}
    (hbits : m.sectionBits (startCode StreamId.map).toBitVec first second <+: Bits.ofBytes bytes) :
    ∃ high low rest, bytes = startBytes StreamId.map ++ high :: low :: rest ∧
      ByteOrder.big.value [high, low] = m.length.toNat := by
  obtain ⟨high, low, hfield, hvalue⟩ := exists_lengthBytes m.length
  have hprologue : Bits.ofBytes (startBytes StreamId.map ++ [high, low]) <+:
      m.sectionBits (startCode StreamId.map).toBitVec first second := by
    rw [Bits.ofBytes_append, ofBytes_startBytes, ← hfield, ← Bits.ofField_word, sectionBits,
      List.prefix_append_right_inj]
    exact List.prefix_append _ _
  obtain ⟨rest, hrest⟩ := Bits.ofBytes_prefix_iff.1 (hprologue.trans hbits)
  exact ⟨high, low, rest, by rw [← hrest, List.append_assoc]; rfl, hvalue⟩

/-- **The checksum of a map that is laid out ahead** is looked at over as many
bytes as the map says it has. -/
theorem check_eq_ok_iff_of_sectionBits {s : Parser.State} (hs : s.IsAligned) {carried : UInt32}
    (hbits : m.sectionBits (startCode StreamId.map).toBitVec first second <+:
      Bits.ofBytes s.cursor.bytes) :
    check s = .ok carried s ↔
      m.checkedLength ≤ s.cursor.bytes.length ∧
        Crc.verify (s.cursor.bytes.take m.checkedLength) = .ok carried := by
  obtain ⟨high, low, rest, hbytes, hvalue⟩ := exists_bytes_eq hbits
  rw [check_eq_ok_iff, hbytes]
  -- a part of the rest that is as long as the length says is what was checked
  have hlength (body : List UInt8) (hbody : body.length = m.length.toNat) :
      (startBytes StreamId.map ++ high :: low :: body).length = m.checkedLength := by
    simp only [startBytes, checkedLength, prologueLength, List.length_append, List.length_cons,
      List.length_nil, hbody]
    omega
  constructor
  · rintro ⟨-, -, high', low', body, hbody, hahead, hverify⟩
    simp only [startBytes, List.cons_append, List.nil_append, List.cons_prefix_cons,
      true_and] at hahead
    obtain ⟨rfl, rfl, behind, rfl⟩ := hahead
    have hchecked := hlength body (hbody.trans hvalue)
    rw [← List.cons_append, ← List.cons_append, ← List.append_assoc, List.take_left' hchecked,
      List.length_append, hchecked]
    exact ⟨Nat.le_add_right _ _, hverify⟩
  · rintro ⟨hlen, hverify⟩
    have hbody : (rest.take m.length.toNat).length = m.length.toNat := by
      rw [List.length_take]
      simp only [startBytes, checkedLength, prologueLength, List.length_append, List.length_cons,
        List.length_nil] at hlen
      omega
    have hwhole : (startBytes StreamId.map ++ high :: low :: rest).take m.checkedLength =
        startBytes StreamId.map ++ high :: low :: rest.take m.length.toNat := by
      conv_lhs => rw [← List.take_append_drop m.length.toNat rest, ← List.cons_append,
        ← List.cons_append, ← List.append_assoc]
      exact List.take_left' (hlength _ hbody)
    rw [hwhole] at hverify
    refine ⟨rfl, hs, high, low, rest.take m.length.toNat, hbody.trans hvalue.symm, ?_, hverify⟩
    rw [← hwhole]
    exact List.take_prefix _ _

/-- **A map is read off the bytes ahead** exactly if it is laid out at their
front, they are no fewer than it says it has and no fewer than it takes up, and
those it says it has pass. -/
theorem result_run_eq_ok_iff :
    (parse.run start).result = .ok m ↔
      start.pending = [] ∧ m.checkedLength ≤ start.bytes.length ∧
        Crc.verify (start.bytes.take m.checkedLength) = .ok m.checksum ∧ m.IsFilled ∧
        m.extent ≤ start.bytes.length ∧
        ∃ first second, m.sectionBits (startCode StreamId.map).toBitVec first second <+:
          Bits.ofBytes start.bytes := by
  constructor
  · intro h
    obtain ⟨s', hparse, -⟩ := Parser.exists_of_result_run h
    obtain ⟨hcheck, hfilled, code, first, second, trailer, htakes⟩ := parse_eq_ok_iff.1 hparse
    obtain ⟨-, haligned, high, low, body, -, ⟨behind, hbytes⟩, -⟩ := check_eq_ok_iff.1 hcheck
    have hahead : m.sectionBits code first second ++ (Bits.ofField trailer ++ s'.cursor.ahead) =
        Bits.ofBytes start.bytes := by
      rw [← BitCursor.ahead_of_pending haligned, htakes.cursor.ahead_eq, List.append_assoc]
    obtain ⟨rfl, -⟩ := length_of_sectionBits (hahead.trans (congrArg Bits.ofBytes hbytes.symm))
    have hbits : m.sectionBits (startCode StreamId.map).toBitVec first second <+:
        Bits.ofBytes start.bytes := ⟨_, hahead⟩
    obtain ⟨hlen, hverify⟩ := (check_eq_ok_iff_of_sectionBits haligned hbits).1 hcheck
    have hextent := congrArg List.length hahead
    rw [List.length_append, List.length_append, length_sectionBits hfilled, Bits.length_ofField,
      Bits.length_ofBytes] at hextent
    refine ⟨haligned, hlen, hverify, hfilled, ?_, first, second, hbits⟩
    rw [extent, sectionLength]
    omega
  · rintro ⟨haligned, hlen, hverify, hfilled, hextent, first, second, hbits⟩
    obtain ⟨trailer, htrailer⟩ := exists_trailer hbits (length_sectionBits hfilled _ _ _) hextent
    rw [← BitCursor.ahead_of_pending haligned] at htrailer
    let s : Parser.State := ⟨start, #[]⟩
    obtain ⟨t, htakes⟩ := s.exists_takes htrailer (m.entries.flatMap MapEntry.warnings)
    have hs : s.IsAligned := haligned
    have hcheck : check s = .ok m.checksum s :=
      (check_eq_ok_iff_of_sectionBits hs hbits).2 ⟨hlen, hverify⟩
    have hparse : parse s = .ok m t :=
      parse_eq_ok_iff.2 ⟨hcheck, hfilled, _, first, second, trailer, htakes⟩
    exact congrArg Outcome.result (run_of_ok hparse)

/-- A map that is read is taken off the input as a whole. -/
theorem taken_run (h : (parse.run start).result = .ok m) :
    (parse.run start).cursor.taken = start.taken + m.extent := by
  obtain ⟨s', hparse, hcursor⟩ := exists_of_result_run h
  obtain ⟨-, hfilled, code, first, second, trailer, htakes⟩ := parse_eq_ok_iff.1 hparse
  rw [hcursor]
  refine htakes.taken_eq ?_
  rw [List.length_append, length_sectionBits hfilled, Bits.length_ofField, extent, sectionLength]
  omega

/-! ## What a map depends on -/

/-- An input that begins like another one is long enough to. -/
theorem le_length_of_take_eq {bytes bytes' : List UInt8} {n : Nat} (hlen : n ≤ bytes.length)
    (hagree : bytes'.take n = bytes.take n) : n ≤ bytes'.length := by
  have hlength := congrArg List.length hagree
  rw [List.length_take, List.length_take] at hlength
  omega

/-- **A map whose contents are among the bytes that were checked** is read off
any input that begins with these and is long enough. -/
theorem result_run_of_take_eq (h : (parse.run start).result = .ok m)
    (hwithin : m.sectionLength ≤ m.checkedLength) (hother : other.pending = [])
    (hagree : other.bytes.take m.checkedLength = start.bytes.take m.checkedLength)
    (hroom : m.extent ≤ other.bytes.length) : (parse.run other).result = .ok m := by
  obtain ⟨-, hlen, hverify, hfilled, -, first, second, hbits⟩ := result_run_eq_ok_iff.1 h
  have hshort : (m.sectionBits (startCode StreamId.map).toBitVec first second).length ≤
      8 * m.checkedLength := by
    rw [length_sectionBits hfilled]
    exact Nat.mul_le_mul_left 8 hwithin
  refine result_run_eq_ok_iff.2 ⟨hother, le_length_of_take_eq hlen hagree, ?_, hfilled, hroom,
    first, second, ?_⟩
  · rw [hagree]
    exact hverify
  · rw [← prefix_ofBytes_take_iff hshort, hagree]
    exact (prefix_ofBytes_take_iff hshort).2 hbits

/-- **And nothing else is read** off an input that begins with these bytes. -/
theorem eq_of_take_eq (h : (parse.run start).result = .ok m)
    (hwithin : m.sectionLength ≤ m.checkedLength)
    (hagree : other.bytes.take m.checkedLength = start.bytes.take m.checkedLength)
    (hother : (parse.run other).result = .ok m') : m' = m := by
  have hlen : m.checkedLength ≤ other.bytes.length :=
    le_length_of_take_eq (result_run_eq_ok_iff.1 h).2.1 hagree
  -- with room for a checksum behind it, the input is read as either map
  let more : List UInt8 := List.replicate 4 0
  have hmore : parse.run (other.extend more) = (parse.run other).extend more := by
    refine isBuilt_parse.isStable.run_extend other more ?_
    rw [hother]
    exact nofun
  have hread' : (parse.run (other.extend more)).result = .ok m' := by
    rw [hmore]
    exact hother
  have hread : (parse.run (other.extend more)).result = .ok m := by
    refine result_run_of_take_eq h hwithin (result_run_eq_ok_iff.1 hother).1 ?_ ?_
    · rw [← hagree]
      exact List.take_append_of_le_length hlen
    · simp only [BitCursor.extend, List.length_append, more, List.length_replicate, extent]
      omega
  rw [hread'] at hread
  exact Except.ok.inj hread

/-- **A map that is read comes from checked bytes if its lengths agree.** The
checksum was found right over the bytes it says it has, and it takes up what
the lengths inside it say, which is no more than that exactly if its length
counts what it holds. Then it is read off every input with these bytes in
front, and nothing else is read there. A map that takes up more cannot be read
off the checked bytes, for want of what is behind them. -/
theorem run_parse_extent (h : (parse.run start).result = .ok m) :
    let checked := m.checkedLength
    let contents := m.infoLength.toNat + m.entriesLength.toNat
    start.pending = [] ∧ checked ≤ start.bytes.length ∧
      Crc.verify (start.bytes.take checked) = .ok m.checksum ∧
      (parse.run start).cursor.taken = start.taken + m.extent ∧
      (m.extent ≤ checked ↔ fixedLength + contents ≤ m.length.toNat) ∧
      (m.extent ≤ checked → ∀ other : BitCursor, other.pending = [] →
        other.bytes.take checked = start.bytes.take checked → (parse.run other).result = .ok m) ∧
      (m.sectionLength ≤ checked → ∀ other : BitCursor, ∀ m' : StreamMap,
        other.bytes.take checked = start.bytes.take checked →
          (parse.run other).result = .ok m' → m' = m) ∧
      (checked < m.extent → (parse.run (start.keep checked)).result = .error .truncated) := by
  intro checked contents
  obtain ⟨haligned, hlen, hverify, -⟩ := result_run_eq_ok_iff.1 h
  have htaken := taken_run h
  refine ⟨haligned, hlen, hverify, htaken, ?_, ?_, ?_, ?_⟩
  · exact Nat.add_assoc fixedLength _ _ ▸ extent_le_checkedLength_iff
  · intro hextent other hother hagree
    have hwithin : m.sectionLength ≤ checked := (Nat.le_add_right _ 4).trans hextent
    exact result_run_of_take_eq h hwithin hother hagree
      (hextent.trans (le_length_of_take_eq hlen hagree))
  · intro hwithin other m' hagree hother
    exact eq_of_take_eq h hwithin hagree hother
  · intro hlt
    refine isBuilt_parse.isStable.isIncremental.run_keep h ?_
    rw [htaken, Nat.add_sub_cancel_left]
    exact hlt

/-- A map that counts all it holds is read the same with and without what is
behind it. -/
theorem run_parse_trailed :
    let bytes : List UInt8 := [0x00, 0x00, 0x01, 0xBC, 0x00, 0x0E, 0x80, 0x01, 0x00, 0x00, 0x00,
      0x04, 0x1B, 0xE0, 0x00, 0x00, 0x36, 0xE2, 0x9D, 0x01]
    let m : StreamMap := ⟨14, true, false, 0, 0, [], 4, [⟨0x1B, 0xE0, 0, none, []⟩], 0x36E29D01⟩
    let trailed := BitCursor.ofBytes (bytes ++ [0xFF])
    (parse.run trailed).result = .ok m ∧ m.extent ≤ m.checkedLength ∧
      (parse.run (BitCursor.ofBytes bytes)).result = .ok m := by
  intro bytes m trailed
  have hread : (parse.run trailed).result = .ok m :=
    result_run_eq_ok_iff.2
      ⟨rfl, by decide, by decide +kernel, by decide, by decide, 0, 0, by decide⟩
  have hextent : m.extent ≤ m.checkedLength := by decide
  obtain ⟨-, -, -, -, -, hsame, -⟩ := run_parse_extent hread
  exact ⟨hread, hextent, hsame hextent _ rfl (by decide)⟩

/-- **A map that counts too little of itself** has a right checksum before its
contents end. Ten bytes more are taken, and they say which codec the stream
has. -/
theorem run_parse_pastChecked :
    let checked : List UInt8 := [0x00, 0x00, 0x01, 0xBC, 0x00, 0x0A, 0x80, 0x01, 0x00, 0x06, 0x00,
      0x00, 0x2D, 0x6A, 0x97, 0x35]
    let map (type : UInt8) : StreamMap :=
      ⟨10, true, false, 0, 6, [0x00, 0x00, 0x2D, 0x6A, 0x97, 0x35], 4, [⟨type, 0xE0, 0, none, []⟩],
        0x2D6A9735⟩
    let start (type : UInt8) :=
      BitCursor.ofBytes (checked ++ [0x00, 0x04, type, 0xE0, 0x00, 0x00, 0x00, 0x00, 0x00, 0x00])
    (parse.run (start 0x1B)).result = .ok (map 0x1B) ∧
      (parse.run (start 0x24)).result = .ok (map 0x24) ∧
      (map 0x1B).checkedLength = 16 ∧ (parse.run (start 0x1B)).cursor.taken = 26 ∧
      (map 0x1B).entries.map MapEntry.codec ≠ (map 0x24).entries.map MapEntry.codec := by
  intro checked map start
  have hfirst : (parse.run (start 0x1B)).result = .ok (map 0x1B) :=
    result_run_eq_ok_iff.2
      ⟨rfl, by decide, by decide +kernel, by decide, by decide, 0, 0, by decide⟩
  have hsecond : (parse.run (start 0x24)).result = .ok (map 0x24) :=
    result_run_eq_ok_iff.2
      ⟨rfl, by decide, by decide +kernel, by decide, by decide, 0, 0, by decide⟩
  exact ⟨hfirst, hsecond, rfl, taken_run hfirst, by decide⟩

end StreamMap

end ProgramStream
