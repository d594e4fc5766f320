import ProgramStream.Proofs.Session.Step
import ProgramStream.Proofs.StreamMap.Grammar
import ProgramStream.Proofs.UnitLayout
/-!
# Sessions — stream maps, by their grammar

A framed unit with the id of a map becomes a record exactly if it is a sound
map (`StreamMap.Raw.IsSound`). The parser of maps takes its own lengths from
the map and is content with a map that ends before its unit does; that the
whole unit was taken is looked at afterwards. The two together fix the length
the unit states (`exists_raw_of_content_judge`), which is what ties it to the
lengths inside.
-/

namespace ProgramStream

namespace StreamMap

variable {unit : List UInt8}

/-- The length field of a framed map tells its length. -/
theorem exists_of_frame (h : Frame.next unit = .whole StreamId.map unit.length) :
    ∃ high low body, unit = startBytes StreamId.map ++ high :: low :: body ∧
      body.length = ByteOrder.big.value [high, low] := by
  obtain ⟨rest, hunit, hlength, -⟩ := Frame.next_eq_whole_iff.1 h
  generalize hid : StreamId.map = id at hunit hlength
  generalize hn : unit.length = n at hlength
  cases hlength with
  | streamEnd => exact absurd hid (by decide)
  | pack _ => exact absurd hid (by decide)
  | @field _ high low tail _ _ =>
    refine ⟨high, low, tail, hid ▸ hunit, ?_⟩
    rw [hunit] at hn
    simp only [List.length_cons, Frame.prologueLength] at hn
    omega

/-- The checksum of a framed map is looked at over the whole unit. -/
theorem verify_of_check (hframe : Frame.next unit = .whole StreamId.map unit.length)
    {carried : UInt32} {s : Parser.State} (hcheck : check (.ofBytes unit) = .ok carried s) :
    Crc.verify unit = .ok carried := by
  obtain ⟨high, low, body, hunit, hbody⟩ := exists_of_frame hframe
  obtain ⟨-, -, high', low', body', hbody', hahead, hverify⟩ := check_eq_ok_iff.1 hcheck
  have hbegins : startBytes StreamId.map ++ high' :: low' :: body' <+: unit := hahead
  rw [hunit] at hbegins ⊢
  simp only [startBytes, List.cons_append, List.nil_append, List.cons_prefix_cons,
    true_and] at hbegins
  obtain ⟨rfl, rfl, hbegins⟩ := hbegins
  rwa [hbegins.eq_of_length (hbody'.trans hbody.symm)] at hverify

/-- A map that is laid out over a whole framed unit starts with the start code
of one, and states the length of the unit. -/
theorem length_of_frame (hframe : Frame.next unit = .whole StreamId.map unit.length)
    {m : StreamMap} {start : BitVec 32} {first : BitVec 1} {second : BitVec 7} {rest : List Bool}
    (hbits : m.sectionBits start first second ++ rest = Bits.ofBytes unit) :
    start = (startCode StreamId.map).toBitVec ∧ 6 + m.length.toNat = unit.length := by
  obtain ⟨high, low, body, rfl, hbody⟩ := exists_of_frame hframe
  obtain ⟨hstart, hlength⟩ := length_of_sectionBits hbits
  refine ⟨hstart, ?_⟩
  simp only [startBytes, List.length_append, List.length_cons, List.length_nil, hlength, hbody]
  omega

end StreamMap

namespace StreamUnit

variable {codecs : CodecTable} {unit : List UInt8} {content : StreamUnit}

/-- **A framed map that is accepted is a sound one**, and it is read as what it
says. -/
theorem exists_raw_of_content_judge (hframe : Frame.next unit = .whole StreamId.map unit.length)
    (h : (judge codecs StreamId.map unit).content = .ok content) :
    ∃ r : StreamMap.Raw, unit = r.bytes ∧ r.IsSound ∧ content = .map r.value := by
  obtain ⟨codecs', s', hreads, htaken⟩ := content_judge_eq_ok_iff.1 h
  generalize hid : StreamId.map = id at hreads
  cases hreads with
  | streamEnd _ _ => exact absurd hid (by decide)
  | pack _ => exact absurd hid (by decide)
  | system _ => exact absurd hid (by decide)
  | packet hpacket _ _ => exact absurd (hid ▸ hpacket) (by decide)
  | other hother _ _ _ => exact absurd (hid ▸ hother) (by decide)
  | @map m _ hparse =>
    obtain ⟨hcheck, hfilled, start, first, second, trailer, htakes⟩ :=
      StreamMap.parse_eq_ok_iff.1 hparse
    obtain ⟨front, hfront, hcompute⟩ :=
      Crc.verify_eq_ok_iff.1 (StreamMap.verify_of_check hframe hcheck)
    -- the parser takes the whole unit
    have hlength := StreamMap.length_sectionBits hfilled start first second
    have hbits := htakes.eq_ofBytes (by
      rw [List.length_append, hlength, Bits.length_ofField]
      omega) htaken
    obtain ⟨rfl, hdeclared⟩ := StreamMap.length_of_frame hframe hbits
    have htotal := congrArg List.length hbits
    rw [List.length_append, hlength, Bits.length_ofField, Bits.length_ofBytes] at htotal
    obtain ⟨r, rfl, rfl, rfl, hr⟩ := StreamMap.Raw.exists_value_eq hfilled first second
    rw [StreamMap.Raw.sectionBits_value hr, hfront, Bits.ofBytes_append] at hbits
    obtain ⟨hsame, -⟩ := List.append_inj' hbits (by simp)
    obtain rfl := Bits.ofBytes_inj hsame
    refine ⟨r, hfront, ⟨hr, ?_, hcompute⟩, rfl⟩
    simp only [StreamMap.Raw.value] at hdeclared htotal
    omega

/-- **A sound map is accepted**, and read as what it says. -/
theorem content_judge_bytes {r : StreamMap.Raw} (h : r.IsSound) :
    (judge codecs StreamId.map r.bytes).content = .ok (.map r.value) := by
  have hsection := StreamMap.Raw.sectionBits_value h.toIsFilled
  have hvalid : r.value.IsValid r.first r.second := by
    refine ⟨StreamMap.Raw.isFilled_value h.toIsFilled, h.length, ?_⟩
    rw [hsection, Bits.pack_ofBytes]
    exact h.checksum
  have hbits : r.value.bits r.first r.second = Bits.ofBytes r.bytes := by
    rw [StreamMap.bits, hsection, StreamMap.Raw.bytes, Bits.ofBytes_append, ByteOrder.ofBytes_big]
    rfl
  have hbytes : (UnitLayout.map r.value r.first r.second).bytes = r.bytes := by
    rw [UnitLayout.bytes, UnitLayout.bits, hbits, Bits.pack_ofBytes]
  have hjudge := UnitLayout.judge_bytes (u := .map r.value r.first r.second) codecs hvalid
  rw [hbytes] at hjudge
  exact congrArg Verdict.content hjudge

end StreamUnit

namespace Session

variable {s : Session} {length : Nat}

/-- **A framed map becomes a record if and only if it is a sound map.** The
record holds what the map says, and the unit is counted as a map; any other
unit is counted as corrupt, and nothing is put out for it. -/
theorem step?_streamMap (h : Frame.next s.buffer = .whole StreamId.map length) :
    let unit := s.buffer.take length
    ∃ t out, s.step? = some (t, out) ∧
      ((∃ record ∈ out.records, ∃ m, record.content = .map m) ↔
        ∃ r : StreamMap.Raw, unit = r.bytes ∧ r.IsSound) ∧
      (∀ r : StreamMap.Raw, unit = r.bytes → r.IsSound →
        out.records = #[⟨s.unitIndex, s.packIndex, .map r.value⟩] ∧
        (r.value.entries.map MapEntry.size).sum = r.value.entriesLength.toNat ∧
        (∀ e ∈ r.value.entries, e.codec = Codec.classify e.streamType e.streamId) ∧
        t.stats = { s.stats with streamMaps := s.stats.streamMaps + 1 }) ∧
      ((¬∃ r : StreamMap.Raw, unit = r.bytes ∧ r.IsSound) →
        out.records = #[] ∧
        t.stats = { s.stats with corruptUnits := s.stats.corruptUnits + 1 }) := by
  intro unit
  have hunit : Frame.next unit = .whole StreamId.map unit.length := Frame.next_take_eq_whole h
  rcases htake : (s.pastUnit length).takeUnit StreamId.map unit with ⟨t, out⟩
  refine ⟨t, out, (step?_of_whole h).trans (congrArg some htake), ?_⟩
  cases hcontent : (StreamUnit.judge (s.pastUnit length).codecs StreamId.map unit).content with
  | ok content =>
    obtain ⟨r, hr, hsound, rfl⟩ := StreamUnit.exists_raw_of_content_judge hunit hcontent
    rw [takeUnit_of_ok hcontent] at htake
    cases htake
    refine ⟨⟨fun _ => ⟨r, hr, hsound⟩, fun _ => ⟨_, Array.mem_singleton.2 rfl, _, rfl⟩⟩, ?_,
      fun hnone => absurd ⟨r, hr, hsound⟩ hnone⟩
    intro r' hr' hsound'
    -- the map that the bytes are is the one that was read
    rw [hr', StreamUnit.content_judge_bytes hsound'] at hcontent
    obtain hvalue : r'.value = r.value := by simpa using hcontent
    rw [hvalue]
    exact ⟨rfl, (StreamMap.Raw.isFilled_value hsound.toIsFilled).entries, fun _ _ => rfl, rfl⟩
  | error fault =>
    have hnone : ¬∃ r : StreamMap.Raw, unit = r.bytes ∧ r.IsSound := by
      rintro ⟨r, hr, hsound⟩
      rw [hr, StreamUnit.content_judge_bytes hsound] at hcontent
      cases hcontent
    rw [takeUnit_of_error hcontent] at htake
    cases htake
    refine ⟨⟨?_, fun hsome => absurd hsome hnone⟩,
      fun r hr hsound => absurd ⟨r, hr, hsound⟩ hnone, fun _ => ⟨rfl, rfl⟩⟩
    rintro ⟨_, hmem, -⟩
    simp at hmem

/-- A map of two streams, the second of which is extended. -/
def sampleMap : StreamMap.Raw :=
  ⟨26, 0xA5, 0xFF, 3, [5, 1, 0], 13, [⟨0x1B, 0xE0, []⟩, ⟨0x80, 0xFD, [0x42, 2, 0xAA, 7, 8]⟩],
    0xB5F28993⟩

/-- The sample is read, with its pseudo descriptor apart from the others. -/
theorem step?_sampleMap :
    let s : Session := { buffer := sampleMap.bytes ++ startBytes StreamId.streamEnd }
    Frame.next s.buffer = .whole StreamId.map 32 ∧
      ∃ t out, s.step? = some (t, out) ∧ out.records = #[⟨0, 0, .map sampleMap.value⟩] ∧
        sampleMap.value.entries =
          [⟨0x1B, 0xE0, 0, none, []⟩, ⟨0x80, 0xFD, 5, some ⟨0x42, 2, 0x2A⟩, [7, 8]⟩] ∧
        t.stats = { streamMaps := 1 } := by
  intro s
  have hframe : Frame.next s.buffer = .whole StreamId.map 32 := by decide +kernel
  have hsound : sampleMap.IsSound := by decide +kernel
  obtain ⟨t, out, hstep, -, hread, -⟩ := step?_streamMap hframe
  obtain ⟨hrecords, -, -, hstats⟩ := hread sampleMap rfl hsound
  exact ⟨hframe, t, out, hstep, hrecords, by decide +kernel, hstats⟩

end Session

end ProgramStream
