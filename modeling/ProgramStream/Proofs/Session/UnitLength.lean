import ProgramStream.Proofs.Incremental
import ProgramStream.Proofs.Session.Dropped
import ProgramStream.Proofs.Session.Maps
import ProgramStream.Proofs.Session.Numbering
/-!
# Sessions — the length of a unit, framed and read

A frame finds the length of a unit in its first bytes, and a parser finds
where a unit ends by reading it. Both come to the same for every unit but a
map: a unit that is read has a layout, and the bytes of a layout are framed
as they are long (`UnitLayout.eq_of_takes`). A map states the length that it
was framed with too, but takes its own lengths from inside and may end before
the unit does. So a length that does not match is that of a map, and the map
is the shorter of the two (`eq_map_of_lengthMismatch`); no fault of a parser is
mistaken for one, since parsers know of no unit (`exists_isBuilt`).
-/

namespace ProgramStream

open ProgramStream.Parser ProgramStream.Parser.State

namespace UnitLayout

variable {u : UnitLayout} {unit : List UInt8} {id : UInt8} {ws : List Warning}
  {t : Parser.State}

/-- **A framed unit that has a layout is as long as its layout**, and all of
it is taken. -/
theorem eq_of_takes (h : u.IsValid) (hframe : Frame.next unit = .whole id unit.length)
    (htakes : (State.ofBytes unit).Takes u.bits ws t) :
    id = u.streamId ∧ u.length = unit.length ∧ t.cursor.taken = unit.length := by
  have hcursor : (State.ofBytes unit).cursor.Takes (Bits.ofBytes u.bytes) t.cursor := by
    rw [ofBytes_bytes h]
    exact htakes.cursor
  have hunit : unit = u.bytes ++ t.cursor.bytes := (BitCursor.eq_of_takes_bytes rfl hcursor).1
  have htaken : t.cursor.taken = 0 + u.length := htakes.taken_eq (length_bits h)
  have hwhole := next_bytes_append h t.cursor.bytes
  rw [← hunit, hframe] at hwhole
  obtain ⟨hid, hlength⟩ := Frame.whole.inj hwhole
  exact ⟨hid, hlength.symm, by omega⟩

end UnitLayout

namespace StreamUnit

variable {codecs codecs' : CodecTable} {unit : List UInt8} {id : UInt8} {content : StreamUnit}
  {t : Parser.State}

/-- The length that a unit has, by what is read of it. -/
def size : StreamUnit → Nat
  | .pack h => h.size
  | .system h => Frame.prologueLength + h.headerLength.toNat
  | .map m => Frame.prologueLength + m.length.toNat
  | .packet p _ => p.size
  | .streamEnd => Frame.startLength
  | .other _ length => length

/-- A map that is read states the length that it was framed with. -/
theorem size_of_map {m : StreamMap} (hframe : Frame.next unit = .whole StreamId.map unit.length)
    (h : StreamMap.parse (State.ofBytes unit) = .ok m t) :
    Frame.prologueLength + m.length.toNat = unit.length := by
  obtain ⟨-, -, start, first, second, trailer, htakes⟩ := StreamMap.parse_eq_ok_iff.1 h
  have hahead : Bits.ofBytes unit = _ := htakes.cursor.ahead_eq
  rw [List.append_assoc] at hahead
  exact (StreamMap.length_of_frame hframe hahead.symm).2

/-- **A framed unit that is read is as long as it says**, and unless it is a
map all of it is taken. A packet has the id that it was framed with. -/
theorem Reads.length_eq (h : Reads codecs (State.ofBytes unit) id content codecs' t)
    (hframe : Frame.next unit = .whole id unit.length) :
    content.size = unit.length ∧ (id ≠ StreamId.map → t.cursor.taken = unit.length) ∧
      ∀ p codec, content = .packet p codec → p.streamId = id := by
  cases h with
  | streamEnd code htakes =>
    obtain ⟨rest, -, hlength, -⟩ := Frame.next_eq_whole_iff.1 hframe
    have hfour : unit.length = Frame.startLength := by
      generalize hn : unit.length = n at hlength
      cases hlength with
      | streamEnd => rfl
      | field _ hid => exact absurd hid (by decide)
    have htaken : t.cursor.taken = 0 + 4 := htakes.taken_eq (by simp)
    exact ⟨hfour.symm, fun _ => by rw [htaken, hfour]; rfl, by simp⟩
  | @pack header _ hparse =>
    obtain ⟨-, hvalid, reserved, htakes⟩ := PackHeader.parse_eq_ok_iff.1 hparse
    obtain ⟨-, hsize, htaken⟩ :=
      UnitLayout.eq_of_takes (u := .pack header reserved) hvalid hframe htakes
    exact ⟨hsize, fun _ => htaken, by simp⟩
  | @system header _ hparse =>
    obtain ⟨hvalid, reserved, htakes⟩ := SystemHeader.parse_eq_ok_iff.1 hparse
    obtain ⟨-, hsize, htaken⟩ :=
      UnitLayout.eq_of_takes (u := .system header reserved) hvalid hframe htakes
    exact ⟨hsize, fun _ => htaken, by simp⟩
  | map hparse => exact ⟨size_of_map hframe hparse, fun hne => absurd rfl hne, by simp⟩
  | @packet _ p u _ hid hparse hlabel =>
    obtain ⟨-, fill, hvalid, htakes⟩ := Packet.parse_eq_ok_iff.1 hparse
    have hsame : id = p.streamId := streamId_of_takes hframe htakes
    obtain ⟨-, hsize, htaken⟩ :=
      UnitLayout.eq_of_takes (u := .packet p fill) ⟨hsame ▸ hid, hvalid⟩ hframe htakes
    -- the label is found without a look at the input
    have hafter : t.cursor.taken = u.cursor.taken + 0 := hlabel.taken_eq rfl
    refine ⟨hsize, fun _ => hafter.trans htaken, fun p' codec hp' => ?_⟩
    cases hp'
    exact hsame.symm
  | @other _ body _ _ _ hlen htakes =>
    have hall : body.length = unit.length := by
      rw [hlen]
      simp [State.ofBytes, BitCursor.ofBytes, BitCursor.left]
    have htaken : t.cursor.taken = 0 + body.length := htakes.taken_eq (Bits.length_ofBytes body)
    exact ⟨hall, fun _ => by omega, by simp⟩

/-! ## A unit that fails -/

/-- Once it is known how much is ahead, reading a unit is put together of
operations. -/
theorem exists_isBuilt (codecs : CodecTable) (id : UInt8) (s : Parser.State) :
    ∃ p : Parser (StreamUnit × CodecTable), p.IsBuilt ∧ parse codecs id s = p s := by
  unfold parse
  split
  · exact ⟨_, inferInstance, rfl⟩
  split
  · exact ⟨_, inferInstance, rfl⟩
  split
  · exact ⟨_, inferInstance, rfl⟩
  split
  · exact ⟨_, inferInstance, rfl⟩
  split
  · refine ⟨_, .bind Packet.isBuilt_parse fun packet => ?_, rfl⟩
    split <;> infer_instance
  · -- only here is it asked how much is ahead
    exact ⟨do
      skip (s.cursor.left / 8)
      return (.other id (s.cursor.left / 8), codecs), inferInstance, rfl⟩

/-- No more is taken than there is. -/
theorem taken_le_length (h : parse codecs id (State.ofBytes unit) = .ok (content, codecs') t) :
    t.cursor.taken ≤ unit.length := by
  obtain ⟨p, hp, heq⟩ := exists_isBuilt codecs id (State.ofBytes unit)
  rw [heq] at h
  have hsum : t.cursor.taken + t.cursor.bytes.length = 0 + unit.length :=
    hp.isStable.taken_add_length h
  omega

/-- The verdict on a unit is only ever that its length does not match if it
was read. -/
theorem exists_reads_of_lengthMismatch {declared consumed : Nat}
    (h : (judge codecs id unit).content = .error (.lengthMismatch declared consumed)) :
    ∃ content codecs' t, parse codecs id (State.ofBytes unit) = .ok (content, codecs') t ∧
      declared = unit.length ∧ consumed = t.cursor.taken ∧ consumed ≠ declared := by
  cases hparse : parse codecs id (State.ofBytes unit) with
  | ok found t =>
    rw [judge_of_reads (parse_eq_ok_iff.1 hparse)] at h
    simp only at h
    split at h
    · cases h
    · cases h
      exact ⟨found.1, found.2, t, rfl, rfl, rfl, ‹_›⟩
  | error fault t =>
    obtain ⟨p, hp, heq⟩ := exists_isBuilt codecs id (State.ofBytes unit)
    have hfault : fault.LiesInInput := hp.liesInInput (heq.symm.trans hparse)
    rw [judge_of_error hparse] at h
    cases h
    cases hfault

/-- What the parser of a unit reports is about what the unit holds. -/
theorem isOfContent_judge : ∀ w ∈ (judge codecs id unit).warnings, w.IsOfContent := by
  obtain ⟨p, hp, heq⟩ := exists_isBuilt codecs id (State.ofBytes unit)
  have hwarnings : (judge codecs id unit).warnings = (p.after (State.ofBytes unit)).warnings := by
    unfold after
    rw [← heq]
    cases hparse : parse codecs id (State.ofBytes unit) with
    | ok found t => rw [judge_of_reads (parse_eq_ok_iff.1 hparse)]
    | error fault t => rw [judge_of_error hparse]
  rw [hwarnings]
  exact hp.isOfContent (by simp [State.ofBytes])

/-- **A length that does not match is that of a map**, which ends before its
unit does. -/
theorem eq_map_of_lengthMismatch (hframe : Frame.next unit = .whole id unit.length)
    {declared consumed : Nat}
    (h : (judge codecs id unit).content = .error (.lengthMismatch declared consumed)) :
    id = StreamId.map ∧ declared = unit.length ∧ consumed < declared := by
  obtain ⟨content, codecs', t, hparse, rfl, rfl, hne⟩ := exists_reads_of_lengthMismatch h
  have hle := taken_le_length hparse
  obtain ⟨-, hall, -⟩ := (parse_eq_ok_iff.1 hparse).length_eq hframe
  exact ⟨by_contra fun hid => hne (hall hid), rfl, by omega⟩

end StreamUnit

namespace Session

variable {ε : Type} {s : Session} {id : UInt8} {length : Nat}

/-- **A unit that a step reports as dropped for its length** is a map, which
ends before its unit does. -/
theorem eq_map_of_mem_warnings {unit : List UInt8}
    (hframe : Frame.next unit = .whole id unit.length) {index declared consumed : Nat} {id' : UInt8}
    (h : .droppedUnit index id' (.lengthMismatch declared consumed) ∈
      (s.takeUnit id unit).2.warnings) :
    (StreamUnit.judge s.codecs id unit).content = .error (.lengthMismatch declared consumed) ∧
      index = s.unitIndex ∧ id' = id ∧ id = StreamId.map ∧ declared = unit.length ∧
      consumed < declared := by
  have hcontent : .droppedUnit index id' (.lengthMismatch declared consumed) ∉
      (StreamUnit.judge s.codecs id unit).warnings :=
    fun hmem => nomatch StreamUnit.isOfContent_judge _ hmem
  cases hverdict : (StreamUnit.judge s.codecs id unit).content with
  | ok content =>
    rw [takeUnit_of_ok hverdict] at h
    exact absurd h hcontent
  | error fault =>
    rw [takeUnit_of_error hverdict] at h
    rcases Array.mem_push.1 h with hold | hnew
    · exact absurd hold hcontent
    · cases hnew
      exact ⟨rfl, rfl, rfl, StreamUnit.eq_map_of_lengthMismatch hframe hverdict⟩

theorem Reaches.eq_map_of_mem_warnings {fed : List UInt8} {moves : List Move} {log : Log}
    (h : Reaches fed moves log s) {index declared consumed : Nat} {id : UInt8}
    (hmem : .droppedUnit index id (.lengthMismatch declared consumed) ∈ log.warnings) :
    id = StreamId.map ∧ consumed < declared := by
  induction h with
  | fresh => simp at hmem
  | setLimit units h ih => exact ih hmem
  | extend bytes h ih => exact ih hmem
  | @skip fed moves log s h hrun hframe ih =>
    rcases Array.mem_append.1 hmem with hold | hnew
    · exact ih hold
    · by_cases hsync : s.inSync <;> simp [skipByte, hsync] at hnew
  | @take fed moves log s id' length h hrun hframe ih =>
    rcases Array.mem_append.1 hmem with hold | hnew
    · exact ih hold
    · obtain ⟨-, -, rfl, hid, -, hlt⟩ :=
        Session.eq_map_of_mem_warnings (Frame.next_take_eq_whole hframe) hnew
      exact ⟨hid, hlt⟩
  | @flush fed moves log s h ih =>
    rcases Array.mem_append.1 hmem with hold | hnew
    · exact ih hold
    · by_cases hzero : s.buffer.length = 0 <;> simp [Session.flush, hzero] at hnew

/-- **Frames and parsers agree on lengths.** A framed unit that is read is as
long as it says. Unless it is a map all of it is taken, and it becomes a
record; a packet has the id that it was framed with. A step reports a length
that does not match of a map only, one that is read and ends before the unit
does; and that is so of all that any calls lead to. -/
theorem lengths_agree :
    (∀ (s : Session) (id : UInt8) (length : Nat), Frame.next s.buffer = .whole id length →
      let outcome := (StreamUnit.parse s.codecs id).run (BitCursor.ofBytes (s.buffer.take length))
      ∃ t out, s.step? = some (t, out) ∧
        (∀ content codecs, outcome.result = .ok (content, codecs) →
          content.size = length ∧
          (∀ p codec, content = .packet p codec → p.streamId = id) ∧
          (id ≠ StreamId.map → outcome.cursor.taken = length ∧
            ∃ r, out.records = #[r] ∧ r.content = content)) ∧
        ∀ index id' declared consumed,
          .droppedUnit index id' (.lengthMismatch declared consumed) ∈ out.warnings →
            (∃ content codecs, outcome.result = .ok (content, codecs)) ∧
            index = s.unitIndex ∧ id' = id ∧ id = StreamId.map ∧ declared = length ∧
            consumed = outcome.cursor.taken ∧ consumed < declared) ∧
    ∀ (calls : List (Call ε)) (index : Nat) (id : UInt8) (declared consumed : Nat),
      .droppedUnit index id (.lengthMismatch declared consumed) ∈ (performAll calls).2.warnings →
        id = StreamId.map ∧ consumed < declared := by
  refine ⟨fun s id length hframe => ?_, fun calls index id declared consumed hmem => ?_⟩
  · have hlength := Frame.length_take_of_whole hframe
    have hunit := Frame.next_take_eq_whole hframe
    rcases htake : (s.pastUnit length).takeUnit id (s.buffer.take length) with ⟨t, out⟩
    refine ⟨t, out, (step?_of_whole hframe).trans (congrArg some htake), ?_, ?_⟩
    · intro content codecs hresult
      obtain ⟨u, hparse, hcursor⟩ := exists_of_result_run hresult
      have hreads := StreamUnit.parse_eq_ok_iff.1 hparse
      obtain ⟨hsize, hall, hpacket⟩ := StreamUnit.Reads.length_eq hreads hunit
      refine ⟨hsize.trans hlength, hpacket, fun hid => ?_⟩
      have hverdict : (StreamUnit.judge (s.pastUnit length).codecs id
          (s.buffer.take length)).content = .ok content :=
        StreamUnit.content_judge_eq_ok_iff.2 ⟨codecs, u, hreads, hall hid⟩
      rw [takeUnit_of_ok hverdict] at htake
      cases htake
      exact ⟨by rw [hcursor, hall hid, hlength], _, rfl, rfl⟩
    · intro index id' declared consumed hmem
      rw [show out = ((s.pastUnit length).takeUnit id (s.buffer.take length)).2 by rw [htake]]
        at hmem
      obtain ⟨hverdict, hindex, hid', hid, hdeclared, hlt⟩ := eq_map_of_mem_warnings hunit hmem
      obtain ⟨content, codecs, u, hparse, -, hconsumed, -⟩ :=
        StreamUnit.exists_reads_of_lengthMismatch hverdict
      have hrun := run_of_ok hparse
      refine ⟨⟨content, codecs, congrArg Outcome.result hrun⟩, hindex, hid', hid,
        hdeclared.trans hlength, ?_, hlt⟩
      rw [hconsumed]
      exact (congrArg (fun o => o.cursor.taken) hrun).symm
  · obtain ⟨moves, h⟩ := reaches_performAll calls
    exact h.eq_map_of_mem_warnings hmem

/-- A video packet of two bytes. -/
def shortPacket : List UInt8 :=
  [0x00, 0x00, 0x01, 0xE0, 0x00, 0x05, 0x80, 0x00, 0x00, 0xAA, 0xBB]

/-- The packet is read whole, and the overlong map up to its last two
bytes. -/
theorem lengths_shortPacket_overlongMap :
    let packet : Session := { buffer := shortPacket ++ startBytes StreamId.streamEnd }
    let map : Session := { buffer := overlongMap }
    Frame.next packet.buffer = .whole 0xE0 11 ∧ Frame.next map.buffer = .whole StreamId.map 22 ∧
      (∃ t out r p codec, packet.step? = some (t, out) ∧ out.records = #[r] ∧
        r.content = .packet p codec ∧ p.streamId = 0xE0 ∧ p.size = 11) ∧
      ∃ t out consumed, map.step? = some (t, out) ∧
        out.warnings = #[.droppedUnit 0 StreamId.map (.lengthMismatch 22 consumed)] ∧
        consumed < 22 := by
  intro packet map
  have hpacket : Frame.next packet.buffer = .whole 0xE0 11 := by decide
  have hmap : Frame.next map.buffer = .whole StreamId.map 22 := by decide
  refine ⟨hpacket, hmap, ?_, ?_⟩
  · obtain ⟨t, out, hstep, hread, -⟩ := (lengths_agree (ε := Empty)).1 packet 0xE0 11 hpacket
    obtain ⟨p, codec, codecs, hresult⟩ : ∃ p codec codecs,
        ((StreamUnit.parse packet.codecs 0xE0).run
          (BitCursor.ofBytes (packet.buffer.take 11))).result = .ok (.packet p codec, codecs) :=
      ⟨_, _, _, rfl⟩
    obtain ⟨hsize, hid, hwhole⟩ := hread _ _ hresult
    obtain ⟨-, r, hrecords, hcontent⟩ := hwhole (by decide)
    exact ⟨t, out, r, p, codec, hstep, hrecords, hcontent, hid p codec rfl, hsize⟩
  · obtain ⟨t, out, hstep, -, hmismatch⟩ :=
      (lengths_agree (ε := Empty)).1 map StreamId.map 22 hmap
    have hwarnings : map.step?.map (·.2.warnings) =
        some #[.droppedUnit 0 StreamId.map (.lengthMismatch 22 20)] := by
      decide +kernel
    rw [hstep] at hwarnings
    have hout : out.warnings = _ := Option.some.inj hwarnings
    obtain ⟨-, -, -, -, -, -, hlt⟩ :=
      hmismatch 0 StreamId.map 22 20 (by rw [hout]; exact Array.mem_singleton.2 rfl)
    exact ⟨t, out, 20, hstep, hout, hlt⟩

end Session

end ProgramStream
