import ProgramStream.Proofs.Record
import ProgramStream.Proofs.Session.Calls
/-!
# Sessions — what a dropped unit leaves behind

A unit that is dropped puts out no record, and is counted. But a map is
taken in once it is read, before it is known whether it takes up the whole
unit: one that is dropped for bytes behind it has already told its codecs
(`codecs_judge`). That is all a dropped unit can change (`step?_of_dropped`).
-/

namespace ProgramStream

open ProgramStream.Parser

/-- The map that the bytes of a unit decode into, whether the unit is
accepted or not. -/
def StreamMap.ofUnit? (streamId : UInt8) (bytes : List UInt8) : Option StreamMap :=
  if streamId = StreamId.map then (StreamMap.parse.run (BitCursor.ofBytes bytes)).result.toOption
  else none

theorem StreamMap.ofUnit?_eq_some_iff {streamId : UInt8} {bytes : List UInt8} {m : StreamMap} :
    StreamMap.ofUnit? streamId bytes = some m ↔
      streamId = StreamId.map ∧ ∃ s', StreamMap.parse (State.ofBytes bytes) = .ok m s' := by
  unfold ofUnit?
  split
  · cases h : StreamMap.parse (State.ofBytes bytes) with
    | ok found s' => simp [run_of_ok h, Except.toOption, *]
    | error fault s' => simp [run_of_error h, Except.toOption]
  · simp [*]

namespace StreamUnit

variable {codecs : CodecTable} {streamId : UInt8} {bytes : List UInt8}

/-- **What a unit tells about codecs is what its map tells**, even if the
unit is dropped. -/
theorem codecs_judge :
    (judge codecs streamId bytes).codecs =
      (StreamMap.ofUnit? streamId bytes).elim codecs codecs.learnAll := by
  cases hmap : StreamMap.ofUnit? streamId bytes with
  | some m =>
    obtain ⟨rfl, t, hm⟩ := StreamMap.ofUnit?_eq_some_iff.1 hmap
    rw [judge_of_reads (.map hm)]
    rfl
  | none =>
    cases hparse : parse codecs streamId (State.ofBytes bytes) with
    | ok found s' =>
      obtain ⟨content, codecs'⟩ := found
      have hreads := parse_eq_ok_iff.1 hparse
      rw [judge_of_reads hreads]
      -- of the kinds of units only a map tells codecs, and this one holds no map
      cases hreads with
      | map hm =>
        have hsome := StreamMap.ofUnit?_eq_some_iff.2 ⟨rfl, _, hm⟩
        rw [hmap] at hsome
        cases hsome
      | _ => rfl
    | error fault s' =>
      rw [judge_of_error hparse]
      rfl

end StreamUnit

namespace Session

variable {s t : Session} {out : Log}

/-- **What a dropped unit changes**: the buffer and that it is in step with
the input, the number of the next unit, the count of dropped units, and the
codecs if the unit holds a map that can be decoded. Nothing is put out. The
codecs stay as they are exactly if there is no such map, or if it tells
nothing new. -/
theorem step?_of_dropped (hstep : s.step? = some (t, out))
    (hdrop : t.stats.corruptUnits ≠ s.stats.corruptUnits) :
    ∃ id length, Frame.next s.buffer = .whole id length ∧ out.records = #[] ∧
      let kept : Session :=
        { s with
          buffer := s.buffer.drop length
          inSync := true
          unitIndex := s.unitIndex + 1
          stats := { s.stats with corruptUnits := s.stats.corruptUnits + 1 } }
      let map? := StreamMap.ofUnit? id (s.buffer.take length)
      t = { kept with codecs := map?.elim s.codecs s.codecs.learnAll } ∧
        (t = kept ↔ ∀ m, map? = some m → s.codecs.learnAll m = s.codecs) := by
  -- a byte that is skipped and a unit that becomes a record count no dropped unit
  rcases step?_cases hstep with ⟨-, hskip⟩ | ⟨id, length, hframe, htake⟩
  · cases hskip
    exact absurd rfl hdrop
  · cases h : (StreamUnit.judge s.codecs id (s.buffer.take length)).content with
    | ok content =>
      rw [takeUnit_of_ok (s := s.pastUnit length) h] at htake
      cases htake
      exact absurd (corruptUnits_count _ _) hdrop
    | error fault =>
      rw [takeUnit_of_error (s := s.pastUnit length) h] at htake
      cases htake
      refine ⟨id, length, hframe, rfl, ?_, ?_⟩
      · rw [StreamUnit.codecs_judge]
        rfl
      · rw [StreamUnit.codecs_judge]
        cases StreamMap.ofUnit? id (s.buffer.take length) with
        | none => simp [pastUnit]
        | some m => simp [pastUnit]

/-- A map of one stream with two bytes more than its contents take up, and the
checksum of all of them. -/
def overlongMap : List UInt8 :=
  [0x00, 0x00, 0x01, 0xBC, 0x00, 0x10, 0x80, 0x01, 0x00, 0x00, 0x00, 0x04, 0x1B, 0xE0, 0x00, 0x00,
    0xFF, 0xFF, 0xEC, 0xB3, 0x84, 0xFE]

/-- The overlong map is dropped, and nothing is put out. -/
theorem step?_overlongMap :
    ∃ t out, (({} : Session).extend overlongMap).step? = some (t, out) ∧
      t.stats.corruptUnits ≠ 0 ∧ out.records = #[] ∧ t.unitIndex = 1 := by
  have hdropped :
      (({} : Session).extend overlongMap).step?.map (·.1.stats.corruptUnits) = some 1 := by
    decide +kernel
  obtain ⟨⟨t, out⟩, hstep, hone⟩ := Option.map_eq_some_iff.1 hdropped
  have hdrop : t.stats.corruptUnits ≠ 0 := by
    rw [hone]
    decide
  obtain ⟨id, length, -, hrecords, ht, -⟩ := step?_of_dropped hstep hdrop
  exact ⟨t, out, hstep, hdrop, hrecords, by rw [ht]; rfl⟩

/-- **A dropped map tells its codecs all the same**: a session that was fed
the overlong map has put out no record and counted a dropped unit, and it
knows a codec it did not know before. -/
theorem codecOf_overlongMap :
    let r := ({} : Session).feed (refuseNone (ε := Empty)) overlongMap
    r.session.stats.corruptUnits = 1 ∧ r.log.records = #[] ∧
      ({} : Session).codecOf 0xE0 = none ∧ r.session.codecOf 0xE0 = some .h264 := by
  decide +kernel

end Session

end ProgramStream
