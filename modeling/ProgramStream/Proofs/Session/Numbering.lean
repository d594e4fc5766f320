import ProgramStream.Proofs.Packet
import ProgramStream.Proofs.Session.Partition
/-!
# Sessions — numbers and counts

A session numbers the units it takes and the packs they belong to, and
counts units by their kind (`StreamUnit.kind`). `IsNumbered` says what these
numbers have to do with the records put out: it is kept by a unit whether it
becomes a record (`IsNumbered.accept`) or is dropped (`IsNumbered.drop`),
and so holds wherever calls lead (`Reaches.isNumbered`). The numbers that no
record has are those of the units that were dropped
(`Reaches.index_ne_iff`).
-/

namespace ProgramStream

open ProgramStream.Parser ProgramStream.Parser.State

/-! ## Kinds of units -/

/-- What a unit is counted as. -/
inductive StreamUnit.Kind where
  | pack
  | system
  | map
  | audio
  | video
  | streamEnd
  | other
  deriving DecidableEq, Repr

namespace StreamUnit

/-- The kind of a unit; that of a packet goes by its stream id. -/
def kind : StreamUnit → Kind
  | .pack _ => .pack
  | .system _ => .system
  | .map _ => .map
  | .packet p _ => if StreamId.isAudio p.streamId then .audio else .video
  | .streamEnd => .streamEnd
  | .other _ _ => .other

variable {codecs : CodecTable} {streamId : UInt8} {bytes : List UInt8}

/-- A frame reads the stream id off the start code that a parser takes. -/
theorem streamId_of_takes {id : UInt8} {length : Nat} {bits : List Bool} {ws : List Warning}
    {t : Parser.State} (hframe : Frame.next bytes = .whole streamId length)
    (h : (State.ofBytes bytes).Takes (Bits.ofBytes (startBytes id) ++ bits) ws t) :
    streamId = id := by
  obtain ⟨rest, rfl, -, -⟩ := Frame.next_eq_whole_iff.1 hframe
  have hahead : Bits.ofBytes (startBytes streamId) ++ Bits.ofBytes rest = _ := h.cursor.ahead_eq
  rw [List.append_assoc] at hahead
  have hstart := Bits.ofBytes_inj (List.append_inj_left hahead rfl)
  simpa [startBytes] using hstart

/-- **A packet that is read has the stream id it was framed with**, which is
that of an audio or a video stream. -/
theorem isPacketId_of_content_judge {p : Packet} {codec : Codec}
    (hframe : Frame.next bytes = .whole streamId bytes.length)
    (h : (judge codecs streamId bytes).content = .ok (.packet p codec)) :
    p.streamId = streamId ∧ IsPacketId p.streamId := by
  obtain ⟨codecs', s', hreads, -⟩ := content_judge_eq_ok_iff.1 h
  cases hreads with
  | packet hid hparse _ =>
    obtain ⟨-, fill, -, htakes⟩ := Packet.parse_eq_ok_iff.1 hparse
    have hsame : streamId = p.streamId := streamId_of_takes hframe htakes
    exact ⟨hsame.symm, hsame ▸ hid⟩

end StreamUnit

/-- The count of the units of a kind. -/
def Stats.units (s : Stats) : StreamUnit.Kind → Nat
  | .pack => s.packHeaders
  | .system => s.systemHeaders
  | .map => s.streamMaps
  | .audio => s.audioPackets
  | .video => s.videoPackets
  | .streamEnd => s.streamEnds
  | .other => s.otherUnits

/-- **A unit is counted as of its kind**, and as of no other. -/
theorem Stats.units_count (s : Stats) (content : StreamUnit) (kind : StreamUnit.Kind) :
    (s.count content).units kind = s.units kind + if content.kind = kind then 1 else 0 := by
  cases content with
  | packet p codec =>
    by_cases h : StreamId.isAudio p.streamId = true
    · cases kind <;> simp [count, units, StreamUnit.kind, h]
    · cases kind <;> simp [count, units, StreamUnit.kind, h]
  | _ => cases kind <;> simp [count, units, StreamUnit.kind]

/-- The number of records of a kind. -/
def countKind (kind : StreamUnit.Kind) (records : List Record) : Nat :=
  records.countP (·.content.kind = kind)

theorem countKind_append_singleton (kind : StreamUnit.Kind) (records : List Record) (r : Record) :
    countKind kind (records ++ [r]) =
      countKind kind records + if r.content.kind = kind then 1 else 0 := by
  simp [countKind, List.countP_append, List.countP_cons]

/-- Every record is of one kind. -/
theorem length_eq_countKind (records : List Record) :
    records.length =
      countKind .pack records + countKind .system records + countKind .map records +
        countKind .audio records + countKind .video records + countKind .streamEnd records +
        countKind .other records := by
  induction records with
  | nil => rfl
  | cons r records ih =>
    simp only [countKind, List.length_cons, List.countP_cons, decide_eq_true_eq] at ih ⊢
    cases r.content.kind <;> simp <;> omega

namespace Session

variable {ε : Type}

/-- **What is known of the numbers of a session** that has put out some
records: its counts are those of the records, its pack is the last one a
record opened, and each record has the number of its unit and that of the
last pack opened up to it. -/
structure IsNumbered (records : List Record) (s : Session) : Prop where
  units : ∀ kind, s.stats.units kind = countKind kind records
  packIndex : s.packIndex = countKind .pack records - 1
  seenPack : s.seenPack = decide (0 < countKind .pack records)
  index_lt : ∀ r ∈ records, r.index < s.unitIndex
  index_pairwise : records.Pairwise (·.index < ·.index)
  packIndex_eq : ∀ i r, records[i]? = some r →
    r.packIndex = countKind .pack (records.take (i + 1)) - 1

namespace IsNumbered

variable {records : List Record} {s t : Session}

/-- Nothing else of a session matters. -/
theorem congr (h : IsNumbered records s)
    (hunits : ∀ kind, t.stats.units kind = s.stats.units kind)
    (hpack : t.packIndex = s.packIndex) (hseen : t.seenPack = s.seenPack)
    (hindex : t.unitIndex = s.unitIndex) : IsNumbered records t where
  units kind := by rw [hunits, h.units]
  packIndex := by rw [hpack, h.packIndex]
  seenPack := by rw [hseen, h.seenPack]
  index_lt := by rw [hindex]; exact h.index_lt
  index_pairwise := h.index_pairwise
  packIndex_eq := h.packIndex_eq

/-- The first pack header opens pack 0, and each one after it the next. -/
theorem packIndex_accept (h : IsNumbered records s) (index : Nat) (content : StreamUnit) :
    let packs := countKind .pack records + if content.kind = .pack then 1 else 0
    (s.accept index content).2.packIndex = packs - 1 ∧
      (s.accept index content).1.packIndex = packs - 1 ∧
      (s.accept index content).1.seenPack = decide (0 < packs) := by
  have hpack := h.packIndex
  have hseen := h.seenPack
  cases content with
  | pack header =>
    simp only [accept, StreamUnit.kind, hpack, hseen]
    by_cases hzero : countKind .pack records = 0
    · simp [hzero]
    · have hpos : 0 < countKind .pack records := by omega
      simp [hpos]
      omega
  | packet p codec =>
    have hkind : (StreamUnit.packet p codec).kind ≠ .pack := by
      simp only [StreamUnit.kind]
      split <;> simp
    simp [accept, hkind, hpack, hseen]
  | _ => simp [accept, StreamUnit.kind, hpack, hseen]

/-- **A unit that becomes a record is numbered.** -/
theorem accept (h : IsNumbered records s) (content : StreamUnit) (codecs : CodecTable) :
    let r := { s with unitIndex := s.unitIndex + 1, codecs }.accept s.unitIndex content
    IsNumbered (records ++ [r.2]) r.1 := by
  intro r
  obtain ⟨hrecord, hpack, hseen⟩ := h.packIndex_accept s.unitIndex content
  have hcount : ∀ kind, countKind kind (records ++ [r.2]) =
      countKind kind records + if content.kind = kind then 1 else 0 :=
    fun kind => countKind_append_singleton kind records r.2
  refine ⟨fun kind => ?_, ?_, ?_, fun r' hr' => ?_, ?_, fun i r' hi => ?_⟩
  · rw [hcount, ← h.units]
    exact Stats.units_count s.stats content kind
  · rw [hcount]
    exact hpack
  · rw [hcount]
    exact hseen
  · rcases List.mem_append.1 hr' with hold | hnew
    · exact Nat.lt_succ_of_lt (h.index_lt r' hold)
    · rw [List.mem_singleton.1 hnew]
      exact Nat.lt_succ_self _
  · refine List.pairwise_append.2 ⟨h.index_pairwise, List.pairwise_singleton _ _, ?_⟩
    intro r' hr' r'' hr''
    rw [List.mem_singleton.1 hr'']
    exact h.index_lt r' hr'
  · rcases Nat.lt_or_ge i records.length with hlt | hge
    · rw [List.getElem?_append_left hlt] at hi
      rw [List.take_append_of_le_length hlt]
      exact h.packIndex_eq i r' hi
    · -- the new record is the last one, so the packs up to it are all there are
      rw [List.getElem?_append_right hge, List.getElem?_singleton] at hi
      split at hi
      · cases hi
        have hall : (records ++ [r.2]).length ≤ i + 1 := by
          simp only [List.length_append, List.length_singleton]
          omega
        rw [List.take_of_length_le hall, hcount]
        exact hrecord
      · cases hi

/-- And one that is dropped leaves the numbers of the records as they are. -/
theorem drop (h : IsNumbered records s) (codecs : CodecTable) :
    IsNumbered records
      { s with
        unitIndex := s.unitIndex + 1
        codecs
        stats := { s.stats with corruptUnits := s.stats.corruptUnits + 1 } } where
  units kind := (show _ = s.stats.units kind by cases kind <;> rfl).trans (h.units kind)
  packIndex := h.packIndex
  seenPack := h.seenPack
  index_lt r hr := Nat.lt_succ_of_lt (h.index_lt r hr)
  index_pairwise := h.index_pairwise
  packIndex_eq := h.packIndex_eq

/-- **Taking a unit keeps the numbers right**, whatever becomes of it. -/
theorem takeUnit (h : IsNumbered records s) (id : UInt8) (bytes : List UInt8) :
    IsNumbered (records ++ (s.takeUnit id bytes).2.records.toList) (s.takeUnit id bytes).1 := by
  cases hverdict : (StreamUnit.judge s.codecs id bytes).content with
  | ok content =>
    rw [takeUnit_of_ok hverdict]
    exact h.accept content _
  | error fault =>
    rw [takeUnit_of_error hverdict, List.append_nil]
    exact h.drop _

end IsNumbered

namespace Move

/-- The move takes a unit that is dropped. -/
def isDropped : Move → Bool
  | .framed _ _ none => true
  | _ => false

end Move

/-- A unit taken has a record or is dropped. -/
theorem length_filter_isFramed (moves : List Move) :
    (moves.filter Move.isFramed).length =
      (moves.filterMap Move.record?).length + moves.countP Move.isDropped := by
  induction moves with
  | nil => rfl
  | cons m moves ih =>
    rcases m with byte | ⟨id, bytes, _ | r⟩ | bytes
    all_goals
      simp only [List.filter_cons, List.filterMap_cons, List.countP_cons, Move.isFramed,
        Move.record?, Move.isDropped, Bool.false_eq_true, if_true, if_false, List.length_cons, ih]
      try omega

theorem corruptUnits_takeUnit (s : Session) (id : UInt8) (bytes : List UInt8) :
    (s.takeUnit id bytes).1.stats.corruptUnits =
      s.stats.corruptUnits +
        [Move.framed id bytes (s.takeUnit id bytes).2.records[0]?].countP Move.isDropped := by
  cases hverdict : (StreamUnit.judge s.codecs id bytes).content with
  | ok content =>
    rw [takeUnit_of_ok hverdict]
    exact corruptUnits_count _ _
  | error fault =>
    rw [takeUnit_of_error hverdict]
    rfl

namespace Reaches

variable {fed : List UInt8} {moves : List Move} {log : Log} {s : Session}

/-- **The numbers of a session are right wherever calls lead.** -/
theorem isNumbered (h : Reaches fed moves log s) : IsNumbered log.records.toList s := by
  induction h with
  | fresh => exact ⟨fun kind => by cases kind <;> rfl, rfl, rfl, by simp, .nil, by simp⟩
  | setLimit units h ih => exact ih.congr (fun _ => rfl) rfl rfl rfl
  | extend bytes h ih => exact ih.congr (fun _ => rfl) rfl rfl rfl
  | skip h hrun hframe ih =>
    rw [Log.records_append, show (skipByte _).2.records = #[] from rfl, Array.append_empty]
    -- a byte that is skipped is counted, but as no unit
    exact ih.congr (fun kind => by cases kind <;> rfl) rfl rfl rfl
  | @take fed moves log s id length h hrun hframe ih =>
    rw [Log.records_append, Array.toList_append]
    have hpast : IsNumbered log.records.toList (s.pastUnit length) :=
      ih.congr (fun _ => rfl) rfl rfl rfl
    exact hpast.takeUnit id (s.buffer.take length)
  | flush h ih =>
    rw [Log.records_append, show (Session.flush _).2.1.records = #[] from rfl, Array.append_empty]
    exact ih.congr (fun kind => by cases kind <;> rfl) rfl rfl rfl

/-- **The units counted as corrupt are those that were dropped.** -/
theorem corruptUnits_eq (h : Reaches fed moves log s) :
    s.stats.corruptUnits = moves.countP Move.isDropped := by
  induction h with
  | fresh => rfl
  | setLimit units h ih => exact ih
  | extend bytes h ih => exact ih
  | skip h hrun hframe ih => simp [skipByte, ih, Move.isDropped]
  | @take fed moves log s id length h hrun hframe ih =>
    rw [corruptUnits_takeUnit, List.countP_append, ← ih]
    rfl
  | flush h ih => simp [Session.flush, ih, Move.isDropped]

/-- Units have records, or are dropped. -/
theorem unitIndex_eq_length (h : Reaches fed moves log s) :
    s.unitIndex = log.records.toList.length + s.stats.corruptUnits := by
  rw [h.unitIndex_eq, h.records_eq, h.corruptUnits_eq, length_filter_isFramed]

/-- **A number that no record has is that of a dropped unit.** -/
theorem index_ne_iff (h : Reaches fed moves log s) {i : Nat} (hi : i < s.unitIndex) :
    (∀ r ∈ log.records.toList, r.index ≠ i) ↔
      ∃ id bytes, (moves.filter Move.isFramed)[i]? = some (.framed id bytes none) := by
  constructor
  · intro hnone
    rw [h.unitIndex_eq] at hi
    have hmove := List.getElem?_eq_getElem hi
    obtain ⟨hmem, hframed⟩ := List.mem_filter.1 (List.getElem_mem hi)
    cases hm : (moves.filter Move.isFramed)[i] with
    | framed id bytes record =>
      rw [hm] at hmove hmem
      cases record with
      | none => exact ⟨id, bytes, hmove⟩
      | some r =>
        have hr : r ∈ log.records.toList := by
          rw [h.records_eq]
          exact List.mem_filterMap.2 ⟨_, hmem, rfl⟩
        exact absurd (h.index_eq hmove) (hnone r hr)
    | skipped byte => rw [hm] at hframed; cases hframed
    | discarded bytes => rw [hm] at hframed; cases hframed
  · rintro ⟨id, bytes, hmove⟩ r hr rfl
    obtain ⟨id', bytes', hmove'⟩ := h.getElem?_index (Array.mem_toList_iff.1 hr)
    rw [hmove] at hmove'
    cases hmove'

/-- **A packet's record has the id of its unit**, which is that of an audio or
a video stream. -/
theorem isPacketId_of_framed (h : Reaches fed moves log s) {id : UInt8} {bytes : List UInt8}
    {r : Record} {p : Packet} {codec : Codec} (hmem : .framed id bytes (some r) ∈ moves)
    (hcontent : r.content = .packet p codec) :
    p.streamId = id ∧ StreamUnit.IsPacketId p.streamId := by
  obtain ⟨hframe, codecs, hjudge⟩ := h.isSound _ hmem
  rw [Option.map_some, hcontent] at hjudge
  cases hverdict : (StreamUnit.judge codecs id bytes).content with
  | ok content =>
    rw [hverdict] at hjudge
    cases hjudge
    exact StreamUnit.isPacketId_of_content_judge hframe hverdict
  | error fault =>
    rw [hverdict] at hjudge
    cases hjudge

theorem isPacketId_of_mem (h : Reaches fed moves log s) {r : Record}
    (hr : r ∈ log.records.toList) {p : Packet} {codec : Codec}
    (hcontent : r.content = .packet p codec) : StreamUnit.IsPacketId p.streamId := by
  obtain ⟨id, bytes, hmove⟩ := h.getElem?_index (Array.mem_toList_iff.1 hr)
  have hmem := (List.mem_filter.1 (List.mem_of_getElem? hmove)).1
  exact (h.isPacketId_of_framed hmem hcontent).2

end Reaches

/-- **The numbers and counts of a session are right.** Whatever calls are
made, with whatever receivers: the counts of units, corrupt ones included,
add up to the number of the next unit. The units that are dropped are those
counted as corrupt, and there are as many records as units that are not.
Records have increasing numbers, all below that of the next unit, and the
numbers between that none of them has are those of dropped units. Each count
is that of the records of its kind, packets being of the kind of their own
stream id. A record belongs to the last pack opened by a record up to it, and
to pack 0 before there is one. -/
theorem numbers_performAll (calls : List (Call ε)) :
    let s := (performAll calls).1
    let log := (performAll calls).2
    let records := log.records.toList
    ∃ moves, Reaches (calls.flatMap Call.bytes) moves log s ∧
      s.unitIndex =
        s.stats.packHeaders + s.stats.systemHeaders + s.stats.streamMaps + s.stats.audioPackets +
          s.stats.videoPackets + s.stats.streamEnds + s.stats.otherUnits + s.stats.corruptUnits ∧
      s.stats.corruptUnits = moves.countP Move.isDropped ∧
      records.length = s.unitIndex - s.stats.corruptUnits ∧
      records.Pairwise (·.index < ·.index) ∧
      (∀ r ∈ records, r.index < s.unitIndex) ∧
      (∀ i < s.unitIndex, (∀ r ∈ records, r.index ≠ i) ↔
        ∃ id bytes, (moves.filter Move.isFramed)[i]? = some (.framed id bytes none)) ∧
      (∀ kind, s.stats.units kind = countKind kind records) ∧
      (∀ r ∈ records, ∀ p codec, r.content = .packet p codec →
        StreamId.isAudio p.streamId = true ∨ StreamId.isVideo p.streamId = true) ∧
      ∀ i r, records[i]? = some r →
        r.packIndex = countKind .pack (records.take (i + 1)) - 1 := by
  intro s log records
  obtain ⟨moves, h⟩ := reaches_performAll calls
  have hnumbered : IsNumbered records s := h.isNumbered
  have htotal : s.unitIndex = records.length + s.stats.corruptUnits := h.unitIndex_eq_length
  refine ⟨moves, h, ?_, h.corruptUnits_eq, by omega, hnumbered.index_pairwise, hnumbered.index_lt,
    fun i hi => h.index_ne_iff hi, hnumbered.units, fun r hr p codec hcontent => ?_,
    hnumbered.packIndex_eq⟩
  · rw [htotal, length_eq_countKind]
    simp only [← hnumbered.units, Stats.units]
  · exact Bool.or_eq_true_iff.1 (h.isPacketId_of_mem hr hcontent)

end Session

end ProgramStream
