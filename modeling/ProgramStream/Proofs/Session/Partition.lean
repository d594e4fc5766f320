import Mathlib.Algebra.BigOperators.Group.List.Basic
import Mathlib.Algebra.Order.Ring.Nat
import ProgramStream.Proofs.Session.Calls
/-!
# Sessions — where each byte went

The moves a session makes cut what it was fed into what they took and what
is still buffered (`fed_eq`), and the counts of the session are counts of
its moves: skipped bytes are those of moves that took no unit
(`skippedBytes_eq`), the number of the next unit is the number of units
taken (`unitIndex_eq`), and the records put out are those of the units, in
their order (`records_eq`). Every unit taken was framed as it stands, and has
a record if its bytes parse, of what they parse to (`isSound`).
-/

namespace ProgramStream

namespace Session

variable {ε : Type}

namespace Move

/-- The number of bytes a move takes that are in no unit. -/
def lostLength : Move → Nat
  | .skipped _ => 1
  | .framed .. => 0
  | .discarded bytes => bytes.length

/-- The number of bytes a move takes that are in a unit. -/
def framedLength : Move → Nat
  | .framed _ bytes _ => bytes.length
  | _ => 0

theorem length_bytes (m : Move) : m.bytes.length = m.lostLength + m.framedLength := by
  cases m <;> simp [bytes, lostLength, framedLength]

/-- A unit's bytes are framed as a unit of their length. With the codecs of
the time they parse to what its record holds, or to nothing if it has no
record. -/
def IsSound : Move → Prop
  | .framed id bytes record =>
    Frame.next bytes = .whole id bytes.length ∧
      ∃ codecs, (StreamUnit.judge codecs id bytes).content.toOption = record.map Record.content
  | _ => True

end Move

/-- What taking a unit puts out is a record with the unit's number, or
nothing. -/
theorem records_takeUnit (s : Session) (id : UInt8) (bytes : List UInt8) :
    (∃ r : Record, r.index = s.unitIndex ∧ (s.takeUnit id bytes).2.records = #[r]) ∨
      (s.takeUnit id bytes).2.records = #[] := by
  cases h : (StreamUnit.judge s.codecs id bytes).content with
  | ok content => exact .inl ⟨_, rfl, by rw [takeUnit_of_ok h]⟩
  | error fault => exact .inr (by rw [takeUnit_of_error h])

/-- A step puts out a record or nothing. -/
theorem records_step? {s t : Session} {out : Log} (h : s.step? = some (t, out)) :
    out.records = #[] ∨ ∃ r, out.records = #[r] := by
  rcases step?_cases h with ⟨-, hskip⟩ | ⟨id, length, -, htake⟩
  · cases hskip
    exact .inl rfl
  · have hrecords := records_takeUnit (s.pastUnit length) id (s.buffer.take length)
    rw [htake] at hrecords
    rcases hrecords with ⟨r, -, hr⟩ | hnone
    · exact .inr ⟨r, hr⟩
    · exact .inl hnone

/-- **The record of a unit holds what the unit parses to**, and there is none
if it does not parse. -/
theorem content_takeUnit (s : Session) (id : UInt8) (bytes : List UInt8) :
    (StreamUnit.judge s.codecs id bytes).content.toOption =
      (s.takeUnit id bytes).2.records[0]?.map Record.content := by
  cases h : (StreamUnit.judge s.codecs id bytes).content with
  | ok content =>
    rw [takeUnit_of_ok h]
    rfl
  | error fault =>
    rw [takeUnit_of_error h]
    rfl

theorem unitIndex_takeUnit (s : Session) (id : UInt8) (bytes : List UInt8) :
    (s.takeUnit id bytes).1.unitIndex = s.unitIndex + 1 := by
  cases h : (StreamUnit.judge s.codecs id bytes).content with
  | ok content => rw [takeUnit_of_ok h]; rfl
  | error fault => rw [takeUnit_of_error h]

theorem skippedBytes_takeUnit (s : Session) (id : UInt8) (bytes : List UInt8) :
    (s.takeUnit id bytes).1.stats.skippedBytes = s.stats.skippedBytes := by
  cases h : (StreamUnit.judge s.codecs id bytes).content with
  | ok content =>
    rw [takeUnit_of_ok h]
    exact skippedBytes_count _ _
  | error fault => rw [takeUnit_of_error h]

namespace Reaches

variable {fed : List UInt8} {moves : List Move} {log : Log} {s : Session}

/-- **No byte is lost, doubled or moved.** -/
theorem fed_eq (h : Reaches fed moves log s) : fed = moves.flatMap Move.bytes ++ s.buffer := by
  induction h with
  | fresh => rfl
  | setLimit units h ih => exact ih
  | extend bytes h ih => rw [buffer_extend, ih, List.append_assoc]
  | @skip fed moves log s h hrun hframe ih =>
    have hne := Frame.ne_nil_of_noUnit hframe
    have hhead : s.buffer = s.buffer.headD 0 :: s.buffer.drop 1 := by
      cases hb : s.buffer with
      | nil => exact absurd hb hne
      | cons b bs => rfl
    rw [ih, List.flatMap_append, List.append_assoc]
    simp only [List.flatMap_cons, List.flatMap_nil, List.append_nil, Move.bytes, skipByte,
      List.singleton_append, ← hhead]
  | take h hrun hframe ih =>
    rw [ih, buffer_takeUnit, List.flatMap_append, List.append_assoc]
    simp only [List.flatMap_cons, List.flatMap_nil, List.append_nil, Move.bytes, pastUnit,
      List.take_append_drop]
  | flush h ih => simp [ih, Move.bytes, Session.flush]

theorem skippedBytes_eq (h : Reaches fed moves log s) :
    s.stats.skippedBytes = (moves.map Move.lostLength).sum := by
  induction h with
  | fresh => rfl
  | setLimit units h ih => exact ih
  | extend bytes h ih => exact ih
  | skip h hrun hframe ih => simp [ih, skipByte, Move.lostLength]
  | take h hrun hframe ih =>
    rw [skippedBytes_takeUnit]
    simp [pastUnit, ih, Move.lostLength]
  | flush h ih => simp [ih, Session.flush, Move.lostLength]

theorem unitIndex_eq (h : Reaches fed moves log s) :
    s.unitIndex = (moves.filter Move.isFramed).length := by
  induction h with
  | fresh => rfl
  | setLimit units h ih => exact ih
  | extend bytes h ih => exact ih
  | skip h hrun hframe ih => simp [ih, skipByte, Move.isFramed]
  | take h hrun hframe ih =>
    rw [unitIndex_takeUnit, List.filter_append, List.length_append, ← ih]
    rfl
  | flush h ih => simp [ih, Session.flush, Move.isFramed]

/-- **The records put out are those of the units taken, in their order.** -/
theorem records_eq (h : Reaches fed moves log s) :
    log.records.toList = moves.filterMap Move.record? := by
  induction h with
  | fresh => rfl
  | setLimit units h ih => exact ih
  | extend bytes h ih => exact ih
  | skip h hrun hframe ih => simp [ih, skipByte, Move.record?]
  | @take fed moves log s id length h hrun hframe ih =>
    rw [Log.records_append, Array.toList_append, ih, List.filterMap_append]
    rcases records_takeUnit (s.pastUnit length) id (s.buffer.take length) with
      ⟨r, -, hrecords⟩ | hrecords
    · simp [hrecords, Move.record?]
    · simp [hrecords, Move.record?]
  | flush h ih => simp [ih, Session.flush, Move.record?]

/-- **Every unit taken was framed as it stands, and its record is of what its
bytes parse to.** -/
theorem isSound (h : Reaches fed moves log s) : ∀ m ∈ moves, m.IsSound := by
  induction h with
  | fresh => simp
  | setLimit units h ih => exact ih
  | extend bytes h ih => exact ih
  | skip h hrun hframe ih =>
    exact List.forall_mem_append.2 ⟨ih, List.forall_mem_singleton.2 trivial⟩
  | @take fed moves log s id length h hrun hframe ih =>
    have hframed := Frame.next_take_eq_whole hframe
    have hcontent := content_takeUnit (s.pastUnit length) id (s.buffer.take length)
    exact List.forall_mem_append.2
      ⟨ih, List.forall_mem_singleton.2 ⟨hframed, s.codecs, hcontent⟩⟩
  | flush h ih => exact List.forall_mem_append.2 ⟨ih, List.forall_mem_singleton.2 trivial⟩

/-- **The number of a record is the number of its unit.** -/
theorem index_eq (h : Reaches fed moves log s) {i : Nat} {id : UInt8} {bytes : List UInt8}
    {r : Record} (hi : (moves.filter Move.isFramed)[i]? = some (.framed id bytes (some r))) :
    r.index = i := by
  induction h with
  | fresh => simp at hi
  | setLimit units h ih => exact ih hi
  | extend bytes h ih => exact ih hi
  | skip h hrun hframe ih =>
    rw [List.filter_append] at hi
    exact ih (by simpa [Move.isFramed] using hi)
  | @take fed moves log s id' length h hrun hframe ih =>
    rw [List.filter_append] at hi
    -- the unit at `i` was taken before, or is the one taken now
    rcases Nat.lt_or_ge i (moves.filter Move.isFramed).length with hlt | hge
    · exact ih (by rwa [List.getElem?_append_left hlt] at hi)
    · rw [List.getElem?_append_right hge] at hi
      obtain ⟨hzero, hmove⟩ := List.getElem?_eq_some_iff.1 hi
      have hi' : i = s.unitIndex := by
        rw [h.unitIndex_eq]
        have : i - (moves.filter Move.isFramed).length < 1 := hzero
        omega
      subst hi'
      rcases records_takeUnit (s.pastUnit length) id' (s.buffer.take length) with
        ⟨r', hindex, hrecords⟩ | hrecords
      · rw [hrecords] at hmove
        obtain ⟨-, -, hr⟩ : id' = id ∧ s.buffer.take length = bytes ∧ r' = r := by
          simpa [List.filter, Move.isFramed] using hmove
        rw [← hr, hindex]
        rfl
      · simp [hrecords, List.filter, Move.isFramed] at hmove
  | flush h ih =>
    rw [List.filter_append] at hi
    exact ih (by simpa [Move.isFramed] using hi)

/-- Every record put out is that of the unit with its number. -/
theorem getElem?_index (h : Reaches fed moves log s) {r : Record} (hr : r ∈ log.records) :
    ∃ id bytes, (moves.filter Move.isFramed)[r.index]? = some (.framed id bytes (some r)) := by
  rw [← Array.mem_toList_iff, h.records_eq, List.mem_filterMap] at hr
  obtain ⟨m, hm, hrecord⟩ := hr
  cases m with
  | framed id bytes record =>
    have hframed : Move.framed id bytes record ∈ moves.filter Move.isFramed :=
      List.mem_filter.2 ⟨hm, rfl⟩
    obtain ⟨i, hi⟩ := List.getElem?_of_mem hframed
    cases hrecord
    exact ⟨id, bytes, by rw [h.index_eq hi, hi]⟩
  | skipped byte => cases hrecord
  | discarded bytes => cases hrecord

end Reaches

/-- The lengths of moves, by what became of the bytes. -/
theorem length_flatMap_bytes (moves : List Move) :
    (moves.flatMap Move.bytes).length =
      (moves.map Move.lostLength).sum + (moves.map Move.framedLength).sum := by
  induction moves with
  | nil => rfl
  | cons m moves ih =>
    simp only [List.flatMap_cons, List.length_append, List.map_cons, List.sum_cons, ih,
      Move.length_bytes]
    omega

/-- **Where each byte went.** Whatever calls are made, with whatever
receivers, the bytes fed are, in order, those of the moves made and those
still buffered: single bytes skipped, units taken, and what flushes gave up.
The count of skipped bytes is that of the bytes in no unit, and the records
put out are those of the units, in the order of the units, each of them the
parse of the unit that has its number. A unit without a record is one that
does not parse. -/
theorem exists_moves_performAll (calls : List (Call ε)) :
    let fed := calls.flatMap Call.bytes
    let s := (performAll calls).1
    let log := (performAll calls).2
    ∃ moves, Reaches fed moves log s ∧
      fed = moves.flatMap Move.bytes ++ s.buffer ∧
      s.stats.skippedBytes = (moves.map Move.lostLength).sum ∧
      fed.length =
        s.stats.skippedBytes + (moves.map Move.framedLength).sum + s.buffer.length ∧
      log.records.toList = moves.filterMap Move.record? ∧
      (∀ m ∈ moves, m.IsSound) ∧
      ∀ r ∈ log.records,
        ∃ id bytes, (moves.filter Move.isFramed)[r.index]? = some (.framed id bytes (some r)) := by
  intro fed s log
  obtain ⟨moves, h⟩ := reaches_performAll calls
  refine ⟨moves, h, h.fed_eq, h.skippedBytes_eq, ?_, h.records_eq, h.isSound,
    fun r hr => h.getElem?_index hr⟩
  calc fed.length = (moves.flatMap Move.bytes ++ s.buffer).length := congrArg _ h.fed_eq
    _ = (moves.map Move.lostLength).sum + (moves.map Move.framedLength).sum +
          s.buffer.length := by rw [List.length_append, length_flatMap_bytes]
    _ = s.stats.skippedBytes + (moves.map Move.framedLength).sum + s.buffer.length := by
      rw [h.skippedBytes_eq]

end Session

end ProgramStream
