import ProgramStream.Dump.Run
import ProgramStream.Proofs.Session.Limit
import ProgramStream.Proofs.Session.Numbering
/-!
# A dump — decoding what is read in pieces

A reader delivers a file in pieces that are not empty and not too large, and
that is all that is known of it (`IsReading`). What is decoded of the pieces
is what is decoded of the file (`decode_eq`): a run that stops at the limit
leaves alone what is still to be read (`readFrom`), and one that comes to the
end of the file gives up what is left. Either way each byte is in a unit, is
counted as skipped, or comes after the last unit that the limit allows
(`isAccounted_decode`).
-/

namespace ProgramStream

namespace Session

variable {ε : Type} {s t : Session} {log log' out : Log}

/-! ## Where the bytes of a run are -/

/-- The bytes of some units. -/
def unitBytes (units : List (List UInt8 × List UInt8)) : Nat := (units.map (·.1.length)).sum

@[simp] theorem unitBytes_append (units units' : List (List UInt8 × List UInt8)) :
    unitBytes (units ++ units') = unitBytes units + unitBytes units' := by
  simp [unitBytes]

/-- **The bytes that are in no unit stay as many**: a step counts one of them
as skipped, or takes a whole unit. -/
theorem skippedBytes_step? (h : s.step? = some (t, out)) :
    t.stats.skippedBytes + t.buffer.length + unitBytes (Frame.units s.buffer) =
      s.stats.skippedBytes + s.buffer.length + unitBytes (Frame.units t.buffer) := by
  rcases step?_cases h with ⟨hframe, hskip⟩ | ⟨id, length, hframe, htake⟩
  · cases hskip
    have hpos := List.length_pos_iff.2 (Frame.ne_nil_of_noUnit hframe)
    simp only [Frame.units_of_noUnit hframe, List.length_drop]
    omega
  · have hle := (Frame.whole_bounds hframe).2
    have hbuffer := buffer_takeUnit (s.pastUnit length) id (s.buffer.take length)
    have hskipped := skippedBytes_takeUnit (s.pastUnit length) id (s.buffer.take length)
    rw [htake] at hbuffer hskipped
    have hbuffer : t.buffer = s.buffer.drop length := hbuffer
    have hskipped : t.stats.skippedBytes = s.stats.skippedBytes := hskipped
    rw [hskipped, hbuffer, Frame.units_of_whole hframe]
    simp only [unitBytes, List.map_cons, List.sum_cons, List.length_take, List.length_drop]
    omega

theorem Steps.skippedBytes_eq (h : Steps s log t log') :
    t.stats.skippedBytes + t.buffer.length + unitBytes (Frame.units s.buffer) =
      s.stats.skippedBytes + s.buffer.length + unitBytes (Frame.units t.buffer) := by
  induction h with
  | refl => rfl
  | step hrun hstep _ ih =>
    have hfirst := skippedBytes_step? hstep
    omega

/-- The number of units that were counted. -/
def unitsCounted (stats : Stats) : Nat :=
  stats.packHeaders + stats.systemHeaders + stats.streamMaps + stats.audioPackets +
    stats.videoPackets + stats.streamEnds + stats.otherUnits + stats.corruptUnits

/-- Every unit that was taken is counted. -/
theorem Reaches.unitsCounted_eq {fed : List UInt8} {moves : List Move}
    (h : Reaches fed moves log s) : unitsCounted s.stats = s.unitIndex := by
  rw [h.unitIndex_eq_length, length_eq_countKind]
  simp only [← h.isNumbered.units, Stats.units, unitsCounted]

end Session

namespace Dump

open Session

/-! ## Pieces -/

/-- **What reading a file delivers**: pieces that are not empty and not larger
than they may be, which are the file when they are put together. -/
structure IsReading (size : Nat) (bytes : List UInt8) (pieces : List (List UInt8)) : Prop where
  ne_nil : ∀ piece ∈ pieces, piece ≠ []
  length_le : ∀ piece ∈ pieces, piece.length ≤ size
  flatten_eq : pieces.flatten = bytes

/-- Pieces that are as large as they can be are such. -/
theorem isReading_inPieces {size : Nat} (h : size ≠ 0) (bytes : List UInt8) :
    IsReading size bytes (inPieces size bytes) where
  ne_nil := by
    fun_induction inPieces size bytes with
    | case1 bytes hnone => simp
    | case2 bytes hsome ih =>
      refine List.forall_mem_cons.2 ⟨fun hnil => ?_, ih⟩
      exact hsome ((List.take_eq_nil_iff.1 hnil).imp_right id)
  length_le := by
    fun_induction inPieces size bytes with
    | case1 bytes hnone => simp
    | case2 bytes hsome ih => exact List.forall_mem_cons.2 ⟨List.length_take_le .., ih⟩
  flatten_eq := flatten_inPieces h bytes

variable {size limit : Nat} {bytes : List UInt8} {pieces : List (List UInt8)}

/-- The end of a dump: what is left is given up, unless the limit was
reached. -/
def close (s : Session) (log : Log) : Session × Log :=
  if s.isFinished then (s, log) else (s.flush.1, log.append s.flush.2.1)

/-- **Only what the pieces come to is consumed.** -/
theorem consume_eq {s : Session} (h : s.IsSettled) (log : Log) (pieces : List (List UInt8)) :
    consume s log pieces =
      let whole := Session.run (refuseNone (ε := Empty)) (s.extend pieces.flatten) log
      close whole.session whole.log := by
  have hfeed := feedAll_of_isSettled (ε := Empty) h pieces log
  unfold consume
  rw [show ((fun _ => none : Record → Option Empty)) = refuseNone from rfl]
  simp only [hfeed]
  rfl

theorem decode_eq (demux : DemuxSettings) (pieces : List (List UInt8)) :
    decode demux pieces =
      let whole := (fresh demux.maxUnits).feed (refuseNone (ε := Empty)) pieces.flatten
      close whole.session whole.log :=
  consume_eq (isSettled_fresh demux.maxUnits) {} pieces

/-- A decoding is a way to call a session. -/
theorem exists_performAll_eq_decode (demux : DemuxSettings) (pieces : List (List UInt8)) :
    ∃ calls : List (Call Empty), performAll calls = decode demux pieces := by
  rw [decode_eq]
  unfold close
  by_cases hfinished : ((fresh demux.maxUnits).feed (refuseNone (ε := Empty))
      pieces.flatten).session.isFinished = true
  · refine ⟨[.setLimit demux.maxUnits, .feed refuseNone pieces.flatten], ?_⟩
    simp only [if_pos hfinished]
    simp [performAll, performFrom, Call.perform, fresh, Log.append]
  · refine ⟨[.setLimit demux.maxUnits, .feed refuseNone pieces.flatten, .flush], ?_⟩
    simp only [if_neg hfinished]
    simp [performAll, performFrom, Call.perform, fresh, Log.append]

/-! ## Two ways to end -/

/-- The loop of a dump: it ends at the limit, and what is still to be read is
not read, or when there are no more pieces. -/
def readFrom (s : Session) (log : Log) : List (List UInt8) → Session × Log
  | [] => close s log
  | piece :: pieces =>
    let r := Session.run (refuseNone (ε := Empty)) (s.extend piece) log
    if r.session.isFinished then (r.session, r.log) else readFrom r.session r.log pieces

/-- **What is not read after the limit does not show.** -/
theorem consume_eq_readFrom {s : Session} (h : s.IsSettled) (log : Log)
    (pieces : List (List UInt8)) :
    (consume s log pieces).1.stats = (readFrom s log pieces).1.stats ∧
      (consume s log pieces).2 = (readFrom s log pieces).2 := by
  rw [consume_eq h]
  induction pieces generalizing s log with
  | nil =>
    rw [List.flatten_nil, extend_nil, run_of_isSettled _ h]
    exact ⟨rfl, rfl⟩
  | cons piece pieces ih =>
    -- all of it is fed after the first piece, or nothing is
    have hrest := run_extend (ε := Empty) refuseNone (s.extend piece) log pieces.flatten
    have hsettled := (isSettled_run (ε := Empty) (s.extend piece) log).1
    rw [extend_extend] at hrest
    simp only [List.flatten_cons, hrest, readFrom]
    split
    · rename_i hfinished
      have hmore : ((Session.run (refuseNone (ε := Empty)) (s.extend piece) log).session.extend
          pieces.flatten).isFinished = true := hfinished
      rw [run_of_isSettled _ (.inl hmore)]
      simp only [close, if_pos hmore]
      exact ⟨rfl, trivial⟩
    · exact ih hsettled _

/-- A decoding is what the loop comes to. -/
theorem decode_eq_readFrom (demux : DemuxSettings) (pieces : List (List UInt8)) :
    (decode demux pieces).1.stats = (readFrom (fresh demux.maxUnits) {} pieces).1.stats ∧
      (decode demux pieces).2 = (readFrom (fresh demux.maxUnits) {} pieces).2 :=
  consume_eq_readFrom (isSettled_fresh demux.maxUnits) {} pieces

/-! ## Where each byte of a file is -/

variable {demux : DemuxSettings}

/-- What is fed to a fresh session is taken in steps, until none follows. -/
theorem steps_feed (limit : Nat) (bytes : List UInt8) :
    let whole := (fresh limit).feed (refuseNone (ε := Empty)) bytes
    Steps ((fresh limit).extend bytes) {} whole.session whole.log ∧ whole.session.IsSettled :=
  ⟨steps_run _ _ _, (isSettled_run _ _).1⟩

/-- The limit is reached if there are that many units. -/
theorem isFinished_feed_iff (limit : Nat) (bytes : List UInt8) :
    ((fresh limit).feed (refuseNone (ε := Empty)) bytes).session.isFinished = true ↔
      0 < limit ∧ limit ≤ (Frame.units bytes).length := by
  have hlimit := (steps_feed limit bytes).1.limit_eq
  rw [isFinished_iff, hlimit]
  cases limit with
  | zero =>
    constructor
    · rintro ⟨n, hn, -⟩
      cases hn
    · rintro ⟨hpos, -⟩
      cases hpos
  | succ limit =>
    have hindex := (feed_limit (ε := Empty) limit bytes).1
    constructor
    · rintro ⟨n, hn, hle⟩
      obtain rfl : limit + 1 = n := Option.some.inj hn
      rw [hindex] at hle
      omega
    · rintro ⟨-, hle⟩
      exact ⟨limit + 1, rfl, by rw [hindex]; omega⟩

/-- What a decoding counts are the units that were taken. -/
theorem unitsCounted_decode (demux : DemuxSettings) (h : pieces.flatten = bytes) :
    unitsCounted (decode demux pieces).1.stats =
      ((fresh demux.maxUnits).feed (refuseNone (ε := Empty)) bytes).session.unitIndex := by
  obtain ⟨calls, hcalls⟩ := exists_performAll_eq_decode demux pieces
  obtain ⟨moves, hreaches⟩ := reaches_performAll calls
  rw [hcalls] at hreaches
  rw [hreaches.unitsCounted_eq, decode_eq, h]
  simp only [close]
  split <;> rfl

/-- **If the limit is not reached**, each byte is in a unit or is skipped. -/
theorem skippedBytes_decode_of_few (h : pieces.flatten = bytes)
    (hfew : demux.maxUnits = 0 ∨ (Frame.units bytes).length < demux.maxUnits) :
    (decode demux pieces).1.stats.skippedBytes + unitBytes (Frame.units bytes) = bytes.length ∧
      unitsCounted (decode demux pieces).1.stats = (Frame.units bytes).length := by
  have hcounted := unitsCounted_decode demux h
  have hfinished := isFinished_feed_iff demux.maxUnits bytes
  obtain ⟨hsteps, hsettled⟩ := steps_feed demux.maxUnits bytes
  rw [decode_eq, h] at hcounted ⊢
  generalize (fresh demux.maxUnits).feed (refuseNone (ε := Empty)) bytes = whole at *
  have hrunning : ¬whole.session.isFinished = true := fun hreached => by
    have := hfinished.1 hreached
    omega
  -- no unit is left in front, and what is left is given up
  have hempty : Frame.units whole.session.buffer = [] :=
    units_of_step?_eq_none (hsettled.resolve_left hrunning)
  obtain ⟨taken, -, htaken, hindex, -⟩ := hsteps.exists_taken
  have hbytes := hsteps.skippedBytes_eq
  simp only [buffer_extend, show (fresh demux.maxUnits).buffer = [] from rfl, List.nil_append,
    hempty, List.append_nil] at htaken hbytes
  have hskipped : (close whole.session whole.log).1.stats.skippedBytes =
      whole.session.stats.skippedBytes + whole.session.buffer.length := by
    rw [close, if_neg hrunning]
    rfl
  refine ⟨?_, ?_⟩
  · rw [hskipped, hbytes]
    exact Nat.zero_add _
  · rw [hcounted, hindex, htaken]
    exact Nat.zero_add _

/-- **If the limit is reached**, the bytes behind the last unit are not. -/
theorem skippedBytes_decode_of_limit {unit after : List UInt8} (h : pieces.flatten = bytes)
    (hpos : 0 < demux.maxUnits)
    (hunit : (Frame.units bytes)[demux.maxUnits - 1]? = some (unit, after)) :
    (decode demux pieces).1.stats.skippedBytes +
        unitBytes ((Frame.units bytes).take demux.maxUnits) + after.length = bytes.length ∧
      unitsCounted (decode demux pieces).1.stats = demux.maxUnits := by
  have hcounted := unitsCounted_decode demux h
  have hlt := (List.getElem?_eq_some_iff.1 hunit).1
  have hfinished := (isFinished_feed_iff demux.maxUnits bytes).2 ⟨hpos, by omega⟩
  obtain ⟨hsteps, -⟩ := steps_feed demux.maxUnits bytes
  obtain ⟨limit, hlimit⟩ := Nat.exists_eq_succ_of_ne_zero (Nat.pos_iff_ne_zero.1 hpos)
  rw [hlimit] at hunit
  obtain ⟨hcount, hbuffer, -⟩ := feed_limit (ε := Empty) limit bytes
  obtain ⟨hbuffer, -⟩ := hbuffer unit after hunit
  rw [← Nat.succ_eq_add_one, ← hlimit] at hcount hbuffer
  rw [decode_eq, h] at hcounted ⊢
  generalize (fresh demux.maxUnits).feed (refuseNone (ε := Empty)) bytes = whole at *
  -- the units taken are as many as the limit says
  obtain ⟨taken, -, htaken, hindex, -⟩ := hsteps.exists_taken
  have hbytes := hsteps.skippedBytes_eq
  simp only [buffer_extend, show (fresh demux.maxUnits).buffer = [] from rfl, List.nil_append,
    hbuffer] at htaken hbytes
  have hindex : whole.session.unitIndex = 0 + taken.length := hindex
  have hfirst : (Frame.units bytes).take demux.maxUnits = taken := by
    rw [htaken, List.take_append_of_le_length (by omega), List.take_of_length_le (by omega)]
  rw [htaken, unitBytes_append] at hbytes
  have hskipped : whole.session.stats.skippedBytes + unitBytes taken + after.length =
      bytes.length := by
    have hbytes : whole.session.stats.skippedBytes + after.length +
      (unitBytes taken + unitBytes (Frame.units after)) =
        0 + bytes.length + unitBytes (Frame.units after) := hbytes
    omega
  have hclose : close whole.session whole.log = (whole.session, whole.log) := if_pos hfinished
  rw [hclose] at hcounted ⊢
  exact ⟨by rw [hfirst]; exact hskipped, hcounted.trans (by omega)⟩

/-- **Where the bytes of a file are**, by the counts of a decoding. -/
structure IsAccounted (limit : Nat) (bytes : List UInt8) (stats : Stats) : Prop where
  /-- if the limit is not reached, each byte is in a unit or is skipped -/
  of_few (h : limit = 0 ∨ (Frame.units bytes).length < limit) :
    stats.skippedBytes + unitBytes (Frame.units bytes) = bytes.length ∧
      unitsCounted stats = (Frame.units bytes).length
  /-- if it is, the bytes after the last unit it allows are neither -/
  of_limit {unit after : List UInt8} (h : 0 < limit)
      (hunit : (Frame.units bytes)[limit - 1]? = some (unit, after)) :
    stats.skippedBytes + unitBytes ((Frame.units bytes).take limit) + after.length =
        bytes.length ∧
      unitsCounted stats = limit

theorem isAccounted_decode (h : pieces.flatten = bytes) :
    IsAccounted demux.maxUnits bytes (decode demux pieces).1.stats where
  of_few := skippedBytes_decode_of_few h
  of_limit := skippedBytes_decode_of_limit h

end Dump

end ProgramStream
