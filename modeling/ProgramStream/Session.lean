import ProgramStream.Frame
import ProgramStream.Record
/-!
# Sessions — a stream decoded as it comes in

A session holds the bytes that have come in and are not decoded yet, the
codecs it knows, the numbers of the next unit and pack, and counts. It is
moved in steps, each of which takes something off the front of the buffer:
a byte that starts no unit, or a whole unit, which becomes a record or is
dropped (`step_lt`). Feeding bytes runs steps until a unit is incomplete,
the limit on units is reached, or the receiver refuses a record. Bytes may
come in pieces, each of which is fed after the one before (`feedAll_cons`).
-/

namespace ProgramStream

/-- Counts of what a session has met. -/
structure Stats where
  packHeaders : Nat := 0
  systemHeaders : Nat := 0
  streamMaps : Nat := 0
  audioPackets : Nat := 0
  videoPackets : Nat := 0
  streamEnds : Nat := 0
  otherUnits : Nat := 0
  corruptUnits : Nat := 0
  skippedBytes : Nat := 0
  deriving DecidableEq, Repr

/-- Counts a decoded unit. -/
def Stats.count (s : Stats) : StreamUnit → Stats
  | .pack _ => { s with packHeaders := s.packHeaders + 1 }
  | .system _ => { s with systemHeaders := s.systemHeaders + 1 }
  | .map _ => { s with streamMaps := s.streamMaps + 1 }
  | .packet p _ =>
    if StreamId.isAudio p.streamId then { s with audioPackets := s.audioPackets + 1 }
    else { s with videoPackets := s.videoPackets + 1 }
  | .streamEnd => { s with streamEnds := s.streamEnds + 1 }
  | .other _ _ => { s with otherUnits := s.otherUnits + 1 }

/-- A stream being decoded. -/
structure Session where
  /-- the bytes not decoded yet -/
  buffer : List UInt8 := []
  codecs : CodecTable := {}
  /-- the number of the next unit -/
  unitIndex : Nat := 0
  /-- the number of the pack the last pack header opened -/
  packIndex : Nat := 0
  seenPack : Bool := false
  /-- the last bytes taken off the buffer were a unit -/
  inSync : Bool := true
  /-- no more units than this are taken -/
  limit : Option Nat := none
  stats : Stats := {}
  deriving DecidableEq, Repr

/-- What a step or a run of steps put out. -/
structure Log where
  records : Array Record := #[]
  warnings : Array Warning := #[]

/-- One log after another. -/
def Log.append (l m : Log) : Log := ⟨l.records ++ m.records, l.warnings ++ m.warnings⟩

namespace Session

/-- Sets the limit on units; zero lifts it. -/
def setLimit (s : Session) (units : Nat) : Session :=
  { s with limit := if units = 0 then none else some units }

/-- The limit on units is reached. -/
def isFinished (s : Session) : Bool :=
  match s.limit with
  | some units => units ≤ s.unitIndex
  | none => false

/-- The codec a map gave a stream. -/
def codecOf (s : Session) (streamId : UInt8) : Option Codec := s.codecs.codecOf streamId

/-- Takes one byte that starts no unit off the buffer. The first such byte
after a unit is reported. -/
def skipByte (s : Session) : Session × Log :=
  ({ s with
      buffer := s.buffer.drop 1
      inSync := false
      stats := { s.stats with skippedBytes := s.stats.skippedBytes + 1 } },
    { warnings := if s.inSync then #[.lostSync s.unitIndex] else #[] })

/-- The session after the unit of the given number was refused. -/
def dropUnit (s : Session) (index : Nat) (streamId : UInt8) (fault : Fault) : Session × Warning :=
  ({ s with stats := { s.stats with corruptUnits := s.stats.corruptUnits + 1 } },
    .droppedUnit index streamId fault)

/-- The session after a unit was decoded, and its record. -/
def accept (s : Session) (index : Nat) (content : StreamUnit) : Session × Record :=
  let opensPack := match content with
    | .pack _ => true
    | _ => false
  let packIndex := if opensPack && s.seenPack then s.packIndex + 1 else s.packIndex
  ({ s with packIndex, seenPack := s.seenPack || opensPack, stats := s.stats.count content },
    { index, packIndex, content })

/-- Decodes a framed unit. What its map tells about codecs is taken in once
the map is read, even if the unit turns out longer than the map. -/
def takeUnit (s : Session) (streamId : UInt8) (bytes : List UInt8) : Session × Log :=
  let index := s.unitIndex
  let s := { s with unitIndex := index + 1 }
  let outcome := (StreamUnit.parse s.codecs streamId).run (BitCursor.ofBytes bytes)
  match outcome.result with
  | .ok (content, codecs) =>
    let s := { s with codecs }
    if outcome.cursor.taken = bytes.length then
      let (s, record) := s.accept index content
      (s, ⟨#[record], outcome.warnings⟩)
    else
      let (s, warning) :=
        s.dropUnit index streamId (.lengthMismatch bytes.length outcome.cursor.taken)
      (s, ⟨#[], outcome.warnings.push warning⟩)
  | .error fault =>
    let (s, warning) := s.dropUnit index streamId fault
    (s, ⟨#[], outcome.warnings.push warning⟩)

/-- Takes one byte or one unit off the buffer; none if the unit in front is
incomplete. -/
def step? (s : Session) : Option (Session × Log) :=
  match Frame.next s.buffer with
  | .incomplete _ => none
  | .noUnit => some s.skipByte
  | .whole streamId length =>
    some ({ s with buffer := s.buffer.drop length, inSync := true }.takeUnit streamId
      (s.buffer.take length))

@[simp] theorem buffer_takeUnit (s : Session) (streamId : UInt8) (bytes : List UInt8) :
    (s.takeUnit streamId bytes).1.buffer = s.buffer := by
  simp only [takeUnit]
  repeat' split
  all_goals rfl

/-- **A step takes something off the buffer.** -/
theorem step_lt {s t : Session} {log : Log} (h : s.step? = some (t, log)) :
    t.buffer.length < s.buffer.length := by
  unfold step? at h
  split at h
  · exact nomatch h
  · rename_i hframe
    simp only [Option.some.injEq, skipByte, Prod.mk.injEq] at h
    have := List.length_pos_iff.2 (Frame.ne_nil_of_noUnit hframe)
    simp only [← h.1, List.length_drop]
    omega
  · rename_i id length hframe
    have hb := Frame.whole_bounds hframe
    have ht : t.buffer = s.buffer.drop length := by
      have hfst : _ = t := congrArg Prod.fst (Option.some.inj h)
      rw [← hfst, buffer_takeUnit]
    rw [ht, List.length_drop]
    simp only [Frame.startLength] at hb
    omega

/-- A session after a run, what the run put out, and the reason the receiver
gave for refusing the last record, if it did. -/
structure Run (ε : Type) where
  session : Session
  log : Log
  refusal : Option ε

/-- Runs steps until the unit in front is incomplete, the limit is reached
or the receiver refuses a record; `log` is what was put out before. -/
def run {ε : Type} (refuse : Record → Option ε) (s : Session) (log : Log) : Run ε :=
  if s.isFinished then ⟨s, log, none⟩
  else
    match _h : s.step? with
    | none => ⟨s, log, none⟩
    | some (t, out) =>
      match out.records.findSome? refuse with
      | some refusal => ⟨t, log.append out, some refusal⟩
      | none => run refuse t (log.append out)
termination_by s.buffer.length
decreasing_by exact step_lt _h

/-- Adds bytes and decodes what is whole. -/
def feed {ε : Type} (refuse : Record → Option ε) (s : Session) (bytes : List UInt8) : Run ε :=
  run refuse { s with buffer := s.buffer ++ bytes } {}

/-- The number of bytes that have to come in before there is another step;
none after the limit, where no step follows. -/
def missing (s : Session) : Option Nat :=
  if s.isFinished then none
  else match Frame.next s.buffer with
    | .incomplete wanted => some (wanted - s.buffer.length)
    | _ => some 0

/-- A step needs more bytes than these. -/
def isBelow (bytes : List UInt8) (missing : Option Nat) : Bool := missing.all (bytes.length < ·)

/-- Feeds pieces after those that `waiting` has the bytes of, the last one
first: they came in while a step needed more than them. -/
def feedFrom {ε : Type} (refuse : Record → Option ε) (s : Session) (missing : Option Nat)
    (waiting : List UInt8) : List (List UInt8) → Log → Run ε
  | [], log => ⟨{ s with buffer := s.buffer ++ waiting.reverse }, log, none⟩
  | piece :: pieces, log =>
    let waiting := piece.reverse ++ waiting
    if isBelow piece missing then
      feedFrom refuse s (missing.map (· - piece.length)) waiting pieces log
    else
      let r := run refuse { s with buffer := s.buffer ++ waiting.reverse } log
      match r.refusal with
      | some _ => r
      | none => feedFrom refuse r.session r.session.missing [] pieces r.log

/-- Feeds pieces one after the other, up to the first refusal. Pieces are put
together until there are enough of them for a step, as that is what the
pieces come to (`feedAll_cons`). -/
def feedAll {ε : Type} (refuse : Record → Option ε) (s : Session) (pieces : List (List UInt8))
    (log : Log) : Run ε :=
  feedFrom refuse s s.missing [] pieces log

/-- Whether the limit is reached has nothing to do with the buffer. -/
@[simp] theorem isFinished_buffer (s : Session) (bytes : List UInt8) :
    ({ s with buffer := bytes } : Session).isFinished = s.isFinished := rfl

/-- Bytes that are waiting are bytes in the buffer. -/
theorem feedFrom_waiting {ε : Type} (refuse : Record → Option ε) (s : Session)
    (missing : Option Nat) (waiting : List UInt8) (pieces : List (List UInt8)) (log : Log) :
    feedFrom refuse s missing waiting pieces log =
      feedFrom refuse { s with buffer := s.buffer ++ waiting.reverse } missing [] pieces log := by
  induction pieces generalizing s missing waiting with
  | nil => simp [feedFrom]
  | cons piece pieces ih =>
    simp only [feedFrom]
    split
    · rw [ih s, ih { s with buffer := s.buffer ++ waiting.reverse }]
      simp
    · simp

/-- With bytes that are too few for a step, nothing happens. -/
theorem run_of_isBelow {ε : Type} (refuse : Record → Option ε) {s : Session} {more : List UInt8}
    (h : isBelow more s.missing) (log : Log) :
    run refuse { s with buffer := s.buffer ++ more } log =
      ⟨{ s with buffer := s.buffer ++ more }, log, none⟩ := by
  unfold run
  split
  · rfl
  · rename_i hfinished
    have hstep : ({ s with buffer := s.buffer ++ more } : Session).step? = none := by
      rw [isFinished_buffer] at hfinished
      rw [missing, if_neg hfinished] at h
      unfold step?
      split at h
      · rename_i wanted hframe
        simp only [isBelow, Option.all_some, decide_eq_true_eq] at h
        rw [Frame.next_append_of_incomplete hframe (by rw [List.length_append]; omega)]
      · simp [isBelow] at h
    split
    · rfl
    · rename_i hsome
      rw [hstep] at hsome
      exact nomatch hsome

/-- Bytes that are too few for a step are so many fewer to come. -/
theorem missing_append {s : Session} {more : List UInt8} (h : isBelow more s.missing) :
    ({ s with buffer := s.buffer ++ more } : Session).missing =
      s.missing.map (· - more.length) := by
  unfold missing at h ⊢
  rw [isFinished_buffer]
  by_cases hfinished : s.isFinished = true
  · rw [if_pos hfinished, if_pos hfinished]
    rfl
  · rw [if_neg hfinished] at h
    rw [if_neg hfinished, if_neg hfinished]
    split at h
    · rename_i wanted hframe
      simp only [isBelow, Option.all_some, decide_eq_true_eq] at h
      rw [Frame.next_append_of_incomplete hframe (by rw [List.length_append]; omega)]
      simp only [List.length_append, Option.map_some, Nat.sub_sub]
    · simp [isBelow] at h

@[simp] theorem feedAll_nil {ε : Type} (refuse : Record → Option ε) (s : Session) (log : Log) :
    s.feedAll refuse [] log = ⟨s, log, none⟩ := by
  simp [feedAll, feedFrom]

/-- **Pieces are fed one after the other.** -/
theorem feedAll_cons {ε : Type} (refuse : Record → Option ε) (s : Session) (piece : List UInt8)
    (pieces : List (List UInt8)) (log : Log) :
    s.feedAll refuse (piece :: pieces) log =
      let r := run refuse { s with buffer := s.buffer ++ piece } log
      match r.refusal with
      | some _ => r
      | none => r.session.feedAll refuse pieces r.log := by
  unfold feedAll
  simp only [feedFrom, List.append_nil, List.reverse_reverse]
  split
  · rename_i h
    rw [feedFrom_waiting, run_of_isBelow refuse h, List.reverse_reverse, missing_append h]
  · rfl

/-- Gives up the bytes that are no whole unit, and tells how many they
were. -/
def flush (s : Session) : Session × Log × Nat :=
  let count := s.buffer.length
  ({ s with
      buffer := []
      stats := { s.stats with skippedBytes := s.stats.skippedBytes + count } },
    { warnings := if count = 0 then #[] else #[.trailingBytes count] }, count)

end Session

end ProgramStream
