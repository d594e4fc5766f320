import Mathlib.Data.List.Induction
import ProgramStream.Proofs.Session.Dropped
import ProgramStream.Proofs.Session.Numbering
/-!
# Sessions — labels, from all that maps have told

What a session knows of codecs is kept entry by entry, in a table and two
registers. Seen from outside it is a function of all the entries that its
maps have told, in order: the last one of a kind counts (`lastCodec?`), so a
packet's label follows from the entries told before it (`labelOf`). `told`
finds these entries in the moves a session has made, dropped maps included,
and `Reaches.codecs_eq` says that nothing else gets into the table.
-/

namespace ProgramStream

/-! ## Entries, from the first to the last -/

/-- The codec of the last entry of a kind. -/
def lastCodec? (kind : MapEntry → Bool) (entries : List MapEntry) : Option Codec :=
  (entries.filter kind).getLast?.map MapEntry.codec

/-- **The label of a stream**, by all the entries told: the last codec told of
the stream itself, or else the last one of the stream's kind. -/
def labelOf (entries : List MapEntry) (id : UInt8) : Codec :=
  let own := lastCodec? (·.streamId = id) entries
  let alike :=
    if StreamId.isAudio id then lastCodec? (·.codec.isAudio) entries
    else if StreamId.isVideo id then lastCodec? (·.codec.isVideo) entries
    else none
  (own.or alike).getD (.unknown 0)

section LastCodec

variable (kind : MapEntry → Bool) (before after : List MapEntry) (e : MapEntry)

theorem lastCodec?_append :
    lastCodec? kind (before ++ after) = (lastCodec? kind after).or (lastCodec? kind before) := by
  simp only [lastCodec?, List.filter_append, List.getLast?_append, Option.map_or]

theorem lastCodec?_singleton :
    lastCodec? kind [e] = if kind e then some e.codec else none := by
  by_cases h : kind e <;> simp [lastCodec?, h]

/-- An entry of another kind may as well be left out. -/
theorem lastCodec?_append_cons_of_not {kind : MapEntry → Bool} {e : MapEntry}
    (h : kind e = false) :
    lastCodec? kind (before ++ e :: after) = lastCodec? kind (before ++ after) := by
  simp [lastCodec?, h]

end LastCodec

/-! ## The table -/

namespace CodecTable

/-- **The table holds the last codec told of each stream**, and the registers
the last one of each kind. -/
theorem foldl_learn (entries : List MapEntry) :
    let t := entries.foldl learn {}
    (∀ id, t.codecOf id = lastCodec? (·.streamId = id) entries) ∧
      t.lastAudio = lastCodec? (·.codec.isAudio) entries ∧
      t.lastVideo = lastCodec? (·.codec.isVideo) entries := by
  intro t
  induction entries using List.reverseRecOn with
  | nil => exact ⟨fun _ => rfl, rfl, rfl⟩
  | append_singleton entries e ih =>
    obtain ⟨hown, haudio, hvideo⟩ := ih
    have ht : t = (entries.foldl learn {}).learn e := List.foldl_concat ..
    rw [ht]
    refine ⟨fun id => ?_, ?_, ?_⟩
    · rw [codecOf_learn, hown, lastCodec?_append, lastCodec?_singleton]
      by_cases h : id = e.streamId
      · simp [h]
      · simp [h, Ne.symm h]
    · rw [lastCodec?_append, lastCodec?_singleton, ← haudio]
      by_cases h : e.codec.isAudio <;> simp [learn, h]
    · rw [lastCodec?_append, lastCodec?_singleton, ← hvideo]
      by_cases h : e.codec.isVideo <;> simp [learn, h]

/-- **A packet is labelled by all the entries told.** -/
theorem label_foldl_learn (entries : List MapEntry) {id : UInt8} (h : StreamUnit.IsPacketId id) :
    StreamUnit.label (entries.foldl learn {}) id = labelOf entries id := by
  obtain ⟨hown, haudio, hvideo⟩ := foldl_learn entries
  unfold StreamUnit.label resolve? labelOf
  rw [hown, haudio, hvideo]
  -- a packet's id that is not of the one kind is of the other
  by_cases hid : StreamId.isAudio id = true
  · simp only [hid, if_true]
  · have hvid : StreamId.isVideo id = true := (Bool.or_eq_true_iff.1 h).resolve_left hid
    simp only [hid, hvid, Bool.false_eq_true, if_false, if_true]

end CodecTable

/-! ## Entries of no known codec -/

section Unknown

variable {before after : List MapEntry} {e : MapEntry} {type : UInt8}

/-- **An entry of no known codec counts for its own stream only.** -/
theorem labelOf_of_unknown_of_ne (h : e.codec = .unknown type) {id : UInt8}
    (hid : id ≠ e.streamId) :
    labelOf (before ++ e :: after) id = labelOf (before ++ after) id := by
  have hown : decide (e.streamId = id) = false := decide_eq_false (Ne.symm hid)
  have haudio : e.codec.isAudio = false := by rw [h]; rfl
  have hvideo : e.codec.isVideo = false := by rw [h]; rfl
  rw [labelOf, labelOf, lastCodec?_append_cons_of_not _ _ hown,
    lastCodec?_append_cons_of_not _ _ haudio, lastCodec?_append_cons_of_not _ _ hvideo]

/-- **And for that it counts** until there is another entry of the stream. -/
theorem labelOf_of_unknown (h : e.codec = .unknown type)
    (hlast : ∀ e' ∈ after, e'.streamId ≠ e.streamId) :
    labelOf (before ++ e :: after) e.streamId = .unknown type := by
  have hafter : lastCodec? (·.streamId = e.streamId) after = none := by
    have hnone : after.filter (·.streamId = e.streamId) = [] :=
      List.filter_eq_nil_iff.2 fun e' he' => by simpa using hlast e' he'
    rw [lastCodec?, hnone]
    rfl
  have hown :
      lastCodec? (·.streamId = e.streamId) (before ++ e :: after) = some (.unknown type) := by
    rw [lastCodec?_append, ← List.singleton_append, lastCodec?_append, hafter,
      lastCodec?_singleton, if_pos (by simp), h]
    rfl
  rw [labelOf, hown]
  rfl

/-- A type that means nothing takes its own stream's label away, and that of
no other. -/
example :
    let entries : List MapEntry :=
      [⟨0x1B, 0xE0, 0, none, []⟩, ⟨0x24, 0xE1, 0, none, []⟩, ⟨0x0F, 0xE0, 0, none, []⟩]
    labelOf entries 0xE0 = .unknown 0x0F ∧ labelOf entries 0xE5 = .h265 ∧
      labelOf entries 0xC0 = .unknown 0 := by
  decide

end Unknown

/-- A packet that is accepted is labelled by the table known before it. -/
theorem StreamUnit.codec_of_content_judge {codecs : CodecTable} {id : UInt8} {bytes : List UInt8}
    {p : Packet} {codec : Codec}
    (h : (judge codecs id bytes).content.toOption = some (.packet p codec)) :
    codec = label codecs id := by
  cases hverdict : (judge codecs id bytes).content with
  | ok content =>
    rw [hverdict] at h
    cases h
    obtain ⟨codecs', s', hreads, -⟩ := content_judge_eq_ok_iff.1 hverdict
    cases hreads
    rfl
  | error fault =>
    rw [hverdict] at h
    cases h

namespace Session

variable {ε : Type}

namespace Move

/-- The entries that a move tells: those of the map that a unit holds, whether
the unit becomes a record or not. -/
def told : Move → List MapEntry
  | .framed id bytes _ => (StreamMap.ofUnit? id bytes).elim [] StreamMap.entries
  | _ => []

end Move

/-- The entries that moves tell, in order. -/
def told (moves : List Move) : List MapEntry := moves.flatMap Move.told

theorem codecs_takeUnit (s : Session) (id : UInt8) (bytes : List UInt8) (record : Option Record) :
    (s.takeUnit id bytes).1.codecs = (Move.framed id bytes record).told.foldl .learn s.codecs := by
  have hjudge : (s.takeUnit id bytes).1.codecs = (StreamUnit.judge s.codecs id bytes).codecs := by
    cases hverdict : (StreamUnit.judge s.codecs id bytes).content with
    | ok content => rw [takeUnit_of_ok hverdict]; rfl
    | error fault => rw [takeUnit_of_error hverdict]
  rw [hjudge, StreamUnit.codecs_judge, Move.told]
  cases StreamMap.ofUnit? id bytes <;> rfl

/-- An element of a list with one more behind it is one of the list or the one
more. -/
theorem getElem?_append_singleton_cases {α : Type} {xs : List α} {a b : α} {i : Nat}
    (h : (xs ++ [a])[i]? = some b) :
    (xs[i]? = some b ∧ (xs ++ [a]).take i = xs.take i) ∨ (a = b ∧ (xs ++ [a]).take i = xs) := by
  rcases Nat.lt_or_ge i xs.length with hlt | hge
  · rw [List.getElem?_append_left hlt] at h
    exact .inl ⟨h, List.take_append_of_le_length (Nat.le_of_lt hlt)⟩
  · rw [List.getElem?_append_right hge, List.getElem?_singleton] at h
    split at h
    · obtain rfl : i = xs.length := by omega
      exact .inr ⟨Option.some.inj h, List.take_left⟩
    · cases h

namespace Reaches

variable {fed : List UInt8} {moves : List Move} {log : Log} {s : Session}

/-- **A session knows what its maps have told**, and nothing else. -/
theorem codecs_eq (h : Reaches fed moves log s) : s.codecs = (told moves).foldl .learn {} := by
  induction h with
  | fresh => rfl
  | setLimit units h ih => exact ih
  | extend bytes h ih => exact ih
  | @skip fed moves log s h hrun hframe ih =>
    rw [show s.skipByte.1.codecs = s.codecs from rfl, ih]
    simp [told, Move.told]
  | @take fed moves log s id length h hrun hframe ih =>
    rw [codecs_takeUnit _ _ _
        ((s.pastUnit length).takeUnit id (s.buffer.take length)).2.records[0]?,
      show (s.pastUnit length).codecs = s.codecs from rfl, ih]
    simp only [told, List.flatMap_append, List.flatMap_singleton, List.foldl_append]
  | @flush fed moves log s h ih =>
    rw [show s.flush.1.codecs = s.codecs from rfl, ih]
    simp [told, Move.told]

/-- **A packet is labelled by what was told before it.** -/
theorem codec_eq (h : Reaches fed moves log s) {i : Nat} {id : UInt8} {bytes : List UInt8}
    {r : Record} {p : Packet} {codec : Codec}
    (hi : moves[i]? = some (.framed id bytes (some r))) (hr : r.content = .packet p codec) :
    codec = labelOf (told (moves.take i)) p.streamId := by
  induction h with
  | fresh => simp at hi
  | setLimit units h ih => exact ih hi
  | extend bytes h ih => exact ih hi
  | @skip fed moves log s h hrun hframe ih =>
    rcases getElem?_append_singleton_cases hi with ⟨hold, htake⟩ | ⟨hnew, -⟩
    · rw [htake]
      exact ih hold
    · cases hnew
  | @take fed moves log s id' length h hrun hframe ih =>
    obtain ⟨hid, hpacket⟩ :=
      (h.take hrun hframe).isPacketId_of_framed (List.mem_of_getElem? hi) hr
    rcases getElem?_append_singleton_cases hi with ⟨hold, htake⟩ | ⟨hnew, htake⟩
    · rw [htake]
      exact ih hold
    · -- the packet taken now is labelled by the table as it is
      obtain ⟨rfl, -, hrecord⟩ := Move.framed.inj hnew
      have hjudge := content_takeUnit (s.pastUnit length) id' (s.buffer.take length)
      rw [hrecord, Option.map_some, hr] at hjudge
      rw [htake, ← CodecTable.label_foldl_learn _ hpacket, ← h.codecs_eq, hid]
      exact StreamUnit.codec_of_content_judge hjudge
  | @flush fed moves log s h ih =>
    rcases getElem?_append_singleton_cases hi with ⟨hold, htake⟩ | ⟨hnew, -⟩
    · rw [htake]
      exact ih hold
    · cases hnew

end Reaches

/-- **Labels follow what maps have told.** Whatever calls are made, with
whatever receivers: the codec of a stream is the last one told of it, by any
map decoded so far. A packet has the id of its unit and is labelled by the
entries told before that unit. An entry of no known codec counts for its own
stream, until another is told of it, and for no other. -/
theorem labels_performAll (calls : List (Call ε)) :
    let s := (performAll calls).1
    let log := (performAll calls).2
    ∃ moves, Reaches (calls.flatMap Call.bytes) moves log s ∧
      log.records.toList = moves.filterMap Move.record? ∧
      (∀ id, s.codecOf id = lastCodec? (·.streamId = id) (told moves)) ∧
      ∀ i id bytes r p codec, moves[i]? = some (.framed id bytes (some r)) →
        r.content = .packet p codec →
        p.streamId = id ∧ codec = labelOf (told (moves.take i)) id ∧
        ∀ before e after type, told (moves.take i) = before ++ e :: after →
          e.codec = .unknown type →
          (id ≠ e.streamId → codec = labelOf (before ++ after) id) ∧
          (id = e.streamId → (∀ e' ∈ after, e'.streamId ≠ e.streamId) → codec = .unknown type) := by
  intro s log
  obtain ⟨moves, h⟩ := reaches_performAll calls
  refine ⟨moves, h, h.records_eq, fun id => ?_, ?_⟩
  · rw [codecOf, h.codecs_eq]
    exact (CodecTable.foldl_learn (told moves)).1 id
  · intro i id bytes r p codec hi hr
    obtain ⟨hid, -⟩ := h.isPacketId_of_framed (List.mem_of_getElem? hi) hr
    have hcodec := h.codec_eq hi hr
    rw [hid] at hcodec
    refine ⟨hid, hcodec, fun before e after type htold hunknown => ⟨fun hne => ?_, ?_⟩⟩
    · rw [hcodec, htold, labelOf_of_unknown_of_ne hunknown hne]
    · rintro rfl hlast
      rw [hcodec, htold, labelOf_of_unknown hunknown hlast]

end Session

end ProgramStream
