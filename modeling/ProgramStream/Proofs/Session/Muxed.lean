import Mathlib.Algebra.BigOperators.Group.List.Basic
import Mathlib.Data.List.Infix
import ProgramStream.Proofs.Session.Calls
import ProgramStream.Proofs.UnitLayout
/-!
# Sessions — units with garbage between them

Units laid out one after the other, with other bytes before, between and
behind them, are decoded into just those units. What the other bytes must
not hold is the start code of a unit (`IsGarbage`). They may end in the
beginning of one: a unit begins with `00 00 01`, and no start code of a unit
ends in a part of that (`next_of_isGarbage`). `IsAt` is what is known of the
session along the way, `recordsFrom` what it is to put out, and
`feed_muxed` that it does.
-/

namespace ProgramStream

/-- The bytes hold no start code of a unit. -/
def IsGarbage (bytes : List UInt8) : Prop :=
  ∀ id, startBytes id <:+: bytes → id < StreamId.streamEnd

theorem IsGarbage.of_suffix {xs ys : List UInt8} (h : IsGarbage ys) (hsuffix : xs <:+ ys) :
    IsGarbage xs :=
  fun id hcode => h id (hcode.trans hsuffix.isInfix)

namespace Frame

variable {garbage : List UInt8}

/-- Four bytes of garbage start no unit. -/
theorem next_of_isGarbage_of_length (h : IsGarbage garbage) (hlen : startLength ≤ garbage.length)
    (rest : List UInt8) : next (garbage ++ rest) = .noUnit := by
  match garbage, hlen with
  | a :: b :: c :: id :: tail, _ =>
    refine next_eq_noUnit_iff.2 ⟨a, b, c, id, tail ++ rest, rfl, ?_⟩
    rintro ⟨rfl, rfl, rfl, hid⟩
    exact UInt8.not_lt.2 hid (h id ⟨[], tail, rfl⟩)

/-- **Nor does garbage before a unit**, where a start code would have to
reach into that of the unit. -/
theorem next_of_isGarbage (h : IsGarbage garbage) (hne : garbage ≠ []) (id : UInt8)
    (rest : List UInt8) : next (garbage ++ (startBytes id ++ rest)) = .noUnit := by
  match garbage with
  | [] => exact absurd rfl hne
  -- the third byte of a start code is 1, and those that stand there are 0
  | [a] =>
    exact next_eq_noUnit_iff.2
      ⟨a, 0, 0, 1, id :: rest, rfl, fun hcode => absurd hcode.2.2.1 (by decide)⟩
  | [a, b] =>
    exact next_eq_noUnit_iff.2
      ⟨a, b, 0, 0, 1 :: id :: rest, rfl, fun hcode => absurd hcode.2.2.1 (by decide)⟩
  -- here the third byte may be 1, but the 0 after it is no id of a unit
  | [a, b, c] =>
    exact next_eq_noUnit_iff.2
      ⟨a, b, c, 0, 0 :: 1 :: id :: rest, rfl, fun hcode => absurd hcode.2.2.2 (by decide)⟩
  | _ :: _ :: _ :: _ :: _ => exact next_of_isGarbage_of_length h (by simp [startLength]) _

/-- **Garbage is what no unit is framed in**, wherever one looks. -/
theorem isGarbage_iff :
    IsGarbage garbage ↔
      ∀ tail ∈ garbage.tails, startLength ≤ tail.length → next tail = .noUnit := by
  constructor
  · intro h tail htail hlen
    have hsuffix : IsGarbage tail := h.of_suffix ((List.mem_tails _ _).1 htail)
    have hframe := next_of_isGarbage_of_length hsuffix hlen []
    rwa [List.append_nil] at hframe
  · rintro h id ⟨front, back, hbytes⟩
    have htail : startBytes id ++ back ∈ garbage.tails :=
      (List.mem_tails _ _).2 ⟨front, by rw [← List.append_assoc, hbytes]⟩
    obtain ⟨_, _, _, _, _, heq, hnot⟩ :=
      next_eq_noUnit_iff.1 (h _ htail (by simp [startBytes, startLength]))
    cases heq
    exact UInt8.not_le.1 fun hid => hnot ⟨rfl, rfl, rfl, hid⟩

instance (garbage : List UInt8) : Decidable (IsGarbage garbage) :=
  decidable_of_iff _ isGarbage_iff.symm

theorem next_of_length_lt {buffer : List UInt8} (h : buffer.length < startLength) :
    next buffer = .incomplete startLength := by
  match buffer with
  | [] | [_] | [_, _] | [_, _, _] => rfl
  | _ :: _ :: _ :: _ :: _ =>
    simp only [startLength, List.length_cons] at h
    omega

end Frame

namespace UnitLayout

/-- The number of packs begun after a unit. -/
def packsAfter (packs : Nat) : UnitLayout → Nat
  | .pack .. => packs + 1
  | _ => packs

/-- The record of a unit, from the number of units and packs before it and
the codecs known. -/
def record (index packs : Nat) (codecs : CodecTable) (u : UnitLayout) : Record :=
  { index, packIndex := u.packsAfter packs - 1, content := u.content codecs }

/-- The records of units, one after the other. -/
def recordsFrom (index packs : Nat) (codecs : CodecTable) : List UnitLayout → List Record
  | [] => []
  | u :: us => u.record index packs codecs ::
      recordsFrom (index + 1) (u.packsAfter packs) (u.learn codecs) us

/-- The records are numbered one after the other. -/
theorem map_index_recordsFrom (index packs : Nat) (codecs : CodecTable) (us : List UnitLayout) :
    (recordsFrom index packs codecs us).map Record.index = List.range' index us.length := by
  induction us generalizing index packs codecs with
  | nil => rfl
  | cons u us ih =>
    rw [recordsFrom, List.map_cons, ih, List.length_cons, List.range'_succ]
    rfl

end UnitLayout

namespace Session

variable {ε : Type} {s : Session} {log : Log} {index packs skipped : Nat} {codecs : CodecTable}

/-- **What is known of a session along the way**: how many units and packs
it has met, none of the units corrupt, what it knows of codecs, and how many
bytes it has skipped. -/
structure IsAt (index packs : Nat) (codecs : CodecTable) (skipped : Nat) (s : Session) : Prop where
  unitIndex : s.unitIndex = index
  packIndex : s.packIndex = packs - 1
  seenPack : s.seenPack = decide (0 < packs)
  codecs : s.codecs = codecs
  corruptUnits : s.stats.corruptUnits = 0
  skippedBytes : s.stats.skippedBytes = skipped
  limit : s.limit = none

namespace IsAt

theorem isFinished (h : s.IsAt index packs codecs skipped) : s.isFinished = false := by
  rw [Session.isFinished, h.limit]

/-- Skipping a byte counts it and puts out no record. -/
theorem skipByte (h : s.IsAt index packs codecs skipped) :
    s.skipByte.1.IsAt index packs codecs (skipped + 1) :=
  ⟨h.unitIndex, h.packIndex, h.seenPack, h.codecs, h.corruptUnits,
    congrArg (· + 1) h.skippedBytes, h.limit⟩

/-- **Taking a unit that was laid out puts out its record.** -/
theorem takeUnit (h : s.IsAt index packs codecs skipped) {u : UnitLayout} (hu : u.IsValid) :
    (s.takeUnit u.streamId u.bytes).1.IsAt (index + 1) (u.packsAfter packs) (u.learn codecs)
        skipped ∧
      (s.takeUnit u.streamId u.bytes).2.records = #[u.record index packs codecs] := by
  have hjudge := UnitLayout.judge_bytes codecs hu
  rw [← h.codecs] at hjudge ⊢
  rw [takeUnit_of_ok (by rw [hjudge]), hjudge]
  have hcorrupt := (corruptUnits_count s.stats (u.content s.codecs)).trans h.corruptUnits
  have hskipped := (skippedBytes_count s.stats (u.content s.codecs)).trans h.skippedBytes
  have hindex := congrArg (· + 1) h.unitIndex
  cases u with
  | pack header reserved =>
    -- the first pack header opens pack 0, and each one after it the next
    have hpack :
        (if (true && s.seenPack) = true then s.packIndex + 1 else s.packIndex) = packs := by
      rw [h.seenPack, h.packIndex]
      cases packs <;> simp
    refine ⟨⟨hindex, hpack, by simp [accept, UnitLayout.content, UnitLayout.packsAfter], rfl,
      hcorrupt, hskipped, h.limit⟩, ?_⟩
    simp only [accept, UnitLayout.content, UnitLayout.record, UnitLayout.packsAfter, h.unitIndex,
      Nat.add_sub_cancel]
    exact congrArg (fun n => #[(⟨index, n, .pack header⟩ : Record)]) hpack
  | _ =>
    refine ⟨⟨hindex, h.packIndex, ?_, rfl, hcorrupt, hskipped, h.limit⟩, ?_⟩
    · exact (Bool.or_false _).trans h.seenPack
    · simp only [accept, UnitLayout.content, UnitLayout.record, UnitLayout.packsAfter,
        h.unitIndex, h.packIndex, Bool.false_and, Bool.false_eq_true, if_false]

end IsAt

variable {garbage rest : List UInt8}

/-! ## Chains of steps -/

/-- **Bytes are skipped as long as they start no unit.** -/
theorem steps_skip (hframe : ∀ back, back ≠ [] → back <:+ garbage →
      Frame.next (back ++ rest) = .noUnit)
    (hbuffer : s.buffer = garbage ++ rest) (h : s.IsAt index packs codecs skipped) (log : Log) :
    ∃ t log', Steps s log t log' ∧ t.buffer = rest ∧
      t.IsAt index packs codecs (skipped + garbage.length) ∧ log'.records = log.records := by
  induction garbage generalizing s log skipped with
  | nil => exact ⟨s, log, .refl s log, hbuffer, h, rfl⟩
  | cons b garbage ih =>
    have hstep : s.step? = some s.skipByte :=
      step?_of_noUnit (hbuffer ▸ hframe (b :: garbage) (by simp) (List.suffix_refl _))
    have hbuffer' : s.skipByte.1.buffer = garbage ++ rest := by
      rw [Session.skipByte, hbuffer]
      rfl
    obtain ⟨t, log', hsteps, hrest, ht, hrecords⟩ :=
      ih (fun back hne hback => hframe back hne (hback.trans (List.suffix_cons b garbage)))
        hbuffer' h.skipByte (log.append s.skipByte.2)
    refine ⟨t, log', .step h.isFinished hstep hsteps, hrest, ?_, ?_⟩
    · rwa [List.length_cons, Nat.add_comm garbage.length, ← Nat.add_assoc]
    · rw [hrecords, Log.records_append, show s.skipByte.2.records = #[] from rfl,
        Array.append_empty]

/-- **A unit that was laid out is taken in one step.** -/
theorem steps_take {u : UnitLayout} (hu : u.IsValid) (hbuffer : s.buffer = u.bytes ++ rest)
    (h : s.IsAt index packs codecs skipped) (log : Log) :
    ∃ t log', Steps s log t log' ∧ t.buffer = rest ∧
      t.IsAt (index + 1) (u.packsAfter packs) (u.learn codecs) skipped ∧
      log'.records = log.records.push (u.record index packs codecs) := by
  have hframe : Frame.next s.buffer = .whole u.streamId u.length :=
    hbuffer ▸ UnitLayout.next_bytes_append hu rest
  have htake : s.buffer.take u.length = u.bytes := by
    rw [hbuffer, ← UnitLayout.length_bytes hu, List.take_left]
  have hdrop : (s.pastUnit u.length).buffer = rest := by
    rw [pastUnit, hbuffer, ← UnitLayout.length_bytes hu]
    exact List.drop_left
  have hpast : (s.pastUnit u.length).IsAt index packs codecs skipped :=
    ⟨h.unitIndex, h.packIndex, h.seenPack, h.codecs, h.corruptUnits, h.skippedBytes, h.limit⟩
  have hstep := step?_of_whole hframe
  rw [htake] at hstep
  have hbuffer' := (buffer_takeUnit (s.pastUnit u.length) u.streamId u.bytes).trans hdrop
  obtain ⟨ht, hrecords⟩ := hpast.takeUnit hu
  obtain ⟨t, out, hout⟩ : ∃ t out,
      (s.pastUnit u.length).takeUnit u.streamId u.bytes = (t, out) := ⟨_, _, rfl⟩
  rw [hout] at hstep hbuffer' ht hrecords
  refine ⟨t, log.append out, .step h.isFinished hstep (.refl _ _), hbuffer', ht, ?_⟩
  rw [Log.records_append, hrecords]
  rfl

/-- Garbage at the end is skipped until too little is left to tell. -/
theorem steps_garbage (hgarbage : IsGarbage garbage) (hbuffer : s.buffer = garbage)
    (h : s.IsAt index packs codecs skipped) (log : Log) :
    ∃ t log' n, Steps s log t log' ∧ t.IsSettled ∧ t.IsAt index packs codecs (skipped + n) ∧
      n + t.buffer.length = garbage.length ∧ log'.records = log.records := by
  have hsplit := List.take_append_drop (garbage.length - 3) garbage
  -- three bytes stay behind, so garbage that is not all taken is long enough to tell
  have hframe : ∀ back, back ≠ [] → back <:+ garbage.take (garbage.length - 3) →
      Frame.next (back ++ garbage.drop (garbage.length - 3)) = .noUnit := by
    rintro back hne ⟨front, hfront⟩
    have hsuffix : back ++ garbage.drop (garbage.length - 3) <:+ garbage :=
      ⟨front, by rw [← List.append_assoc, hfront, hsplit]⟩
    have hlength := List.length_pos_iff.2 hne
    have htake := congrArg List.length hfront
    rw [List.length_append, List.length_take] at htake
    have hnext := Frame.next_of_isGarbage_of_length (hgarbage.of_suffix hsuffix) (by
      rw [List.length_append, List.length_drop, Frame.startLength]
      omega) []
    rwa [List.append_nil] at hnext
  obtain ⟨t, log', hsteps, ht, hat, hrecords⟩ :=
    steps_skip hframe (hbuffer.trans hsplit.symm) h log
  refine ⟨t, log', _, hsteps, .inr ?_, hat, ?_, hrecords⟩
  · unfold step?
    rw [ht, Frame.next_of_length_lt]
    simp only [List.length_drop, Frame.startLength]
    omega
  · rw [ht, ← List.length_append, hsplit]

/-! ## The stream -/

/-- Units with other bytes before, between and behind them. -/
def muxed (garbage : List UInt8) : List (UnitLayout × List UInt8) → List UInt8
  | [] => garbage
  | (u, garbage') :: items => garbage ++ (u.bytes ++ muxed garbage' items)

/-- A session takes the units of a stream, skips what is between them, and
stops where too little is left to tell. -/
theorem steps_muxed {items : List (UnitLayout × List UInt8)} (hgarbage : IsGarbage garbage)
    (hitems : ∀ item ∈ items, item.1.IsValid ∧ IsGarbage item.2)
    (hbuffer : s.buffer = muxed garbage items) (h : s.IsAt index packs codecs skipped) (log : Log) :
    ∃ t log' packs' codecs' n, Steps s log t log' ∧ t.IsSettled ∧
      t.IsAt (index + items.length) packs' codecs' (skipped + n) ∧
      n + t.buffer.length = garbage.length + (items.map (·.2.length)).sum ∧
      log'.records.toList = log.records.toList ++
        UnitLayout.recordsFrom index packs codecs (items.map (·.1)) := by
  -- after a unit the stream is one with fewer units, so the garbage before it varies
  induction items generalizing s garbage index packs codecs skipped log with
  | nil =>
    obtain ⟨t, log', n, hsteps, hsettled, ht, hn, hrecords⟩ := steps_garbage hgarbage hbuffer h log
    exact ⟨t, log', packs, codecs, n, hsteps, hsettled, ht, hn, by
      rw [hrecords, List.map_nil, UnitLayout.recordsFrom, List.append_nil]⟩
  | cons item items ih =>
    obtain ⟨u, garbage'⟩ := item
    obtain ⟨⟨hu, hgarbage'⟩, hitems'⟩ := List.forall_mem_cons.1 hitems
    obtain ⟨tail, htail, -⟩ := UnitLayout.exists_hasLength hu
    have hframe : ∀ back, back ≠ [] → back <:+ garbage →
        Frame.next (back ++ (u.bytes ++ muxed garbage' items)) = .noUnit := by
      intro back hne hback
      rw [htail, List.append_assoc]
      exact Frame.next_of_isGarbage (hgarbage.of_suffix hback) hne _ _
    obtain ⟨s₁, log₁, hsteps₁, hbuffer₁, h₁, hrecords₁⟩ := steps_skip hframe hbuffer h log
    obtain ⟨s₂, log₂, hsteps₂, hbuffer₂, h₂, hrecords₂⟩ := steps_take hu hbuffer₁ h₁ log₁
    obtain ⟨t, log', packs', codecs', n, hsteps, hsettled, ht, hn, hrecords⟩ :=
      ih hgarbage' hitems' hbuffer₂ h₂ log₂
    refine ⟨t, log', packs', codecs', garbage.length + n,
      hsteps₁.trans (hsteps₂.trans hsteps), hsettled, ?_, ?_, ?_⟩
    · rwa [List.length_cons, Nat.add_comm items.length, ← Nat.add_assoc, ← Nat.add_assoc]
    · rw [List.map_cons, List.sum_cons]
      omega
    · rw [hrecords, hrecords₂, hrecords₁, Array.toList_push, List.map_cons, UnitLayout.recordsFrom,
        List.append_assoc, List.singleton_append]

/-- **Decoding gives back what was laid out, through garbage.** A fresh
session that is fed valid units with garbage before, between and behind
them, and then flushed, has put out the records of these units, in their
order and numbered from zero. It has dropped nothing, and the bytes it has
skipped are as many as the garbage has. -/
theorem feed_muxed {items : List (UnitLayout × List UInt8)} (hgarbage : IsGarbage garbage)
    (hitems : ∀ item ∈ items, item.1.IsValid ∧ IsGarbage item.2) :
    let r := ({} : Session).feed (refuseNone (ε := ε)) (muxed garbage items)
    let t := r.session.flush.1
    let log := r.log.append r.session.flush.2.1
    r.refusal = none ∧
      log.records.toList = UnitLayout.recordsFrom 0 0 {} (items.map (·.1)) ∧
      log.records.toList.map Record.index = List.range items.length ∧
      t.stats.corruptUnits = 0 ∧
      t.stats.skippedBytes = garbage.length + (items.map (·.2.length)).sum ∧ t.buffer = [] := by
  have hstart : (({} : Session).extend (muxed garbage items)).IsAt 0 0 {} 0 :=
    ⟨rfl, rfl, rfl, rfl, rfl, rfl, rfl⟩
  obtain ⟨t, log, packs, codecs, n, hsteps, hsettled, ht, hn, hrecords⟩ :=
    steps_muxed hgarbage hitems rfl hstart {}
  -- the run may be started where the chain of steps ends, and nothing follows there
  have hrun : ({} : Session).feed (refuseNone (ε := ε)) (muxed garbage items) = ⟨t, log, none⟩ :=
    (run_of_steps hsteps).trans (run_of_isSettled _ hsettled _)
  have hout : (log.append t.flush.2.1).records.toList =
      UnitLayout.recordsFrom 0 0 {} (items.map (·.1)) := by
    rw [Log.records_append, show t.flush.2.1.records = #[] from rfl, Array.append_empty, hrecords]
    rfl
  have hindex : (log.append t.flush.2.1).records.toList.map Record.index =
      List.range items.length := by
    rw [hout, UnitLayout.map_index_recordsFrom, List.length_map, List.range_eq_range']
  rw [hrun]
  refine ⟨rfl, hout, hindex, ht.corruptUnits, ?_, rfl⟩
  change t.stats.skippedBytes + t.buffer.length = _
  rw [ht.skippedBytes, Nat.zero_add, hn]

/-- A unit of each kind: a pack header, a system header, a map and a packet
of the stream the map tells about, a unit that is passed over, and a stream
end. -/
def sampleUnits : List UnitLayout :=
  [.pack ⟨⟨90000, 7⟩, 5, 1, [0xFF]⟩ 31,
    .system ⟨9, 1, 0, false, false, true, true, 1, false, [⟨0xE0, true, 46⟩]⟩ 127,
    .map ⟨14, true, false, 0, 0, [], 4, [⟨0x1B, 0xE0, 0, none, []⟩], 0x16D2C5F5⟩ 0 127,
    .packet ⟨0xE0, 6,
        ⟨0, false, true, false, false, ⟨0, false, false, true, false, false, false⟩, 2⟩,
        ⟨none, none, none, none, some (.freeze 2), none, none, none⟩, [0x65]⟩
      ⟨0, 5, 0, [0xFF]⟩,
    .other 0xF5 [1, 2, 3],
    .streamEnd]

/-- The sample comes back whole through bytes that come close to a start
code, and these are counted. -/
theorem feed_sampleUnits :
    let garbage : List UInt8 := [0x00, 0x00, 0x01, 0xB3, 0x00, 0x00, 0x01]
    let items := sampleUnits.map fun u => (u, garbage)
    let r := ({} : Session).feed (refuseNone (ε := Empty)) (muxed garbage items)
    let t := r.session.flush.1
    (r.log.append r.session.flush.2.1).records.toList =
        UnitLayout.recordsFrom 0 0 {} sampleUnits ∧
      t.stats.corruptUnits = 0 ∧ t.stats.skippedBytes = 49 ∧ t.buffer = [] := by
  intro garbage items
  have hgarbage : IsGarbage garbage := by decide +kernel
  have hitems : ∀ item ∈ items, item.1.IsValid ∧ IsGarbage item.2 := by decide +kernel
  obtain ⟨-, hrecords, -, hcorrupt, hskipped, hbuffer⟩ := feed_muxed (ε := Empty) hgarbage hitems
  exact ⟨hrecords, hcorrupt, hskipped, hbuffer⟩

end Session

end ProgramStream
