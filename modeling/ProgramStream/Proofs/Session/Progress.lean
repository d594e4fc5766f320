import ProgramStream.Bytes.Buffer
import ProgramStream.Proofs.Session.Refusal
import ProgramStream.Proofs.Words
/-!
# Sessions — a call always gets somewhere

Framing looks into the buffer and a step reads from the buffer, and each look
and each read may fail (`Frame.read`, `round`). `rounds` is a call in these
terms: it may fail for the bytes underneath, and it may not come to its end in
the rounds it has. Neither happens, as a look is made only where bytes stand
(`Frame.read_eq`) and a round takes bytes off the buffer (`rounds_eq_run`).

What is left when nothing was refused is no more than the beginning of a unit
(`Frame.isFragment_of_incomplete`), so it is shorter than the longest unit, and
a call with nothing new leaves it as it is.
-/

namespace ProgramStream

/-- A read of bytes that are there has them. -/
theorem ByteBuffer.take_of_le {buffer : List UInt8} {n : Nat} (h : n ≤ buffer.length) :
    (ByteBuffer.mk buffer).take n = .ok (buffer.take n, ⟨buffer.drop n⟩) :=
  ByteBuffer.take_eq_ok_iff.2 ⟨(List.take_append_drop n buffer).symm, List.length_take_of_le h⟩

namespace Frame

variable {buffer rest more : List UInt8} {id : UInt8} {length wanted : Nat}

/-! ## Framing by looks that may fail -/

/-- A unit of a known length, if the buffer holds all of it. -/
def held (b : ByteBuffer) (streamId : UInt8) (length : Nat) : Frame :=
  if b.size < length then .incomplete length else .whole streamId length

/-- The frame of a pack header, whose stuffing is looked at. -/
def readPack (b : ByteBuffer) : Except ByteFault Frame :=
  if b.size < packLength then
    return .incomplete packLength
  else do
    let last ← b.byteAt (packLength - 1)
    return held b StreamId.pack (packLength + (last &&& 0x07).toNat)

/-- The frame of a unit with a length field, which is looked at. -/
def readField (b : ByteBuffer) (streamId : UInt8) : Except ByteFault Frame :=
  if b.size < prologueLength then
    return .incomplete prologueLength
  else do
    let front ← b.peek prologueLength
    let length ← (ByteBuffer.mk (front.drop startLength)).peekWord .big 2
    return held b streamId (prologueLength + length)

/-- The frame of a unit, by its id. -/
def readUnit (b : ByteBuffer) (streamId : UInt8) : Except ByteFault Frame :=
  if streamId = StreamId.streamEnd then return held b streamId startLength
  else if streamId = StreamId.pack then readPack b
  else if StreamId.streamEnd < streamId then readField b streamId
  else return .noUnit

/-- What stands at the front of a buffer, told by looks into it. A look past
the end is a fault. -/
def read (b : ByteBuffer) : Except ByteFault Frame :=
  if b.size < startLength then
    return .incomplete startLength
  else do
    let code ← b.peek startLength
    if code.take 3 = [0, 0, 1] then
      readUnit b (← (ByteBuffer.mk code).byteAt 3)
    else
      return .noUnit

theorem held_eq (buffer : List UInt8) (id : UInt8) (length : Nat) :
    held ⟨buffer⟩ id length = ofLength buffer id length := by
  by_cases hlt : buffer.length < length
  · rw [ofLength_of_lt hlt]
    exact if_pos hlt
  · rw [ofLength_of_le (Nat.le_of_not_lt hlt)]
    exact if_neg hlt

/-- A look at a byte that is there finds it. -/
theorem exists_byteAt {b : ByteBuffer} {i : Nat} (h : i < b.size) :
    ∃ byte, b.content[i]? = some byte ∧ b.byteAt i = .ok byte := by
  have hbyte : b.content[i]? = some b.content[i] := List.getElem?_eq_getElem h
  exact ⟨_, hbyte, by rw [ByteBuffer.byteAt, hbyte]⟩

/-- The frame of a pack header is told by its last byte. -/
theorem ofStart_pack (buffer rest : List UInt8) :
    ofStart buffer StreamId.pack rest =
      (rest[packLength - startLength - 1]?).elim (.incomplete packLength) fun last =>
        ofLength buffer StreamId.pack (packLength + (last &&& 0x07).toNat) := by
  unfold ofStart
  rw [if_neg (by decide), if_neg (by decide), if_pos rfl]
  cases rest[packLength - startLength - 1]? with
  | none => rfl
  | some last => rfl

theorem readPack_eq (a b c : UInt8) (rest : List UInt8) :
    readPack ⟨a :: b :: c :: StreamId.pack :: rest⟩ =
      .ok (ofStart (a :: b :: c :: StreamId.pack :: rest) StreamId.pack rest) := by
  rw [ofStart_pack, readPack]
  by_cases hshort : (ByteBuffer.mk (a :: b :: c :: StreamId.pack :: rest)).size < packLength
  · have hnone : rest[packLength - startLength - 1]? = none := by
      refine List.getElem?_eq_none ?_
      simp only [ByteBuffer.size, List.length_cons, packLength, startLength] at hshort ⊢
      omega
    rw [if_pos hshort, hnone]
    rfl
  · have hlast : packLength - 1 < (ByteBuffer.mk (a :: b :: c :: StreamId.pack :: rest)).size := by
      have hpos : 0 < packLength := by decide
      omega
    obtain ⟨last, hget, hlook⟩ := exists_byteAt hlast
    have hrest : rest[packLength - startLength - 1]? = some last := hget
    rw [if_neg hshort, hlook, hrest]
    exact congrArg Except.ok (held_eq _ _ _)

theorem readField_eq {id : UInt8} (hgt : StreamId.streamEnd < id) (hpack : id ≠ StreamId.pack)
    (a b c : UInt8) (rest : List UInt8) :
    readField ⟨a :: b :: c :: id :: rest⟩ id =
      .ok (ofStart (a :: b :: c :: id :: rest) id rest) := by
  match rest with
  | [] | [_] =>
    unfold ofStart
    rw [if_neg (UInt8.lt_asymm hgt), if_neg (UInt8.ne_of_lt hgt).symm, if_neg hpack]
    rfl
  | high :: low :: rest =>
    have hlong : ¬ (ByteBuffer.mk (a :: b :: c :: id :: high :: low :: rest)).size <
        prologueLength := by
      simp only [ByteBuffer.size, List.length_cons, prologueLength]
      omega
    rw [readField, if_neg hlong, ofStart, if_neg (UInt8.lt_asymm hgt),
      if_neg (UInt8.ne_of_lt hgt).symm, if_neg hpack]
    exact congrArg Except.ok (held_eq _ _ _)

/-- Looks at the length of a unit find what they ask for. -/
theorem readUnit_eq (a b c id : UInt8) (rest : List UInt8) :
    readUnit ⟨a :: b :: c :: id :: rest⟩ id =
      .ok (ofStart (a :: b :: c :: id :: rest) id rest) := by
  unfold readUnit
  by_cases hend : id = StreamId.streamEnd
  · subst hend
    rfl
  rw [if_neg hend]
  by_cases hpack : id = StreamId.pack
  · subst hpack
    rw [if_pos rfl, readPack_eq]
  rw [if_neg hpack]
  by_cases hgt : StreamId.streamEnd < id
  · rw [if_pos hgt, readField_eq hgt hpack]
  · have hlt : id < StreamId.streamEnd := UInt8.lt_of_le_of_ne (UInt8.not_lt.1 hgt) hend
    rw [if_neg hgt, ofStart_eq_noUnit_iff.2 hlt]
    rfl

/-- **No look fails**, and they tell what stands at the front. -/
theorem read_eq (buffer : List UInt8) : read ⟨buffer⟩ = .ok (next buffer) := by
  match buffer with
  | [] | [_] | [_, _] | [_, _, _] => rfl
  | a :: b :: c :: id :: rest =>
    have hlong : ¬ (ByteBuffer.mk (a :: b :: c :: id :: rest)).size < startLength := by
      simp only [ByteBuffer.size, List.length_cons, startLength]
      omega
    rw [read, if_neg hlong, next_cons]
    -- the start code is there, so both looks at it are
    change (if [a, b, c] = [0, 0, 1] then readUnit ⟨a :: b :: c :: id :: rest⟩ id
      else .ok .noUnit) = _
    by_cases hstart : a = 0 ∧ b = 0 ∧ c = 1
    · rw [if_pos hstart, if_pos (by simp [hstart]), readUnit_eq]
    · rw [if_neg hstart, if_neg (by simpa using hstart)]

/-! ## What an incomplete unit is -/

/-- The length of the longest unit, a length field with all bits set. -/
def maxLength : Nat := prologueLength + 0xFFFF

theorem maxLength_eq : maxLength = 65541 := rfl

theorem HasLength.le_maxLength (h : HasLength id rest length) : length ≤ maxLength := by
  rw [maxLength_eq]
  cases h with
  | streamEnd =>
    simp only [startLength]
    omega
  | @pack _ last _ =>
    have hstuffing : (last &&& 0x07).toNat ≤ 0x07 := by
      rw [UInt8.toNat_and]
      exact Nat.and_le_right
    simp only [packLength]
    omega
  | @field _ high low _ _ _ =>
    have hfield := ByteOrder.value_big_lt [high, low]
    simp only [List.length_cons, List.length_nil] at hfield
    simp only [prologueLength]
    omega

/-- Ten bytes after its start code tell the length of every unit. -/
theorem exists_hasLength (hid : StreamId.streamEnd ≤ id)
    (hlong : packLength ≤ startLength + rest.length) : ∃ length, HasLength id rest length := by
  by_cases hend : id = StreamId.streamEnd
  · subst hend
    exact ⟨_, .streamEnd rest⟩
  by_cases hpack : id = StreamId.pack
  · subst hpack
    have hlast : packLength - startLength - 1 < rest.length := by
      simp only [packLength, startLength] at hlong ⊢
      omega
    exact ⟨_, .pack (List.getElem?_eq_getElem hlast)⟩
  · have hgt : StreamId.streamEnd < id := UInt8.lt_of_le_of_ne hid (Ne.symm hend)
    rcases rest with _ | ⟨high, _ | ⟨low, tail⟩⟩
    · simp [packLength, startLength] at hlong
    · simp [packLength, startLength] at hlong
    · exact ⟨_, .field tail hgt hpack⟩

/-- **The beginning of a unit**: fewer bytes than a start code has, or bytes
that more bytes make a unit of. -/
def IsFragment (buffer : List UInt8) : Prop :=
  buffer.length < startLength ∨
    ∃ more id, more ≠ [] ∧ next (buffer ++ more) = .whole id (buffer ++ more).length

/-- A start code that is not framed yet is the beginning of a unit. -/
theorem exists_append_of_incomplete
    (h : next (0 :: 0 :: 1 :: id :: rest) = .incomplete wanted) (hid : StreamId.streamEnd ≤ id) :
    ∃ more, more ≠ [] ∧ next (0 :: 0 :: 1 :: id :: rest ++ more) =
      .whole id (0 :: 0 :: 1 :: id :: rest ++ more).length := by
  -- zeros enough for every unit, of which the unit's length tells how many belong to it
  generalize hzeros : List.replicate maxLength (0 : UInt8) = zeros
  have hcount : zeros.length = maxLength := by
    rw [← hzeros, List.length_replicate]
  obtain ⟨length, hlength⟩ : ∃ length, HasLength id (rest ++ zeros) length := by
    refine exists_hasLength hid ?_
    rw [List.length_append, hcount, maxLength_eq]
    simp only [packLength, startLength]
    omega
  have hmax : length ≤ maxLength := hlength.le_maxLength
  have hwhole : next (0 :: 0 :: 1 :: id :: rest ++ zeros) = .whole id length := by
    refine next_eq_whole_iff.2 ⟨rest ++ zeros, rfl, hlength, ?_⟩
    rw [List.length_append, hcount]
    omega
  have hlt : (0 :: 0 :: 1 :: id :: rest).length < length := by
    refine Nat.lt_of_not_le fun hle => ?_
    rw [next_of_append_whole hwhole hle] at h
    cases h
  have htake : (0 :: 0 :: 1 :: id :: rest ++ zeros).take length =
      0 :: 0 :: 1 :: id :: rest ++ zeros.take (length - (0 :: 0 :: 1 :: id :: rest).length) := by
    rw [List.take_append, List.take_of_length_le hlt.le]
  have hunit := next_take_eq_whole hwhole
  have hlen := length_take_of_whole hwhole
  rw [htake] at hunit hlen
  refine ⟨_, fun hnil => ?_, hunit⟩
  rw [hnil, List.append_nil] at hlen
  omega

/-- **A buffer that is not framed yet is the beginning of a unit.** -/
theorem isFragment_of_incomplete (h : next buffer = .incomplete wanted) : IsFragment buffer := by
  match buffer with
  | [] | [_] | [_, _] | [_, _, _] => exact .inl (by simp [startLength])
  | a :: b :: c :: id :: rest =>
    have hstart : a = 0 ∧ b = 0 ∧ c = 1 := by
      by_contra hnot
      rw [next_cons, if_neg hnot] at h
      cases h
    obtain ⟨rfl, rfl, rfl⟩ := hstart
    have hid : StreamId.streamEnd ≤ id := by
      rw [next_cons, if_pos ⟨rfl, rfl, rfl⟩] at h
      refine UInt8.not_lt.1 fun hlt => ?_
      rw [ofStart_eq_noUnit_iff.2 hlt] at h
      cases h
    obtain ⟨more, hmore, hwhole⟩ := exists_append_of_incomplete h hid
    exact .inr ⟨more, id, hmore, hwhole⟩

/-- It is shorter than the longest unit. -/
theorem IsFragment.length_lt (h : IsFragment buffer) : buffer.length < maxLength := by
  rcases h with hshort | ⟨more, id, hmore, hwhole⟩
  · rw [maxLength_eq]
    simp only [startLength] at hshort
    omega
  · obtain ⟨rest, -, hlength, -⟩ := next_eq_whole_iff.1 hwhole
    have hmax := hlength.le_maxLength
    have hpos := List.length_pos_iff.2 hmore
    rw [List.length_append] at hmax
    omega

end Frame

namespace Session

variable {ε : Type} {s : Session}

/-! ## A call by reads that may fail -/

/-- What a round of a call does about what stands in front. What it takes off
the buffer it reads. -/
def act (s : Session) : Frame → Except ByteFault (Option (Session × Log))
  | .incomplete _ => return none
  | .noUnit => do
    let (_, left) ← (ByteBuffer.mk s.buffer).take 1
    let (t, out) := s.skipByte
    return some ({ t with buffer := left.content }, out)
  | .whole streamId length => do
    let (unit, left) ← (ByteBuffer.mk s.buffer).take length
    return some ({ s with buffer := left.content, inSync := true }.takeUnit streamId unit)

/-- One round of a call; none if the unit in front is incomplete. -/
def round (s : Session) : Except ByteFault (Option (Session × Log)) := do
  s.act (← Frame.read ⟨s.buffer⟩)

/-- A call of at most so many rounds: none if it is not over by then, and the
fault if a look or a read failed. -/
def rounds (refuse : Record → Option ε) : Nat → Session → Log → Option (Except ByteFault (Run ε))
  | 0, _, _ => none
  | fuel + 1, s, log =>
    if s.isFinished then some (.ok ⟨s, log, none⟩)
    else match s.round with
      | .error fault => some (.error fault)
      | .ok none => some (.ok ⟨s, log, none⟩)
      | .ok (some (t, out)) =>
        match out.records.findSome? refuse with
        | some refusal => some (.ok ⟨t, log.append out, some refusal⟩)
        | none => rounds refuse fuel t (log.append out)

/-- **No read fails**, and a round is a step. -/
theorem round_eq (s : Session) : s.round = .ok s.step? := by
  have hround : s.round = s.act (Frame.next s.buffer) := by
    rw [round, Frame.read_eq]
    rfl
  rw [hround]
  cases hframe : Frame.next s.buffer with
  | incomplete wanted =>
    rw [step?, hframe]
    rfl
  | noUnit =>
    have hone : 1 ≤ s.buffer.length := List.length_pos_iff.2 (Frame.ne_nil_of_noUnit hframe)
    rw [step?_of_noUnit hframe, act, ByteBuffer.take_of_le hone]
    rfl
  | whole id length =>
    have hle : length ≤ s.buffer.length := (Frame.whole_bounds hframe).2
    rw [step?_of_whole hframe, act, ByteBuffer.take_of_le hle]
    rfl

/-- **A call comes to its end** in one round more than the buffer has bytes. -/
theorem rounds_eq_run (refuse : Record → Option ε) {fuel : Nat} (h : s.buffer.length < fuel)
    (log : Log) : rounds refuse fuel s log = some (.ok (run refuse s log)) := by
  -- a round takes bytes off the buffer, so there are rounds enough for what is left
  induction fuel generalizing s log with
  | zero => omega
  | succ fuel ih =>
    rw [rounds, round_eq]
    by_cases hrun : s.isFinished = true
    · rw [if_pos hrun, run_of_isSettled refuse (.inl hrun)]
    rw [if_neg hrun]
    cases hstep : s.step? with
    | none => rw [run_of_isSettled refuse (.inr hstep)]
    | some r =>
      obtain ⟨t, out⟩ := r
      have hlt : t.buffer.length < s.buffer.length := step_lt hstep
      rw [run_of_some refuse (Bool.eq_false_iff.2 hrun) hstep]
      cases hrefusal : out.records.findSome? refuse with
      | some refusal => simp only [hrefusal]
      | none =>
        simp only [hrefusal]
        exact ih (by omega) _

/-! ## What a call leaves -/

/-- A session that waits for bytes holds the beginning of a unit. -/
theorem IsSettled.isFragment (h : s.IsSettled) (hrun : s.isFinished = false) :
    Frame.IsFragment s.buffer := by
  have hnone : s.step? = none := h.resolve_left (by simp [hrun])
  cases hframe : Frame.next s.buffer with
  | incomplete wanted => exact Frame.isFragment_of_incomplete hframe
  | noUnit =>
    rw [step?_of_noUnit hframe] at hnone
    cases hnone
  | whole id length =>
    rw [step?_of_whole hframe] at hnone
    cases hnone

/-- **Feeding always gets somewhere.** Whatever a session holds and whatever
comes in, a call is over in as many rounds as there are bytes and one more,
and no look at the buffer and no read from it fails. What it returns is what the
receiver says of the last record of the call, and of the records before it the
receiver refused none. When nothing is refused and the limit is not reached, the
beginning of a unit is left, shorter than the longest unit, and a call with
nothing new changes nothing. -/
theorem progress_feed (refuse : Record → Option ε) (s : Session) (bytes : List UInt8) :
    let r := s.feed refuse bytes
    (∀ fuel, s.buffer.length + bytes.length < fuel →
      rounds refuse fuel (s.extend bytes) {} = some (.ok r)) ∧
    (r.refusal = r.log.records.toList.getLast?.bind refuse ∧
      ∀ record ∈ r.log.records.toList.dropLast, refuse record = none) ∧
    (r.refusal = none → r.session.isFinished = false →
      Frame.IsFragment r.session.buffer ∧ r.session.buffer.length ≤ 65540 ∧
        ∀ refuse' : Record → Option ε, r.session.feed refuse' [] = ⟨r.session, {}, none⟩) := by
  intro r
  refine ⟨fun fuel hfuel => ?_, ?_, fun hrefusal hrun => ?_⟩
  · have hlt : (s.extend bytes).buffer.length < fuel := by
      rw [buffer_extend, List.length_append]
      exact hfuel
    exact rounds_eq_run refuse hlt {}
  · have hdelivers := delivers_feed refuse s bytes
    exact ⟨hdelivers.refusal_eq, hdelivers.accepted_of_mem⟩
  · have hsettled : r.session.IsSettled := isSettled_of_refusal hrefusal
    have hfragment := hsettled.isFragment hrun
    have hlt := hfragment.length_lt
    rw [Frame.maxLength_eq] at hlt
    refine ⟨hfragment, by omega, fun refuse' => ?_⟩
    calc r.session.feed refuse' [] = run refuse' (r.session.extend []) {} := rfl
      _ = ⟨r.session, {}, none⟩ := by rw [extend_nil, run_of_isSettled refuse' hsettled]

/-- After a byte that starts no unit and a stream end, the beginning of a packet
waits for the rest. -/
theorem progress_packetStart :
    let start : List UInt8 := [0x00, 0x00, 0x01, 0xE0, 0x00, 0x04, 0x80]
    let bytes : List UInt8 := [0xFF, 0x00, 0x00, 0x01, 0xB9] ++ start
    let r := ({} : Session).feed (refuseNone (ε := Empty)) bytes
    rounds refuseNone 13 (({} : Session).extend bytes) {} = some (.ok r) ∧
      r.refusal = none ∧ r.session.isFinished = false ∧ r.session.buffer = start ∧
      Frame.IsFragment start ∧
      r.session.feed (refuseNone (ε := Empty)) [] = ⟨r.session, {}, none⟩ := by
  intro start bytes r
  have hleft : r.refusal = none ∧ r.session.isFinished = false ∧ r.session.buffer = start := by
    decide +kernel
  obtain ⟨hrefusal, hrun, hbuffer⟩ := hleft
  obtain ⟨hrounds, -, hwaits⟩ := progress_feed (refuseNone (ε := Empty)) {} bytes
  obtain ⟨hfragment, -, hnothing⟩ := hwaits hrefusal hrun
  exact ⟨hrounds 13 (by decide), hrefusal, hrun, hbuffer, hbuffer ▸ hfragment, hnothing refuseNone⟩

end Session

end ProgramStream
