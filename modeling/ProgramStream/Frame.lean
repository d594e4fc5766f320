import ProgramStream.Bytes.Word
import ProgramStream.StreamId
/-!
# Frames — where the next unit of a buffer ends

A unit begins with the bytes `00 00 01` and a stream id from `B9` on. Its
length follows from the id: four bytes for a stream end, the stuffing
length in the fourteenth byte for a pack header, and the two bytes after
the id for all others. What stands at the front of a buffer is therefore no
unit, a unit that has not come in whole, or a whole unit. A whole unit has
at least four bytes and all of them are in the buffer (`whole_bounds`). An
incomplete one stays so until as many bytes are there as it is known to want
(`next_append_of_incomplete`).
-/

namespace ProgramStream

/-- What stands at the front of a buffer. -/
inductive Frame where
  /-- no unit starts here -/
  | noUnit
  /-- so many bytes are needed to tell, or to have the unit whole -/
  | incomplete (wanted : Nat)
  /-- a whole unit -/
  | whole (streamId : UInt8) (length : Nat)
  deriving DecidableEq, Repr

namespace Frame

/-- The length of a start code. -/
def startLength : Nat := 4

/-- The length of a pack header without stuffing. -/
def packLength : Nat := 14

/-- The length of a start code and a length field. -/
def prologueLength : Nat := 6

/-- The frame of a unit of a known length. -/
def ofLength (buffer : List UInt8) (streamId : UInt8) (length : Nat) : Frame :=
  if (buffer.take length).length = length then .whole streamId length else .incomplete length

/-- The frame of a unit whose start code stands before `rest`. -/
def ofStart (buffer : List UInt8) (streamId : UInt8) (rest : List UInt8) : Frame :=
  if streamId < StreamId.streamEnd then .noUnit
  else if streamId = StreamId.streamEnd then .whole streamId startLength
  else if streamId = StreamId.pack then
    match rest[packLength - startLength - 1]? with
    | some last => ofLength buffer streamId (packLength + (last &&& 0x07).toNat)
    | none => .incomplete packLength
  else
    match rest with
    | high :: low :: _ =>
      ofLength buffer streamId (prologueLength + ByteOrder.big.value [high, low])
    | _ => .incomplete prologueLength

/-- What stands at the front of a buffer. -/
def next (buffer : List UInt8) : Frame :=
  match buffer with
  | a :: b :: c :: streamId :: rest =>
    if a = 0 ∧ b = 0 ∧ c = 1 then ofStart buffer streamId rest else .noUnit
  | _ => .incomplete startLength

theorem ofLength_eq_whole {buffer : List UInt8} {id id' : UInt8} {n length : Nat}
    (h : ofLength buffer id n = .whole id' length) :
    id' = id ∧ length = n ∧ n ≤ buffer.length := by
  unfold ofLength at h
  split at h
  · rename_i hlen
    simp only [whole.injEq] at h
    rw [List.length_take] at hlen
    exact ⟨h.1.symm, h.2.symm, by omega⟩
  · cases h

theorem ofStart_eq_whole {buffer rest : List UInt8} {id id' : UInt8} {length : Nat}
    (hle : startLength ≤ buffer.length) (h : ofStart buffer id rest = .whole id' length) :
    id' = id ∧ startLength ≤ length ∧ length ≤ buffer.length := by
  unfold ofStart at h
  split at h
  · cases h
  split at h
  · cases h
    exact ⟨rfl, Nat.le_refl _, hle⟩
  split at h
  · split at h
    · obtain ⟨hid, rfl, hlen⟩ := ofLength_eq_whole h
      exact ⟨hid, by simp only [startLength, packLength]; omega, hlen⟩
    · cases h
  · split at h
    · obtain ⟨hid, rfl, hlen⟩ := ofLength_eq_whole h
      exact ⟨hid, by simp only [startLength, prologueLength]; omega, hlen⟩
    · cases h

/-- **A whole unit lies inside the buffer and is no shorter than its start
code.** -/
theorem whole_bounds {buffer : List UInt8} {id : UInt8} {length : Nat}
    (h : next buffer = .whole id length) : startLength ≤ length ∧ length ≤ buffer.length := by
  unfold next at h
  split at h
  · split at h
    · exact (ofStart_eq_whole (by simp [startLength]) h).2
    · cases h
  · cases h

theorem ofLength_eq_incomplete {buffer : List UInt8} {id : UInt8} {n wanted : Nat}
    (h : ofLength buffer id n = .incomplete wanted) : wanted = n := by
  unfold ofLength at h
  split at h
  · cases h
  · exact (incomplete.inj h).symm

theorem ofLength_of_lt {buffer : List UInt8} {id : UInt8} {n : Nat} (h : buffer.length < n) :
    ofLength buffer id n = .incomplete n := by
  unfold ofLength
  rw [if_neg (by rw [List.length_take]; omega)]

theorem ofStart_append_of_incomplete {buffer buffer' rest more : List UInt8} {id : UInt8}
    {wanted : Nat} (h : ofStart buffer id rest = .incomplete wanted)
    (hlen : buffer'.length = startLength + (rest ++ more).length)
    (hlt : buffer'.length < wanted) :
    ofStart buffer' id (rest ++ more) = .incomplete wanted := by
  simp only [startLength] at hlen
  unfold ofStart at h ⊢
  split at h
  · cases h
  split at h
  · cases h
  rw [if_neg ‹_›, if_neg ‹_›]
  split at h
  · rw [if_pos ‹_›]
    split at h
    · rename_i last hlast
      cases ofLength_eq_incomplete h
      rw [List.getElem?_append_left (List.getElem?_eq_some_iff.1 hlast).1, hlast]
      exact ofLength_of_lt hlt
    · cases h
      rw [List.getElem?_eq_none (by simp only [packLength, startLength] at hlt ⊢; omega)]
  · rw [if_neg ‹_›]
    split at h
    · cases ofLength_eq_incomplete h
      exact ofLength_of_lt hlt
    · cases h
      simp only [prologueLength] at hlt
      match hr : rest ++ more with
      | [] | [_] => rfl
      | _ :: _ :: _ =>
        rw [hr] at hlen
        simp only [List.length_cons] at hlen
        omega

/-- **An incomplete unit stays incomplete with fewer bytes than it wants.** -/
theorem next_append_of_incomplete {buffer more : List UInt8} {wanted : Nat}
    (h : next buffer = .incomplete wanted) (hlt : (buffer ++ more).length < wanted) :
    next (buffer ++ more) = .incomplete wanted := by
  unfold next at h
  split at h
  · rename_i a b c id rest
    split at h
    · rename_i hstart
      simp only [next, List.cons_append, if_pos hstart]
      exact ofStart_append_of_incomplete h (by simp [startLength]; omega) hlt
    · cases h
  · cases h
    simp only [startLength] at hlt
    match hr : buffer ++ more with
    | [] | [_] | [_, _] | [_, _, _] => rfl
    | _ :: _ :: _ :: _ :: _ =>
      rw [hr] at hlt
      simp only [List.length_cons] at hlt
      omega

/-- A buffer that is not framed as incomplete has a byte to spare. -/
theorem ne_nil_of_noUnit {buffer : List UInt8} (h : next buffer = .noUnit) : buffer ≠ [] := by
  rintro rfl
  cases h

end Frame

end ProgramStream
