import ProgramStream.Frame
/-!
# Frames — what a decision says, and that more bytes leave it

Each of the two final decisions is an equivalence: `next_eq_noUnit_iff`
says which four bytes start no unit, and `next_eq_whole_iff` says where a
unit ends, for each of the three ways its length is found (`HasLength`).
Both conditions speak of bytes that are there, so a final decision stays as
it is when bytes are added (`next_append_of_noUnit`,
`next_append_of_whole`). The units of a byte string (`units`) are what is
framed from its first byte on, one after the other.
-/

namespace ProgramStream

namespace Frame

variable {buffer more rest : List UInt8} {id id' : UInt8} {n length : Nat}

/-! ## The length of a unit -/

/-- The length of a unit, from its id and the bytes after its start code:
fixed for a stream end, by the stuffing for a pack header, and by the length
field for all others. -/
inductive HasLength : UInt8 → List UInt8 → Nat → Prop
  | streamEnd (rest : List UInt8) : HasLength StreamId.streamEnd rest startLength
  | pack {rest : List UInt8} {last : UInt8}
      (hlast : rest[packLength - startLength - 1]? = some last) :
      HasLength StreamId.pack rest (packLength + (last &&& 0x07).toNat)
  | field {id high low : UInt8} (rest : List UInt8) (hid : StreamId.streamEnd < id)
      (hpack : id ≠ StreamId.pack) :
      HasLength id (high :: low :: rest) (prologueLength + ByteOrder.big.value [high, low])

namespace HasLength

theorem streamEnd_le (h : HasLength id rest length) : StreamId.streamEnd ≤ id := by
  cases h with
  | streamEnd => exact UInt8.le_refl _
  | pack => decide
  | field _ hid => exact UInt8.le_of_lt hid

/-- The bytes that tell a unit's length tell it whatever comes after them. -/
theorem append (h : HasLength id rest length) : HasLength id (rest ++ more) length := by
  cases h with
  | streamEnd => exact .streamEnd _
  | pack hlast =>
    refine .pack ?_
    rw [List.getElem?_append_left (List.getElem?_eq_some_iff.1 hlast).1, hlast]
  | field tail hid hpack => exact .field _ hid hpack

/-- And they lie within that length. -/
theorem take (h : HasLength id rest length) (hle : length ≤ startLength + n) :
    HasLength id (rest.take n) length := by
  cases h with
  | streamEnd => exact .streamEnd _
  | pack hlast =>
    refine .pack ?_
    rw [List.getElem?_take_of_lt (by simp only [packLength, startLength] at hle ⊢; omega), hlast]
  | field tail hid hpack =>
    -- the length field is counted in the length, so its two bytes are among those taken
    obtain ⟨k, rfl⟩ : ∃ k, n = k + 2 :=
      ⟨n - 2, by simp only [prologueLength, startLength] at hle; omega⟩
    exact .field _ hid hpack

end HasLength

/-! ## The two final decisions -/

theorem next_cons (a b c id : UInt8) (rest : List UInt8) :
    next (a :: b :: c :: id :: rest) =
      if a = 0 ∧ b = 0 ∧ c = 1 then ofStart (a :: b :: c :: id :: rest) id rest else .noUnit :=
  rfl

theorem ofLength_of_le (h : n ≤ buffer.length) : ofLength buffer id n = .whole id n := by
  unfold ofLength
  rw [if_pos (by rw [List.length_take]; omega)]

theorem ofLength_ne_noUnit : ofLength buffer id n ≠ .noUnit := by
  unfold ofLength
  split <;> simp

/-- Only a start code below the system ids starts no unit. -/
theorem ofStart_eq_noUnit_iff : ofStart buffer id rest = .noUnit ↔ id < StreamId.streamEnd := by
  constructor
  · intro h
    refine UInt8.not_le.1 fun hle => ?_
    unfold ofStart at h
    rw [if_neg (UInt8.not_lt.2 hle)] at h
    split at h
    · cases h
    split at h
    · split at h
      · exact ofLength_ne_noUnit h
      · cases h
    · split at h
      · exact ofLength_ne_noUnit h
      · cases h
  · intro h
    unfold ofStart
    rw [if_pos h]

theorem hasLength_of_ofStart (h : ofStart buffer id rest = .whole id' length) :
    id = id' ∧ HasLength id rest length := by
  unfold ofStart at h
  split at h
  · cases h
  rename_i hle
  split at h
  · rename_i hend
    cases h
    exact ⟨rfl, hend ▸ .streamEnd rest⟩
  rename_i hend
  split at h
  · rename_i hpack
    split at h
    · rename_i last hlast
      obtain ⟨rfl, rfl, -⟩ := ofLength_eq_whole h
      exact ⟨rfl, hpack ▸ .pack hlast⟩
    · cases h
  · rename_i hpack
    split at h
    · obtain ⟨rfl, rfl, -⟩ := ofLength_eq_whole h
      exact ⟨rfl, .field _ (UInt8.lt_of_le_of_ne (UInt8.not_lt.1 hle) (Ne.symm hend)) hpack⟩
    · cases h

theorem ofStart_of_hasLength (h : HasLength id rest length) (hle : length ≤ buffer.length) :
    ofStart buffer id rest = .whole id length := by
  unfold ofStart
  rw [if_neg (UInt8.not_lt.2 h.streamEnd_le)]
  cases h with
  | streamEnd => rw [if_pos rfl]
  | pack hlast =>
    rw [if_neg (by decide), if_pos rfl]
    simp only [hlast]
    exact ofLength_of_le hle
  | field tail hid hpack =>
    rw [if_neg (UInt8.ne_of_lt hid).symm, if_neg hpack]
    exact ofLength_of_le hle

/-- **Bytes that start no unit** are no start code, or one of another kind. -/
theorem next_eq_noUnit_iff :
    next buffer = .noUnit ↔
      ∃ a b c id rest, buffer = a :: b :: c :: id :: rest ∧
        ¬(a = 0 ∧ b = 0 ∧ c = 1 ∧ StreamId.streamEnd ≤ id) := by
  constructor
  · intro h
    unfold next at h
    split at h
    · rename_i a b c id rest
      refine ⟨a, b, c, id, rest, rfl, ?_⟩
      rintro ⟨ha, hb, hc, hid⟩
      rw [if_pos ⟨ha, hb, hc⟩, ofStart_eq_noUnit_iff] at h
      exact UInt8.not_lt.2 hid h
    · cases h
  · rintro ⟨a, b, c, id, rest, rfl, hnot⟩
    rw [next_cons]
    split
    · rename_i hcode
      refine ofStart_eq_noUnit_iff.2 (UInt8.not_le.1 fun hid => hnot ?_)
      exact ⟨hcode.1, hcode.2.1, hcode.2.2, hid⟩
    · rfl

/-- **A whole unit** is a start code, bytes that tell its length, and so many
bytes in all. -/
theorem next_eq_whole_iff :
    next buffer = .whole id length ↔
      ∃ rest, buffer = 0 :: 0 :: 1 :: id :: rest ∧ HasLength id rest length ∧
        length ≤ buffer.length := by
  constructor
  · intro h
    have hle := (whole_bounds h).2
    unfold next at h
    split at h
    · split at h
      · rename_i hcode
        obtain ⟨rfl, rfl, rfl⟩ := hcode
        obtain ⟨rfl, hlength⟩ := hasLength_of_ofStart h
        exact ⟨_, rfl, hlength, hle⟩
      · cases h
    · cases h
  · rintro ⟨rest, rfl, hlength, hle⟩
    rw [next_cons, if_pos ⟨rfl, rfl, rfl⟩]
    exact ofStart_of_hasLength hlength hle

/-! ## More bytes -/

/-- **Bytes that start no unit start none when more bytes come.** -/
theorem next_append_of_noUnit (h : next buffer = .noUnit) : next (buffer ++ more) = .noUnit := by
  obtain ⟨a, b, c, id, rest, rfl, hnot⟩ := next_eq_noUnit_iff.1 h
  exact next_eq_noUnit_iff.2 ⟨a, b, c, id, rest ++ more, rfl, hnot⟩

/-- **A whole unit is the same unit when more bytes come.** -/
theorem next_append_of_whole (h : next buffer = .whole id length) :
    next (buffer ++ more) = .whole id length := by
  obtain ⟨rest, rfl, hlength, hle⟩ := next_eq_whole_iff.1 h
  refine next_eq_whole_iff.2 ⟨rest ++ more, rfl, hlength.append, ?_⟩
  rw [List.length_append]
  omega

/-- A whole unit is the same unit with nothing after it. -/
theorem next_take_of_whole (h : next buffer = .whole id length) :
    next (buffer.take length) = .whole id length := by
  have hstart := (whole_bounds h).1
  obtain ⟨rest, rfl, hlength, hle⟩ := next_eq_whole_iff.1 h
  obtain ⟨n, rfl⟩ : ∃ n, length = n + 4 :=
    ⟨length - 4, by simp only [startLength] at hstart; omega⟩
  refine next_eq_whole_iff.2 ⟨rest.take n, by simp, hlength.take ?_, ?_⟩
  · simp only [startLength]
    omega
  · rw [List.length_take]
    omega

theorem length_take_of_whole (h : next buffer = .whole id length) :
    (buffer.take length).length = length :=
  List.length_take_of_le (whole_bounds h).2

/-- The unit that was framed is framed as it stands. -/
theorem next_take_eq_whole (h : next buffer = .whole id length) :
    next (buffer.take length) = .whole id (buffer.take length).length := by
  rw [length_take_of_whole h, next_take_of_whole h]

/-- Four bytes tell that no unit starts. -/
theorem next_of_append_noUnit (h : next (buffer ++ more) = .noUnit)
    (hlen : startLength ≤ buffer.length) : next buffer = .noUnit := by
  obtain ⟨a, b, c, id, rest, happend, hnot⟩ := next_eq_noUnit_iff.1 h
  have hfront := congrArg (List.take startLength) happend
  rw [List.take_append_of_le_length hlen] at hfront
  refine next_eq_noUnit_iff.2 ⟨a, b, c, id, buffer.drop startLength, ?_, hnot⟩
  calc buffer
    _ = buffer.take startLength ++ buffer.drop startLength := (List.take_append_drop _ _).symm
    _ = a :: b :: c :: id :: buffer.drop startLength := by rw [hfront]; rfl

/-- A unit's own bytes tell that it is whole. -/
theorem next_of_append_whole (h : next (buffer ++ more) = .whole id length)
    (hlen : length ≤ buffer.length) : next buffer = .whole id length := by
  have hunit := next_take_of_whole h
  rw [List.take_append_of_le_length hlen] at hunit
  have hall : next (buffer.take length ++ buffer.drop length) = _ := next_append_of_whole hunit
  rwa [List.take_append_drop] at hall

/-! ## The units of a byte string -/

/-- The whole units of a byte string in their order, each with the bytes that
come after it. Bytes that start no unit are passed over, and an incomplete
unit is the end. -/
def units (buffer : List UInt8) : List (List UInt8 × List UInt8) :=
  match _h : next buffer with
  | .noUnit => units (buffer.drop 1)
  | .whole _ length => (buffer.take length, buffer.drop length) :: units (buffer.drop length)
  | .incomplete _ => []
termination_by buffer.length
decreasing_by
  · have := List.length_pos_iff.2 (ne_nil_of_noUnit _h)
    rw [List.length_drop]
    omega
  · have hbounds := whole_bounds _h
    simp only [startLength] at hbounds
    rw [List.length_drop]
    omega

theorem units_of_noUnit (h : next buffer = .noUnit) : units buffer = units (buffer.drop 1) := by
  rw [units]
  split <;> simp_all

theorem units_of_whole (h : next buffer = .whole id length) :
    units buffer = (buffer.take length, buffer.drop length) :: units (buffer.drop length) := by
  rw [units]
  split <;> simp_all

theorem units_of_incomplete (h : next buffer = .incomplete n) : units buffer = [] := by
  rw [units]
  split <;> simp_all

end Frame

end ProgramStream
