import ProgramStream.Proofs.Section.Checked
/-!
# Sections — the grammar of tables, at their places

The grammars of both kinds of sections are known as words to be laid out
(`Association.Raw`, `ProgramMap.Raw`). Here they are said of the bytes in a
buffer: what has to stand at which place for a table to be read
(`Table.exists_read_eq_ok_iff`), and what of the table stands where (`Table.StandsIn`).
-/

namespace ProgramStream

open ProgramStream.Parser ProgramStream.Parser.State

/-- **What is read off a buffer stood at the front of it.** -/
theorem ByteBuffer.parse_eq_ok_iff {α ρ : Type} {p : Parser α} {a : α} {P : ρ → Prop}
    {value : ρ → α} {layout : ρ → List UInt8}
    (hp : ∀ s s', p s = .ok a s' ↔
      s.IsAligned ∧ ∃ r, P r ∧ value r = a ∧ s.Takes (Bits.ofBytes (layout r)) [] s')
    (b b' : ByteBuffer) :
    b.parse p = (.ok a, b') ↔ ∃ r, P r ∧ value r = a ∧ b.content = layout r ++ b'.content := by
  obtain ⟨content⟩ := b
  obtain ⟨rest⟩ := b'
  constructor
  · intro h
    obtain ⟨s', hparse, hcursor⟩ := exists_of_result_run (congrArg Prod.fst h)
    obtain ⟨-, r, hr, hvalue, htakes⟩ := (hp _ _).1 hparse
    have hleft : s'.cursor.bytes = rest := by
      rw [← hcursor]
      exact congrArg (·.2.content) h
    refine ⟨r, hr, hvalue, ?_⟩
    rw [← hleft]
    exact (BitCursor.eq_of_takes_bytes rfl htakes.cursor).1
  · rintro ⟨r, hr, hvalue, rfl⟩
    exact parse_append (fun hs htakes => (hp _ _).2 ⟨hs, r, hr, hvalue, htakes⟩) rest

/-- The same of a value in another form. -/
theorem ByteBuffer.map_parse_eq_ok_iff {α β ρ : Type} {p : Parser α} {P : ρ → Prop}
    {value : ρ → α} {layout : ρ → List UInt8} (f : α → β) {y : β}
    (hp : ∀ a s s', p s = .ok a s' ↔
      s.IsAligned ∧ ∃ r, P r ∧ value r = a ∧ s.Takes (Bits.ofBytes (layout r)) [] s')
    (b b' : ByteBuffer) :
    (b.parse p).map (Except.map f) id = (.ok y, b') ↔
      ∃ r, P r ∧ f (value r) = y ∧ b.content = layout r ++ b'.content := by
  constructor
  · cases hparse : b.parse p with
    | mk result left =>
      cases result with
      | error fault => exact fun h => nomatch congrArg Prod.fst h
      | ok a =>
        rintro ⟨⟩
        obtain ⟨r, hr, rfl, hcontent⟩ := (parse_eq_ok_iff (hp a) b left).1 hparse
        exact ⟨r, hr, rfl, hcontent⟩
  · rintro ⟨r, hr, rfl, hcontent⟩
    rw [(parse_eq_ok_iff (hp _) b b').2 ⟨r, hr, rfl, hcontent⟩]
    rfl

namespace Section

variable {bytes rest : List UInt8} {b b' : ByteBuffer} {w : UInt16} {carried : UInt32}

/-! ## Places -/

theorem drop_word (w : UInt16) (rest : List UInt8) (i : Nat) :
    (ByteOrder.big.bytes 2 w.toNat ++ rest).drop (i + 2) = rest.drop i := by
  rw [Nat.add_comm, ← List.drop_drop, List.drop_left' (by simp)]

theorem wordAt_word (w : UInt16) (rest : List UInt8) :
    wordAt (ByteOrder.big.bytes 2 w.toNat ++ rest) 0 = w.toNat := by
  rw [wordAt, List.drop_zero, List.take_left' (by simp), ByteOrder.value_bytes]
  exact Nat.mod_eq_of_lt w.toNat_lt

/-- Two bytes are a word. -/
theorem exists_word (h : 2 ≤ bytes.length) :
    ∃ (w : UInt16) (rest : List UInt8), bytes = ByteOrder.big.bytes 2 w.toNat ++ rest := by
  have hlen := List.length_take_of_le h
  have hword := ByteOrder.big_bytes_value (bytes.take 2)
  have hlt := ByteOrder.value_big_lt (bytes.take 2)
  rw [hlen] at hword hlt
  refine ⟨UInt16.ofNat (ByteOrder.big.value (bytes.take 2)), bytes.drop 2, ?_⟩
  rw [UInt16.toNat_ofNat_of_lt' hlt, hword, List.take_append_drop]

/-- The bytes between the length of a section and its checksum. -/
def bodyOf (bytes : List UInt8) : List UInt8 :=
  (bytes.drop prologueLength).take (statedLength bytes - checksumLength)

/-- The section is all there, and has the checksum it carries. -/
structure IsWhole (bytes : List UInt8) (carried : UInt32) : Prop where
  present : wholeLength bytes ≤ bytes.length
  verified : Crc.verify (bytes.take (wholeLength bytes)) = .ok carried

namespace Envelope

variable {e : Envelope}

theorem bytes_append (e : Envelope) (rest : List UInt8) :
    e.bytes ++ rest = e.tableId :: (ByteOrder.big.bytes 2 e.length.toNat ++
      (e.body ++ (ByteOrder.big.bytes 4 e.checksum.toNat ++ rest))) := by
  simp only [bytes, content, List.cons_append, List.append_assoc]

/-- The length is stated behind the table id. -/
theorem statedLength_bytes (e : Envelope) (rest : List UInt8) :
    statedLength (e.bytes ++ rest) = e.length.toNat % 4096 := by
  rw [statedLength, bytes_append, wordAt, List.drop_succ_cons, ← wordAt, wordAt_word]

namespace IsSound

/-- **A section states its length**, and so where it ends, -/
theorem statedLength_append (he : e.IsSound) (rest : List UInt8) :
    statedLength (e.bytes ++ rest) = e.body.length + checksumLength := by
  rw [statedLength_bytes, he.length]

theorem wholeLength_append (he : e.IsSound) (rest : List UInt8) :
    wholeLength (e.bytes ++ rest) = e.bytes.length := by
  rw [wholeLength, he.statedLength_append, e.length_bytes]

/-- it passes, -/
theorem isWhole_append (he : e.IsSound) (rest : List UInt8) :
    IsWhole (e.bytes ++ rest) e.checksum := by
  have hlen := he.wholeLength_append rest
  refine ⟨by rw [hlen]; simp, ?_⟩
  rw [hlen, List.take_left]
  exact Crc.verify_append_eq_ok_iff.2 ⟨rfl, he.checksum⟩

/-- and its body stands in it. -/
theorem bodyOf_append (he : e.IsSound) (rest : List UInt8) : bodyOf (e.bytes ++ rest) = e.body := by
  rw [bodyOf, he.statedLength_append, Nat.add_sub_cancel, bytes_append, prologueLength,
    List.drop_succ_cons, drop_word _ _ 0, List.drop_zero, List.take_left]

end IsSound

/-- **Any whole section is one in an envelope**, if it has room for a
checksum. -/
theorem exists_of_isWhole (h : IsWhole bytes carried)
    (hlong : checksumLength ≤ statedLength bytes) :
    ∃ e : Envelope, e.IsSound ∧ e.checksum = carried ∧
      bytes = e.bytes ++ bytes.drop (wholeLength bytes) := by
  obtain ⟨content, hcontent, hchecksum⟩ := Crc.verify_eq_ok_iff.1 h.verified
  have hlen := congrArg List.length hcontent
  rw [List.length_take_of_le h.present, List.length_append, ByteOrder.length_bytes, wholeLength,
    prologueLength] at hlen
  rw [checksumLength] at hlong
  have hpos : 0 < content.length := by omega
  obtain ⟨id, back, rfl⟩ := List.exists_cons_of_length_pos hpos
  have hback : 2 ≤ back.length := by
    rw [List.length_cons] at hlen
    omega
  obtain ⟨w, body, rfl⟩ := exists_word hback
  let e : Envelope := ⟨id, w, body, carried⟩
  have hbytes : bytes = e.bytes ++ bytes.drop (wholeLength bytes) := by
    have hfront : bytes.take (wholeLength bytes) = e.bytes := hcontent
    rw [← hfront, List.take_append_drop]
  have hstated : statedLength bytes = w.toNat % 4096 := by
    rw [hbytes, statedLength_bytes]
  refine ⟨e, ⟨?_, hchecksum⟩, rfl, hbytes⟩
  simp only [List.length_cons, List.length_append, ByteOrder.length_bytes] at hlen
  rw [checksumLength]
  change w.toNat % 4096 = body.length + 4
  omega

end Envelope

/-- A field that was read is as narrow as it is. -/
theorem version_mod_mod (v : UInt8) : v / 2 % 32 % 32 = v / 2 % 32 := by
  rw [← UInt8.toNat_inj]
  simp

theorem pid_mod_mod (w : UInt16) : w % 8192 % 8192 = w % 8192 := by
  rw [← UInt16.toNat_inj]
  simp

/-! ## Association sections -/

namespace Association

/-- The places of an association in the body of its section. -/
structure StandsIn (t : Association) (body : List UInt8) : Prop where
  transportStreamId : t.transportStreamId.toNat = wordAt body 0
  version : body[2]?.map (· / 2 % 32) = some t.version
  programs : ∃ raws : List ProgramPid, body.drop fixedLength = raws.flatMap ProgramPid.bytes ∧
    t.programs = raws.map ProgramPid.narrowed

theorem Raw.standsIn_value (r : Raw) : r.value.StandsIn r.body where
  transportStreamId := (wordAt_word r.transportStreamId _).symm
  version := by
    rw [body, ← List.head?_drop, drop_word _ _ 0, List.drop_zero]
    rfl
  programs := by
    refine ⟨r.programs, ?_, rfl⟩
    rw [body, fixedLength, drop_word _ _ 3, List.singleton_append, List.drop_succ_cons,
      drop_word _ _ 0, List.drop_zero]

/-- Entries of four bytes are programs. -/
theorem exists_programs {n : Nat} (h : bytes.length = programLength * n) :
    ∃ raws : List ProgramPid, bytes = raws.flatMap ProgramPid.bytes := by
  rw [programLength] at h
  induction n generalizing bytes with
  | zero => exact ⟨[], List.length_eq_zero_iff.1 h⟩
  | succ n ih =>
    obtain ⟨number, back, rfl⟩ := exists_word (by omega : 2 ≤ bytes.length)
    rw [List.length_append, ByteOrder.length_bytes] at h
    obtain ⟨pid, back, rfl⟩ := exists_word (by omega : 2 ≤ back.length)
    rw [List.length_append, ByteOrder.length_bytes] at h
    have hback : back.length = 4 * n := by omega
    obtain ⟨raws, rfl⟩ := ih hback
    exact ⟨⟨number, pid⟩ :: raws, by rw [List.flatMap_cons, ProgramPid.bytes, List.append_assoc]⟩

/-- **Every body of the right length is that of an association.** -/
theorem exists_raw_iff {e : Envelope} :
    (∃ r : Raw, r.envelope = e) ↔
      e.tableId = tableId ∧ fixedLength ≤ e.body.length ∧
        programLength ∣ e.body.length - fixedLength := by
  constructor
  · rintro ⟨r, rfl⟩
    refine ⟨rfl, ?_⟩
    rw [Raw.envelope, r.length_body, Nat.add_sub_cancel_left]
    exact ⟨Nat.le_add_right _ _, Nat.dvd_mul_left _ _⟩
  · obtain ⟨id, length, body, checksum⟩ := e
    rintro ⟨hid, hlong, n, hn⟩
    simp only [fixedLength, programLength] at hid hlong hn
    obtain ⟨number, back, rfl⟩ := exists_word (by omega : 2 ≤ body.length)
    rw [List.length_append, ByteOrder.length_bytes] at hlong hn
    obtain ⟨version, back, rfl⟩ :=
      List.exists_cons_of_length_pos (by omega : 0 < back.length)
    rw [List.length_cons] at hlong hn
    obtain ⟨numbers, back, rfl⟩ := exists_word (by omega : 2 ≤ back.length)
    rw [List.length_append, ByteOrder.length_bytes] at hlong hn
    have hback : back.length = programLength * n := by
      rw [programLength]
      omega
    obtain ⟨raws, rfl⟩ := exists_programs hback
    refine ⟨⟨length, number, version, numbers, raws, checksum⟩, ?_⟩
    rw [hid]
    rfl

/-- What is read is as long as its section states. -/
theorem Raw.fits_value {r : Raw} (hr : r.IsSound) : r.value.Fits := by
  have hlength := hr.length
  rw [Fits, value, List.length_map, ← hlength]
  exact Nat.le_of_lt_succ (Nat.mod_lt _ (by decide))

/-- What is read is as narrow as its fields. -/
theorem Raw.carried_value (r : Raw) :
    r.value.carried = { r.value with checksum := Crc.compute r.value.content } := by
  rw [carried]
  congr 1
  · exact version_mod_mod r.version
  · rw [value, List.map_map]
    refine List.map_congr_left fun p _ => ?_
    simp only [Function.comp_apply, ProgramPid.narrowed, pid_mod_mod]

end Association

/-! ## Program map sections -/

namespace ProgramMap

/-- The length of the program descriptors, as the body of a section states
it. -/
def statedInfoLength (body : List UInt8) : Nat := wordAt body 7 % 4096

/-- The places of a program map in the body of its section. -/
structure StandsIn (t : ProgramMap) (body : List UInt8) : Prop where
  programNumber : t.programNumber.toNat = wordAt body 0
  version : body[2]?.map (· / 2 % 32) = some t.version
  clockPid : t.clockPid.toNat = wordAt body 5 % 8192
  programInfo : t.programInfo = (body.drop fixedLength).take (statedInfoLength body)
  streams : ∃ raws : List StreamPid.Raw, (∀ r ∈ raws, r.IsSound) ∧
    body.drop (fixedLength + statedInfoLength body) = raws.flatMap StreamPid.Raw.bytes ∧
    t.streams = raws.map StreamPid.Raw.value

/-- The words of a body, one behind the other. -/
theorem Raw.body_places (r : Raw) :
    wordAt r.body 0 = r.programNumber.toNat ∧ r.body[2]? = some r.version ∧
      wordAt r.body 5 = r.clockPid.toNat ∧ wordAt r.body 7 = r.infoLength.toNat ∧
      r.body.drop fixedLength = r.programInfo ++ r.streams.flatMap StreamPid.Raw.bytes := by
  refine ⟨wordAt_word _ _, ?_, ?_, ?_, ?_⟩
  · rw [body, ← List.head?_drop, drop_word _ _ 0, List.drop_zero]
    rfl
  · rw [body, wordAt, drop_word _ _ 3, List.singleton_append, List.drop_succ_cons,
      drop_word _ _ 0, ← wordAt, wordAt_word]
  · rw [body, wordAt, drop_word _ _ 5, List.singleton_append, List.drop_succ_cons,
      drop_word _ _ 2, drop_word _ _ 0, ← wordAt, wordAt_word]
  · rw [body, fixedLength, drop_word _ _ 7, List.singleton_append, List.drop_succ_cons,
      drop_word _ _ 4, drop_word _ _ 2, drop_word _ _ 0, List.drop_zero]

theorem Raw.statedInfoLength_body {r : Raw} (hr : r.IsSound) :
    statedInfoLength r.body = r.programInfo.length := by
  rw [statedInfoLength, r.body_places.2.2.2.1, hr.programInfo]

theorem Raw.standsIn_value {r : Raw} (hr : r.IsSound) : r.value.StandsIn r.body := by
  have hinfo := statedInfoLength_body hr
  obtain ⟨hnumber, hversion, hclock, -, hrest⟩ := r.body_places
  refine ⟨hnumber.symm, ?_, ?_, ?_, r.streams, hr.streams, ?_, rfl⟩
  · rw [hversion]
    rfl
  · rw [hclock]
    exact UInt16.toNat_mod r.clockPid 8192
  · rw [hrest, hinfo, List.take_left]
    rfl
  · rw [← List.drop_drop, hrest, hinfo, List.drop_left]

/-- Enough bytes for the fixed part are cut into its words. -/
theorem exists_raw_of_le {body : List UInt8} (h : fixedLength ≤ body.length) (length : UInt16)
    (checksum : UInt32) :
    ∃ r : Raw, r.length = length ∧ r.checksum = checksum ∧ r.streams = [] ∧ r.body = body := by
  rw [fixedLength] at h
  obtain ⟨number, back, rfl⟩ := exists_word (by omega : 2 ≤ body.length)
  rw [List.length_append, ByteOrder.length_bytes] at h
  obtain ⟨version, back, rfl⟩ := List.exists_cons_of_length_pos (by omega : 0 < back.length)
  rw [List.length_cons] at h
  obtain ⟨numbers, back, rfl⟩ := exists_word (by omega : 2 ≤ back.length)
  rw [List.length_append, ByteOrder.length_bytes] at h
  obtain ⟨clockPid, back, rfl⟩ := exists_word (by omega : 2 ≤ back.length)
  rw [List.length_append, ByteOrder.length_bytes] at h
  obtain ⟨infoLength, back, rfl⟩ := exists_word (by omega : 2 ≤ back.length)
  refine ⟨⟨length, number, version, numbers, clockPid, infoLength, back, [], checksum⟩,
    rfl, rfl, rfl, ?_⟩
  simp only [Raw.body, List.flatMap_nil, List.append_nil, List.singleton_append]

/-- **A body is that of a program map if its streams fill it.** -/
theorem exists_raw_iff {e : Envelope} (he : e.IsSound) :
    (∃ r : Raw, r.IsSound ∧ r.envelope = e) ↔
      e.tableId = tableId ∧ fixedLength ≤ e.body.length ∧
        statedInfoLength e.body ≤ e.body.length - fixedLength ∧
        ∃ raws : List StreamPid.Raw, (∀ r ∈ raws, r.IsSound) ∧
          e.body.drop (fixedLength + statedInfoLength e.body) =
            raws.flatMap StreamPid.Raw.bytes := by
  constructor
  · rintro ⟨r, hr, rfl⟩
    obtain ⟨raws, hsound, hfill, -⟩ := (Raw.standsIn_value hr).streams
    have hlen : r.envelope.body.length + checksumLength = r.size := r.length_body
    have hinfo : statedInfoLength r.envelope.body = r.programInfo.length :=
      Raw.statedInfoLength_body hr
    simp only [Raw.size, checksumLength] at hlen
    exact ⟨rfl, by omega, by omega, raws, hsound, hfill⟩
  · rintro ⟨hid, hlong, hfits, raws, hsound, hfill⟩
    obtain ⟨r, hlength, hchecksum, hstreams, hbody⟩ := exists_raw_of_le hlong e.length e.checksum
    obtain ⟨-, -, -, hword, hrest⟩ := r.body_places
    rw [hstreams, List.flatMap_nil, List.append_nil] at hrest
    have hinfo : statedInfoLength r.body = r.infoLength.toNat % 4096 := by
      rw [statedInfoLength, hword]
    rw [← hbody, hinfo] at hfits hfill
    rw [← List.drop_drop, hrest] at hfill
    -- the same words, with the descriptors and the streams apart
    let r' : Raw :=
      { r with programInfo := r.programInfo.take (r.infoLength.toNat % 4096), streams := raws }
    have hlen : r.programInfo.length = r.body.length - fixedLength := by
      rw [← hrest, List.length_drop]
    have hbody' : r'.body = r.body := by
      simp only [r', Raw.body, ← hfill, hstreams, List.flatMap_nil, List.append_nil,
        List.take_append_drop]
    have henvelope : r'.envelope = e := by
      rw [Raw.envelope, hbody', hbody, ← hid]
      simp only [r', hlength, hchecksum]
    refine ⟨r', Raw.isSound_iff.2 ⟨henvelope ▸ he, ?_, hsound⟩, henvelope⟩
    exact (List.length_take_of_le (hlen ▸ hfits)).symm

theorem Raw.map_size_value (r : Raw) :
    r.value.streams.map (fun s => StreamPid.fixedLength + s.info.length) =
      r.streams.map StreamPid.Raw.size := by
  rw [value, List.map_map]
  rfl

/-- What is read is as long as its section states. -/
theorem Raw.fits_value {r : Raw} (hr : r.IsSound) : r.value.Fits := by
  have hlength := hr.length
  rw [Fits, r.map_size_value]
  change r.size ≤ 4095
  rw [← hlength]
  exact Nat.le_of_lt_succ (Nat.mod_lt _ (by decide))

/-- What is read is as narrow as its fields. -/
theorem Raw.carried_value (r : Raw) :
    r.value.carried = { r.value with checksum := Crc.compute r.value.content } := by
  rw [carried]
  congr 1
  · exact version_mod_mod r.version
  · exact pid_mod_mod r.clockPid
  · rw [value, List.map_map]
    refine List.map_congr_left fun s _ => ?_
    simp only [Function.comp_apply, StreamPid.Raw.value, pid_mod_mod]

end ProgramMap

/-! ## Tables of both kinds -/

variable {t : Table} {kind : Table.Kind} {e : Envelope}

namespace Table

/-- A table with another checksum. -/
def withChecksum : Table → UInt32 → Table
  | .association t, checksum => .association { t with checksum := checksum }
  | .programMap t, checksum => .programMap { t with checksum := checksum }

/-- The places of a table in the body of its section. -/
def StandsIn : Table → List UInt8 → Prop
  | .association t, body => t.StandsIn body
  | .programMap t, body => t.StandsIn body

/-- What has to stand in a section that is whole, for a table of a kind to be
read off it. -/
def Kind.Accepts : Kind → List UInt8 → Prop
  | .association, bytes =>
    bytes.head? = some 0x00 ∧ 9 ≤ statedLength bytes ∧ 4 ∣ statedLength bytes - 9
  | .programMap, bytes =>
    bytes.head? = some 0x02 ∧ 13 ≤ statedLength bytes ∧
      ProgramMap.statedInfoLength (bodyOf bytes) ≤ statedLength bytes - 13 ∧
      ∃ raws : List StreamPid.Raw, (∀ r ∈ raws, r.IsSound) ∧
        (bodyOf bytes).drop (9 + ProgramMap.statedInfoLength (bodyOf bytes)) =
          raws.flatMap StreamPid.Raw.bytes

theorem read_association_eq_ok_iff :
    Kind.association.read b = (.ok t, b') ↔
      ∃ r : Association.Raw, r.IsSound ∧ .association r.value = t ∧
        b.content = r.envelope.bytes ++ b'.content :=
  ByteBuffer.map_parse_eq_ok_iff _ (fun _ _ _ => Association.parse_eq_ok_iff) b b'

theorem read_programMap_eq_ok_iff :
    Kind.programMap.read b = (.ok t, b') ↔
      ∃ r : ProgramMap.Raw, r.IsSound ∧ .programMap r.value = t ∧
        b.content = r.envelope.bytes ++ b'.content :=
  ByteBuffer.map_parse_eq_ok_iff _ (fun _ _ _ => ProgramMap.parse_eq_ok_iff) b b'

/-- A sound envelope is accepted if there are words for its body. -/
theorem accepts_association_iff (he : e.IsSound) (rest : List UInt8) :
    Kind.association.Accepts (e.bytes ++ rest) ↔
      ∃ r : Association.Raw, r.IsSound ∧ r.envelope = e := by
  have hsound : (∃ r : Association.Raw, r.IsSound ∧ r.envelope = e) ↔
      ∃ r : Association.Raw, r.envelope = e := by
    constructor
    · rintro ⟨r, -, hr⟩
      exact ⟨r, hr⟩
    · rintro ⟨r, rfl⟩
      exact ⟨r, Association.Raw.isSound_iff.2 he, rfl⟩
  rw [hsound, Association.exists_raw_iff, Kind.Accepts, he.statedLength_append, e.bytes_append,
    List.head?_cons, Option.some_inj]
  simp only [checksumLength, Association.fixedLength, Association.programLength,
    Association.tableId]
  refine and_congr_right fun _ => ?_
  omega

theorem accepts_programMap_iff (he : e.IsSound) (rest : List UInt8) :
    Kind.programMap.Accepts (e.bytes ++ rest) ↔
      ∃ r : ProgramMap.Raw, r.IsSound ∧ r.envelope = e := by
  rw [ProgramMap.exists_raw_iff he, Kind.Accepts, he.statedLength_append, he.bodyOf_append,
    e.bytes_append, List.head?_cons, Option.some_inj]
  simp only [checksumLength, ProgramMap.fixedLength, ProgramMap.tableId]
  refine and_congr_right fun _ => ?_
  rw [← and_assoc, ← and_assoc]
  refine and_congr_left fun _ => ?_
  omega

/-- A section that is accepted has room for a checksum. -/
theorem Kind.Accepts.checksumLength_le {bytes : List UInt8} (h : kind.Accepts bytes) :
    checksumLength ≤ statedLength bytes := by
  cases kind with
  | association => exact Nat.le_trans (by decide) h.2.1
  | programMap => exact Nat.le_trans (by decide) h.2.1

/-- A reader of sound words reads what is whole and accepted, if that is what
has sound words. -/
theorem exists_read_iff_of {ρ : Type} {P : ρ → Prop} {value : ρ → Table} {envelope : ρ → Envelope}
    (hread : ∀ t b', kind.read b = (.ok t, b') ↔
      ∃ r, P r ∧ value r = t ∧ b.content = (envelope r).bytes ++ b'.content)
    (hsound : ∀ r, P r → (envelope r).IsSound)
    (haccepts : ∀ {e : Envelope}, e.IsSound → ∀ rest,
      (kind.Accepts (e.bytes ++ rest) ↔ ∃ r, P r ∧ envelope r = e)) :
    (∃ t b', kind.read b = (.ok t, b')) ↔
      (∃ carried, IsWhole b.content carried) ∧ kind.Accepts b.content := by
  constructor
  · rintro ⟨t, b', h⟩
    obtain ⟨r, hr, -, hcontent⟩ := (hread t b').1 h
    have he := hsound r hr
    rw [hcontent]
    exact ⟨⟨_, he.isWhole_append _⟩, (haccepts he _).2 ⟨r, hr, rfl⟩⟩
  · rintro ⟨⟨carried, hwhole⟩, h⟩
    obtain ⟨e, he, -, hcontent⟩ := Envelope.exists_of_isWhole hwhole h.checksumLength_le
    rw [hcontent] at h
    obtain ⟨r, hr, rfl⟩ := (haccepts he _).1 h
    exact ⟨_, ⟨_⟩, (hread _ _).2 ⟨r, hr, rfl, hcontent⟩⟩

/-- **A section is read if and only if it is whole and accepted.** -/
theorem exists_read_eq_ok_iff :
    (∃ t b', kind.read b = (.ok t, b')) ↔
      (∃ carried, IsWhole b.content carried) ∧ kind.Accepts b.content := by
  cases kind with
  | association =>
    exact exists_read_iff_of (fun _ _ => read_association_eq_ok_iff)
      (fun _ => Association.Raw.isSound_iff.1) accepts_association_iff
  | programMap =>
    exact exists_read_iff_of (fun _ _ => read_programMap_eq_ok_iff)
      (fun _ hr => (ProgramMap.Raw.isSound_iff.1 hr).1) accepts_programMap_iff

/-- A table that was read, its section, and how much of it would be written. -/
theorem exists_envelope_of_read (h : kind.read b = (.ok t, b')) :
    ∃ e : Envelope, e.IsSound ∧ e.checksum = t.checksum ∧ b.content = e.bytes ++ b'.content ∧
      t.kind = kind ∧ t.StandsIn e.body ∧ t.Fits ∧
      t.sectionLength.toNat = e.body.length + checksumLength ∧
      t.carried = t.withChecksum (Crc.compute t.content) := by
  cases kind with
  | association =>
    obtain ⟨r, hr, rfl, hcontent⟩ := read_association_eq_ok_iff.1 h
    have hfits := Association.Raw.fits_value hr
    refine ⟨r.envelope, Association.Raw.isSound_iff.1 hr, rfl, hcontent, rfl,
      r.standsIn_value, hfits, ?_, congrArg _ r.carried_value⟩
    refine (Association.toNat_sectionLength hfits).trans ?_
    rw [Association.Raw.envelope, r.length_body, Association.Raw.value, List.length_map]
  | programMap =>
    obtain ⟨r, hr, rfl, hcontent⟩ := read_programMap_eq_ok_iff.1 h
    have hfits := ProgramMap.Raw.fits_value hr
    refine ⟨r.envelope, (ProgramMap.Raw.isSound_iff.1 hr).1, rfl, hcontent, rfl,
      ProgramMap.Raw.standsIn_value hr, hfits, ?_, congrArg _ r.carried_value⟩
    refine (ProgramMap.toNat_sectionLength hfits).trans ?_
    have hlen : r.envelope.body.length + checksumLength = r.size := r.length_body
    rw [hlen, ProgramMap.size_raw, r.map_size_value]
    rfl

end Table

/-- **Sections are read by their grammar.** For any bytes in a buffer: a table
of a kind is read if and only if the section that the bytes state is there,
has its checksum, and is accepted. Then as much of the buffer is taken as the
section is long; the table stands at its places in the section, with the
checksum that passed, and tells its length. A new writer writes it as a
section that is read as the same table again, but for the checksum, which is
that of what was written. Any other bytes are too few, have another checksum
or are malformed. -/
theorem read_by_grammar (kind : Table.Kind) (b : ByteBuffer) :
    ((∃ t b', kind.read b = (.ok t, b')) ↔
      (∃ carried, IsWhole b.content carried) ∧ kind.Accepts b.content) ∧
    (∀ t b', kind.read b = (.ok t, b') →
      b' = ⟨b.content.drop (wholeLength b.content)⟩ ∧ t.kind = kind ∧
        IsWhole b.content t.checksum ∧ t.StandsIn (bodyOf b.content) ∧
        t.sectionLength.toNat = statedLength b.content ∧
        kind.read ⟨t.written⟩ = (.ok (t.withChecksum (Crc.compute t.content)), {})) ∧
    (∀ fault b', kind.read b = (.error fault, b') →
      fault = .truncated ∨ (∃ carried computed, fault = .checksum carried computed) ∨
        ∃ what, fault = .malformed what) := by
  refine ⟨Table.exists_read_eq_ok_iff, fun t b' h => ?_, fun fault b' h => ?_⟩
  · obtain ⟨e, he, hchecksum, hcontent, rfl, hstands, hfits, hlength, hcarried⟩ :=
      Table.exists_envelope_of_read h
    have hwhole := he.isWhole_append b'.content
    have hagain := Table.read_written_append hfits []
    rw [hchecksum] at hwhole
    rw [hcarried, List.append_nil] at hagain
    rw [hcontent, he.wholeLength_append, he.bodyOf_append, he.statedLength_append, List.drop_left]
    exact ⟨rfl, rfl, hwhole, hstands, hlength, hagain⟩
  · have hreading := kind.reading b
    rw [h] at hreading
    exact hreading.fault_cases

/-- A program map with descriptors of its own and of its stream. -/
def sampleMap : Table :=
  .programMap ⟨7, 1, 0x200, [5, 2, 0x48, 0x44], [⟨0x24, 0x200, [0x0A, 1, 0]⟩], 0⟩

/-- Its section, with a byte behind it, is accepted and read. -/
theorem read_sampleMap :
    let b : ByteBuffer := ⟨sampleMap.written ++ [0x47]⟩
    Table.Kind.programMap.read b = (.ok sampleMap.carried, ⟨[0x47]⟩) ∧
      Table.Kind.programMap.Accepts b.content ∧ statedLength b.content = 25 ∧
      sampleMap.carried.sectionLength = 25 ∧ sampleMap.carried.StandsIn (bodyOf b.content) := by
  intro b
  have hread : Table.Kind.programMap.read b = (.ok sampleMap.carried, ⟨[0x47]⟩) :=
    Table.read_written_append (t := sampleMap) (by decide) [0x47]
  obtain ⟨haccepts, hvalue, -⟩ := read_by_grammar .programMap b
  obtain ⟨-, -, -, hstands, hlength, -⟩ := hvalue _ _ hread
  exact ⟨hread, (haccepts.1 ⟨_, _, hread⟩).2, hlength.symm.trans rfl, rfl, hstands⟩

/-- Reserved bits are not kept, so the section that is written may have
another checksum than the one that was read. -/
theorem read_written_otherChecksum :
    Table.Kind.association.read
        ⟨[0x00, 0x00, 0x09, 0x00, 0x07, 0x00, 0x00, 0x00, 0xB7, 0xEE, 0x23, 0x8A]⟩ =
      (.ok (.association ⟨7, 0, [], 0xB7EE238A⟩), {}) ∧
    Table.Kind.association.read ⟨(Table.association ⟨7, 0, [], 0xB7EE238A⟩).written⟩ =
      (.ok (.association ⟨7, 0, [], 0x2FCD06CB⟩), {}) ∧
    ((⟨7, 0, [], 0xB7EE238A⟩ : Association) ≠ ⟨7, 0, [], 0x2FCD06CB⟩) := by
  refine ⟨?_, ?_, ?_⟩ <;> decide +kernel

end Section

end ProgramStream
