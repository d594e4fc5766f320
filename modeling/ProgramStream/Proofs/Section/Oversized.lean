import ProgramStream.Proofs.Section.Grammar
/-!
# Sections — tables that are too large for their length

A writer does not look at how long a table is. The section of a table that
does not fit states its length modulo 4096 (`statedLength_written`), so a
reader takes the front of it for the section and the next four bytes for a
checksum. Those are entries of the table, and they seldom are the checksum of
what stands before them: if they are not, the reader refuses the section. If
they are, it reads the table cut after some of its entries
(`read_written_cases`).
-/

namespace ProgramStream

open ProgramStream.Parser ProgramStream.Parser.State

namespace Section

/-! ## The front of a section -/

/-- Words in front of the same bytes are the same. -/
theorem word_append_inj {v w : UInt16} {xs ys : List UInt8}
    (h : ByteOrder.big.bytes 2 v.toNat ++ xs = ByteOrder.big.bytes 2 w.toNat ++ ys) :
    v = w ∧ xs = ys := by
  obtain ⟨hwords, hrest⟩ := List.append_inj h (by simp)
  have hvalues := congrArg (wordAt · 0) h
  simp only [wordAt_word] at hvalues
  exact ⟨UInt16.toNat_inj.1 hvalues, hrest⟩

/-- Entries that begin the same bytes as others are the first of them, if each
tells where it ends. -/
theorem exists_eq_take_of_flatMap {β : Type} {f : β → List UInt8} {P : β → Prop}
    (hpos : ∀ x, f x ≠ [])
    (hinj : ∀ {x y : β} {xs ys : List UInt8}, P x → P y → f x ++ xs = f y ++ ys → x = y ∧ xs = ys)
    {all front : List β} {more : List UInt8} (hall : ∀ x ∈ all, P x) (hfront : ∀ x ∈ front, P x)
    (hmore : more ≠ []) (h : front.flatMap f ++ more = all.flatMap f) :
    ∃ k < all.length, front = all.take k := by
  induction front generalizing all with
  | nil =>
    refine ⟨0, List.length_pos_of_ne_nil ?_, rfl⟩
    rintro rfl
    exact hmore h
  | cons x front ih =>
    cases all with
    | nil =>
      have hnil : f x = [] := by
        rw [List.flatMap_cons, List.flatMap_nil, List.append_assoc] at h
        exact (List.append_eq_nil_iff.1 h).1
      exact absurd hnil (hpos x)
    | cons y all =>
      rw [List.forall_mem_cons] at hfront hall
      rw [List.flatMap_cons, List.flatMap_cons, List.append_assoc] at h
      obtain ⟨rfl, hrest⟩ := hinj hfront.1 hall.1 h
      obtain ⟨k, hk, rfl⟩ := ih hall.2 hfront.2 hrest
      exact ⟨k + 1, Nat.succ_lt_succ hk, rfl⟩

/-- A section that begins another one and has a shorter body is the same as
far as that goes. -/
theorem Envelope.exists_body_eq {e e' : Envelope} {rest : List UInt8}
    (h : e.bytes ++ rest = e'.bytes) (hlen : e.body.length < e'.body.length) :
    ∃ more, more ≠ [] ∧ e.body ++ more = e'.body := by
  rw [← List.append_nil e'.bytes, bytes_append, bytes_append] at h
  obtain ⟨-, h⟩ := List.cons.inj h
  obtain ⟨-, h⟩ := word_append_inj h
  have hfront : e.body <+: e'.body :=
    List.prefix_of_prefix_length_le ⟨_, h⟩ ⟨_, rfl⟩ hlen.le
  obtain ⟨more, hmore⟩ := hfront
  refine ⟨more, ?_, hmore⟩
  rintro rfl
  rw [List.append_nil] at hmore
  exact absurd (congrArg List.length hmore) hlen.ne

theorem ProgramPid.append_inj {p q : ProgramPid} {xs ys : List UInt8}
    (h : p.bytes ++ xs = q.bytes ++ ys) : p = q ∧ xs = ys := by
  obtain ⟨number, pid⟩ := p
  obtain ⟨number', pid'⟩ := q
  rw [bytes, bytes, List.append_assoc, List.append_assoc] at h
  obtain ⟨hnumber, h₁⟩ := word_append_inj h
  obtain ⟨hpid, h₂⟩ := word_append_inj h₁
  cases hnumber
  cases hpid
  exact ⟨rfl, h₂⟩

theorem ProgramPid.bytes_ne_nil (p : ProgramPid) : p.bytes ≠ [] := by
  intro hnil
  have hlen := congrArg List.length hnil
  simp [bytes] at hlen

/-- A stream tells where it ends. -/
theorem StreamPid.Raw.append_inj {r r' : Raw} {xs ys : List UInt8} (hr : r.IsSound)
    (hr' : r'.IsSound) (h : r.bytes ++ xs = r'.bytes ++ ys) : r = r' ∧ xs = ys := by
  obtain ⟨type, pid, length, info⟩ := r
  obtain ⟨type', pid', length', info'⟩ := r'
  simp only [bytes, List.cons_append, List.append_assoc] at h
  obtain ⟨htype, h₁⟩ := List.cons.inj h
  obtain ⟨hpid, h₂⟩ := word_append_inj h₁
  obtain ⟨hlength, h₃⟩ := word_append_inj h₂
  cases hlength
  obtain ⟨hinfo, h₄⟩ := List.append_inj h₃ (hr.symm.trans hr')
  cases htype
  cases hpid
  cases hinfo
  exact ⟨rfl, h₄⟩

theorem StreamPid.Raw.bytes_ne_nil (r : Raw) : r.bytes ≠ [] := List.cons_ne_nil _ _

/-- **An association that begins another one's section has the first of its
programs.** -/
theorem Association.exists_value_eq_take {t : Association} {r : Raw} {more : List UInt8}
    (hmore : more ≠ []) (h : r.body ++ more = t.raw.body) :
    ∃ k < t.programs.length, r.value =
      { t.carried with programs := t.carried.programs.take k, checksum := r.checksum } := by
  simp only [Raw.body, List.append_assoc, List.cons_append, List.nil_append] at h
  obtain ⟨hnumber, h⟩ := word_append_inj h
  obtain ⟨hversion, h⟩ := List.cons.inj h
  obtain ⟨-, h⟩ := word_append_inj h
  obtain ⟨k, hk, hprograms⟩ := exists_eq_take_of_flatMap (P := fun _ => True)
    ProgramPid.bytes_ne_nil (fun _ _ => ProgramPid.append_inj) (fun _ _ => trivial)
    (fun _ _ => trivial) hmore h
  refine ⟨k, by simpa [raw] using hk, ?_⟩
  rw [← t.value_raw, Raw.value, Raw.value, hnumber, hversion, hprograms, List.map_take]

/-- The descriptors fit their length fields. -/
def ProgramMap.InfoFits (t : ProgramMap) : Prop :=
  t.programInfo.length ≤ 4095 ∧ ∀ s ∈ t.streams, s.info.length ≤ 4095

/-- **So has a program map**, if what is in front of the cut is as long as it
states. -/
theorem ProgramMap.exists_value_eq_take {t : ProgramMap} {r : Raw} {more : List UInt8}
    (ht : t.InfoFits) (hr : r.IsSound) (hmore : more ≠ []) (h : r.body ++ more = t.raw.body) :
    ∃ k < t.streams.length, r.value =
      { t.carried with streams := t.carried.streams.take k, checksum := r.checksum } := by
  have hstreams : ∀ raw ∈ t.raw.streams, raw.IsSound := by
    intro raw hraw
    obtain ⟨s, hs, rfl⟩ := List.mem_map.1 hraw
    rw [StreamPid.Raw.IsSound, infoWord_mod]
    exact Nat.mod_eq_of_lt (Nat.lt_succ_of_le (ht.2 s hs))
  have hinfo : t.raw.infoLength.toNat % 4096 = t.raw.programInfo.length := by
    rw [raw, infoWord_mod]
    exact Nat.mod_eq_of_lt (Nat.lt_succ_of_le ht.1)
  simp only [Raw.body, List.append_assoc, List.cons_append, List.nil_append] at h
  obtain ⟨hnumber, h⟩ := word_append_inj h
  obtain ⟨hversion, h⟩ := List.cons.inj h
  obtain ⟨-, h⟩ := word_append_inj h
  obtain ⟨hclock, h⟩ := word_append_inj h
  obtain ⟨hlength, h⟩ := word_append_inj h
  rw [← hlength, hr.programInfo] at hinfo
  obtain ⟨hdescriptors, h⟩ := List.append_inj h hinfo
  obtain ⟨k, hk, htake⟩ := exists_eq_take_of_flatMap StreamPid.Raw.bytes_ne_nil
    StreamPid.Raw.append_inj hstreams hr.streams hmore h
  refine ⟨k, by simpa [raw] using hk, ?_⟩
  rw [← t.value_raw, Raw.value, Raw.value, hnumber, hversion, hclock, hdescriptors, htake,
    List.map_take]

/-! ## Tables of both kinds -/

namespace Table

variable {t t' : Table} {b' : ByteBuffer}

/-- The number of bytes that the section length of a table would have to
count. -/
def length : Table → Nat
  | .association t =>
    Association.fixedLength + t.programs.length * Association.programLength + checksumLength
  | .programMap t =>
    ProgramMap.fixedLength + t.programInfo.length +
      (t.streams.map fun s => StreamPid.fixedLength + s.info.length).sum + checksumLength

theorem fits_iff : t.Fits ↔ t.length ≤ 4095 := by
  cases t <;> exact Iff.rfl

/-- The descriptors of a table fit their length fields. -/
def InfoFits : Table → Prop
  | .association _ => True
  | .programMap t => t.InfoFits

/-- The number of entries. -/
def count : Table → Nat
  | .association t => t.programs.length
  | .programMap t => t.streams.length

/-- A table cut after some of its entries. -/
def cut : Table → Nat → Table
  | .association t, k => .association { t with programs := t.programs.take k }
  | .programMap t, k => .programMap { t with streams := t.streams.take k }

theorem length_body_envelope (t : Table) : t.envelope.body.length + checksumLength = t.length := by
  cases t with
  | association t =>
    rw [envelope, Association.Raw.envelope, t.raw.length_body, Association.raw, List.length_map]
    rfl
  | programMap t => exact t.raw.length_body.trans t.size_raw

/-- **A length that does not fit is stated modulo its field.** -/
theorem length_envelope_mod (t : Table) : t.envelope.length.toNat % 4096 = t.length % 4096 := by
  cases t with
  | association t =>
    refine (lengthWord_mod t.sectionLength).trans ?_
    rw [Association.sectionLength, UInt16.toNat_ofNat']
    exact Nat.mod_mod_of_dvd _ (by decide)
  | programMap t =>
    refine (lengthWord_mod t.sectionLength).trans ?_
    rw [ProgramMap.sectionLength, UInt16.toNat_ofNat']
    refine (Nat.mod_mod_of_dvd _ (by decide)).trans ?_
    rw [length, List.sum, List.foldr_map]

theorem statedLength_written (t : Table) : statedLength t.written = t.length % 4096 := by
  rw [written_eq_bytes, ← t.length_envelope_mod, ← t.envelope.statedLength_bytes [],
    List.append_nil]

theorem size_written (t : Table) : t.written.length = prologueLength + t.length := by
  rw [written_eq_bytes, Envelope.length_bytes, length_body_envelope]

/-- A section that is read off a table that does not fit ends within it. -/
theorem exists_body_eq_of_written {e : Envelope} {rest : List UInt8} (he : e.IsSound)
    (h : t.written = e.bytes ++ rest) (ht : ¬t.Fits) :
    ∃ more, more ≠ [] ∧ e.body ++ more = t.envelope.body := by
  have hstated := he.statedLength_append rest
  rw [← h, statedLength_written] at hstated
  have hbody := t.length_body_envelope
  rw [fits_iff] at ht
  exact Envelope.exists_body_eq (h.symm.trans t.written_eq_bytes) (by omega)

/-- **What is read of a table that does not fit is the front of it.** -/
theorem exists_cut_of_read (h : t.kind.read ⟨t.written⟩ = (.ok t', b')) (ht : ¬t.Fits)
    (hinfo : t.InfoFits) : ∃ k < t.count, t' = (t.carried.cut k).withChecksum t'.checksum := by
  cases t with
  | association t =>
    obtain ⟨r, hr, rfl, hwritten⟩ := read_association_eq_ok_iff.1 h
    obtain ⟨more, hmore, hbody⟩ :=
      exists_body_eq_of_written (Association.Raw.isSound_iff.1 hr) hwritten ht
    obtain ⟨k, hk, hvalue⟩ := Association.exists_value_eq_take hmore hbody
    exact ⟨k, hk, congrArg _ hvalue⟩
  | programMap t =>
    obtain ⟨r, hr, rfl, hwritten⟩ := read_programMap_eq_ok_iff.1 h
    obtain ⟨more, hmore, hbody⟩ :=
      exists_body_eq_of_written (ProgramMap.Raw.isSound_iff.1 hr).1 hwritten ht
    obtain ⟨k, hk, hvalue⟩ := ProgramMap.exists_value_eq_take hinfo hr hmore hbody
    exact ⟨k, hk, congrArg _ hvalue⟩

end Table

/-- **What is read of a table of any size.** A section states its length
modulo 4096. A table that fits is read back, as much of it as a section
carries. Of one that does not, the reader has only the bytes that the section
states, which the table goes on behind: unless these pass as they are, their
last four the checksum of those before, it refuses them, and keeps all. If
they pass and a table is read, it is of the stated length, and, of a table
with descriptors that fit their own lengths, it is the table cut after fewer
of its entries. -/
theorem read_written_cases (t : Table) :
    wholeLength t.written = prologueLength + t.length % 4096 ∧
    (t.Fits → t.kind.read ⟨t.written⟩ = (.ok t.carried, {})) ∧
    (¬t.Fits →
      (∀ fault, Crc.verify (t.written.take (wholeLength t.written)) = .error fault →
        t.kind.read ⟨t.written⟩ = (.error fault, ⟨t.written⟩) ∧
          (fault = .truncated ∨ ∃ carried computed, fault = .checksum carried computed)) ∧
      (∀ t' b', t.kind.read ⟨t.written⟩ = (.ok t', b') →
        Crc.verify (t.written.take (wholeLength t.written)) = .ok t'.checksum ∧
          t'.sectionLength.toNat = t.length % 4096 ∧
          (t.InfoFits → ∃ k < t.count, t' = (t.carried.cut k).withChecksum t'.checksum))) := by
  have hwhole : wholeLength t.written = prologueLength + t.length % 4096 := by
    rw [wholeLength, t.statedLength_written]
  refine ⟨hwhole, fun ht => ?_, fun ht => ⟨fun fault hverify => ?_, fun t' b' h => ?_⟩⟩
  · have hread := Table.read_written_append ht []
    rwa [List.append_nil] at hread
  · have hle : wholeLength t.written ≤ t.written.length := by
      rw [hwhole, t.size_written]
      exact Nat.add_le_add_left (Nat.mod_le _ _) _
    exact ⟨(t.kind.reading ⟨t.written⟩).eq_of_verify_error hle hverify,
      eq_truncated_or_checksum_of_verify hverify⟩
  · obtain ⟨e, he, hchecksum, hcontent, -, -, -, hlength, -⟩ := Table.exists_envelope_of_read h
    change t.written = e.bytes ++ b'.content at hcontent
    have hpasses := (he.isWhole_append b'.content).verified
    rw [← hcontent, hchecksum] at hpasses
    rw [← he.statedLength_append b'.content, ← hcontent, t.statedLength_written] at hlength
    exact ⟨hpasses, hlength, Table.exists_cut_of_read h ht⟩

/-! ## A table that is read as another one -/

/-- The section of an association without programs. -/
def emptySection : Association.Raw := ⟨0xB009, 0, 0xC1, 0, [], 0x334FF8A0⟩

/-- An association of which the first program is the checksum of that
section. -/
def sampleBefore (others : List ProgramPid) : Table :=
  .association ⟨0, 0, ⟨0x334F, 0x18A0⟩ :: others, 0⟩

/-- With 1023 more programs it states the length of that section, and is read
as it. -/
theorem read_sampleBefore {others : List ProgramPid} (h : others.length = 1023) :
    ∃ b', Table.Kind.association.read ⟨(sampleBefore others).written⟩ =
      (.ok (.association ⟨0, 0, [], 0x334FF8A0⟩), b') := by
  have hsound : emptySection.IsSound := ⟨by decide, by decide +kernel⟩
  have hlength : (sampleBefore others).sectionLength = 0x1009 := by
    simp only [sampleBefore, Table.sectionLength, Association.sectionLength, List.length_cons, h]
    rfl
  have hfront : emptySection.envelope.bytes <+: (sampleBefore others).content := by
    simp only [sampleBefore, Table.sectionLength] at hlength
    simp only [sampleBefore, Table.content, Association.content, hlength, List.flatMap_cons]
    exact ⟨_, rfl⟩
  rw [Table.written_eq]
  obtain ⟨rest, hrest⟩ := hfront.trans (List.prefix_append _ _)
  exact ⟨⟨rest⟩, Table.read_association_eq_ok_iff.2 ⟨emptySection, hsound, rfl, hrest.symm⟩⟩

/-- An association of 1024 programs. -/
def sampleOversized : Table := sampleBefore (List.replicate 1023 ⟨1, 0x100⟩)

/-- **It is written, and read as one without programs.** -/
theorem read_sampleOversized :
    sampleOversized.count = 1024 ∧
      ∃ t' b', sampleOversized.kind.read ⟨sampleOversized.written⟩ = (.ok t', b') ∧
        t'.count = 0 := by
  obtain ⟨b', hread⟩ := read_sampleBefore (List.length_replicate (n := 1023) (a := ⟨1, 0x100⟩))
  refine ⟨?_, _, b', hread, rfl⟩
  simp only [sampleOversized, sampleBefore, Table.count, List.length_cons, List.length_replicate]

/-- It has the stated length, and is cut in front of its first program. -/
theorem cut_sampleOversized :
    ¬sampleOversized.Fits ∧ ∃ t' b',
      sampleOversized.kind.read ⟨sampleOversized.written⟩ = (.ok t', b') ∧
        t'.sectionLength.toNat = 9 ∧
        ∃ k < sampleOversized.count,
          t' = (sampleOversized.carried.cut k).withChecksum t'.checksum := by
  have hlength : sampleOversized.length = 4105 := by
    simp only [sampleOversized, sampleBefore, Table.length, List.length_cons,
      List.length_replicate]
    rfl
  have hfits : ¬sampleOversized.Fits := by
    rw [Table.fits_iff, hlength]
    decide
  obtain ⟨b', hread⟩ := read_sampleBefore (List.length_replicate (n := 1023) (a := ⟨1, 0x100⟩))
  obtain ⟨-, hlen, hcut⟩ := ((read_written_cases sampleOversized).2.2 hfits).2 _ b' hread
  rw [hlength] at hlen
  exact ⟨hfits, _, b', hread, hlen, hcut trivial⟩

end Section

end ProgramStream
