import ProgramStream.Proofs.Build
import ProgramStream.Proofs.Section.Series
/-!
# Sections — what can go wrong behind the check

A table is read behind a look at the whole of its section (`IsChecked`). As
many bytes are there then as the section states, and they are enough for the
rest of the reader: it takes them all or finds them malformed
(`Parser.IsSettledBy`). So input that runs out, or has another checksum, is
seen before a byte is read, and what is read is the section and nothing else
(`IsChecked.reading`).
-/

namespace ProgramStream

open ProgramStream.Parser ProgramStream.Parser.State

variable {α β : Type}

namespace Parser

/-- With `n` whole bytes ahead, the parser takes all of them or finds them
malformed. -/
def IsSettledBy (p : Parser α) (n : Nat) : Prop :=
  ∀ s : State, s.IsAligned → n ≤ s.cursor.bytes.length →
    (∃ a t, p s = .ok a t ∧ t.IsAligned ∧ t.cursor.bytes = s.cursor.bytes.drop n) ∨
      ∃ what t, p s = .error (.malformed what) t

namespace IsSettledBy

variable {p : Parser α} {m n : Nat}

/-- A parser that has a value of any `n` bytes. -/
theorem of_takes (h : ∀ bs : List UInt8, bs.length = n → ∃ a, ∀ {s t : State}, s.IsAligned →
    s.Takes (Bits.ofBytes bs) [] t → p s = .ok a t) : p.IsSettledBy n := by
  intro s hs hlen
  obtain ⟨a, ha⟩ := h (s.cursor.bytes.take n) (List.length_take_of_le hlen)
  have htakes := BitCursor.takes_bytes hs (List.take_append_drop n s.cursor.bytes).symm
  exact .inl ⟨a, _, ha (t := ⟨_, s.warnings⟩) hs (takes_nil_warnings_iff.2 ⟨htakes, rfl⟩), rfl, rfl⟩

/-- A parser that has a value of any word. -/
theorem of_word (h : ∀ w : UInt16, ∃ a, ∀ {s t : State},
    s.Takes (Bits.ofField w.toBitVec) [] t → p s = .ok a t) : p.IsSettledBy 2 := by
  refine of_takes fun bs hlen => ?_
  obtain ⟨a, ha⟩ := h ⟨BitVec.ofNat 16 (Bits.toNat (Bits.ofBytes bs))⟩
  refine ⟨a, fun _ htakes => ha ?_⟩
  rwa [← (Bits.ofNat_toNat_eq_iff (by simp [hlen])).1 rfl]

theorem pure (a : α) (h : n = 0) : (Pure.pure a : Parser α).IsSettledBy n :=
  fun s hs _ => .inl ⟨a, s, rfl, hs, by rw [h, List.drop_zero]⟩

/-- **One parser after the other is settled by the bytes of both.** -/
theorem bind {f : α → Parser β} (hp : p.IsSettledBy m) (h : m ≤ n)
    (hf : ∀ a, (f a).IsSettledBy (n - m)) : (p >>= f).IsSettledBy n := by
  intro s hs hlen
  rcases hp s hs (h.trans hlen) with ⟨a, t, hpa, ht, hbytes⟩ | ⟨what, t, hpa⟩
  · rw [bind_of_ok hpa]
    have hleft : n - m ≤ t.cursor.bytes.length := by
      rw [hbytes, List.length_drop]
      omega
    rcases hf a t ht hleft with ⟨b, u, hfb, hu, hbytes'⟩ | hfb
    · exact .inl ⟨b, u, hfb, hu, by rw [hbytes', hbytes, List.drop_drop, Nat.add_sub_cancel' h]⟩
    · exact .inr hfb
  · exact .inr ⟨what, t, bind_of_error hpa⟩

theorem throw (what : Malformation) :
    (MonadExcept.throw (.malformed what) : Parser α).IsSettledBy n :=
  fun s _ _ => .inr ⟨what, s, rfl⟩

theorem throw_bind (what : Malformation) (f : α → Parser β) :
    ((MonadExcept.throw (.malformed what) : Parser α) >>= f).IsSettledBy n :=
  fun s _ _ => .inr ⟨what, s, rfl⟩

theorem ite {c : Prop} [Decidable c] {p q : Parser α} (hp : c → p.IsSettledBy n)
    (hq : ¬c → q.IsSettledBy n) : (if c then p else q).IsSettledBy n := by
  split
  · exact hp ‹_›
  · exact hq ‹_›

end IsSettledBy

/-! ## The readers of a table -/

theorem isSettledBy_byte : byte.IsSettledBy 1 :=
  .of_takes fun bs hlen => by
    obtain ⟨b, rfl⟩ := List.length_eq_one_iff.1 hlen
    exact ⟨b, fun hs h => byte_eq_ok_iff.2 ⟨hs, by simpa using h⟩⟩

theorem isSettledBy_bytes (n : Nat) : (bytes n).IsSettledBy n :=
  .of_takes fun bs hlen => ⟨bs, fun hs h => bytes_eq_ok_iff.2 ⟨hs, hlen, h⟩⟩

theorem isSettledBy_field16 : field16.IsSettledBy 2 :=
  .of_word fun w => ⟨w, field16_eq_ok_iff.2⟩

end Parser

namespace Section

theorem isSettledBy_reserved16 : (reserved 16).IsSettledBy 2 :=
  .of_word fun w => ⟨(), fun h => reserved16_eq_ok_iff.2 ⟨w, h⟩⟩

theorem isSettledBy_reserved32 : (reserved 32).IsSettledBy 4 :=
  .of_takes fun bs hlen => ⟨(), fun _ h => reserved32_eq_ok_iff.2
    ⟨⟨BitVec.ofNat 32 (Bits.toNat (Bits.ofBytes bs))⟩, by
      rwa [← (Bits.ofNat_toNat_eq_iff (by simp [hlen])).1 rfl]⟩⟩

theorem isSettledBy_parsePid : parsePid.IsSettledBy 2 :=
  .of_word fun w => ⟨w % 8192, fun h => parsePid_eq_ok_iff.2 ⟨w, rfl, h⟩⟩

theorem isSettledBy_parseLength : parseLength.IsSettledBy 2 :=
  .of_word fun w => ⟨w.toNat % 4096, fun h => parseLength_eq_ok_iff.2 ⟨w, rfl, h⟩⟩

theorem isSettledBy_parseVersion : parseVersion.IsSettledBy 1 :=
  .of_takes fun bs hlen => by
    obtain ⟨b, rfl⟩ := List.length_eq_one_iff.1 hlen
    exact ⟨b / 2 % 32, fun _ h => parseVersion_eq_ok_iff.2 ⟨b, rfl, by simpa using h⟩⟩

theorem Association.isSettledBy_parsePrograms (n : Nat) :
    (parsePrograms n).IsSettledBy (n * programLength) := by
  induction n with
  | zero => exact .pure [] (Nat.zero_mul _)
  | succ n ih =>
    have hlen : (n + 1) * programLength = 4 + n * programLength := by
      simp only [programLength]
      omega
    refine isSettledBy_field16.bind (by omega) fun number => ?_
    refine isSettledBy_parsePid.bind (by omega) fun pid => ?_
    exact ih.bind (by omega) fun programs => .pure _ (by omega)

/-- Streams are never read past what remains of their section. -/
theorem ProgramMap.isSettledBy_parseStreams (remaining : Nat) :
    (parseStreams remaining).IsSettledBy remaining := by
  fun_induction parseStreams remaining with
  | case1 => exact .pure [] rfl
  | case2 remaining _ _ => exact .throw (.streamTail remaining)
  | case3 remaining _ hlong ih =>
    simp only [StreamPid.fixedLength] at hlong
    refine isSettledBy_byte.bind (by omega) fun type => ?_
    refine isSettledBy_parsePid.bind (by omega) fun pid => ?_
    refine isSettledBy_parseLength.bind (by omega) fun infoLength => ?_
    refine .ite (fun _ => .throw_bind (.streamInfo infoLength pid.toNat) _) fun hfits => ?_
    simp only [StreamPid.fixedLength] at hfits
    refine (isSettledBy_bytes infoLength).bind (by omega) fun info => ?_
    have hrest := ih infoLength
    simp only [StreamPid.fixedLength] at hrest
    exact hrest.bind (by omega) fun streams => .pure _ (by omega)

/-! ## Tables -/

/-- The word at some place of a byte string, as far as the bytes go. -/
def wordAt (bytes : List UInt8) (i : Nat) : Nat := ByteOrder.big.value ((bytes.drop i).take 2)

/-- The length that a section states. -/
def statedLength (bytes : List UInt8) : Nat := wordAt bytes 1 % 4096

/-- The length of the whole section. -/
def wholeLength (bytes : List UInt8) : Nat := prologueLength + statedLength bytes

/-- A reader of a table: behind the check, the section is enough for it. -/
def IsChecked (p : Parser α) : Prop :=
  ∃ f : Nat × UInt32 → Parser α, p = check >>= f ∧
    ∀ length checksum, (f (length, checksum)).IsSettledBy (prologueLength + length)

theorem Association.isChecked_parse : IsChecked Association.parse := by
  refine ⟨_, rfl, fun length checksum => ?_⟩
  simp only [prologueLength, fixedLength, checksumLength, programLength]
  refine isSettledBy_byte.bind (by omega) fun id => ?_
  refine .ite (fun _ => .throw_bind (.notAssociation id) _) fun _ => ?_
  refine isSettledBy_reserved16.bind (by omega) fun _ => ?_
  refine .ite (fun _ => .throw_bind (.associationLength length) _) fun hlength => ?_
  refine isSettledBy_field16.bind (by omega) fun number => ?_
  refine isSettledBy_parseVersion.bind (by omega) fun version => ?_
  refine isSettledBy_reserved16.bind (by omega) fun _ => ?_
  have hprograms := isSettledBy_parsePrograms ((length - 9) / 4)
  simp only [programLength] at hprograms
  refine hprograms.bind (by omega) fun programs => ?_
  exact isSettledBy_reserved32.bind (by omega) fun _ => .pure _ (by omega)

theorem ProgramMap.isChecked_parse : IsChecked ProgramMap.parse := by
  refine ⟨_, rfl, fun length checksum => ?_⟩
  simp only [prologueLength, fixedLength, checksumLength]
  refine isSettledBy_byte.bind (by omega) fun id => ?_
  refine .ite (fun _ => .throw_bind (.notProgramMap id) _) fun _ => ?_
  refine isSettledBy_reserved16.bind (by omega) fun _ => ?_
  refine .ite (fun _ => .throw_bind (.programMapLength length) _) fun hlength => ?_
  refine isSettledBy_field16.bind (by omega) fun number => ?_
  refine isSettledBy_parseVersion.bind (by omega) fun version => ?_
  refine isSettledBy_reserved16.bind (by omega) fun _ => ?_
  refine isSettledBy_parsePid.bind (by omega) fun clockPid => ?_
  refine isSettledBy_parseLength.bind (by omega) fun infoLength => ?_
  refine .ite (fun _ => .throw_bind (.programInfo infoLength) _) fun hfits => ?_
  refine (isSettledBy_bytes infoLength).bind (by omega) fun info => ?_
  refine (isSettledBy_parseStreams _).bind (by omega) fun streams => ?_
  exact isSettledBy_reserved32.bind (by omega) fun _ => .pure _ (by omega)

variable {s : Parser.State} {n : Nat}

theorem peek_of_le (hs : s.IsAligned) (h : n ≤ s.cursor.bytes.length) :
    peek n s = .ok (s.cursor.bytes.take n) s :=
  peek_eq_ok_iff.2 ⟨rfl, hs, List.length_take_of_le h, List.take_prefix n s.cursor.bytes⟩

theorem peek_of_lt (hs : s.IsAligned) (h : s.cursor.bytes.length < n) :
    peek n s = .error .truncated s := by
  obtain ⟨⟨pending, bytes, taken, hlt⟩, ws⟩ := s
  change pending = [] at hs
  subst hs
  have hnone : splitFront? n bytes = none := splitFront?_eq_none_iff.2 h
  simp only [peek, ofCursor, BitCursor.peekBytes, BitCursor.readBytes, hnone, Except.map]
  rfl

/-- The check needs the whole section, -/
theorem check_of_lt (hs : s.IsAligned)
    (h : s.cursor.bytes.length < wholeLength s.cursor.bytes) :
    check s = .error .truncated s := by
  rw [check]
  rcases Nat.lt_or_ge s.cursor.bytes.length prologueLength with hhead | hhead
  · exact bind_of_error (peek_of_lt hs hhead)
  · rw [bind_of_ok (peek_of_le hs hhead), List.drop_take]
    exact bind_of_error (peek_of_lt hs h)

/-- and looks at its bytes only. -/
theorem check_of_le (hs : s.IsAligned)
    (h : wholeLength s.cursor.bytes ≤ s.cursor.bytes.length) :
    check s =
      match Crc.verify (s.cursor.bytes.take (wholeLength s.cursor.bytes)) with
      | .ok carried => .ok (statedLength s.cursor.bytes, carried) s
      | .error fault => .error fault s := by
  rw [check, bind_of_ok (peek_of_le hs ((Nat.le_add_right _ _).trans h)), List.drop_take]
  refine (bind_of_ok (peek_of_le hs h)).trans ?_
  cases Crc.verify (s.cursor.bytes.take (wholeLength s.cursor.bytes)) <;> rfl

/-- A section that does not pass is too short or has another checksum. -/
theorem eq_truncated_or_checksum_of_verify {bytes : List UInt8} {fault : Fault}
    (h : Crc.verify bytes = .error fault) :
    fault = .truncated ∨ ∃ carried computed, fault = .checksum carried computed := by
  unfold Crc.verify at h
  split at h
  · cases h
    exact .inl rfl
  · simp only at h
    split at h
    · cases h
    · cases h
      exact .inr ⟨_, _, rfl⟩

/-- What comes of reading a table off a buffer: a result and what is left. -/
inductive Reading (b : ByteBuffer) : Except Fault α × ByteBuffer → Prop where
  /-- the section is not all there -/
  | truncated (h : b.size < wholeLength b.content) : Reading b (.error .truncated, b)
  /-- it has another checksum -/
  | refused {fault : Fault} (h : wholeLength b.content ≤ b.size)
      (hverify : Crc.verify (b.content.take (wholeLength b.content)) = .error fault) :
      Reading b (.error fault, b)
  /-- its contents do not fit together -/
  | malformed {what : Malformation} {carried : UInt32} {b' : ByteBuffer}
      (h : wholeLength b.content ≤ b.size)
      (hverify : Crc.verify (b.content.take (wholeLength b.content)) = .ok carried) :
      Reading b (.error (.malformed what), b')
  | ok {a : α} {carried : UInt32} (h : wholeLength b.content ≤ b.size)
      (hverify : Crc.verify (b.content.take (wholeLength b.content)) = .ok carried) :
      Reading b (.ok a, ⟨b.content.drop (wholeLength b.content)⟩)

/-- A section that does not pass is refused for that. -/
theorem Reading.eq_of_verify_error {b : ByteBuffer} {r : Except Fault α × ByteBuffer}
    {fault : Fault} (h : Reading b r) (hwhole : wholeLength b.content ≤ b.size)
    (hverify : Crc.verify (b.content.take (wholeLength b.content)) = .error fault) :
    r = (.error fault, b) := by
  cases h with
  | truncated hshort => exact absurd hwhole (Nat.not_le.2 hshort)
  | refused _ hrefused =>
    cases hrefused.symm.trans hverify
    rfl
  | malformed _ hpasses => cases hpasses.symm.trans hverify
  | ok _ hpasses => cases hpasses.symm.trans hverify

/-- A table is refused for these reasons only. -/
theorem Reading.fault_cases {b b' : ByteBuffer} {fault : Fault}
    (h : Reading b ((.error fault : Except Fault α), b')) :
    fault = .truncated ∨ (∃ carried computed, fault = .checksum carried computed) ∨
      ∃ what, fault = .malformed what := by
  cases h with
  | truncated _ => exact .inl rfl
  | refused _ hverify => exact (eq_truncated_or_checksum_of_verify hverify).imp_right .inl
  | malformed _ _ => exact .inr (.inr ⟨_, rfl⟩)

/-- **A table is refused before its section is read, or settled by it.** -/
theorem IsChecked.reading {p : Parser α} (hp : IsChecked p) (b : ByteBuffer) :
    Reading b (b.parse p) := by
  obtain ⟨f, rfl, hf⟩ := hp
  let s := Parser.State.ofBytes b.content
  have hs : s.IsAligned := isAligned_ofBytes b.content
  rcases Nat.lt_or_ge b.size (wholeLength b.content) with hshort | hwhole
  · have hcheck : check s = .error .truncated s := check_of_lt hs hshort
    rw [ByteBuffer.parse, run_of_error (bind_of_error hcheck)]
    exact .truncated hshort
  · have hcheck := check_of_le hs hwhole
    cases hverify : Crc.verify (s.cursor.bytes.take (wholeLength s.cursor.bytes)) with
    | error fault =>
      rw [hverify] at hcheck
      rw [ByteBuffer.parse, run_of_error (bind_of_error hcheck)]
      exact .refused hwhole hverify
    | ok carried =>
      rw [hverify] at hcheck
      rcases hf (statedLength b.content) carried s hs hwhole with
        ⟨a, t, hparse, -, hbytes⟩ | ⟨what, t, hparse⟩
      · rw [ByteBuffer.parse, run_of_ok ((bind_of_ok hcheck).trans hparse), hbytes]
        exact .ok hwhole hverify
      · rw [ByteBuffer.parse, run_of_error ((bind_of_ok hcheck).trans hparse)]
        exact .malformed hwhole hverify

/-- Tables of both kinds are read so. -/
theorem Table.Kind.reading (kind : Kind) (b : ByteBuffer) : Reading b (kind.read b) := by
  have hmap {α : Type} (f : α → Table) {r : Except Fault α × ByteBuffer} (h : Reading b r) :
      Reading b (r.map (Except.map f) id) := by
    cases h with
    | truncated h => exact .truncated h
    | refused h hverify => exact .refused h hverify
    | malformed h hverify => exact .malformed h hverify
    | ok h hverify => exact .ok h hverify
  cases kind with
  | association => exact hmap _ (Association.isChecked_parse.reading b)
  | programMap => exact hmap _ (ProgramMap.isChecked_parse.reading b)

end Section

end ProgramStream
