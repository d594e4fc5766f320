import Mathlib.Data.List.Basic
import ProgramStream.Proofs.Crc
import ProgramStream.Proofs.Parser
import ProgramStream.Section.Basic
/-!
# Sections — their words, their length and their checksum

The narrow fields of a section each fill a word together with reserved bits,
and are read off that word as what it leaves when divided by a power of two
(`parsePid_eq_ok_iff` and its like). What is written in the reserved bits of
a word does not come back (`mod_of_or`). The checksum of a section is looked
at before anything is read, over as many bytes as the section says it has
(`check_eq_ok_iff`). Sections of all kinds have their length and their
checksum around a body (`Envelope`), and for one that is read to its end the
look at it is a condition on its bytes (`Envelope.check_eq_ok_iff`).
-/

namespace ProgramStream

open ProgramStream.Parser ProgramStream.Parser.State

namespace Section

variable {α : Type} {s s' : Parser.State}

/-! ## Words -/

/-- Sixteen reserved bits are a word of any value. -/
theorem reserved16_eq_ok_iff {a : Unit} :
    reserved 16 s = .ok a s' ↔ ∃ w : UInt16, s.Takes (Bits.ofField w.toBitVec) [] s' := by
  rw [reserved_eq_ok_iff (by decide)]
  exact ⟨fun ⟨w, h⟩ => ⟨⟨w⟩, h⟩, fun ⟨w, h⟩ => ⟨w.toBitVec, h⟩⟩

/-- So are thirty-two. -/
theorem reserved32_eq_ok_iff {a : Unit} :
    reserved 32 s = .ok a s' ↔ ∃ w : UInt32, s.Takes (Bits.ofField w.toBitVec) [] s' := by
  rw [reserved_eq_ok_iff (by decide)]
  exact ⟨fun ⟨w, h⟩ => ⟨⟨w⟩, h⟩, fun ⟨w, h⟩ => ⟨w.toBitVec, h⟩⟩

/-- A field behind reserved bits is read off the word they fill together. -/
theorem reserved_field_eq_ok_iff {k n : Nat} (hk : k ≤ 64) (hn : n ≤ 64) {f : Nat → α} {a : α} :
    (do
      reserved k
      let v ← field n
      return f v.toNat : Parser α) s = .ok a s' ↔
      ∃ w : BitVec (k + n), f (w.toNat % 2 ^ n) = a ∧ s.Takes (Bits.ofField w) [] s' := by
  simp only [bind_eq_ok_iff, reserved_eq_ok_iff hk, field_eq_ok_iff hn, pure_eq_ok_iff]
  have hlow (u : BitVec k) (v : BitVec n) : (u ++ v).toNat % 2 ^ n = v.toNat := by
    rw [Bits.toNat_append_field, Nat.mul_add_mod_self_right, Nat.mod_eq_of_lt v.isLt]
  constructor
  · rintro ⟨_, _, ⟨u, h₁⟩, v, _, h₂, rfl, rfl⟩
    refine ⟨u ++ v, by rw [hlow], ?_⟩
    rw [Bits.ofField_append]
    exact h₁.trans h₂
  · rintro ⟨w, rfl, h⟩
    obtain ⟨u, v, rfl⟩ := Bits.exists_append_field w
    rw [Bits.ofField_append] at h
    obtain ⟨_, h₁, h₂⟩ := takes_append_last_iff.1 h
    exact ⟨(), _, ⟨u, h₁⟩, v, _, h₂, by rw [hlow], rfl⟩

/-- A pid is the low thirteen bits of a word. -/
theorem parsePid_eq_ok_iff {pid : UInt16} :
    parsePid s = .ok pid s' ↔
      ∃ w : UInt16, w % 8192 = pid ∧ s.Takes (Bits.ofField w.toBitVec) [] s' := by
  rw [parsePid, reserved_field_eq_ok_iff (k := 3) (n := 13) (by decide) (by decide)]
  have hmod (w : UInt16) : UInt16.ofNat (w.toNat % 2 ^ 13) = w % 8192 := by
    rw [← UInt16.toNat_inj]
    simp
    omega
  constructor
  · rintro ⟨w, rfl, h⟩
    exact ⟨⟨w⟩, (hmod _).symm, h⟩
  · rintro ⟨w, rfl, h⟩
    exact ⟨w.toBitVec, hmod w, h⟩

/-- A length is the low twelve bits of a word. -/
theorem parseLength_eq_ok_iff {n : Nat} :
    parseLength s = .ok n s' ↔
      ∃ w : UInt16, w.toNat % 4096 = n ∧ s.Takes (Bits.ofField w.toBitVec) [] s' := by
  refine (reserved_field_eq_ok_iff (f := fun n => n) (k := 4) (n := 12) (by decide)
    (by decide)).trans ?_
  constructor
  · rintro ⟨w, rfl, h⟩
    exact ⟨⟨w⟩, rfl, h⟩
  · rintro ⟨w, rfl, h⟩
    exact ⟨w.toBitVec, rfl, h⟩

/-- A version is what is left in the middle of a byte. -/
theorem parseVersion_eq_ok_iff {version : UInt8} :
    parseVersion s = .ok version s' ↔
      ∃ b : UInt8, b / 2 % 32 = version ∧ s.Takes (Bits.ofByte b) [] s' := by
  simp (disch := decide) only [parseVersion, bind_eq_ok_iff, reserved_eq_ok_iff, field_eq_ok_iff,
    pure_eq_ok_iff]
  have hmiddle (u : BitVec 2) (v : BitVec 5) (w : BitVec 1) :
      (⟨u ++ v ++ w⟩ : UInt8) / 2 % 32 = UInt8.ofNat v.toNat := by
    have hnat : (u ++ v ++ w).toNat = (u.toNat * 2 ^ 5 + v.toNat) * 2 ^ 1 + w.toNat := by
      rw [Bits.toNat_append_field, Bits.toNat_append_field]
    have hv := v.isLt
    have hw := w.isLt
    rw [← UInt8.toNat_inj, UInt8.toNat_mod, UInt8.toNat_div,
      UInt8.toNat_ofNat_of_lt' (show _ < 256 by omega)]
    change (u ++ v ++ w).toNat / 2 % 32 = v.toNat
    omega
  constructor
  · rintro ⟨_, _, ⟨u, h₁⟩, v, _, h₂, _, _, ⟨w, h₃⟩, rfl, rfl⟩
    refine ⟨⟨u ++ v ++ w⟩, hmiddle u v w, ?_⟩
    have hbits := (h₁.trans h₂).trans h₃
    rwa [← Bits.ofField_append, ← Bits.ofField_append] at hbits
  · rintro ⟨⟨b⟩, rfl, h⟩
    obtain ⟨x, w, rfl⟩ := Bits.exists_append_field (k := 7) (n := 1) b
    obtain ⟨u, v, rfl⟩ := Bits.exists_append_field (k := 2) (n := 5) x
    replace h : s.Takes (Bits.ofField (u ++ v ++ w)) [] s' := h
    rw [Bits.ofField_append, Bits.ofField_append, takes_append_last_iff] at h
    obtain ⟨_, h, h₃⟩ := h
    obtain ⟨_, h₁, h₂⟩ := takes_append_last_iff.1 h
    exact ⟨(), _, ⟨u, h₁⟩, v, _, h₂, (), _, ⟨w, h₃⟩, (hmiddle u v w).symm, rfl⟩

/-! ## What is written comes back -/

/-- What stands above some low bits of a word is not seen in them. -/
theorem mod_of_or {high n : Nat} (h : high % 2 ^ n = 0) (x : Nat) :
    (high ||| x) % 2 ^ n = x % 2 ^ n := by
  rw [Nat.or_mod_two_pow, h, Nat.zero_or]

theorem lengthWord_mod (length : UInt16) :
    (0xB000 ||| length).toNat % 4096 = length.toNat % 4096 := by
  rw [UInt16.toNat_or]
  exact mod_of_or (n := 12) (by decide) _

theorem infoWord_mod (n : Nat) :
    (0xF000 ||| (UInt16.ofNat n &&& 0x0FFF)).toNat % 4096 = n % 4096 := by
  rw [UInt16.toNat_or, UInt16.toNat_and]
  refine (mod_of_or (n := 12) (by decide) _).trans ?_
  rw [show (0x0FFF : UInt16).toNat = 2 ^ 12 - 1 from rfl, Nat.and_two_pow_sub_one_eq_mod,
    UInt16.toNat_ofNat']
  omega

theorem pidWord_mod (pid : UInt16) : (0xE000 ||| (pid &&& 0x1FFF)) % 8192 = pid % 8192 := by
  rw [← UInt16.toNat_inj, UInt16.toNat_mod, UInt16.toNat_mod, UInt16.toNat_or, UInt16.toNat_and]
  refine (mod_of_or (n := 13) (by decide) _).trans ?_
  rw [show (0x1FFF : UInt16).toNat = 2 ^ 13 - 1 from rfl, Nat.and_two_pow_sub_one_eq_mod,
    Nat.mod_mod]
  rfl

theorem versionByte_div (version : UInt8) : versionByte version / 2 % 32 = version % 32 := by
  have h : ∀ b : Fin 256, versionByte (UInt8.ofFin b) / 2 % 32 = UInt8.ofFin b % 32 := by
    decide +kernel
  exact h version.toFin

/-! ## The checksum -/

/-- **A section is looked at as a whole**, and stays ahead. -/
theorem check_eq_ok_iff {length : Nat} {carried : UInt32} :
    check s = .ok (length, carried) s' ↔
      s' = s ∧ s.IsAligned ∧ ∃ id high low body,
        body.length = length ∧ ByteOrder.big.value [high, low] % 4096 = length ∧
          id :: high :: low :: body <+: s.cursor.bytes ∧
          Crc.verify (id :: high :: low :: body) = .ok carried := by
  simp only [check, bind_eq_ok_iff, peek_eq_ok_iff]
  constructor
  · rintro ⟨head, _, ⟨rfl, haligned, hhead, hahead⟩, whole, _, ⟨rfl, -, hwhole, hahead'⟩, hverify⟩
    match head, hhead with
    | [id, high, low], _ =>
      -- both looks are at the same bytes, so the second begins with the first
      obtain ⟨body, rfl⟩ := List.prefix_of_prefix_length_le hahead hahead'
        (by rw [hwhole]; simp [prologueLength])
      cases hresult : Crc.verify ([id, high, low] ++ body) with
      | ok found =>
        rw [hresult] at hverify
        obtain ⟨hpair, rfl⟩ := pure_eq_ok_iff.1 hverify
        cases hpair
        refine ⟨rfl, haligned, id, high, low, body, ?_, rfl, hahead', hresult⟩
        simp only [prologueLength, List.length_append, List.length_cons, List.length_nil,
          List.drop_succ_cons, List.drop_zero] at hwhole ⊢
        omega
      | error fault =>
        rw [hresult] at hverify
        exact (throw_eq_ok_iff.1 hverify).elim
  · rintro ⟨rfl, haligned, id, high, low, body, hlen, rfl, hahead, hverify⟩
    refine ⟨[id, high, low], s', ⟨rfl, haligned, rfl, ?_⟩, id :: high :: low :: body, s',
      ⟨rfl, haligned, ?_, hahead⟩, ?_⟩
    · exact List.IsPrefix.trans ⟨body, rfl⟩ hahead
    · simp only [prologueLength, List.length_cons, List.drop_succ_cons, List.drop_zero, hlen]
      omega
    · rw [hverify]
      rfl

/-! ## Envelopes -/

/-- A section as it stands in a buffer, its body not looked into. -/
structure Envelope where
  tableId : UInt8
  /-- flags, and the section length -/
  length : UInt16
  body : List UInt8
  checksum : UInt32
  deriving DecidableEq, Repr

namespace Envelope

/-- The bytes the checksum is for. -/
def content (e : Envelope) : List UInt8 :=
  e.tableId :: (ByteOrder.big.bytes 2 e.length.toNat ++ e.body)

/-- The bytes of the section. -/
def bytes (e : Envelope) : List UInt8 := e.content ++ ByteOrder.big.bytes 4 e.checksum.toNat

/-- The length is that of what follows it, and the checksum that of the bytes
before it. -/
structure IsSound (e : Envelope) : Prop where
  length : e.length.toNat % 4096 = e.body.length + checksumLength
  checksum : Crc.compute e.content = e.checksum

variable {e : Envelope}

theorem length_bytes (e : Envelope) :
    e.bytes.length = prologueLength + (e.body.length + checksumLength) := by
  simp only [bytes, content, List.length_append, List.length_cons, ByteOrder.length_bytes,
    prologueLength, checksumLength]
  omega

/-- An envelope is laid out as its words and its body. -/
theorem ofBytes_bytes (e : Envelope) :
    Bits.ofBytes e.bytes =
      Bits.ofByte e.tableId ++ (Bits.ofField e.length.toBitVec ++ (Bits.ofBytes e.body ++
        Bits.ofField e.checksum.toBitVec)) := by
  simp only [bytes, content, Bits.ofBytes_append, Bits.ofBytes_cons, Bits.ofField_word,
    Bits.ofField_word32, List.append_assoc]

/-- **An envelope that is read to its end was looked at as it was read.** It
passed if it is sound. -/
theorem check_eq_ok_iff {carried : UInt32} (hs : s.IsAligned)
    (h : s.Takes (Bits.ofBytes e.bytes) [] s') :
    check s = .ok (e.body.length + checksumLength, carried) s ↔
      e.IsSound ∧ e.checksum = carried := by
  have hahead := (BitCursor.eq_of_takes_bytes hs h.cursor).1
  have hword : ByteOrder.big.value (ByteOrder.big.bytes 2 e.length.toNat) = e.length.toNat := by
    rw [ByteOrder.value_bytes]
    exact Nat.mod_eq_of_lt e.length.toNat_lt
  have hcount : (ByteOrder.big.bytes 2 e.length.toNat).length = 2 := ByteOrder.length_bytes _ _ _
  obtain ⟨high, low, hpair⟩ : ∃ high low, ByteOrder.big.bytes 2 e.length.toNat = [high, low] :=
    List.length_eq_two.1 hcount
  have hbytes : e.bytes =
      e.tableId :: high :: low :: (e.body ++ ByteOrder.big.bytes 4 e.checksum.toNat) := by
    rw [bytes, content, hpair]
    rfl
  rw [hpair] at hword
  rw [Section.check_eq_ok_iff]
  constructor
  · rintro ⟨-, -, id, high', low', body, hbody, hlength, ⟨back, hback⟩, hverify⟩
    -- as many bytes are looked at as are read
    have hlen : (id :: high' :: low' :: body).length = e.bytes.length := by
      simp only [length_bytes, List.length_cons, hbody, prologueLength]
      omega
    obtain ⟨hsame, -⟩ := List.append_inj (hback.trans hahead) hlen
    rw [hsame] at hverify
    rw [hbytes] at hsame
    cases hsame
    obtain ⟨rfl, hcompute⟩ := Crc.verify_append_eq_ok_iff.1 hverify
    exact ⟨⟨hword ▸ hlength, hcompute⟩, rfl⟩
  · rintro ⟨⟨hlength, hcompute⟩, rfl⟩
    refine ⟨rfl, hs, e.tableId, high, low, e.body ++ ByteOrder.big.bytes 4 e.checksum.toNat,
      by simp [checksumLength], hword.symm ▸ hlength, ?_, ?_⟩
    · rw [← hbytes]
      exact ⟨_, hahead.symm⟩
    · rw [← hbytes]
      exact Crc.verify_append_eq_ok_iff.2 ⟨rfl, hcompute⟩

/-- What a new writer makes of a content is an envelope with the checksum of
that content, and the writer is left as new. -/
theorem put_content (h : Crc.compute e.content = e.checksum) :
    Writer.put {} e.content = (e.bytes, {}) := by
  simp only [Writer.put, List.nil_append, h, bytes]

end Envelope

end Section

end ProgramStream
