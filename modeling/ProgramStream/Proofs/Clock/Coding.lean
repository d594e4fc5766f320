import ProgramStream.Proofs.Clock
/-!
# Timestamps — five bytes for a code and a count

The bytes of a timestamp are what shifts and masks of machine words make of
its code and its count, whatever high bits those have (`bytes_eq_wordBytes`).
They are read back as the code and the count without the high bits, and five
bytes that are read as a timestamp are the bytes of it, so that timestamps that
fit their fields and byte strings that are read are the same thing twice
(`run_parse_iff_bytes`).
-/

namespace ProgramStream

open ProgramStream.Parser ProgramStream.Parser.State

variable {start : BitCursor}

namespace Bits

/-- A byte with the number of some bits has those bits. -/
theorem ofByte_of_toNat {b : UInt8} {bits : List Bool} (hlen : bits.length = 8)
    (h : b.toNat = toNat bits) : ofByte b = bits := by
  rw [ofByte, h, ofNat_toNat_of_length hlen]

/-- A count is laid out without the bits above it. -/
theorem ofCount33_mod (n : Nat) : ofCount33 (n % 2 ^ 33) = ofCount33 n := by
  have hhigh : (n % 2 ^ 33) >>> 30 % 2 ^ 3 = n >>> 30 % 2 ^ 3 := by
    simp only [Nat.shiftRight_eq_div_pow]
    omega
  have hmiddle : (n % 2 ^ 33) >>> 15 % 2 ^ 15 = n >>> 15 % 2 ^ 15 := by
    simp only [Nat.shiftRight_eq_div_pow]
    omega
  have hlow : n % 2 ^ 33 % 2 ^ 15 = n % 2 ^ 15 := by omega
  rw [ofCount33, ← ofNat_mod 3, ← ofNat_mod 15, ← ofNat_mod 15 (n % 2 ^ 33), hhigh, hmiddle, hlow,
    ofNat_mod, ofNat_mod, ofNat_mod, ofCount33]

end Bits

namespace Timestamp

/-! ## The bytes by machine words -/

/-- A code, three bits of a count and a marker. -/
def leadByte (code : UInt8) (n : UInt64) : UInt8 :=
  code <<< 4 ||| (n &&& 0x07).toUInt8 <<< 1 ||| 0x01

/-- Fifteen bits of a count and a marker. -/
def markedWord (n : UInt64) : UInt16 := (n &&& 0x7FFF).toUInt16 <<< 1 ||| 0x01

/-- The bytes of a timestamp, by shifts and masks. -/
def wordBytes (code : UInt8) (value : UInt64) : List UInt8 :=
  let count := value &&& 0x1FFFFFFFF
  leadByte code (count >>> 30) ::
    (ByteOrder.big.bytes 2 (markedWord (count >>> 15)).toNat ++
      ByteOrder.big.bytes 2 (markedWord count).toNat)

/-- A marker below a number. -/
theorem shiftLeft_or_one (n : Nat) : n <<< 1 ||| 1 = n * 2 ^ 1 + 1 := by
  rw [← Nat.shiftLeft_add_eq_or_of_lt (by decide), Nat.shiftLeft_eq]

theorem toNat_leadByte (code : UInt8) (n : UInt64) :
    (leadByte code n).toNat = (code.toNat % 2 ^ 4) * 2 ^ 4 + ((n.toNat % 2 ^ 3) * 2 ^ 1 + 1) := by
  have hpart : (n &&& 0x07).toUInt8.toNat = n.toNat % 2 ^ 3 := by
    rw [UInt64.toNat_toUInt8, UInt64.toNat_and,
      show n.toNat &&& (0x07 : UInt64).toNat = _ from Nat.and_two_pow_sub_one_eq_mod _ 3]
    omega
  -- a byte keeps four bits of the code, and of the count all that the mask has left
  have hcode : code.toNat <<< 4 % 2 ^ 8 = (code.toNat % 2 ^ 4) <<< 4 := by
    simp only [Nat.shiftLeft_eq]
    omega
  have hcount : (n.toNat % 2 ^ 3) <<< 1 % 2 ^ 8 = (n.toNat % 2 ^ 3) <<< 1 := by
    simp only [Nat.shiftLeft_eq]
    omega
  have hlt : n.toNat % 2 ^ 3 * 2 ^ 1 + 1 < 2 ^ 4 := by omega
  have hsum : (leadByte code n).toNat =
      code.toNat <<< 4 % 2 ^ 8 ||| (n.toNat % 2 ^ 3) <<< 1 % 2 ^ 8 ||| 1 := by
    rw [leadByte, UInt8.toNat_or, UInt8.toNat_or, UInt8.toNat_shiftLeft, UInt8.toNat_shiftLeft,
      hpart]
    rfl
  rw [hsum, hcode, hcount, Nat.or_assoc, shiftLeft_or_one, ← Nat.shiftLeft_add_eq_or_of_lt hlt,
    Nat.shiftLeft_eq]

theorem toNat_markedWord (n : UInt64) :
    (markedWord n).toNat = (n.toNat % 2 ^ 15) * 2 ^ 1 + 1 := by
  have hpart : (n &&& 0x7FFF).toUInt16.toNat = n.toNat % 2 ^ 15 := by
    rw [UInt64.toNat_toUInt16, UInt64.toNat_and,
      show n.toNat &&& (0x7FFF : UInt64).toNat = _ from Nat.and_two_pow_sub_one_eq_mod _ 15]
    omega
  have hcount : (n.toNat % 2 ^ 15) <<< 1 % 2 ^ 16 = (n.toNat % 2 ^ 15) <<< 1 := by
    simp only [Nat.shiftLeft_eq]
    omega
  rw [markedWord, UInt16.toNat_or, UInt16.toNat_shiftLeft, hpart]
  exact (congrArg (· ||| 1) hcount).trans (shiftLeft_or_one _)

theorem ofByte_leadByte (code : UInt8) (n : UInt64) :
    Bits.ofByte (leadByte code n) =
      Bits.ofNat 4 code.toNat ++ (Bits.ofNat 3 n.toNat ++ [true]) := by
  refine Bits.ofByte_of_toNat (by simp) ?_
  rw [toNat_leadByte, Bits.toNat_append, Bits.toNat_append, Bits.toNat_ofNat, Bits.toNat_ofNat]
  simp [Bits.toNat, Bits.push]

theorem ofBytes_markedWord (n : UInt64) :
    Bits.ofBytes (ByteOrder.big.bytes 2 (markedWord n).toNat) =
      Bits.ofNat 15 n.toNat ++ [true] := by
  have hvalue : (markedWord n).toNat = Bits.toNat (Bits.ofNat 15 n.toNat ++ [true]) := by
    rw [toNat_markedWord, Bits.toNat_append, Bits.toNat_ofNat]
    rfl
  rw [ByteOrder.ofBytes_big, hvalue]
  exact Bits.ofNat_toNat_of_length (by simp)

/-- **The bytes of a timestamp are those of the machine words.** -/
theorem bytes_eq_wordBytes (code : UInt8) (value : UInt64) :
    bytes ⟨code.toNat, value.toNat⟩ = wordBytes code value := by
  have hcount : (value &&& 0x1FFFFFFFF).toNat = value.toNat % 2 ^ 33 := by
    rw [UInt64.toNat_and]
    exact Nat.and_two_pow_sub_one_eq_mod _ 33
  have hbits : Bits.ofBytes (wordBytes code value) =
      Bits.ofNat 4 code.toNat ++ Bits.ofCount33 (value.toNat % 2 ^ 33) := by
    simp only [wordBytes, Bits.ofBytes_cons, Bits.ofBytes_append, ofByte_leadByte,
      ofBytes_markedWord, UInt64.toNat_shiftRight, hcount, Bits.ofCount33, List.append_assoc]
    rfl
  rw [bytes, ← Bits.ofCount33_mod, ← hbits, Bits.pack_ofBytes]

/-! ## Read back -/

variable {t : Timestamp} {rest : List UInt8}

/-- The bytes of a timestamp are its layout. -/
theorem ofBytes_bytes (t : Timestamp) : Bits.ofBytes t.bytes = t.bits :=
  Bits.ofBytes_pack ⟨5, t.length_bits⟩

theorem length_bytes (t : Timestamp) : t.bytes.length = 5 := by
  have hlength := congrArg List.length t.ofBytes_bytes
  rw [Bits.length_ofBytes, length_bits] at hlength
  omega

theorem isValid_ofNat (code value : Nat) : (ofNat code value).IsValid :=
  ⟨Nat.mod_lt _ (by decide), Nat.mod_lt _ (by decide)⟩

/-- High bits do not show. -/
theorem bytes_ofNat (code value : Nat) : (ofNat code value).bytes = bytes ⟨code, value⟩ := by
  rw [bytes, ofNat, show code % 0x10 = code % 2 ^ 4 from rfl,
    show value % 0x200000000 = value % 2 ^ 33 from rfl, Bits.ofNat_mod, Bits.ofCount33_mod, bytes]

/-- **Bytes are read back as the timestamp they were made from**, if that fits
its fields. -/
theorem parse_of_bytes (hvalid : t.IsValid) (hpending : start.pending = [])
    (hbytes : start.bytes = t.bytes ++ rest) :
    parse ⟨start, #[]⟩ = .ok t ⟨⟨[], rest, start.taken + 5, by decide⟩, #[]⟩ := by
  have htakes := State.takes_bytes hpending hbytes
  simp only [ofBytes_bytes, length_bytes] at htakes
  exact parse_eq_ok_iff.2 ⟨hvalid, htakes⟩

/-- A reader that asks for a code looks at it after the timestamp is read. -/
theorem run_parseCode {c : BitCursor} (hparse : parse ⟨start, #[]⟩ = .ok t ⟨c, #[]⟩)
    (expected : Nat) :
    (parseCode expected).run start =
      ⟨if expected = t.code then .ok t else .error (.timestampCode expected t.code), c, #[]⟩ := by
  have hrun : parseCode expected ⟨start, #[]⟩ =
      (if t.code = expected then return t else throw (Fault.timestampCode expected t.code) :
        Parser Timestamp) ⟨c, #[]⟩ := bind_of_ok hparse
  by_cases hcode : t.code = expected
  · rw [if_pos hcode] at hrun
    rw [if_pos hcode.symm]
    exact run_of_ok hrun
  · rw [if_neg hcode] at hrun
    rw [if_neg (Ne.symm hcode)]
    exact run_of_error hrun

/-- **Bytes that are read are those of what is read.** -/
theorem bytes_prefix_of_result_run (hpending : start.pending = [])
    (hread : (parse.run start).result = .ok t) : t.IsValid ∧ t.bytes <+: start.bytes := by
  obtain ⟨s', hparse, -⟩ := exists_of_result_run hread
  obtain ⟨hvalid, htakes⟩ := parse_eq_ok_iff.1 hparse
  rw [← ofBytes_bytes] at htakes
  exact ⟨hvalid, htakes.bytes_isPrefix hpending⟩

/-- **Timestamps and their bytes are the same thing twice.** Any code and any
count give five bytes, and those are read back, at a byte boundary, as the code
and the count without the bits that do not fit; a reader that asks for a code
takes them if it is that one. Five bytes are read as a timestamp exactly if it
fits its fields and they are its bytes. -/
theorem run_parse_iff_bytes :
    (∀ (code : UInt8) (value : UInt64),
      let t : Timestamp := ⟨code.toNat, value.toNat⟩
      let read : Timestamp := ⟨code.toNat % 16, value.toNat % 2 ^ 33⟩
      t.bytes = wordBytes code value ∧ t.bytes.length = 5 ∧
        (ofNat code.toNat value.toNat).bytes = t.bytes ∧
        read.milliseconds = value.toNat % 2 ^ 33 / 90 ∧
        ∀ (start : BitCursor) (rest : List UInt8), start.pending = [] →
          start.bytes = t.bytes ++ rest →
            let after : BitCursor := ⟨[], rest, start.taken + 5, by decide⟩
            parse.run start = ⟨.ok read, after, #[]⟩ ∧
              ∀ expected : UInt8, (parseCode expected.toNat).run start =
                ⟨if expected.toNat = code.toNat % 16 then .ok read
                  else .error (.timestampCode expected.toNat (code.toNat % 16)), after, #[]⟩) ∧
      ∀ (start : BitCursor) (bytes rest : List UInt8), bytes.length = 5 → start.pending = [] →
        start.bytes = bytes ++ rest →
          ∀ t : Timestamp, (parse.run start).result = .ok t ↔ t.IsValid ∧ t.bytes = bytes := by
  refine ⟨fun code value => ⟨bytes_eq_wordBytes code value, length_bytes _, bytes_ofNat _ _, rfl,
    fun start rest hpending hbytes => ?_⟩, fun start bytes rest hlen hpending hbytes t => ?_⟩
  · have hparse := parse_of_bytes (isValid_ofNat code.toNat value.toNat) hpending
      (hbytes.trans (congrArg (· ++ rest) (bytes_ofNat _ _).symm))
    exact ⟨run_of_ok hparse, fun expected => run_parseCode hparse expected.toNat⟩
  · constructor
    · intro hread
      obtain ⟨hvalid, behind, hfront⟩ := bytes_prefix_of_result_run hpending hread
      have hsame : t.bytes.length = bytes.length := t.length_bytes.trans hlen.symm
      exact ⟨hvalid, List.append_inj_left (hfront.trans hbytes) hsame⟩
    · rintro ⟨hvalid, rfl⟩
      exact congrArg Outcome.result (run_of_ok (parse_of_bytes hvalid hpending hbytes))

/-- A code and a count wider than their fields are read back without their high
bits, by a reader that asks for the code that is left and by no other, and the
bytes they were read from are the only ones. -/
theorem run_parse_wideBytes :
    let wide : Timestamp := ⟨0xF2, 0xFFFFFFFF491A0567⟩
    let read : Timestamp := ⟨2, 0x1491A0567⟩
    let start := BitCursor.ofBytes [0x2B, 0x24, 0x69, 0x0A, 0xCF, 0x00]
    wide.bytes = [0x2B, 0x24, 0x69, 0x0A, 0xCF] ∧
      parse.run start = ⟨.ok read, ⟨[], [0x00], 5, by decide⟩, #[]⟩ ∧
      (parseCode 2).run start = ⟨.ok read, ⟨[], [0x00], 5, by decide⟩, #[]⟩ ∧
      ((parseCode 0xF2).run start).result = .error (.timestampCode 0xF2 2) ∧
      read.bytes = wide.bytes := by
  intro wide read start
  have hwide : wide.bytes = [0x2B, 0x24, 0x69, 0x0A, 0xCF] := by decide +kernel
  obtain ⟨-, -, -, -, hruns⟩ := run_parse_iff_bytes.1 0xF2 0xFFFFFFFF491A0567
  have hstart : start.bytes = wide.bytes ++ [0x00] := by
    rw [hwide]
    rfl
  obtain ⟨hparse, hcode⟩ := hruns start [0x00] rfl hstart
  have hread := (run_parse_iff_bytes.2 start [0x2B, 0x24, 0x69, 0x0A, 0xCF] [0x00]
    rfl rfl rfl read).1 (congrArg Outcome.result hparse)
  exact ⟨hwide, hparse, hcode 2, congrArg Outcome.result (hcode 0xF2), hread.2.trans hwide.symm⟩

end Timestamp

end ProgramStream
