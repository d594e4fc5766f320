import Mathlib.Algebra.Order.Ring.Nat
import ProgramStream.Bits.Field
import ProgramStream.Bytes.Word
/-!
# Words — a number, its bits and its bytes

A number written into a field and read back is the number modulo the size
of the field, for bits (`toNat_ofNat`) and for bytes of either order
(`value_bytes`). In the other direction nothing is lost: the bits of the
number that a bit string stands for are that bit string (`ofNat_toNat`).
Bytes and bit strings of whole bytes are the same thing: `pack` undoes
`ofBytes` and the other way round (`pack_ofBytes`, `ofBytes_pack`).
-/

namespace ProgramStream

namespace Bits

theorem foldl_push (bits : List Bool) (n : Nat) :
    bits.foldl push n = n * 2 ^ bits.length + toNat bits := by
  induction bits generalizing n with
  | nil => simp [toNat]
  | cons b bits ih =>
    simp only [List.foldl_cons, toNat, List.length_cons]
    rw [ih, ih (push 0 b)]
    simp only [push, Nat.pow_succ]
    grind

theorem toNat_cons (b : Bool) (bits : List Bool) :
    toNat (b :: bits) = b.toNat * 2 ^ bits.length + toNat bits := by
  rw [toNat, List.foldl_cons, foldl_push]
  simp [push]

theorem toNat_append (xs ys : List Bool) :
    toNat (xs ++ ys) = toNat xs * 2 ^ ys.length + toNat ys := by
  rw [toNat, List.foldl_append, foldl_push]
  rfl

/-- A bit string is a number below two to its length. -/
theorem toNat_lt (bits : List Bool) : toNat bits < 2 ^ bits.length := by
  induction bits with
  | nil => simp [toNat]
  | cons b bits ih =>
    rw [toNat_cons, List.length_cons, Nat.pow_succ]
    cases b <;> simp <;> omega

/-- **Reading what was written gives the number modulo its width.** -/
theorem toNat_ofNat (width n : Nat) : toNat (ofNat width n) = n % 2 ^ width := by
  induction width with
  | zero => simp [ofNat, toNat, Nat.mod_one]
  | succ width ih =>
    rw [ofNat, toNat_cons, ih, length_ofNat, Nat.mod_pow_succ, Nat.testBit_eq_decide_div_mod_eq]
    rcases Nat.mod_two_eq_zero_or_one (n / 2 ^ width) with h | h
    · simp [h]
    · simp only [h, decide_true, Bool.toNat_true]
      omega

/-- **Writing what was read gives the bits back.** -/
theorem ofNat_toNat (bits : List Bool) : ofNat bits.length (toNat bits) = bits := by
  -- the bits already written stay in the number, above those still to be written
  suffices h : ∀ (bits : List Bool) (n : Nat),
      ofNat bits.length (n * 2 ^ bits.length + toNat bits) = bits by
    simpa using h bits 0
  intro bits
  induction bits with
  | nil => intro n; rfl
  | cons b bits ih =>
    intro n
    rw [List.length_cons, ofNat, toNat_cons]
    have hlt := toNat_lt bits
    have shape : n * 2 ^ (bits.length + 1) + (b.toNat * 2 ^ bits.length + toNat bits) =
        (2 * n + b.toNat) * 2 ^ bits.length + toNat bits := by
      rw [Nat.pow_succ]; grind
    rw [shape, ih]
    congr 1
    rw [Nat.testBit_eq_decide_div_mod_eq, Nat.mul_comm, Nat.mul_add_div (Nat.two_pow_pos _),
      Nat.div_eq_of_lt hlt]
    cases b <;> simp

theorem ofNat_toNat_of_length {width : Nat} {bits : List Bool} (h : bits.length = width) :
    ofNat width (toNat bits) = bits := by
  subst h
  exact ofNat_toNat bits

/-- A number written into a field shows its low bits only. -/
theorem ofNat_mod (width n : Nat) : ofNat width (n % 2 ^ width) = ofNat width n := by
  rw [← toNat_ofNat, ofNat_toNat_of_length (length_ofNat width n)]

/-- The bits of a number, counted from the first one written. -/
theorem getElem?_ofNat (width n i : Nat) :
    (ofNat width n)[i]? = if i < width then some (n.testBit (width - 1 - i)) else none := by
  induction width generalizing i with
  | zero => rfl
  | succ width ih =>
    cases i with
    | zero => simp [ofNat]
    | succ i =>
      rw [ofNat, List.getElem?_cons_succ, ih]
      simp only [Nat.add_lt_add_iff_right]
      split
      · rw [show width + 1 - 1 - (i + 1) = width - 1 - i by omega]
      · rfl

/-! ## Bytes as bits -/

theorem ofByte_ofNat_toNat {bits : List Bool} (h : bits.length = 8) :
    ofByte (UInt8.ofNat (toNat bits)) = bits := by
  have hlt := toNat_lt bits
  rw [h] at hlt
  rw [ofByte, UInt8.toNat_ofNat_of_lt' hlt]
  conv => lhs; rw [← h]
  exact ofNat_toNat bits

/-- Any eight bits are a byte. -/
theorem exists_ofByte_eq {bits : List Bool} (h : bits.length = 8) : ∃ b, ofByte b = bits :=
  ⟨_, ofByte_ofNat_toNat h⟩

theorem ofNat_toNat_ofByte (b : UInt8) : UInt8.ofNat (toNat (ofByte b)) = b := by
  rw [ofByte, toNat_ofNat, Nat.mod_eq_of_lt b.toNat_lt, UInt8.ofNat_toNat]

/-- Bytes with the same bits are the same bytes. -/
theorem ofBytes_inj {xs ys : List UInt8} (h : ofBytes xs = ofBytes ys) : xs = ys := by
  induction xs generalizing ys with
  | nil =>
    have hlen := congrArg List.length h
    simp only [length_ofBytes, List.length_nil] at hlen
    exact (List.length_eq_zero_iff.1 (by omega)).symm
  | cons x xs ih =>
    cases ys with
    | nil =>
      have hlen := congrArg List.length h
      simp only [length_ofBytes, List.length_nil, List.length_cons] at hlen
      omega
    | cons y ys =>
      rw [ofBytes_cons, ofBytes_cons] at h
      obtain ⟨hbyte, hbytes⟩ := List.append_inj h (by simp)
      rw [← ofNat_toNat_ofByte x, hbyte, ofNat_toNat_ofByte, ih hbytes]

/-- Whole bytes are dropped as bits. -/
theorem drop_ofBytes (bytes : List UInt8) (k : Nat) :
    (ofBytes bytes).drop (8 * k) = ofBytes (bytes.drop k) := by
  induction k generalizing bytes with
  | zero => rfl
  | succ k ih =>
    cases bytes with
    | nil => simp
    | cons b bytes =>
      rw [ofBytes_cons, Nat.mul_succ, Nat.add_comm, ← List.drop_drop,
        List.drop_left' (length_ofByte b), ih, List.drop_succ_cons]

/-- And taken as bits. -/
theorem take_ofBytes (bytes : List UInt8) (k : Nat) :
    (ofBytes bytes).take (8 * k) = ofBytes (bytes.take k) := by
  have happend := List.take_append_drop (8 * k) (ofBytes bytes)
  rw [drop_ofBytes] at happend
  have hbytes := congrArg ofBytes (List.take_append_drop k bytes)
  rw [ofBytes_append] at hbytes
  exact List.append_cancel_right (happend.trans hbytes.symm)

/-- The first bytes are those that have the first bits. -/
theorem ofBytes_prefix_iff {xs ys : List UInt8} : ofBytes xs <+: ofBytes ys ↔ xs <+: ys := by
  constructor
  · intro h
    rw [List.prefix_iff_eq_take, length_ofBytes, take_ofBytes] at h
    exact List.prefix_iff_eq_take.2 (ofBytes_inj h)
  · rintro ⟨rest, rfl⟩
    rw [ofBytes_append]
    exact List.prefix_append _ _

theorem pack_ofBytes_append (bytes : List UInt8) (bits : List Bool) :
    pack (ofBytes bytes ++ bits) = bytes ++ pack bits := by
  induction bytes with
  | nil => rfl
  | cons b bytes ih =>
    rw [ofBytes_cons, List.append_assoc]
    match hb : ofByte b, length_ofByte b with
    | [b₀, b₁, b₂, b₃, b₄, b₅, b₆, b₇], _ =>
      simp only [List.cons_append, List.nil_append, pack]
      rw [← hb, ofNat_toNat_ofByte, ih]

/-- **Packing undoes writing bytes as bits.** -/
theorem pack_ofBytes (bytes : List UInt8) : pack (ofBytes bytes) = bytes := by
  have h := pack_ofBytes_append bytes []
  rw [List.append_nil] at h
  exact h.trans (List.append_nil bytes)

/-- **And is undone by it**, where the bits are whole bytes. -/
theorem ofBytes_pack {bits : List Bool} (h : 8 ∣ bits.length) : ofBytes (pack bits) = bits := by
  fun_induction pack bits with
  | case1 a b c d e f g h rest ih =>
    have hrest : 8 ∣ rest.length := by
      simp only [List.length_cons] at h
      omega
    rw [ofBytes_cons, ih hrest, ofByte_ofNat_toNat rfl]
    rfl
  | case2 bits hshort =>
    match bits, hshort with
    | [], _ => rfl
    -- too few for a byte, and so no whole bytes
    | [_], _ | [_, _], _ | [_, _, _], _ | [_, _, _, _], _ | [_, _, _, _, _], _
    | [_, _, _, _, _, _], _ | [_, _, _, _, _, _, _], _ =>
      simp only [List.length_cons, List.length_nil] at h
      omega
    | a :: b :: c :: d :: e :: f :: g :: h :: rest, hshort =>
      exact absurd rfl (hshort a b c d e f g h rest)

theorem pack_append {xs : List Bool} (h : 8 ∣ xs.length) (ys : List Bool) :
    pack (xs ++ ys) = pack xs ++ pack ys := by
  conv => lhs; rw [← ofBytes_pack h]
  exact pack_ofBytes_append _ _

theorem length_pack {bits : List Bool} (h : 8 ∣ bits.length) :
    8 * (pack bits).length = bits.length := by
  rw [← length_ofBytes, ofBytes_pack h]

end Bits

namespace ByteOrder

theorem littleValue_littleBytes (count n : Nat) :
    littleValue (littleBytes count n) = n % 256 ^ count := by
  induction count generalizing n with
  | zero => simp [littleBytes, littleValue, Nat.mod_one]
  | succ count ih =>
    have low : (UInt8.ofNat n).toNat = n % 256 := by simp
    rw [littleBytes, littleValue, ih, low, Nat.pow_succ, Nat.mul_comm (256 ^ count) 256,
      Nat.mod_mul]

/-- **Reading back what was written gives the number modulo the word's
size**, in either order. -/
theorem value_bytes (order : ByteOrder) (count n : Nat) :
    order.value (order.bytes count n) = n % 256 ^ count := by
  cases order <;> simp [value, bytes, littleValue_littleBytes]

theorem littleValue_append (xs ys : List UInt8) :
    littleValue (xs ++ ys) = littleValue xs + 256 ^ xs.length * littleValue ys := by
  induction xs with
  | nil => simp [littleValue]
  | cons x xs ih =>
    rw [List.cons_append, littleValue, ih, littleValue, List.length_cons, Nat.pow_succ]
    grind

/-- **A byte string, most significant byte first, is the number its bits
stand for.** -/
theorem value_big (bs : List UInt8) : big.value bs = Bits.toNat (Bits.ofBytes bs) := by
  induction bs with
  | nil => rfl
  | cons b bs ih =>
    have hb : Bits.toNat (Bits.ofByte b) = b.toNat := by
      rw [Bits.ofByte, Bits.toNat_ofNat, Nat.mod_eq_of_lt b.toNat_lt]
    rw [value] at ih
    rw [value, List.reverse_cons, littleValue_append, ih, Bits.ofBytes_cons, Bits.toNat_append,
      hb, List.length_reverse, Bits.length_ofBytes, Nat.pow_mul]
    simp only [littleValue]
    grind

/-- A word in bytes is the word in bits. -/
theorem ofNat_value_big (bs : List UInt8) :
    Bits.ofNat (8 * bs.length) (big.value bs) = Bits.ofBytes bs := by
  rw [value_big, ← Bits.length_ofBytes, Bits.ofNat_toNat]

theorem ofBytes_big (count n : Nat) :
    Bits.ofBytes (big.bytes count n) = Bits.ofNat (8 * count) n := by
  have h := ofNat_value_big (big.bytes count n)
  rw [length_bytes, value_bytes] at h
  rw [← h, ← Bits.ofNat_mod (8 * count) n, Nat.pow_mul]

/-- Writing back what was read gives the bytes. -/
theorem big_bytes_value (bs : List UInt8) : big.bytes bs.length (big.value bs) = bs :=
  Bits.ofBytes_inj (by rw [ofBytes_big, ofNat_value_big])

theorem value_big_lt (bs : List UInt8) : big.value bs < 2 ^ (8 * bs.length) := by
  rw [value_big, ← Bits.length_ofBytes]
  exact Bits.toNat_lt _

/-- Four bytes are a word of their size. -/
theorem toNat_word_of_length {bs : List UInt8} (h : bs.length = 4) :
    (UInt32.ofNat (big.value bs)).toNat = big.value bs := by
  have hlt := value_big_lt bs
  rw [h] at hlt
  exact UInt32.toNat_ofNat_of_lt' hlt

end ByteOrder

end ProgramStream
