import ProgramStream.Diagnostic.Escape
/-!
# Byte strings in text — the bytes are read back

Behind a backslash stands a letter of its own, or an `x` and two digits; any
other character stands for itself, and the backslash does not. So the characters
of one byte tell it whatever follows them (`readByte_escapeByte_append`), a digit
behind a zero byte or a literal backslash included, and a byte string between
quotes is told by its text (`quoted_inj`).
-/

namespace ProgramStream

/-- **A list is told by what its elements come to**, one after the other, if each
of these is told whatever follows it and none is empty. -/
theorem eq_of_flatMap_eq {α β : Type} {f : α → List β} {p : α → Prop} {xs ys : List α}
    (hne : ∀ x, f x ≠ [])
    (hxs : ∀ x ∈ xs, ∀ y, p y → ∀ rest rest', f x ++ rest = f y ++ rest' → x = y ∧ rest = rest')
    (hys : ∀ y ∈ ys, p y) (h : xs.flatMap f = ys.flatMap f) : xs = ys := by
  induction xs generalizing ys with
  | nil =>
    cases ys with
    | nil => rfl
    | cons y ys => exact absurd (List.append_eq_nil_iff.1 h.symm).1 (hne y)
  | cons x xs ih =>
    cases ys with
    | nil => exact absurd (List.append_eq_nil_iff.1 h).1 (hne x)
    | cons y ys =>
      obtain ⟨hx, hothers⟩ := List.forall_mem_cons.1 hxs
      obtain ⟨hy, hothers'⟩ := List.forall_mem_cons.1 hys
      obtain ⟨rfl, hrest⟩ := hx y hy _ _ h
      rw [ih hothers hothers' hrest]

namespace Diagnostic

/-- The bytes that have a letter of their own. -/
def letters : List (Char × UInt8) :=
  [('n', 0x0A), ('r', 0x0D), ('t', 0x09), ('\\', 0x5C), (Char.ofNat 0x22, 0x22), ('0', 0x00)]

/-- The value of a hexadecimal digit. -/
def digitValue (c : Char) : Nat := if c.isDigit then c.toNat - 0x30 else c.toNat - 0x57

/-- Reads one byte off its characters. -/
def readByte : List Char → Option (UInt8 × List Char)
  | [] => none
  | '\\' :: 'x' :: high :: low :: rest =>
    some (UInt8.ofNat (16 * digitValue high + digitValue low), rest)
  | '\\' :: letter :: rest => (letters.lookup letter).map fun b => (b, rest)
  | c :: rest => some (UInt8.ofNat c.toNat, rest)

/-- Two digits are enough for a byte, and they tell it. -/
theorem digits_byte (n : Nat) (h : n < 256) :
    Text.digits 16 2 n = [Nat.digitChar (n / 16), Nat.digitChar (n % 16)] ∧
      16 * digitValue (Nat.digitChar (n / 16)) + digitValue (Nat.digitChar (n % 16)) = n := by
  revert n
  decide +kernel

/-- A character that is no backslash stands for itself. -/
theorem readByte_cons_of_ne {c : Char} (h : c ≠ '\\') (rest : List Char) :
    readByte (c :: rest) = some (UInt8.ofNat c.toNat, rest) := by
  unfold readByte
  split
  · contradiction
  · simp_all
  · simp_all
  · simp_all

/-- A printable character is the one of its byte. -/
theorem toNat_ofNat_printable {b : UInt8} (h : b < 0x7F) :
    (Char.ofNat b.toNat).toNat = b.toNat := by
  have hlt : b.toNat < 0x7F := h
  revert hlt
  generalize b.toNat = n
  revert n
  decide

/-- **A byte is read off its characters**, whatever follows them. -/
theorem readByte_escapeByte_append (b : UInt8) (rest : List Char) :
    readByte (escapeByte b ++ rest) = some (b, rest) := by
  fun_cases escapeByte b with
  | case1 | case2 | case3 | case4 | case5 | case6 =>
    subst_vars
    rfl
  | case7 h₁ h₂ h₃ hbackslash h₅ h₆ hprintable =>
    obtain ⟨-, hlt⟩ : 0x20 ≤ b ∧ b < 0x7F := by simpa using hprintable
    have hchar := toNat_ofNat_printable hlt
    have hne : Char.ofNat b.toNat ≠ '\\' := by
      intro heq
      rw [heq] at hchar
      exact hbackslash (UInt8.toNat_inj.1 hchar.symm)
    rw [List.singleton_append, readByte_cons_of_ne hne, hchar, UInt8.ofNat_toNat]
  | case8 =>
    obtain ⟨hdigits, hvalue⟩ := digits_byte b.toNat b.toNat_lt
    rw [hdigits]
    simp only [List.cons_append, List.nil_append, readByte, hvalue, UInt8.ofNat_toNat]

/-- **No text of a byte begins that of another.** -/
theorem escapeByte_append_inj {b b' : UInt8} {rest rest' : List Char}
    (h : escapeByte b ++ rest = escapeByte b' ++ rest') : b = b' ∧ rest = rest' := by
  have hread := readByte_escapeByte_append b rest
  rw [h, readByte_escapeByte_append] at hread
  obtain ⟨hb, hrest⟩ := Prod.mk.inj (Option.some.inj hread)
  exact ⟨hb.symm, hrest.symm⟩

theorem escapeByte_ne_nil (b : UInt8) : escapeByte b ≠ [] := by
  intro h
  have hread := readByte_escapeByte_append b []
  rw [h] at hread
  cases hread

/-- A byte string is told by the characters of its bytes. -/
theorem flatMap_escapeByte_inj {xs ys : List UInt8}
    (h : xs.flatMap escapeByte = ys.flatMap escapeByte) : xs = ys :=
  eq_of_flatMap_eq (p := fun _ => True) escapeByte_ne_nil
    (fun _ _ _ _ _ _ => escapeByte_append_inj) (fun _ _ => trivial) h

theorem toList_quoted (bytes : List UInt8) :
    (quoted bytes).toList =
      'b' :: Char.ofNat 0x22 :: (bytes.flatMap escapeByte ++ [Char.ofNat 0x22]) := by
  simp only [quoted, String.toList_append, String.toList_ofList]
  rfl

/-- **A byte string is told by its text.** -/
theorem quoted_inj {xs ys : List UInt8} : quoted xs = quoted ys ↔ xs = ys := by
  constructor
  · intro h
    have hlist := congrArg String.toList h
    rw [toList_quoted, toList_quoted] at hlist
    simp only [List.cons.injEq, true_and] at hlist
    exact flatMap_escapeByte_inj (List.append_cancel_right hlist)
  · rintro rfl
    rfl

/-- **No text of a byte string ends its line.** -/
theorem newline_notMem_quoted (bytes : List UInt8) : '\n' ∉ (quoted bytes).toList := by
  have hbyte : ∀ n < 256, '\n' ∉ escapeByte (UInt8.ofNat n) := by decide +kernel
  rw [toList_quoted]
  simp only [List.mem_cons, List.mem_append, List.mem_flatMap, List.not_mem_nil, or_false]
  rintro (h | h | ⟨b, -, hb⟩ | h)
  · cases h
  · cases h
  · have hnot := hbyte b.toNat b.toNat_lt
    rw [UInt8.ofNat_toNat] at hnot
    exact hnot hb
  · cases h

end Diagnostic

end ProgramStream
