import ProgramStream.Dump.FileName
import ProgramStream.Proofs.Storage.Tree
/-!
# File names — a name tells its unit

A name begins with the decimal digits of its unit's number, filled up with
zeros and ended by a character that is no digit. So the number can be read
off the name again, whatever its size (`leadingNumber_eq`), and units with
different numbers have different names. No table has such a name, and none of
the names leads anywhere else than to a file (`isName_of_fileName?`).
-/

namespace ProgramStream

namespace Text

/-- The digits of a number tell it, however far they are filled up. -/
theorem ofDigitChars_digits (width n : Nat) : Nat.ofDigitChars 10 (digits 10 width n) 0 = n := by
  rw [digits, List.leftpad, Nat.ofDigitChars_append, Nat.ofDigitChars_replicate_zero, Nat.mul_zero,
    Nat.ofDigitChars_ten_toDigits]

theorem isDigit_of_mem_digits {width n : Nat} {c : Char} (h : c ∈ digits 10 width n) :
    c.isDigit = true := by
  rcases List.mem_append.1 h with hzero | hdigit
  · rw [(List.mem_replicate.1 hzero).2]
    rfl
  · exact Nat.isDigit_of_mem_toDigits (by decide) (by decide) hdigit

theorem isDigit_of_mem_toString {n : Nat} {c : Char} (h : c ∈ (toString n).toList) :
    c.isDigit = true := by
  rw [Nat.toString_eq_ofList_toDigits, String.toList_ofList] at h
  exact Nat.isDigit_of_mem_toDigits (by decide) (by decide) h

end Text

namespace IsNameText

variable {s t : String}

theorem append (hs : IsNameText s) (ht : IsNameText t) : IsNameText (s ++ t) := by
  intro c hc
  rw [String.toList_append] at hc
  exact (List.mem_append.1 hc).elim (hs c) (ht c)

/-- Digits end no name. -/
theorem of_isDigit (h : ∀ c ∈ s.toList, c.isDigit = true) : IsNameText s := by
  intro c hc
  constructor
  · rintro rfl
    exact absurd (h _ hc) (by decide)
  · rintro rfl
    exact absurd (h _ hc) (by decide)

theorem toString_nat (n : Nat) : IsNameText (toString n) :=
  of_isDigit fun _ => Text.isDigit_of_mem_toString

theorem codecName (codec : Codec) : IsNameText codec.name := by
  cases codec with
  | unknown type =>
    have hhex : ∀ n < 256, IsNameText (Text.padded 16 2 n) := by decide +kernel
    exact append (by decide) (hhex _ type.toNat_lt)
  | _ => decide

end IsNameText

namespace Dump

variable {r r' : Record} {name : String}

/-- **What a name is put together of.** -/
theorem fileName?_eq_some_iff :
    fileName? r = some name ↔
      ∃ unit, unitName? r.content = some unit ∧
        Text.padded 10 7 r.index ++ "_ps" ++ toString r.packIndex ++ "_" ++ unit ++ ".data" =
          name := by
  unfold fileName?
  exact Option.map_eq_some_iff

theorem isNameText_unitName {u : StreamUnit} (h : unitName? u = some name) : IsNameText name := by
  cases u with
  | pack header => cases h; decide
  | system header =>
    cases h
    exact .append (by decide) (.toString_nat _)
  | map m =>
    cases h
    exact .append (by decide) (.toString_nat _)
  | packet p codec =>
    cases h
    have hmedia : IsNameText (media p) := by unfold media; split <;> decide
    exact ((((hmedia.append (by decide)).append (.codecName codec)).append (by decide)).append
      (.toString_nat _)).append (by decide) |>.append (.toString_nat _)
  | streamEnd => cases h
  | other id length => cases h

/-- The number that a name begins with. -/
def leadingNumber (name : String) : Nat :=
  Nat.ofDigitChars 10 (name.toList.takeWhile Char.isDigit) 0

/-- The digits of its unit's number stand in front of a name. -/
theorem exists_toList_eq (h : fileName? r = some name) :
    ∃ rest, name.toList = Text.digits 10 7 r.index ++ '_' :: rest := by
  obtain ⟨unit, -, rfl⟩ := fileName?_eq_some_iff.1 h
  refine ⟨("ps" ++ toString r.packIndex ++ "_" ++ unit ++ ".data").toList, ?_⟩
  simp [Text.padded]

/-- **A name tells the number of its unit**, however many digits it has. -/
theorem leadingNumber_eq (h : fileName? r = some name) : leadingNumber name = r.index := by
  obtain ⟨rest, hname⟩ := exists_toList_eq h
  rw [leadingNumber, hname, List.takeWhile_append_of_pos fun _ => Text.isDigit_of_mem_digits,
    List.takeWhile_cons_of_neg (by decide), List.append_nil, Text.ofDigitChars_digits]

/-- **Units with different numbers have different names.** -/
theorem index_eq_of_fileName? (h : fileName? r = some name) (h' : fileName? r' = some name) :
    r.index = r'.index :=
  (leadingNumber_eq h).symm.trans (leadingNumber_eq h')

/-- A name begins with a digit. -/
theorem exists_isDigit (h : fileName? r = some name) :
    ∃ c rest, name.toList = c :: rest ∧ c.isDigit = true := by
  obtain ⟨rest, hname⟩ := exists_toList_eq h
  match hdigits : Text.digits 10 7 r.index with
  | [] =>
    have hwidth := Text.le_length_digits 10 7 r.index
    rw [hdigits] at hwidth
    exact absurd hwidth (by decide)
  | c :: digits =>
    refine ⟨c, digits ++ '_' :: rest, by rw [hname, hdigits]; rfl, ?_⟩
    exact Text.isDigit_of_mem_digits (hdigits ▸ List.mem_cons_self)

/-- What does not begin with a digit is no unit's name. -/
theorem ne_of_head? {other : String} (h : fileName? r = some name)
    (hother : other.toList.head?.all fun c => !c.isDigit) : name ≠ other := by
  rintro rfl
  obtain ⟨c, rest, hname, hdigit⟩ := exists_isDigit h
  rw [hname] at hother
  simp [hdigit] at hother

/-- **No unit's name is a table's.** -/
theorem ne_tableName (h : fileName? r = some name) :
    name ≠ associationName ∧ name ≠ programMapName :=
  ⟨ne_of_head? h (by decide), ne_of_head? h (by decide)⟩

/-- **A unit's name stands for what is in a directory.** -/
theorem isName_of_fileName? (h : fileName? r = some name) : IsName name where
  isNameText := by
    obtain ⟨unit, hunit, rfl⟩ := fileName?_eq_some_iff.1 h
    have hindex : IsNameText (Text.padded 10 7 r.index) := by
      refine .of_isDigit fun c hc => ?_
      rw [Text.padded, String.toList_ofList] at hc
      exact Text.isDigit_of_mem_digits hc
    exact ((((hindex.append (by decide)).append (.toString_nat _)).append (by decide)).append
      (isNameText_unitName hunit)).append (by decide)
  ne_empty := ne_of_head? h (by decide)
  ne_dot := ne_of_head? h (by decide)
  ne_dots := ne_of_head? h (by decide)

end Dump

end ProgramStream
