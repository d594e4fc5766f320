import ProgramStream.Diagnostic.Units
import ProgramStream.Proofs.Diagnostic.Escape
import ProgramStream.Proofs.Diagnostic.Layout
import ProgramStream.Proofs.Dump.FileName
/-!
# Diagnostics of units — a unit is told by its text

Numbers, words and byte strings are plain texts, and a unit is shown as a tidy
value of them. Every field stands in it by its name, so the value tells the unit
(`showUnit?_inj`), and with the layout so does its text (`text?_inj`).
-/

namespace ProgramStream

namespace Diagnostic

open Shown

namespace Shown

/-! ## Plain texts -/

/-- No bracket is in a word. -/
theorem not_isBracket_of_isWordChar {c : Char} (h : isWordChar c = true) :
    isOpening c = false ∧ isClosing c = false := by
  rw [Bool.eq_false_iff, Bool.eq_false_iff]
  constructor
  · intro hopening
    rcases eq_of_isOpening hopening with rfl | rfl | rfl <;> exact absurd h (by decide)
  · intro hclosing
    rcases eq_of_isClosing hclosing with rfl | rfl | rfl <;> exact absurd h (by decide)

/-- A word is a plain text. -/
theorem isPlain_word {word : String} (h : isWord word = true) : IsPlain word where
  isLine := isLine_word h
  isNamed_eq := by
    rw [isNamed, ← List.append_nil word.toList, List.dropWhile_append_of_pos (List.all_eq_true.1 h)]
    rfl
  last c hc := not_isBracket_of_isWordChar (List.all_eq_true.1 h c (List.mem_of_getLast? hc))

/-- A byte string is one, whatever its bytes are: its second character is a quote,
and so is its last. -/
theorem isPlain_quoted (bytes : List UInt8) : IsPlain (quoted bytes) where
  isLine := newline_notMem_quoted bytes
  isNamed_eq := by
    rw [toList_quoted]
    rfl
  last c hc := by
    rw [toList_quoted, ← List.cons_append, ← List.cons_append, List.getLast?_concat] at hc
    obtain rfl := Option.some.inj hc
    exact ⟨rfl, rfl⟩

theorem isWord_toString (n : Nat) : isWord (toString n) = true := by
  refine List.all_eq_true.2 fun c hc => ?_
  rw [isWordChar, Char.isAlphanum, Text.isDigit_of_mem_toString hc, Bool.or_true, Bool.true_or]

/-! ## Tidy values -/

theorem tidy_word {word : String} (h : isWord word = true) : Tidy (.text word) :=
  .text (isPlain_word h)

@[simp] theorem tidy_number (n : Nat) : Tidy (number n) := tidy_word (isWord_toString n)

@[simp] theorem tidy_bit (b : Bool) : Tidy (bit b) := tidy_number _

/-- A word may stand before the opening of a group. -/
theorem IsBracketed.append_word {name opening closing : String} (hname : isWord name = true)
    (h : IsBracketed opening closing) : IsBracketed (name ++ opening) closing where
  isLine := (isLine_word hname).append h.isLine
  isNamed_eq := by
    rw [String.toList_append]
    exact isNamed_append (isPlain_word hname).isNamed_eq h.isNamed_eq
  opens := by
    obtain ⟨c, hc, hopening⟩ := h.opens
    refine ⟨c, ?_, hopening⟩
    rw [String.toList_append, List.getLast?_append, hc]
    rfl
  closes := h.closes

theorem tidy_record {name : String} {fields : List (String × Shown)} (hname : isWord name = true)
    (h : ∀ f ∈ fields, isWord f.1 = true ∧ Tidy f.2) : Tidy (record name fields) := by
  have hbraces : IsBracketed " \x7b" "\x7d" :=
    ⟨by simp [IsLine], rfl, ⟨_, rfl, rfl⟩, ⟨_, rfl, rfl⟩⟩
  refine .group (hbraces.append_word hname) fun item hitem => ?_
  obtain ⟨f, hf, rfl⟩ := List.mem_map.1 hitem
  exact .named (h f hf).1 (h f hf).2

theorem tidy_apply {name : String} {value : Shown} (hname : isWord name = true)
    (h : Tidy value) : Tidy (apply name value) := by
  have hparens : IsBracketed "(" ")" :=
    ⟨by simp [IsLine], rfl, ⟨_, rfl, rfl⟩, ⟨_, rfl, rfl⟩⟩
  exact .group (hparens.append_word hname) (List.forall_mem_singleton.2 h)

theorem tidy_list {items : List Shown} (h : ∀ item ∈ items, Tidy item) : Tidy (list items) :=
  .group ⟨by simp [IsLine], rfl, ⟨_, rfl, rfl⟩, ⟨_, rfl, rfl⟩⟩ h

theorem tidy_option {value? : Option Shown} (h : ∀ value ∈ value?, Tidy value) :
    Tidy (option value?) := by
  cases value? with
  | none => exact tidy_word rfl
  | some value => exact tidy_apply rfl (h value rfl)

/-! ## What is shown of values -/

variable {name : String} {m n : Nat}

@[simp] theorem number_inj : number m = number n ↔ m = n := by
  rw [number, number, text.injEq, Nat.toString_eq_ofList_toDigits, Nat.toString_eq_ofList_toDigits,
    String.ofList_inj]
  constructor
  · intro h
    have hvalue := congrArg (Nat.ofDigitChars 10 · 0) h
    simpa only [Nat.ofDigitChars_ten_toDigits] using hvalue
  · rintro rfl
    rfl

@[simp] theorem bit_inj {b b' : Bool} : bit b = bit b' ↔ b = b' := by
  rw [bit, bit, number_inj]
  cases b <;> cases b' <;> decide

@[simp] theorem record_inj {fields fields' : List (String × Shown)} :
    record name fields = record name fields' ↔ fields = fields' := by
  simp only [record, group.injEq, true_and]
  refine List.map_inj_right fun f f' heq => ?_
  obtain ⟨hname, hvalue⟩ := named.inj heq
  exact Prod.ext hname hvalue

@[simp] theorem apply_inj {value value' : Shown} :
    apply name value = apply name value' ↔ value = value' := by
  simp [apply]

theorem list_map_inj {α : Type} {f : α → Shown} (hf : ∀ a b, f a = f b → a = b) {xs ys : List α} :
    list (xs.map f) = list (ys.map f) ↔ xs = ys := by
  simp only [list, group.injEq, true_and]
  exact List.map_inj_right hf

theorem option_map_inj {α : Type} {f : α → Shown} (hf : ∀ a b, f a = f b → a = b)
    {a? b? : Option α} : option (a?.map f) = option (b?.map f) ↔ a? = b? := by
  cases a? with
  | none => cases b? <;> simp [option, apply]
  | some a =>
    cases b? with
    | none => simp [option, apply]
    | some b =>
      simp only [Option.map_some, option, apply_inj, Option.some.injEq]
      exact ⟨hf a b, congrArg f⟩

end Shown

/-! ## The units -/

@[simp] theorem tidy_showBytes (bytes : List UInt8) : Tidy (showBytes bytes) :=
  .text (isPlain_quoted bytes)

theorem tidy_showCodec (codec : Codec) : Tidy (showCodec codec) := by
  cases codec with
  | unknown streamType => exact tidy_apply rfl (tidy_number _)
  | _ => exact tidy_word rfl

theorem tidy_showClock (c : ClockReference) : Tidy (showClock c) :=
  tidy_record rfl (by simp +decide)

theorem tidy_showPackHeader (h : PackHeader) : Tidy (showPackHeader h) :=
  tidy_record rfl (by simp +decide [tidy_showClock])

theorem tidy_showStreamBound (b : StreamBound) : Tidy (showStreamBound b) :=
  tidy_record rfl (by simp +decide)

theorem tidy_showSystemHeader (h : SystemHeader) : Tidy (showSystemHeader h) := by
  have hstreams : Tidy (list (h.streams.map showStreamBound)) :=
    tidy_list (List.forall_mem_map.2 fun b _ => tidy_showStreamBound b)
  exact tidy_record rfl (by simp +decide [hstreams])

theorem tidy_showPseudoDescriptor (d : PseudoDescriptor) : Tidy (showPseudoDescriptor d) :=
  tidy_record rfl (by simp +decide)

theorem tidy_showMapEntry (e : MapEntry) : Tidy (showMapEntry e) := by
  have hpseudo : Tidy (option (e.pseudo.map showPseudoDescriptor)) := by
    refine tidy_option fun value hvalue => ?_
    obtain ⟨d, -, rfl⟩ := Option.map_eq_some_iff.1 hvalue
    exact tidy_showPseudoDescriptor d
  exact tidy_record rfl (by simp +decide [hpseudo, tidy_showCodec])

theorem tidy_showStreamMap (m : StreamMap) : Tidy (showStreamMap m) := by
  have hentries : Tidy (list (m.entries.map showMapEntry)) :=
    tidy_list (List.forall_mem_map.2 fun e _ => tidy_showMapEntry e)
  exact tidy_record rfl (by simp +decide [hentries])

/-- **What is shown of a unit is tidy.** -/
theorem tidy_showUnit? {u : StreamUnit} {s : Shown} (h : showUnit? u = some s) : Tidy s := by
  cases u with
  | pack header =>
    cases h
    exact tidy_apply rfl (tidy_showPackHeader header)
  | system header =>
    cases h
    exact tidy_apply rfl (tidy_showSystemHeader header)
  | map m =>
    cases h
    exact tidy_apply rfl (tidy_showStreamMap m)
  | packet p codec => cases h
  | streamEnd =>
    cases h
    exact tidy_word rfl
  | other id length =>
    cases h
    exact tidy_record rfl (by simp +decide)

@[simp] theorem showBytes_inj {xs ys : List UInt8} : showBytes xs = showBytes ys ↔ xs = ys := by
  rw [showBytes, showBytes, text.injEq, quoted_inj]

theorem showClock_inj {c c' : ClockReference} : showClock c = showClock c' ↔ c = c' := by
  cases c
  cases c'
  simp [showClock]

theorem showPackHeader_inj {h h' : PackHeader} : showPackHeader h = showPackHeader h' ↔ h = h' := by
  cases h
  cases h'
  simp [showPackHeader, showClock_inj, BitVec.toNat_inj]

theorem showStreamBound_inj {b b' : StreamBound} :
    showStreamBound b = showStreamBound b' ↔ b = b' := by
  cases b
  cases b'
  simp [showStreamBound, UInt8.toNat_inj, BitVec.toNat_inj]

theorem showSystemHeader_inj {h h' : SystemHeader} :
    showSystemHeader h = showSystemHeader h' ↔ h = h' := by
  cases h
  cases h'
  simp [showSystemHeader, UInt16.toNat_inj, BitVec.toNat_inj,
    list_map_inj fun _ _ => showStreamBound_inj.1]

theorem showPseudoDescriptor_inj {d d' : PseudoDescriptor} :
    showPseudoDescriptor d = showPseudoDescriptor d' ↔ d = d' := by
  cases d
  cases d'
  simp [showPseudoDescriptor, UInt8.toNat_inj, BitVec.toNat_inj]

/-- The codec of an entry follows from its other fields. -/
theorem showMapEntry_inj {e e' : MapEntry} : showMapEntry e = showMapEntry e' ↔ e = e' := by
  constructor
  · intro h
    cases e
    cases e'
    simp [showMapEntry, UInt8.toNat_inj, UInt16.toNat_inj,
      option_map_inj fun _ _ => showPseudoDescriptor_inj.1] at h
    simp [h]
  · rintro rfl
    rfl

theorem showStreamMap_inj {m m' : StreamMap} : showStreamMap m = showStreamMap m' ↔ m = m' := by
  cases m
  cases m'
  simp [showStreamMap, UInt16.toNat_inj, UInt32.toNat_inj, BitVec.toNat_inj,
    list_map_inj fun _ _ => showMapEntry_inj.1]

/-- **What is shown of a unit tells it.** The kinds of units differ in how the
first line begins. -/
theorem showUnit?_inj {u v : StreamUnit} {s : Shown} (hu : showUnit? u = some s)
    (hv : showUnit? v = some s) : u = v := by
  cases u with
  | packet p codec => cases hu
  | pack header =>
    obtain rfl := Option.some.inj hu
    cases v with
    | pack header' => rw [showPackHeader_inj.1 (apply_inj.1 (Option.some.inj hv))]
    | _ => simp [showUnit?, apply, record] at hv
  | system header =>
    obtain rfl := Option.some.inj hu
    cases v with
    | system header' => rw [showSystemHeader_inj.1 (apply_inj.1 (Option.some.inj hv))]
    | _ => simp [showUnit?, apply, record] at hv
  | map m =>
    obtain rfl := Option.some.inj hu
    cases v with
    | map m' => rw [showStreamMap_inj.1 (apply_inj.1 (Option.some.inj hv))]
    | _ => simp [showUnit?, apply, record] at hv
  | streamEnd =>
    obtain rfl := Option.some.inj hu
    cases v with
    | streamEnd => rfl
    | _ => simp [showUnit?, apply, record] at hv
  | other id length =>
    obtain rfl := Option.some.inj hu
    cases v with
    | other id' length' =>
      obtain ⟨hid, hlength⟩ : id' = id ∧ length' = length := by
        simpa [UInt8.toNat_inj] using record_inj.1 (Option.some.inj hv)
      rw [hid, hlength]
    | _ => simp [showUnit?, apply, record] at hv

/-- **A unit is told by its text.** -/
theorem text?_inj {u v : StreamUnit} {text : String} (hu : text? u = some text)
    (hv : text? v = some text) : u = v := by
  obtain ⟨s, hs, rfl⟩ := Option.map_eq_some_iff.1 hu
  obtain ⟨t, ht, heq⟩ := Option.map_eq_some_iff.1 hv
  have hsame : t = s := render_inj (tidy_showUnit? ht) (tidy_showUnit? hs) heq
  exact showUnit?_inj hs (hsame ▸ ht)

end Diagnostic

end ProgramStream
