import ProgramStream.Parser
import ProgramStream.Proofs.Cursor
/-!
# Parsers — what a success says

A parser that succeeds took some bits and gave some warnings: `s.Takes bits
warnings s'`. Each operation below succeeds exactly on the bits it asks for,
so that a parser built from them opens into the parts it reads, one
`_eq_ok_iff` for each, and the parts close up again by `takes_append_iff`.
The number of bits a parser took tells where it stands in a byte
(`Takes.isAligned_iff`) and how many bytes it took (`Takes.taken_eq`).
-/

namespace ProgramStream

namespace Bits

/-- The bits of a field. -/
def ofField {n : Nat} (v : BitVec n) : List Bool := ofNat n v.toNat

@[simp] theorem length_ofField {n : Nat} (v : BitVec n) : (ofField v).length = n :=
  length_ofNat _ _

theorem ofField_ofNat (width n : Nat) : ofField (BitVec.ofNat width n) = ofNat width n := by
  rw [ofField, BitVec.toNat_ofNat, ofNat_mod]

/-- A number that fits a field is the number in it. -/
theorem toNat_ofNat_of_lt {width n : Nat} (h : n < 2 ^ width) :
    (BitVec.ofNat width n).toNat = n := by
  rw [BitVec.toNat_ofNat, Nat.mod_eq_of_lt h]

/-- **A field is read off its own bits only.** -/
theorem ofNat_toNat_eq_iff {n : Nat} {bits : List Bool} {v : BitVec n} (h : bits.length = n) :
    BitVec.ofNat n (toNat bits) = v ↔ bits = ofField v := by
  constructor
  · rintro rfl
    rw [ofField_ofNat, ofNat_toNat_of_length h]
  · rintro rfl
    rw [ofField, toNat_ofNat]
    simp

/-- Fields with the same bits are the same. -/
theorem ofField_inj {n : Nat} {u v : BitVec n} (h : ofField u = ofField v) : u = v := by
  rw [← (ofNat_toNat_eq_iff (length_ofField u)).2 rfl, h]
  exact (ofNat_toNat_eq_iff (length_ofField v)).2 rfl

/-- A word of sixteen bits is two bytes. -/
theorem ofField_word (v : UInt16) :
    ofField v.toBitVec = ofBytes (ByteOrder.big.bytes 2 v.toNat) :=
  (ByteOrder.ofBytes_big 2 _).symm

/-- One of thirty-two bits is four. -/
theorem ofField_word32 (v : UInt32) :
    ofField v.toBitVec = ofBytes (ByteOrder.big.bytes 4 v.toNat) :=
  (ByteOrder.ofBytes_big 4 _).symm

/-- Some bits have a field wherever they are long enough. -/
theorem exists_field_drop (bits : List Bool) (k n : Nat) (h : k + n ≤ bits.length) :
    ∃ v : BitVec n, bits.drop k = ofField v ++ bits.drop (k + n) := by
  have hlen : ((bits.drop k).take n).length = n :=
    List.length_take_of_le (by rw [List.length_drop]; omega)
  have hfield := (ofNat_toNat_eq_iff hlen).1 rfl
  exact ⟨_, by rw [← hfield, ← List.drop_drop, List.take_append_drop]⟩

theorem drop_of_getElem? {bits : List Bool} {k : Nat} {b : Bool} (h : bits[k]? = some b) :
    bits.drop k = [b] ++ bits.drop (k + 1) := by
  obtain ⟨hlt, hget⟩ := List.getElem?_eq_some_iff.1 h
  rw [List.drop_eq_getElem_cons hlt, hget]
  rfl

theorem exists_bit_drop (bits : List Bool) (k : Nat) (h : k < bits.length) :
    ∃ b, bits.drop k = [b] ++ bits.drop (k + 1) :=
  ⟨_, drop_of_getElem? (List.getElem?_eq_getElem h)⟩

/-! ## A field in parts -/

theorem toNat_append_field {k n : Nat} (u : BitVec k) (v : BitVec n) :
    (u ++ v).toNat = u.toNat * 2 ^ n + v.toNat := by
  rw [BitVec.toNat_append, ← Nat.shiftLeft_add_eq_or_of_lt v.isLt, Nat.shiftLeft_eq]

theorem exists_append_field {k n : Nat} (w : BitVec (k + n)) :
    ∃ (u : BitVec k) (v : BitVec n), w = u ++ v :=
  ⟨w.extractLsb' n k, w.extractLsb' 0 n, BitVec.extractLsb'_append_extractLsb'.symm⟩

/-- A field is laid out in its parts. -/
theorem ofField_append {k n : Nat} (u : BitVec k) (v : BitVec n) :
    ofField (u ++ v) = ofField u ++ ofField v := by
  refine ((ofNat_toNat_eq_iff (by simp)).1 ?_).symm
  refine BitVec.eq_of_toNat_eq ?_
  rw [BitVec.toNat_ofNat, toNat_append, length_ofField, ofField, ofField, toNat_ofNat, toNat_ofNat,
    Nat.mod_eq_of_lt u.isLt, Nat.mod_eq_of_lt v.isLt, ← toNat_append_field,
    Nat.mod_eq_of_lt (u ++ v).isLt]

end Bits

namespace Parser

variable {α β : Type} {s s' t u : State} {xs ys bits : List Bool} {ws ws' : List Warning}

/-! ## States -/

namespace State

/-- The parser stands between two bytes. -/
def IsAligned (s : State) : Prop := s.cursor.pending = []

/-- The state after some bits were taken and some warnings given. -/
structure Takes (s : State) (bits : List Bool) (ws : List Warning) (s' : State) : Prop where
  cursor : s.cursor.Takes bits s'.cursor
  warnings : s'.warnings.toList = s.warnings.toList ++ ws

namespace Takes

theorem refl (s : State) : s.Takes [] [] s := ⟨.refl _, by simp⟩

theorem trans (h : s.Takes xs ws t) (h' : t.Takes ys ws' u) :
    s.Takes (xs ++ ys) (ws ++ ws') u :=
  ⟨h.cursor.trans h'.cursor, by rw [h'.warnings, h.warnings, List.append_assoc]⟩

/-- What was taken tells the state after it. -/
theorem unique (h : s.Takes bits ws t) (h' : s.Takes bits ws u) : t = u := by
  obtain ⟨c, w⟩ := t
  obtain ⟨c', w'⟩ := u
  have hcursor : c = c' := h.cursor.unique h'.cursor
  have hwarnings : w = w' := Array.toList_inj.1 (h.warnings.trans h'.warnings.symm)
  rw [hcursor, hwarnings]

/-- **Whole bytes lead from a byte boundary to a byte boundary**, and from
nowhere else. -/
theorem isAligned_iff (h : s.Takes bits ws t) (hlen : 8 ∣ bits.length) :
    t.IsAligned ↔ s.IsAligned := by
  have := h.cursor.length_pending
  have := s.cursor.pending_lt
  simp only [IsAligned, ← List.length_eq_zero_iff]
  omega

/-- **Whole bytes are counted.** -/
theorem taken_eq {n : Nat} (h : s.Takes bits ws t) (hlen : bits.length = 8 * n) :
    t.cursor.taken = s.cursor.taken + n :=
  h.cursor.taken_of_length hlen

end Takes

/-- Bits that stand ahead can be taken, whatever is reported with them. -/
theorem exists_takes (h : bits <+: s.cursor.ahead) (ws : List Warning) :
    ∃ t, s.Takes bits ws t := by
  obtain ⟨c, hc⟩ := BitCursor.exists_takes_of_prefix h
  exact ⟨⟨c, s.warnings ++ ws.toArray⟩, hc, by simp⟩

theorem takes_nil_iff : s.Takes [] [] t ↔ t = s := by
  constructor
  · exact fun h => h.unique (.refl s)
  · rintro rfl
    exact .refl _

/-- **What is taken is taken in parts.** -/
theorem takes_append_iff :
    s.Takes (xs ++ ys) (ws ++ ws') u ↔ ∃ t, s.Takes xs ws t ∧ t.Takes ys ws' u := by
  constructor
  · intro h
    obtain ⟨c, hxs, hys⟩ := BitCursor.takes_append_iff.1 h.cursor
    refine ⟨⟨c, s.warnings ++ ws.toArray⟩, ⟨hxs, by simp⟩, ⟨hys, ?_⟩⟩
    rw [h.warnings]
    simp
  · rintro ⟨t, hxs, hys⟩
    exact hxs.trans hys

/-- Parts of which only the last may give warnings. -/
theorem takes_append_last_iff :
    s.Takes (xs ++ ys) ws u ↔ ∃ t, s.Takes xs [] t ∧ t.Takes ys ws u := by
  rw [← takes_append_iff, List.nil_append]

/-- Parts of which only the first may give warnings. -/
theorem takes_append_first_iff :
    s.Takes (xs ++ ys) ws u ↔ ∃ t, s.Takes xs ws t ∧ t.Takes ys [] u := by
  rw [← takes_append_iff, List.append_nil]

/-- Where a parser of a byte string starts. -/
def ofBytes (bytes : List UInt8) : State := ⟨BitCursor.ofBytes bytes, #[]⟩

theorem isAligned_ofBytes (bytes : List UInt8) : (ofBytes bytes).IsAligned := rfl

/-- The bytes at the start are taken off it. -/
theorem takes_ofBytes (bytes rest : List UInt8) (ws : List Warning) :
    (ofBytes (bytes ++ rest)).Takes (Bits.ofBytes bytes) ws
      ⟨⟨[], rest, bytes.length, by decide⟩, ws.toArray⟩ :=
  ⟨BitCursor.takes_ofBytes bytes rest, by simp [ofBytes]⟩

/-- The bytes after a boundary are taken off it. -/
theorem takes_bytes {c : BitCursor} {bytes rest : List UInt8} (hpending : c.pending = [])
    (hbytes : c.bytes = bytes ++ rest) :
    State.Takes ⟨c, #[]⟩ (Bits.ofBytes bytes) []
      ⟨⟨[], rest, c.taken + bytes.length, by decide⟩, #[]⟩ :=
  ⟨BitCursor.takes_bytes hpending hbytes, rfl⟩

/-- Bytes taken at a boundary are the first of those after it. -/
theorem Takes.bytes_isPrefix {bytes : List UInt8} {ws : List Warning} {s t : State}
    (h : s.Takes (Bits.ofBytes bytes) ws t) (haligned : s.IsAligned) :
    bytes <+: s.cursor.bytes :=
  ⟨_, (BitCursor.eq_of_takes_bytes haligned h.cursor).1.symm⟩

/-- Whole bytes that are all a byte string has are that byte string. -/
theorem Takes.eq_ofBytes {bytes : List UInt8} {bits : List Bool} {ws : List Warning} {t : State}
    (h : (ofBytes bytes).Takes bits ws t) (hlen : 8 ∣ bits.length)
    (htaken : t.cursor.taken = bytes.length) : bits = Bits.ofBytes bytes := by
  obtain ⟨n, hn⟩ := hlen
  have hcount := h.taken_eq hn
  have hahead : Bits.ofBytes bytes = bits ++ t.cursor.ahead := h.cursor.ahead_eq
  have hlength := congrArg List.length hahead
  have hzero : t.cursor.ahead.length = 0 := by
    rw [htaken, show (ofBytes bytes).cursor.taken = 0 from rfl, Nat.zero_add] at hcount
    rw [Bits.length_ofBytes, List.length_append, hn, hcount] at hlength
    omega
  rw [hahead, List.length_eq_zero_iff.1 hzero, List.append_nil]

end State

open State

theorem run_of_ok {p : Parser α} {c : BitCursor} {a : α} (h : p ⟨c, #[]⟩ = .ok a s') :
    p.run c = ⟨.ok a, s'.cursor, s'.warnings⟩ := by
  unfold run EStateM.run
  rw [h]

theorem run_of_error {p : Parser α} {c : BitCursor} {fault : Fault}
    (h : p ⟨c, #[]⟩ = .error fault s') : p.run c = ⟨.error fault, s'.cursor, s'.warnings⟩ := by
  unfold run EStateM.run
  rw [h]

/-- A run that has a value is a success of the parser. -/
theorem exists_of_result_run {p : Parser α} {c : BitCursor} {a : α}
    (h : (p.run c).result = .ok a) :
    ∃ s', p ⟨c, #[]⟩ = .ok a s' ∧ (p.run c).cursor = s'.cursor := by
  cases hp : p ⟨c, #[]⟩ with
  | ok a' s' =>
    rw [run_of_ok hp] at h ⊢
    cases h
    exact ⟨s', rfl, rfl⟩
  | error fault s' =>
    rw [run_of_error hp] at h
    cases h

/-! ## Putting parsers together -/

theorem bind_eq_ok_iff {p : Parser α} {f : α → Parser β} {b : β} :
    (p >>= f) s = .ok b s' ↔ ∃ a t, p s = .ok a t ∧ f a t = .ok b s' := by
  change EStateM.bind p f s = .ok b s' ↔ _
  unfold EStateM.bind
  cases p s with
  | ok a t =>
    simp only [EStateM.Result.ok.injEq]
    constructor
    · exact fun h => ⟨a, t, ⟨rfl, rfl⟩, h⟩
    · rintro ⟨_, _, ⟨rfl, rfl⟩, h⟩
      exact h
  | error fault t => simp

/-- A parser after another one that succeeds. -/
theorem bind_of_ok {p : Parser α} {f : α → Parser β} {a : α} (h : p s = .ok a t) :
    (p >>= f) s = f a t := by
  change EStateM.bind p f s = _
  unfold EStateM.bind
  rw [h]

theorem bind_eq_error_iff {p : Parser α} {f : α → Parser β} {fault : Fault} :
    (p >>= f) s = .error fault t ↔
      p s = .error fault t ∨ ∃ a u, p s = .ok a u ∧ f a u = .error fault t := by
  change EStateM.bind p f s = .error fault t ↔ _
  unfold EStateM.bind
  cases p s with
  | ok a u => simp
  | error fault' u => simp

/-- A parser that fails has nothing after it. -/
theorem bind_of_error {p : Parser α} {f : α → Parser β} {fault : Fault}
    (h : p s = .error fault t) : (p >>= f) s = .error fault t :=
  bind_eq_error_iff.2 (.inl h)

theorem pure_eq_ok_iff {a b : α} : (pure a : Parser α) s = .ok b s' ↔ a = b ∧ s = s' := by
  change EStateM.pure a s = .ok b s' ↔ _
  simp [EStateM.pure]

/-- A parser whose value is only wrapped. -/
theorem bind_pure_eq_ok_iff {p : Parser α} {f : α → β} {b : β} :
    (do return f (← p) : Parser β) s = .ok b s' ↔ ∃ a, p s = .ok a s' ∧ f a = b := by
  simp only [bind_eq_ok_iff, pure_eq_ok_iff]
  constructor
  · rintro ⟨a, _, h, hb, rfl⟩
    exact ⟨a, h, hb⟩
  · rintro ⟨a, h, hb⟩
    exact ⟨a, s', h, hb, rfl⟩

theorem map_eq_ok_iff {p : Parser α} {f : α → β} {b : β} :
    (f <$> p) s = .ok b s' ↔ ∃ a, p s = .ok a s' ∧ f a = b := by
  change EStateM.map f p s = .ok b s' ↔ _
  unfold EStateM.map
  cases p s with
  | ok a t =>
    simp only [EStateM.Result.ok.injEq]
    constructor
    · rintro ⟨rfl, rfl⟩
      exact ⟨a, ⟨rfl, rfl⟩, rfl⟩
    · rintro ⟨_, ⟨rfl, rfl⟩, rfl⟩
      exact ⟨rfl, rfl⟩
  | error fault t => simp

theorem throw_eq_ok_iff {fault : Fault} {a : α} :
    (throw fault : Parser α) s = .ok a s' ↔ False := by
  change EStateM.Result.error fault s = .ok a s' ↔ _
  simp only [reduceCtorEq]

theorem get_eq_ok_iff {a : State} : (get : Parser State) s = .ok a s' ↔ a = s ∧ s' = s := by
  change EStateM.Result.ok s s = .ok a s' ↔ _
  simp [eq_comm]

theorem ite_eq_ok_iff {c : Prop} [Decidable c] {p q : Parser α} {a : α} :
    (if c then p else q) s = .ok a s' ↔ (c ∧ p s = .ok a s') ∨ (¬c ∧ q s = .ok a s') := by
  by_cases hc : c
  · simp [hc]
  · simp [hc]

/-- What has to hold, or else the parser fails. -/
theorem ite_throw_eq_ok_iff {c : Prop} [Decidable c] {p : Parser α} {fault : Fault} {a : α} :
    (if c then p else throw fault) s = .ok a s' ↔ c ∧ p s = .ok a s' := by
  simp only [ite_eq_ok_iff, throw_eq_ok_iff, and_false, or_false]

/-- A part behind a flag. -/
theorem given_eq_ok_iff {p : Parser α} {present : Bool} {o : Option α} :
    given present p s = .ok o s' ↔
      (present = true ∧ ∃ a, o = some a ∧ p s = .ok a s') ∨
        (present = false ∧ o = none ∧ s' = s) := by
  cases present with
  | true => simp [given, map_eq_ok_iff, eq_comm, and_comm]
  | false => simp [given, pure_eq_ok_iff, eq_comm]

/-- **A part behind a flag is laid out where the flag is set**, in a layout
with bits of its own to fill. -/
theorem given_eq_ok_iff_of_fill {γ : Type} [Inhabited γ] {p : Parser α} {valid : α → Prop}
    {layout : α → γ → List Bool} {present : Bool} {o : Option α}
    (hp : ∀ a s', p s = .ok a s' ↔ valid a ∧ ∃ fill, s.Takes (layout a fill) [] s') :
    given present p s = .ok o s' ↔
      o.isSome = present ∧ (∀ a ∈ o, valid a) ∧
        ∃ fill, s.Takes (o.elim [] (layout · fill)) [] s' := by
  rw [given_eq_ok_iff]
  constructor
  · rintro (⟨rfl, a, rfl, h⟩ | ⟨rfl, rfl, rfl⟩)
    · obtain ⟨hvalid, htakes⟩ := (hp a s').1 h
      exact ⟨rfl, by simpa using hvalid, htakes⟩
    · exact ⟨rfl, by simp, default, .refl _⟩
  · rintro ⟨rfl, hvalid, fill, htakes⟩
    cases o with
    | none => exact .inr ⟨rfl, rfl, takes_nil_iff.1 htakes⟩
    | some a => exact .inl ⟨rfl, a, rfl, (hp a s').2 ⟨hvalid a rfl, fill, htakes⟩⟩

/-- The same, in a layout with nothing to fill. -/
theorem given_eq_ok_iff_of {p : Parser α} {valid : α → Prop} {layout : α → List Bool}
    {present : Bool} {o : Option α}
    (hp : ∀ a s', p s = .ok a s' ↔ valid a ∧ s.Takes (layout a) [] s') :
    given present p s = .ok o s' ↔
      o.isSome = present ∧ (∀ a ∈ o, valid a) ∧ s.Takes (o.elim [] layout) [] s' := by
  have h : given present p s = .ok o s' ↔
      o.isSome = present ∧ (∀ a ∈ o, valid a) ∧ ∃ _ : Unit, s.Takes (o.elim [] layout) [] s' := by
    refine given_eq_ok_iff_of_fill fun a s' => ?_
    rw [hp, exists_const]
  rw [h, exists_const]

/-- The same, in a layout of any value. -/
theorem given_eq_ok_iff_of_takes {p : Parser α} {layout : α → List Bool} {present : Bool}
    {o : Option α} (hp : ∀ a s', p s = .ok a s' ↔ s.Takes (layout a) [] s') :
    given present p s = .ok o s' ↔ o.isSome = present ∧ s.Takes (o.elim [] layout) [] s' := by
  have h : given present p s = .ok o s' ↔
      o.isSome = present ∧ (∀ a ∈ o, True) ∧ s.Takes (o.elim [] layout) [] s' := by
    refine given_eq_ok_iff_of fun a s' => ?_
    rw [hp, true_and]
  rw [h, and_iff_right (fun _ _ => trivial : ∀ a ∈ o, True)]

/-! ## The operations -/

theorem ofCursor_eq_ok_iff {op : BitCursor → Except BitFault (α × BitCursor)} {a : α} :
    ofCursor op s = .ok a s' ↔
      op s.cursor = .ok (a, s'.cursor) ∧ s'.warnings = s.warnings := by
  obtain ⟨c, w⟩ := s'
  unfold ofCursor
  split
  · rename_i hop
    simp only [EStateM.Result.ok.injEq, State.mk.injEq, hop, Except.ok.injEq, Prod.mk.injEq]
    grind
  · rename_i hop
    simp [hop]

theorem takes_nil_warnings_iff :
    s.Takes bits [] s' ↔ s.cursor.Takes bits s'.cursor ∧ s'.warnings = s.warnings := by
  constructor
  · exact fun h => ⟨h.cursor, Array.toList_inj.1 (by rw [h.warnings, List.append_nil])⟩
  · exact fun ⟨hcursor, hwarnings⟩ => ⟨hcursor, by rw [hwarnings, List.append_nil]⟩

/-- **A field is read off its own bits**, at any position. -/
theorem field_eq_ok_iff {n : Nat} (hn : n ≤ 64) {v : BitVec n} :
    field n s = .ok v s' ↔ s.Takes (Bits.ofField v) [] s' := by
  simp only [field, bind_eq_ok_iff, pure_eq_ok_iff, ofCursor_eq_ok_iff,
    BitCursor.readBits_eq_ok_iff hn, takes_nil_warnings_iff]
  constructor
  · rintro ⟨_, t, ⟨⟨bits, htakes, hlen, rfl⟩, hwarnings⟩, hv, rfl⟩
    rw [Bits.ofNat_toNat_eq_iff hlen] at hv
    exact ⟨hv ▸ htakes, hwarnings⟩
  · rintro ⟨htakes, hwarnings⟩
    have hlen := Bits.length_ofField v
    exact ⟨_, s', ⟨⟨_, htakes, hlen, rfl⟩, hwarnings⟩, (Bits.ofNat_toNat_eq_iff hlen).2 rfl, rfl⟩

theorem flag_eq_ok_iff {b : Bool} : flag s = .ok b s' ↔ s.Takes [b] [] s' := by
  rw [flag, ofCursor_eq_ok_iff, BitCursor.readBit_eq_ok_iff, takes_nil_warnings_iff]

theorem field8_eq_ok_iff {v : UInt8} : field8 s = .ok v s' ↔ s.Takes (Bits.ofByte v) [] s' := by
  simp only [field8, bind_pure_eq_ok_iff, field_eq_ok_iff (show 8 ≤ 64 by decide)]
  constructor
  · rintro ⟨_, htakes, rfl⟩
    exact htakes
  · exact fun htakes => ⟨v.toBitVec, htakes, rfl⟩

theorem field16_eq_ok_iff {v : UInt16} :
    field16 s = .ok v s' ↔ s.Takes (Bits.ofField v.toBitVec) [] s' := by
  simp only [field16, bind_pure_eq_ok_iff, field_eq_ok_iff (show 16 ≤ 64 by decide)]
  constructor
  · rintro ⟨_, htakes, rfl⟩
    exact htakes
  · exact fun htakes => ⟨v.toBitVec, htakes, rfl⟩

theorem field32_eq_ok_iff {v : UInt32} :
    field32 s = .ok v s' ↔ s.Takes (Bits.ofField v.toBitVec) [] s' := by
  simp only [field32, bind_pure_eq_ok_iff, field_eq_ok_iff (show 32 ≤ 64 by decide)]
  constructor
  · rintro ⟨_, htakes, rfl⟩
    exact htakes
  · exact fun htakes => ⟨v.toBitVec, htakes, rfl⟩

/-- **Whole bytes are read on a boundary only.** -/
theorem bytes_eq_ok_iff {n : Nat} {bs : List UInt8} :
    bytes n s = .ok bs s' ↔ s.IsAligned ∧ bs.length = n ∧ s.Takes (Bits.ofBytes bs) [] s' := by
  rw [bytes, ofCursor_eq_ok_iff, BitCursor.readBytes_eq_ok_iff, takes_nil_warnings_iff]
  simp only [State.IsAligned, and_assoc]

theorem byte_eq_ok_iff {b : UInt8} :
    byte s = .ok b s' ↔ s.IsAligned ∧ s.Takes (Bits.ofByte b) [] s' := by
  rw [byte, ofCursor_eq_ok_iff, BitCursor.readByte_eq_ok_iff, takes_nil_warnings_iff]
  simp only [State.IsAligned, and_assoc]

/-- Bytes passed over may be any. -/
theorem skip_eq_ok_iff {n : Nat} {a : Unit} :
    skip n s = .ok a s' ↔
      s.IsAligned ∧ ∃ bs : List UInt8, bs.length = n ∧ s.Takes (Bits.ofBytes bs) [] s' := by
  have hskip : skip n s = .ok a s' ↔ ∃ bs, bytes n s = .ok bs s' := by
    simp only [skip, bytes, ofCursor_eq_ok_iff, BitCursor.skipBytes]
    cases s.cursor.readBytes n with
    | ok r => obtain ⟨front, c⟩ := r; simp [Except.map]
    | error fault => simp [Except.map]
  simp only [hskip, bytes_eq_ok_iff, exists_and_left]

/-- Bytes looked at stay ahead. -/
theorem peek_eq_ok_iff {n : Nat} {bs : List UInt8} :
    peek n s = .ok bs s' ↔
      s' = s ∧ s.IsAligned ∧ bs.length = n ∧ bs <+: s.cursor.bytes := by
  obtain ⟨c', w'⟩ := s'
  obtain ⟨c, w⟩ := s
  have hpeek : peek n ⟨c, w⟩ = .ok bs ⟨c', w'⟩ ↔
      (c' = c ∧ w' = w) ∧ ∃ c₁, c.readBytes n = .ok (bs, c₁) := by
    simp only [peek, ofCursor_eq_ok_iff, BitCursor.peekBytes]
    cases c.readBytes n with
    | ok r => obtain ⟨front, c₁⟩ := r; simp [Except.map]; grind
    | error fault => simp [Except.map]
  simp only [hpeek, State.mk.injEq, BitCursor.readBytes_eq_ok_iff, State.IsAligned]
  constructor
  · rintro ⟨hsame, c₁, hpending, hlen, htakes⟩
    exact ⟨hsame, hpending, hlen, _, (BitCursor.eq_of_takes_bytes hpending htakes).1.symm⟩
  · rintro ⟨hsame, hpending, hlen, rest, hbytes⟩
    exact ⟨hsame, _, hpending, hlen, BitCursor.takes_bytes hpending hbytes.symm⟩

/-- Reserved bits may be any. -/
theorem reserved_eq_ok_iff {n : Nat} (hn : n ≤ 64) {a : Unit} :
    reserved n s = .ok a s' ↔ ∃ v : BitVec n, s.Takes (Bits.ofField v) [] s' := by
  simp only [reserved, bind_eq_ok_iff, pure_eq_ok_iff, field_eq_ok_iff hn, true_and]
  constructor
  · rintro ⟨v, t, htakes, rfl⟩
    exact ⟨v, htakes⟩
  · exact fun ⟨v, htakes⟩ => ⟨v, s', htakes, rfl⟩

/-- **A marker is a set bit.** -/
theorem marker_eq_ok_iff {name : String} {a : Unit} :
    marker name s = .ok a s' ↔ s.Takes [true] [] s' := by
  simp only [marker, bind_eq_ok_iff, flag_eq_ok_iff]
  constructor
  · rintro ⟨b, t, htakes, hthrow⟩
    cases b with
    | true =>
      obtain ⟨-, rfl⟩ := pure_eq_ok_iff.1 hthrow
      exact htakes
    | false => exact (throw_eq_ok_iff.1 hthrow).elim
  · exact fun htakes => ⟨true, s', htakes, rfl⟩

theorem taken_eq_ok_iff {n : Nat} : taken s = .ok n s' ↔ n = s.cursor.taken ∧ s' = s := by
  simp only [taken, bind_eq_ok_iff, pure_eq_ok_iff, get_eq_ok_iff]
  constructor
  · rintro ⟨_, _, ⟨rfl, rfl⟩, rfl, rfl⟩
    exact ⟨rfl, rfl⟩
  · rintro ⟨rfl, rfl⟩
    exact ⟨_, _, ⟨rfl, rfl⟩, rfl, rfl⟩

theorem warn_eq_ok_iff {w : Warning} {a : Unit} : warn w s = .ok a s' ↔ s.Takes [] [w] s' := by
  have htakes : s.Takes [] [w] { s with warnings := s.warnings.push w } :=
    ⟨.refl _, by simp⟩
  change EStateM.Result.ok () { s with warnings := s.warnings.push w } = .ok a s' ↔ _
  simp only [EStateM.Result.ok.injEq, true_and]
  constructor
  · rintro rfl
    exact htakes
  · exact fun h => htakes.unique h

end Parser

end ProgramStream
