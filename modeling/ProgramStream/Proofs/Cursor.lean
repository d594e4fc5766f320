import ProgramStream.Bits.Cursor
import ProgramStream.Proofs.Words
/-!
# A bit cursor — what is taken off the bits ahead

`c.Takes bits c'` says that `c'` is the cursor after `bits` were read off
`c`: they stood ahead, and they are counted. Taking is a function of the
bits (`Takes.unique`) and comes in parts (`takes_append_iff`), and each
operation of the cursor is a case of it, so nothing else has to know how a
cursor is kept.
-/

namespace ProgramStream

namespace BitCursor

variable {c c' c'' : BitCursor} {bits xs ys : List Bool}

/-- At a byte boundary the bits ahead are those of the whole bytes ahead. -/
theorem ahead_of_pending (h : c.pending = []) : c.ahead = Bits.ofBytes c.bytes := by
  rw [ahead, h, List.nil_append]

/-- The cursor after some bits were read off another one. The number of
bytes taken and the bits left of the last one change as the bits say. -/
structure Takes (c : BitCursor) (bits : List Bool) (c' : BitCursor) : Prop where
  ahead_eq : c.ahead = bits ++ c'.ahead
  taken_eq : 8 * c'.taken + c.pending.length = 8 * c.taken + c'.pending.length + bits.length

namespace Takes

theorem refl (c : BitCursor) : c.Takes [] c := ⟨rfl, by simp⟩

theorem trans (h : c.Takes xs c') (h' : c'.Takes ys c'') : c.Takes (xs ++ ys) c'' where
  ahead_eq := by rw [h.ahead_eq, h'.ahead_eq, List.append_assoc]
  taken_eq := by
    have h₁ := h.taken_eq
    have h₂ := h'.taken_eq
    rw [List.length_append]
    omega

/-- **Bits taken tell the cursor after them.** -/
theorem unique (h : c.Takes bits c') (h' : c.Takes bits c'') : c' = c'' := by
  have hahead : c'.ahead = c''.ahead :=
    List.append_cancel_left (h.ahead_eq.symm.trans h'.ahead_eq)
  have htaken := h.taken_eq
  have htaken' := h'.taken_eq
  have hlt := c'.pending_lt
  have hlt' := c''.pending_lt
  -- less than a byte is left in either, so the counts of bytes are the same
  have hlen : c'.pending.length = c''.pending.length := by omega
  obtain ⟨hpending, hbytes⟩ := List.append_inj hahead hlen
  have hbytes' : c'.bytes = c''.bytes := Bits.ofBytes_inj hbytes
  obtain ⟨pending, bytes, taken, _⟩ := c'
  obtain ⟨pending', bytes', taken', _⟩ := c''
  simp only at hpending hbytes' hlen htaken htaken'
  subst hpending hbytes'
  congr
  omega

/-- How many bits are left of the byte a cursor stands in. -/
theorem length_pending (h : c.Takes bits c') :
    c'.pending.length = (c.pending.length + 7 * bits.length) % 8 := by
  have := h.taken_eq
  have := c'.pending_lt
  omega

/-- Bits that are whole bytes count as so many bytes. -/
theorem taken_of_length {n : Nat} (h : c.Takes bits c') (hn : bits.length = 8 * n) :
    c'.taken = c.taken + n := by
  have := h.taken_eq
  have := h.length_pending
  have := c.pending_lt
  omega

end Takes

/-! ## Single bits -/

theorem takes_of_next? {b : Bool} (h : c.next? = some (b, c')) : c.Takes [b] c' := by
  refine ⟨ahead_of_next? h, ?_⟩
  obtain ⟨_ | ⟨p, pending⟩, _ | ⟨byte, bytes⟩, taken, hlt⟩ := c <;>
    simp only [next?, reduceCtorEq, Option.some.injEq, Prod.mk.injEq] at h
  all_goals obtain ⟨rfl, rfl⟩ := h
  all_goals simp
  all_goals omega

theorem exists_next? {b : Bool} {rest : List Bool} (h : c.ahead = b :: rest) :
    ∃ c', c.next? = some (b, c') := by
  obtain ⟨_ | ⟨p, pending⟩, _ | ⟨byte, bytes⟩, taken, hlt⟩ := c
  · cases h
  · exact ⟨_, by rw [(List.cons.inj (show _ = b :: rest from h)).1.symm]; rfl⟩
  · exact ⟨_, by rw [(List.cons.inj (show _ = b :: rest from h)).1.symm]; rfl⟩
  · exact ⟨_, by rw [(List.cons.inj (show _ = b :: rest from h)).1.symm]; rfl⟩

theorem next?_of_takes {b : Bool} (h : c.Takes [b] c') : c.next? = some (b, c') := by
  obtain ⟨c'', hnext⟩ := exists_next? h.ahead_eq
  rw [hnext, (takes_of_next? hnext).unique h]

/-- Bits that stand ahead can be taken. -/
theorem exists_takes_of_prefix (h : xs <+: c.ahead) : ∃ c', c.Takes xs c' := by
  induction xs generalizing c with
  | nil => exact ⟨c, .refl c⟩
  | cons b xs ih =>
    obtain ⟨rest, hahead⟩ := h
    have hfirst : c.ahead = b :: (xs ++ rest) := hahead.symm
    obtain ⟨c₁, hnext⟩ := exists_next? hfirst
    have hb := takes_of_next? hnext
    have hrest : xs ++ rest = c₁.ahead :=
      (List.cons.inj (hfirst.symm.trans hb.ahead_eq)).2
    obtain ⟨c', htakes⟩ := ih ⟨rest, hrest⟩
    exact ⟨c', hb.trans htakes⟩

/-- **Bits are taken in parts.** -/
theorem takes_append_iff : c.Takes (xs ++ ys) c' ↔ ∃ c₁, c.Takes xs c₁ ∧ c₁.Takes ys c' := by
  constructor
  · intro h
    -- the cursor in between is not given, and reading bit by bit leads there
    induction xs generalizing c with
    | nil => exact ⟨c, .refl c, h⟩
    | cons b xs ih =>
      obtain ⟨c₁, hnext⟩ := exists_next? h.ahead_eq
      have hb := takes_of_next? hnext
      have hrest : c₁.Takes (xs ++ ys) c' := by
        refine ⟨List.append_cancel_left (hb.ahead_eq.symm.trans h.ahead_eq), ?_⟩
        have := h.taken_eq
        have := hb.taken_eq
        simp only [List.cons_append, List.length_cons, List.length_nil] at *
        omega
      obtain ⟨c₂, hxs, hys⟩ := ih hrest
      exact ⟨c₂, hb.trans hxs, hys⟩
  · rintro ⟨c₁, hxs, hys⟩
    exact hxs.trans hys

/-! ## The operations -/

/-- **Reading so many bits takes them**, if they are there. -/
theorem next_eq_some_iff {n : Nat} :
    c.next n = some (bits, c') ↔ c.Takes bits c' ∧ bits.length = n := by
  induction n generalizing c bits with
  | zero =>
    simp only [next, Option.some.injEq, Prod.mk.injEq]
    constructor
    · rintro ⟨rfl, rfl⟩
      exact ⟨.refl c, rfl⟩
    · rintro ⟨h, hlen⟩
      obtain rfl := List.length_eq_zero_iff.1 hlen
      exact ⟨rfl, (Takes.refl c).unique h⟩
  | succ n ih =>
    simp only [next, bind, Option.bind_eq_some_iff, pure, Option.some.injEq, Prod.mk.injEq,
      Prod.exists]
    constructor
    · rintro ⟨b, c₁, hb, rest, c₂, hrest, rfl, rfl⟩
      obtain ⟨htakes, hlen⟩ := ih.1 hrest
      exact ⟨(takes_of_next? hb).trans htakes, by simp [hlen]⟩
    · rintro ⟨h, hlen⟩
      cases bits with
      | nil => cases hlen
      | cons b rest =>
        obtain ⟨c₁, hb, hrest⟩ := takes_append_iff.1 (show c.Takes ([b] ++ rest) c' from h)
        have hlen' : rest.length = n := Nat.succ.inj hlen
        exact ⟨b, c₁, next?_of_takes hb, rest, c', ih.2 ⟨hrest, hlen'⟩, rfl, rfl⟩

theorem readBit_eq_ok_iff {b : Bool} : c.readBit = .ok (b, c') ↔ c.Takes [b] c' := by
  unfold readBit
  constructor
  · intro h
    split at h
    · cases h
      exact takes_of_next? ‹_›
    · cases h
  · intro h
    rw [next?_of_takes h]

/-- **A field is the number of the bits taken.** -/
theorem readBits_eq_ok_iff {n v : Nat} (hn : n ≤ 64) :
    c.readBits n = .ok (v, c') ↔
      ∃ bits, c.Takes bits c' ∧ bits.length = n ∧ Bits.toNat bits = v := by
  rw [readBits, if_neg (Nat.not_lt.2 hn)]
  constructor
  · intro h
    split at h
    · rename_i bits c₁ hnext
      cases h
      obtain ⟨htakes, hlen⟩ := next_eq_some_iff.1 hnext
      exact ⟨bits, htakes, hlen, rfl⟩
    · cases h
  · rintro ⟨bits, htakes, rfl, rfl⟩
    rw [next_eq_some_iff.2 ⟨htakes, rfl⟩]

/-- Whole bytes taken on a boundary are the first of those after it. -/
theorem eq_of_takes_bytes {bytes : List UInt8} (hpending : c.pending = [])
    (h : c.Takes (Bits.ofBytes bytes) c') :
    c.bytes = bytes ++ c'.bytes ∧ c' = ⟨[], c'.bytes, c.taken + bytes.length, by decide⟩ := by
  have hlen : c'.pending = [] := by
    have := h.length_pending
    rw [hpending, Bits.length_ofBytes] at this
    exact List.length_eq_zero_iff.1 (by simp only [List.length_nil] at this; omega)
  have htaken := h.taken_of_length (Bits.length_ofBytes bytes)
  have hbits : Bits.ofBytes c.bytes = Bits.ofBytes (bytes ++ c'.bytes) := by
    have := h.ahead_eq
    rwa [ahead_of_pending hpending, ahead_of_pending hlen, ← Bits.ofBytes_append] at this
  refine ⟨Bits.ofBytes_inj hbits, ?_⟩
  obtain ⟨pending, rest, taken, _⟩ := c'
  simp only at hlen htaken
  subst hlen htaken
  rfl

/-- The first of the whole bytes after a boundary can be taken. -/
theorem takes_bytes (hpending : c.pending = []) {bytes rest : List UInt8}
    (hbytes : c.bytes = bytes ++ rest) :
    c.Takes (Bits.ofBytes bytes) ⟨[], rest, c.taken + bytes.length, by decide⟩ where
  ahead_eq := by simp [ahead, hpending, hbytes]
  taken_eq := by
    simp only [hpending, List.length_nil, Bits.length_ofBytes]
    omega

/-- **Whole bytes are read on a boundary only.** -/
theorem readBytes_eq_ok_iff {n : Nat} {bytes : List UInt8} :
    c.readBytes n = .ok (bytes, c') ↔
      c.pending = [] ∧ bytes.length = n ∧ c.Takes (Bits.ofBytes bytes) c' := by
  obtain ⟨_ | ⟨p, pending⟩, ahead, taken, hlt⟩ := c
  · simp only [readBytes, true_and]
    constructor
    · intro h
      split at h
      · rename_i front rest hsplit
        cases h
        obtain ⟨hbytes, rfl⟩ := splitFront?_eq_some_iff.1 hsplit
        exact ⟨rfl, takes_bytes rfl hbytes⟩
      · cases h
    · rintro ⟨rfl, htakes⟩
      obtain ⟨hbytes, hc'⟩ := eq_of_takes_bytes rfl htakes
      simp only at hbytes
      rw [hbytes, splitFront?_append]
      exact congrArg (fun c => Except.ok (bytes, c)) hc'.symm
  · simp [readBytes]

theorem readByte_eq_ok_iff {b : UInt8} :
    c.readByte = .ok (b, c') ↔ c.pending = [] ∧ c.Takes (Bits.ofByte b) c' := by
  have hone : c.readByte = .ok (b, c') ↔ c.readBytes 1 = .ok ([b], c') := by
    obtain ⟨_ | ⟨p, pending⟩, _ | ⟨byte, bytes⟩, taken, hlt⟩ := c <;>
      simp [readByte, readBytes, splitFront?]
  rw [hone, readBytes_eq_ok_iff]
  simp

/-- The cursor at the start of a byte string takes any bytes it begins with. -/
theorem takes_ofBytes (bytes rest : List UInt8) :
    (ofBytes (bytes ++ rest)).Takes (Bits.ofBytes bytes)
      ⟨[], rest, bytes.length, by decide⟩ := by
  simpa [ofBytes] using takes_bytes (c := ofBytes (bytes ++ rest)) rfl rfl

end BitCursor

end ProgramStream
