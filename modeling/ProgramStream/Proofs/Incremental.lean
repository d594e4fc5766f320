import ProgramStream.Proofs.Build
/-!
# Parsers — input that is still coming in

A parser asks for what comes next and never for how much is left. So unless
it runs out of input, it makes the same of its input with more bytes behind
it (`IsStable`): the same value or fault, the same warnings, and the cursor
where it was. That is so of each operation, and of what is put together from
them (`IsBuilt.isStable`), and hence of every parser here. A parser that has a
value of its input runs out of any less than it takes
(`isIncremental_parsers`).
-/

namespace ProgramStream

namespace BitCursor

variable {c c' : BitCursor} {bits : List Bool}

/-- A cursor with more bytes behind its input. -/
def extend (c : BitCursor) (more : List UInt8) : BitCursor := { c with bytes := c.bytes ++ more }

/-- A cursor with no more whole bytes ahead than these. -/
def keep (c : BitCursor) (n : Nat) : BitCursor := { c with bytes := c.bytes.take n }

theorem extend_keep (c : BitCursor) (n : Nat) : (c.keep n).extend (c.bytes.drop n) = c := by
  simp [extend, keep]

namespace Takes

/-- **Bits are taken whatever is behind them.** -/
theorem extend (h : c.Takes bits c') (more : List UInt8) :
    (c.extend more).Takes bits (c'.extend more) where
  ahead_eq := by
    have hahead : ∀ c : BitCursor, (c.extend more).ahead = c.ahead ++ Bits.ofBytes more := by
      intro c
      simp [BitCursor.extend, ahead]
    rw [hahead, hahead, h.ahead_eq, List.append_assoc]
  taken_eq := h.taken_eq

/-- A byte is ahead or is taken. -/
theorem taken_add_length (h : c.Takes bits c') :
    c'.taken + c'.bytes.length = c.taken + c.bytes.length := by
  have hahead := congrArg List.length h.ahead_eq
  have htaken := h.taken_eq
  rw [List.length_append, length_ahead, length_ahead, left, left] at hahead
  omega

end Takes

/-! ## The operations of a cursor -/

/-- An operation asks for what comes next only. -/
structure IsStable {α : Type} (op : BitCursor → Except BitFault (α × BitCursor)) : Prop where
  ok {c c' a} (h : op c = .ok (a, c')) (more) : op (c.extend more) = .ok (a, c'.extend more)
  error {c fault} (h : op c = .error fault) (hfault : fault.isShortage = false) (more) :
    op (c.extend more) = .error fault
  taken_add_length {c c' a} (h : op c = .ok (a, c')) :
    c'.taken + c'.bytes.length = c.taken + c.bytes.length

theorem isStable_readBit : IsStable readBit where
  ok h more := readBit_eq_ok_iff.2 ((readBit_eq_ok_iff.1 h).extend more)
  error {c fault} h hfault more := by
    unfold readBit at h
    split at h
    · cases h
    · cases h
      cases hfault
  taken_add_length h := (readBit_eq_ok_iff.1 h).taken_add_length

theorem isStable_readBits (n : Nat) : IsStable (readBits n) := by
  rcases Nat.lt_or_ge 64 n with hwide | hn
  · -- a field too wide is refused before the input is looked at
    have hrefused : ∀ c : BitCursor, c.readBits n = .error (.tooWide n) := fun c => if_pos hwide
    refine ⟨fun h => ?_, fun h _ more => ?_, fun h => ?_⟩
    · rw [hrefused] at h
      cases h
    · rw [hrefused] at h ⊢
      exact h
    · rw [hrefused] at h
      cases h
  · refine ⟨fun h more => ?_, fun h hfault => ?_, fun h => ?_⟩
    · obtain ⟨bits, htakes, hlen, hvalue⟩ := (readBits_eq_ok_iff hn).1 h
      exact (readBits_eq_ok_iff hn).2 ⟨bits, htakes.extend more, hlen, hvalue⟩
    · rw [readBits, if_neg (Nat.not_lt.2 hn)] at h
      split at h
      · cases h
      · cases h
        cases hfault
    · obtain ⟨bits, htakes, -⟩ := (readBits_eq_ok_iff hn).1 h
      exact htakes.taken_add_length

theorem isStable_readBytes (n : Nat) : IsStable (readBytes n) where
  ok h more := by
    obtain ⟨hpending, hlen, htakes⟩ := readBytes_eq_ok_iff.1 h
    exact readBytes_eq_ok_iff.2 ⟨hpending, hlen, htakes.extend more⟩
  error {c fault} h hfault more := by
    unfold readBytes at h
    split at h
    · exact h
    · split at h
      · cases h
      · cases h
        cases hfault
  taken_add_length h := (readBytes_eq_ok_iff.1 h).2.2.taken_add_length

theorem isStable_readByte : IsStable readByte where
  ok h more := by
    obtain ⟨hpending, htakes⟩ := readByte_eq_ok_iff.1 h
    exact readByte_eq_ok_iff.2 ⟨hpending, htakes.extend more⟩
  error {c fault} h hfault more := by
    unfold readByte at h
    split at h
    · exact h
    · cases h
    · cases h
      cases hfault
  taken_add_length h := (readByte_eq_ok_iff.1 h).2.taken_add_length

theorem map_eq_error_iff {ε α β : Type} {e : Except ε α} {f : α → β} {fault : ε} :
    e.map f = .error fault ↔ e = .error fault := by
  cases e <;> simp [Except.map]

/-- What is only looked at stays where it is. -/
theorem peekBytes_eq_ok_iff {n : Nat} {bytes : List UInt8} :
    c.peekBytes n = .ok (bytes, c') ↔ c' = c ∧ ∃ c₁, c.readBytes n = .ok (bytes, c₁) := by
  unfold peekBytes
  cases c.readBytes n with
  | ok r => obtain ⟨front, c₁⟩ := r; simp [Except.map, and_comm, eq_comm]
  | error fault => simp [Except.map]

theorem skipBytes_eq_ok_iff {n : Nat} {a : Unit} :
    c.skipBytes n = .ok (a, c') ↔ ∃ bytes, c.readBytes n = .ok (bytes, c') := by
  unfold skipBytes
  cases c.readBytes n with
  | ok r => obtain ⟨front, c₁⟩ := r; simp [Except.map]
  | error fault => simp [Except.map]

theorem isStable_peekBytes (n : Nat) : IsStable (peekBytes n) where
  ok h more := by
    obtain ⟨rfl, c₁, hread⟩ := peekBytes_eq_ok_iff.1 h
    exact peekBytes_eq_ok_iff.2 ⟨rfl, _, (isStable_readBytes n).ok hread more⟩
  error h hfault more :=
    map_eq_error_iff.2 ((isStable_readBytes n).error (map_eq_error_iff.1 h) hfault more)
  taken_add_length h := by
    obtain ⟨rfl, -⟩ := peekBytes_eq_ok_iff.1 h
    rfl

theorem isStable_skipBytes (n : Nat) : IsStable (skipBytes n) where
  ok h more := by
    obtain ⟨bytes, hread⟩ := skipBytes_eq_ok_iff.1 h
    exact skipBytes_eq_ok_iff.2 ⟨bytes, (isStable_readBytes n).ok hread more⟩
  error h hfault more :=
    map_eq_error_iff.2 ((isStable_readBytes n).error (map_eq_error_iff.1 h) hfault more)
  taken_add_length h := by
    obtain ⟨bytes, hread⟩ := skipBytes_eq_ok_iff.1 h
    exact (isStable_readBytes n).taken_add_length hread

theorem IsOperation.isStable {α : Type} {op : BitCursor → Except BitFault (α × BitCursor)}
    (hop : IsOperation op) : IsStable op := by
  cases hop with
  | readBit => exact isStable_readBit
  | readBits n => exact isStable_readBits n
  | readByte => exact isStable_readByte
  | readBytes n => exact isStable_readBytes n
  | peekBytes n => exact isStable_peekBytes n
  | skipBytes n => exact isStable_skipBytes n

end BitCursor

namespace Parser

variable {α β : Type}

/-- A state with more bytes behind its input. -/
def State.extend (s : State) (more : List UInt8) : State :=
  { s with cursor := s.cursor.extend more }

/-- **A parser asks for what comes next only.** Unless it runs out of input,
more bytes behind it change nothing. -/
class IsStable (p : Parser α) : Prop where
  ok {s a t} (h : p s = .ok a t) (more) : p (s.extend more) = .ok a (t.extend more)
  error {s fault t} (h : p s = .error fault t) (hfault : fault ≠ .truncated) (more) :
    p (s.extend more) = .error fault (t.extend more)
  taken_add_length {s a t} (h : p s = .ok a t) :
    t.cursor.taken + t.cursor.bytes.length = s.cursor.taken + s.cursor.bytes.length

/-- **What is put together of such parsers is one.** -/
theorem IsStable.bind {p : Parser α} {f : α → Parser β} (hp : p.IsStable)
    (hf : ∀ a, (f a).IsStable) : (p >>= f).IsStable where
  ok h more := by
    obtain ⟨a, u, h₁, h₂⟩ := bind_eq_ok_iff.1 h
    exact bind_eq_ok_iff.2 ⟨a, u.extend more, hp.ok h₁ more, (hf a).ok h₂ more⟩
  error h hfault more := by
    rcases bind_eq_error_iff.1 h with h₁ | ⟨a, u, h₁, h₂⟩
    · exact bind_eq_error_iff.2 (.inl (hp.error h₁ hfault more))
    · exact bind_eq_error_iff.2
        (.inr ⟨a, u.extend more, hp.ok h₁ more, (hf a).error h₂ hfault more⟩)
  taken_add_length h := by
    obtain ⟨a, u, h₁, h₂⟩ := bind_eq_ok_iff.1 h
    rw [(hf a).taken_add_length h₂, hp.taken_add_length h₁]

theorem isStable_pure (a : α) : (pure a : Parser α).IsStable where
  ok h more := by
    obtain ⟨rfl, rfl⟩ := pure_eq_ok_iff.1 h
    rfl
  error h := by cases h
  taken_add_length h := by
    obtain ⟨-, rfl⟩ := pure_eq_ok_iff.1 h
    rfl

theorem isStable_throw (fault : Fault) : (throw fault : Parser α).IsStable where
  ok h more := (throw_eq_ok_iff.1 h).elim
  error {s fault' t} h _ more := by
    change EStateM.Result.error fault s = .error fault' t at h
    cases h
    rfl
  taken_add_length h := (throw_eq_ok_iff.1 h).elim

/-- **An operation of the cursor is such a parser.** -/
theorem isStable_ofCursor {op : BitCursor → Except BitFault (α × BitCursor)}
    (hop : BitCursor.IsStable op) : (ofCursor op).IsStable where
  ok h more := by
    obtain ⟨h, hwarnings⟩ := ofCursor_eq_ok_iff.1 h
    exact ofCursor_eq_ok_iff.2 ⟨hop.ok h more, hwarnings⟩
  error {s fault t} h hfault more := by
    unfold ofCursor at h ⊢
    cases hread : op s.cursor with
    | ok r =>
      rw [hread] at h
      cases h
    | error f =>
      rw [hread] at h
      cases h
      have hlong : f.isShortage = false := by
        by_contra hshort
        exact hfault (if_pos (Bool.not_eq_false _ ▸ hshort))
      simp only [State.extend, hop.error hread hlong more]
  taken_add_length h := hop.taken_add_length (ofCursor_eq_ok_iff.1 h).1

theorem isStable_taken : taken.IsStable where
  ok h more := by
    obtain ⟨rfl, rfl⟩ := taken_eq_ok_iff.1 h
    exact taken_eq_ok_iff.2 ⟨rfl, rfl⟩
  error h := by cases h
  taken_add_length h := by
    obtain ⟨-, rfl⟩ := taken_eq_ok_iff.1 h
    rfl

theorem isStable_warn (w : Warning) : (warn w).IsStable where
  ok h more := by
    cases h
    rfl
  error h := by cases h
  taken_add_length h := by
    cases h
    rfl

/-- **So is whatever is built of them.** -/
theorem IsBuilt.isStable {p : Parser α} (hp : p.IsBuilt) : p.IsStable := by
  induction hp with
  | pure a => exact isStable_pure a
  | throw fault _ => exact isStable_throw fault
  | bind _ _ ihp ihf => exact .bind ihp ihf
  | ofCursor hop => exact isStable_ofCursor hop.isStable
  | taken => exact isStable_taken
  | warn w => exact isStable_warn w

end Parser

/-! ## Input that comes in pieces -/

namespace Parser

variable {α : Type}

/-- An outcome with more bytes behind what is left. -/
def Outcome.extend (o : Outcome α) (more : List UInt8) : Outcome α :=
  { o with cursor := o.cursor.extend more }

/-- A parser that can be run on what has come in so far: only running out of
input tells it that more is to come, and it does not guess before. -/
structure IsIncremental (p : Parser α) : Prop where
  /-- a value or a fault stands, whatever comes in later -/
  run_extend (c more) (h : (p.run c).result ≠ .error .truncated) :
    p.run (c.extend more) = (p.run c).extend more
  /-- fewer bytes than a value takes are too few -/
  run_keep {c a n} (h : (p.run c).result = .ok a) (hn : n < (p.run c).cursor.taken - c.taken) :
    (p.run (c.keep n)).result = .error .truncated

variable {p : Parser α}

theorem IsStable.run_extend (hp : p.IsStable) (c : BitCursor) (more : List UInt8)
    (h : (p.run c).result ≠ .error .truncated) :
    p.run (c.extend more) = (p.run c).extend more := by
  cases hrun : p ⟨c, #[]⟩ with
  | ok a t =>
    have hmore : p ⟨c.extend more, #[]⟩ = .ok a (t.extend more) := hp.ok hrun more
    rw [run_of_ok hrun, run_of_ok hmore]
    rfl
  | error fault t =>
    rw [run_of_error hrun] at h
    have hfault : fault ≠ .truncated := fun hfault => h (congrArg _ hfault)
    have hmore : p ⟨c.extend more, #[]⟩ = .error fault (t.extend more) :=
      hp.error hrun hfault more
    rw [run_of_error hrun, run_of_error hmore]
    rfl

theorem IsStable.run_taken_add_length (hp : p.IsStable) {c : BitCursor} {a : α}
    (h : (p.run c).result = .ok a) :
    (p.run c).cursor.taken + (p.run c).cursor.bytes.length = c.taken + c.bytes.length := by
  obtain ⟨t, hrun, hcursor⟩ := exists_of_result_run h
  rw [hcursor]
  exact hp.taken_add_length hrun

/-- **What asks for what comes next only can be run on what has come in.** -/
theorem IsStable.isIncremental (hp : p.IsStable) : p.IsIncremental where
  run_extend := hp.run_extend
  run_keep {c a n} h hn := by
    by_contra hdone
    -- what was made of the few bytes would be made of all of them
    have hall := hp.run_extend _ (c.bytes.drop n) hdone
    rw [BitCursor.extend_keep] at hall
    have hshort : (p.run (c.keep n)).result = .ok a := by
      rw [← h, hall]
      rfl
    have htaken := hp.run_taken_add_length hshort
    have hcut : (p.run c).cursor.taken = (p.run (c.keep n)).cursor.taken := by
      rw [hall]
      rfl
    have hkeep : (c.keep n).bytes.length ≤ n := List.length_take_le n c.bytes
    have hkept : (c.keep n).taken = c.taken := rfl
    omega

end Parser

namespace ByteBuffer

variable {α : Type}

/-- A parser that can be run on a buffer before all of its input is there. -/
structure IsIncremental (p : Parser α) : Prop where
  /-- a value or a fault stands, whatever comes in later -/
  parse_extend (b more) (h : (parse p b).1 ≠ .error .truncated) :
    parse p (b.extend more) = ((parse p b).1, (parse p b).2.extend more)
  /-- fewer bytes than a value takes are too few -/
  parse_take {b a n} (h : (parse p b).1 = .ok a) (hn : n < b.size - (parse p b).2.size) :
    (parse p ⟨b.content.take n⟩).1 = .error .truncated

/-- A buffer is a cursor at its front. -/
theorem isIncremental {p : Parser α} (hp : p.IsStable) : IsIncremental p where
  parse_extend b more h := by
    have hrun := hp.run_extend (BitCursor.ofBytes b.content) more h
    change p.run (BitCursor.ofBytes (b.content ++ more)) = _ at hrun
    simp only [parse, extend, hrun]
    rfl
  parse_take {b a n} h hn := by
    have htaken := hp.run_taken_add_length h
    change _ = 0 + b.content.length at htaken
    refine hp.isIncremental.run_keep h ?_
    change n < b.content.length - (p.run (BitCursor.ofBytes b.content)).cursor.bytes.length at hn
    change n < _ - 0
    omega

end ByteBuffer

/-- **Every parser can be run on what has come in so far.** -/
theorem isIncremental_parsers :
    PackHeader.parse.IsIncremental ∧ SystemHeader.parse.IsIncremental ∧
      StreamMap.parse.IsIncremental ∧ Packet.parse.IsIncremental ∧
      Timestamp.parse.IsIncremental ∧ ByteBuffer.IsIncremental Section.Association.parse ∧
      ByteBuffer.IsIncremental Section.ProgramMap.parse :=
  ⟨PackHeader.isBuilt_parse.isStable.isIncremental,
    SystemHeader.isBuilt_parse.isStable.isIncremental,
    StreamMap.isBuilt_parse.isStable.isIncremental, Packet.isBuilt_parse.isStable.isIncremental,
    Timestamp.isBuilt_parse.isStable.isIncremental,
    ByteBuffer.isIncremental Section.Association.isBuilt_parse.isStable,
    ByteBuffer.isIncremental Section.ProgramMap.isBuilt_parse.isStable⟩

end ProgramStream
