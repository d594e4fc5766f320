import ProgramStream.Proofs.Incremental
import ProgramStream.Proofs.Strict
/-!
# Strict parsers — that do what parsers do

`Implements` says that no state makes a strict parser slip, and that what it
comes to is what the parser comes to. Strict parsers are put together as
parsers are, so this is shown part by part. On the way it keeps what a guard
needs that stands far from what it guards: the bytes taken never go back. And
it keeps the place within a byte, so that a parser that begins at a place it
is made for refuses only for bits that are not there (`Stop.IsFair`).
-/

namespace ProgramStream

/-! ## Fair stops -/

/-- The faults that a parser finds in what it has read. -/
inductive Fault.IsFound : Fault → Prop
  | startCode (found : UInt32) : IsFound (.startCode found)
  | version (firstByte : UInt8) : IsFound (.version firstByte)
  | marker (field : String) : IsFound (.marker field)
  | timestampCode (expected found : Nat) : IsFound (.timestampCode expected found)
  | malformed (what : Malformation) : IsFound (.malformed what)
  | tooShort (declared required : Nat) : IsFound (.tooShort declared required)
  | checksum (carried computed : UInt32) : IsFound (.checksum carried computed)

/-- **A stop with a reason in the input**: the parser found a fault in it, or
wanted more bits than were left. -/
inductive Stop.IsFair : Stop → Parser.State → Prop
  | thrown {fault : Fault} {s : Parser.State} (h : fault.IsFound) : IsFair (.thrown fault) s
  | refused {op : BitCursor.Operation} {s : Parser.State} (h : s.cursor.left < op.width) :
      IsFair (.refused op (.bytes .notEnough)) s

namespace Parser.State

/-- So many bits are behind the last byte boundary, or whole bytes more. -/
def IsPast (m : Nat) (s : State) : Prop := (s.cursor.pending.length + m) % 8 = 0

/-- No state is there. Of a parser that starts nowhere in particular, nothing
is said of its place. -/
def IsNowhere (_ : State) : Prop := False

theorem isPast_zero_iff {s : State} : s.IsPast 0 ↔ s.IsAligned := by
  have hlt := s.cursor.pending_lt
  rw [IsPast, IsAligned, ← List.length_eq_zero_iff]
  omega

end Parser.State

namespace Strict

open Parser.State

variable {α β : Type}

/-- What a strict parser and a parser come to, when they are started with at
least `k` bytes taken: the same, without a slip. If they were started where
`P` holds, they end where `Q` does, or stop fairly. -/
inductive Agrees (k : Nat) (P Q : Parser.State → Prop) (s : Parser.State) :
    EStateM.Result Stop Parser.State α → EStateM.Result Fault Parser.State α → Prop
  | ok {a : α} {t : Parser.State} (htaken : k ≤ t.cursor.taken) (hplace : P s → Q t) :
      Agrees k P Q s (.ok a t) (.ok a t)
  | error {stop : Stop} {fault : Fault} {t : Parser.State} (hfault : stop.fault? = some fault)
      (hfair : P s → stop.IsFair t) : Agrees k P Q s (.error stop t) (.error fault t)

theorem Agrees.imp {k : Nat} {P P' Q Q' : Parser.State → Prop} {s : Parser.State}
    {q : EStateM.Result Stop Parser.State α} {p : EStateM.Result Fault Parser.State α}
    (h : Agrees k P Q s q p) (hP : P' s → P s) (hQ : P' s → ∀ t, Q t → Q' t) :
    Agrees k P' Q' s q p := by
  cases h with
  | ok htaken hplace => exact .ok htaken fun hs => hQ hs _ (hplace (hP hs))
  | error hfault hfair => exact .error hfault fun hs => hfair (hP hs)

/-- **A strict parser that does what a parser does**, from any state with at
least `k` bytes taken. -/
def Implements (k : Nat) (P Q : Parser.State → Prop) (q : Strict α) (p : Parser α) : Prop :=
  ∀ s : Parser.State, k ≤ s.cursor.taken → Agrees k P Q s (q s) (p s)

namespace Implements

variable {k m n : Nat} {P Q R : Parser.State → Prop} {q : Strict α} {p : Parser α}

theorem pure (a : α) (h : ∀ s, P s → Q s) :
    Implements k P Q (Pure.pure a : Strict α) (Pure.pure a : Parser α) :=
  fun s hk => .ok hk (h s)

/-- **One after the other.** What comes after may count on the value being one
that the parser has. -/
theorem bind_of_ok {f : α → Strict β} {g : α → Parser β} (h : Implements k P Q q p)
    (hf : ∀ a s t, p s = .ok a t → Implements k Q R (f a) (g a)) :
    Implements k P R (q >>= f) (p >>= g) := by
  intro s hk
  have hfirst := h s hk
  change Agrees k P R s (EStateM.bind q f s) (EStateM.bind p g s)
  unfold EStateM.bind
  generalize hq : q s = q' at hfirst
  generalize hp : p s = p' at hfirst
  cases hfirst with
  | @ok a t htaken hplace =>
    simp only
    have hrest := hf a s t hp t htaken
    generalize f a t = q' at hrest
    generalize g a t = p' at hrest
    cases hrest with
    | ok htaken' hplace' => exact .ok htaken' fun hs => hplace' (hplace hs)
    | error hfault hfair => exact .error hfault fun hs => hfair (hplace hs)
  | error hfault hfair => exact .error hfault hfair

theorem bind {f : α → Strict β} {g : α → Parser β} (h : Implements k P Q q p)
    (hf : ∀ a, Implements k Q R (f a) (g a)) : Implements k P R (q >>= f) (p >>= g) :=
  h.bind_of_ok fun a _ _ _ => hf a

theorem weaken {P' Q' : Parser.State → Prop} (h : Implements k P Q q p) (hP : ∀ s, P' s → P s)
    (hQ : ∀ s, Q s → Q' s) : Implements k P' Q' q p :=
  fun s hk => (h s hk).imp (hP s) fun _ => hQ

/-- Whole bytes more are no other place. -/
theorem past {n' : Nat} (h : Implements k P (IsPast n) q p) (hmod : n % 8 = n' % 8) :
    Implements k P (IsPast n') q p :=
  h.weaken (fun _ hs => hs) fun s hs => by
    rw [IsPast] at hs ⊢
    omega

/-- A value at the end, whole bytes away from the place that is stated. -/
theorem pure_past (a : α) (hmod : m % 8 = n % 8) :
    Implements k (IsPast m) (IsPast n) (Pure.pure a : Strict α) (Pure.pure a : Parser α) :=
  .past (.pure a fun _ hs => hs) hmod

theorem nowhere (h : Implements k P Q q p) : Implements k IsNowhere IsNowhere q p :=
  fun s hk => (h s hk).imp False.elim False.elim

theorem fail {fault : Fault} (h : fault.IsFound) :
    Implements k P Q (Strict.fail fault : Strict α) (throw fault) :=
  fun _ _ => .error rfl fun _ => .thrown h

theorem fail_bind {fault : Fault} (h : fault.IsFound) (f : α → Strict β) (g : α → Parser β) :
    Implements k P Q (Strict.fail fault >>= f) (throw fault >>= g) :=
  fun _ _ => .error rfl fun _ => .thrown h

/-- A choice, whose parts may count on the condition. -/
theorem ite {c : Prop} [Decidable c] {q' : Strict α} {p' : Parser α}
    (h : c → Implements k P Q q p) (h' : ¬c → Implements k P Q q' p') :
    Implements k P Q (if c then q else q') (if c then p else p') := by
  split
  · exact h ‹_›
  · exact h' ‹_›

theorem map (h : Implements k P Q q p) (f : α → β) : Implements k P Q (f <$> q) (f <$> p) := by
  rw [map_eq_pure_bind, map_eq_pure_bind]
  exact h.bind fun a => .pure (f a) fun _ hs => hs

theorem given (h : Implements k P P q p) (present : Bool) :
    Implements k P P (Strict.given present q) (Parser.given present p) := by
  cases present with
  | true => exact h.map some
  | false => exact .pure none fun _ hs => hs

/-! ### Arithmetic -/

/-- **Arithmetic that does not slip** is that of the parser. -/
theorem lift_bind {γ : Type} {e : Except Slip γ} {c : γ} {f : γ → Strict α} (he : e = .ok c)
    (hf : Implements k P Q (f c) p) : Implements k P Q (Strict.lift e >>= f) p := by
  rw [he]
  exact hf

theorem sub_bind {a b : Nat} {f : Nat → Strict α} (h : b ≤ a)
    (hf : Implements k P Q (f (a - b)) p) : Implements k P Q (Strict.sub a b >>= f) p :=
  lift_bind (Slip.sub_of_le h) hf

/-! ### The operations -/

/-- **The bytes taken do not go back**: what is counted now bounds what is
counted later. -/
theorem taken_bind {f : Nat → Strict β} {g : Nat → Parser β}
    (h : ∀ n, k ≤ n → Implements n P Q (f n) (g n)) :
    Implements k P Q (Strict.taken >>= f) (Parser.taken >>= g) := by
  intro s hk
  have hs := h s.cursor.taken hk s (Nat.le_refl _)
  change Agrees k P Q s (f s.cursor.taken s) (g s.cursor.taken s)
  generalize f s.cursor.taken s = q' at hs
  generalize g s.cursor.taken s = p' at hs
  cases hs with
  | ok htaken hplace => exact .ok (Nat.le_trans hk htaken) hplace
  | error hfault hfair => exact .error hfault hfair

theorem warn (w : Warning) :
    Implements k (IsPast m) (IsPast m) (Strict.warn w) (Parser.warn w) :=
  fun _ hk => .ok hk fun hs => hs

section Cursor

variable {op : BitCursor.Operation} {read : BitCursor → Except BitFault (α × BitCursor)}

/-- **An operation of the cursor** that takes so many bits, and from its place
refuses only for want of bits. -/
theorem ofCursor (w : Nat)
    (htakes : ∀ c a c', read c = .ok (a, c') → ∃ bits, c.Takes bits c' ∧ bits.length = w)
    (hfair : ∀ (s : Parser.State) fault, read s.cursor = .error fault → s.IsPast m →
      fault = .bytes .notEnough ∧ s.cursor.left < op.width) :
    Implements k (IsPast m) (IsPast (m + w)) (Strict.ofCursor op read) (Parser.ofCursor read) := by
  intro s hk
  unfold Strict.ofCursor Parser.ofCursor
  cases hread : read s.cursor with
  | ok r =>
    obtain ⟨a, c'⟩ := r
    obtain ⟨bits, htakes, hlen⟩ := htakes _ _ _ hread
    have htaken := htakes.taken_eq
    have hlt := s.cursor.pending_lt
    have hlt' := c'.pending_lt
    refine .ok ?_ fun hs => ?_
    · change k ≤ c'.taken
      omega
    · rw [IsPast] at hs
      change (c'.pending.length + (m + w)) % 8 = 0
      omega
  | error fault =>
    refine .error rfl fun hs => ?_
    obtain ⟨rfl, hlt⟩ := hfair s fault hread hs
    exact .refused hlt

end Cursor

theorem bit : Implements k (IsPast m) (IsPast (m + 1)) Strict.bit
    (Parser.ofCursor BitCursor.readBit) := by
  rw [bit_eq]
  refine ofCursor 1 (fun c b c' h => ⟨[b], BitCursor.readBit_eq_ok_iff.1 h, rfl⟩) ?_
  intro s fault h _
  obtain ⟨hzero, hfault⟩ := BitCursor.readBit_eq_error_iff.1 h
  exact ⟨hfault, by rw [hzero]; decide⟩

theorem flag : Implements k (IsPast m) (IsPast (m + 1)) Strict.flag Parser.flag := bit

theorem bits {count : Nat} (hcount : count ≤ 64) :
    Implements k (IsPast m) (IsPast (m + count)) (Strict.bits count)
      (Parser.ofCursor (BitCursor.readBits count)) := by
  rw [bits_eq]
  refine ofCursor count (fun c v c' h => ?_) ?_
  · obtain ⟨bits, htakes, hlen, -⟩ := (BitCursor.readBits_eq_ok_iff hcount).1 h
    exact ⟨bits, htakes, hlen⟩
  · intro s fault h _
    rcases BitCursor.readBits_eq_error_iff.1 h with ⟨hwide, -⟩ | ⟨-, hlt, hfault⟩
    · omega
    · exact ⟨hfault, hlt⟩

/-- Whole bytes are read at a byte boundary. -/
theorem fair_of_readBytes {s : Parser.State} {fault : BitFault} {count : Nat}
    (h : s.cursor.readBytes count = .error fault) (hs : s.IsPast m) (hm : m % 8 = 0) :
    fault = .bytes .notEnough ∧ s.cursor.left < 8 * count := by
  have hpending : s.cursor.pending = [] := by
    refine isPast_zero_iff.1 ?_
    rw [IsPast] at hs ⊢
    omega
  rcases BitCursor.readBytes_eq_error_iff.1 h with ⟨hne, -⟩ | ⟨-, hlt, hfault⟩
  · exact absurd hpending hne
  · refine ⟨hfault, ?_⟩
    rw [BitCursor.left, hpending, List.length_nil]
    omega

theorem bytes (count : Nat) (hm : m % 8 = 0) :
    Implements k (IsPast m) (IsPast m) (Strict.bytes count) (Parser.bytes count) := by
  rw [bytes_eq]
  refine past (ofCursor (8 * count) (fun c bs c' h => ?_) fun s fault h hs =>
    fair_of_readBytes h hs hm) (by omega)
  obtain ⟨-, hlen, htakes⟩ := BitCursor.readBytes_eq_ok_iff.1 h
  exact ⟨_, htakes, by rw [Bits.length_ofBytes, hlen]⟩

theorem byte (hm : m % 8 = 0) :
    Implements k (IsPast m) (IsPast m) Strict.byte Parser.byte := by
  rw [byte_eq]
  refine past (ofCursor 8 (fun c b c' h => ?_) fun s fault h hs => ?_) (by omega)
  · exact ⟨_, (BitCursor.readByte_eq_ok_iff.1 h).2, Bits.length_ofByte b⟩
  · rw [BitCursor.readByte_eq] at h
    exact fair_of_readBytes (BitCursor.map_eq_error_iff.1 h) hs hm

theorem peek (count : Nat) (hm : m % 8 = 0) :
    Implements k (IsPast m) (IsPast m) (Strict.peek count) (Parser.peek count) := by
  rw [peek_eq]
  refine past (ofCursor 0 (fun c bs c' h => ?_) fun s fault h hs => ?_) rfl
  · obtain ⟨rfl, -⟩ := BitCursor.peekBytes_eq_ok_iff.1 h
    exact ⟨[], .refl c', rfl⟩
  · exact fair_of_readBytes (BitCursor.map_eq_error_iff.1 h) hs hm

theorem skip (count : Nat) (hm : m % 8 = 0) :
    Implements k (IsPast m) (IsPast m) (Strict.skip count) (Parser.skip count) := by
  rw [skip_eq]
  refine past (ofCursor (8 * count) (fun c _ c' h => ?_) fun s fault h hs => ?_)
    (by omega)
  · obtain ⟨bs, hread⟩ := BitCursor.skipBytes_eq_ok_iff.1 h
    obtain ⟨-, hlen, htakes⟩ := BitCursor.readBytes_eq_ok_iff.1 hread
    exact ⟨_, htakes, by rw [Bits.length_ofBytes, hlen]⟩
  · exact fair_of_readBytes (BitCursor.map_eq_error_iff.1 h) hs hm

/-- **A field fits any word that is as wide.** -/
theorem field {count width : Nat} (hcount : count ≤ 64) (hwidth : count ≤ width) :
    Implements k (IsPast m) (IsPast (m + count)) (Strict.field count width)
      (Parser.field count) := by
  unfold Strict.field Parser.field
  refine (bits hcount).bind_of_ok fun value s t h => ?_
  have hlt : value < 2 ^ width := by
    obtain ⟨hread, -⟩ := Parser.ofCursor_eq_ok_iff.1 h
    obtain ⟨bits, -, rfl, rfl⟩ := (BitCursor.readBits_eq_ok_iff hcount).1 hread
    exact Nat.lt_of_lt_of_le (Bits.toNat_lt bits) (Nat.pow_le_pow_right (by decide) hwidth)
  exact lift_bind (Slip.narrow_of_lt hlt) (.pure _ fun _ hs => hs)

theorem field8 : Implements k (IsPast m) (IsPast (m + 8)) Strict.field8 Parser.field8 :=
  (field (by decide) (by decide)).bind fun _ => .pure _ fun _ hs => hs

theorem field16 : Implements k (IsPast m) (IsPast (m + 16)) Strict.field16 Parser.field16 :=
  (field (by decide) (by decide)).bind fun _ => .pure _ fun _ hs => hs

theorem field32 : Implements k (IsPast m) (IsPast (m + 32)) Strict.field32 Parser.field32 :=
  (field (by decide) (by decide)).bind fun _ => .pure _ fun _ hs => hs

theorem reserved {count : Nat} (hcount : count ≤ 64) :
    Implements k (IsPast m) (IsPast (m + count)) (Strict.reserved count)
      (Parser.reserved count) := by
  unfold Strict.reserved Parser.reserved Parser.field
  rw [bind_assoc]
  exact (bits hcount).bind fun value => .pure () fun _ hs => hs

theorem marker (name : String) :
    Implements k (IsPast m) (IsPast (m + 1)) (Strict.marker name) (Parser.marker name) :=
  flag.bind fun _ => .ite (fun _ => .pure _ fun _ hs => hs) fun _ => .fail (.marker name)

end Implements

end Strict

end ProgramStream
