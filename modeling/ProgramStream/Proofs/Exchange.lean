import ProgramStream.Bytes.Buffer
import ProgramStream.Bytes.Output
import ProgramStream.Proofs.Words
/-!
# Exchanges — values written here and read there, however they are delivered

A writer puts out values of known kinds, a reader gets the bytes piece by
piece and reads values of the same kinds. A read that comes too early fails
and is tried again. What carries everything is that a reader is always at
one place (`Reader.IsAt`): the values read so far, those still to be read,
and in the buffer the bytes delivered for them. Each action keeps this
(`IsAt.act`), a read moves on by one value as soon as that is all there
(`IsAt.read_of_le`) and else by nothing (`IsAt.read_of_lt`), and a look
moves nothing.
-/

namespace ProgramStream

namespace Exchange

/-! ## Values -/

/-- What is written or read in one go. -/
inductive Item where
  | byte (n : UInt8)
  | half (order : ByteOrder) (n : UInt16)
  | word (order : ByteOrder) (n : UInt32)
  | string (bytes : List UInt8)
  deriving DecidableEq, Repr

/-- What a reader has to know of a value. -/
inductive Kind where
  | byte
  | half (order : ByteOrder)
  | word (order : ByteOrder)
  | string (length : Nat)
  deriving DecidableEq, Repr

/-- The kind of a value. -/
def Item.kind : Item → Kind
  | .byte _ => .byte
  | .half order _ => .half order
  | .word order _ => .word order
  | .string bytes => .string bytes.length

/-- The bytes of a value. -/
def Item.bytes : Item → List UInt8
  | .byte n => [n]
  | .half order n => order.bytes 2 n.toNat
  | .word order n => order.bytes 4 n.toNat
  | .string bytes => bytes

namespace Kind

/-- The number of bytes that a value of a kind has. -/
def size : Kind → Nat
  | .byte => 1
  | .half _ => 2
  | .word _ => 4
  | .string length => length

/-- The value of a kind that bytes stand for. -/
def item : Kind → List UInt8 → Item
  | .byte, bytes => .byte (UInt8.ofNat (ByteOrder.big.value bytes))
  | .half order, bytes => .half order (UInt16.ofNat (order.value bytes))
  | .word order, bytes => .word order (UInt32.ofNat (order.value bytes))
  | .string _, bytes => .string bytes

/-- Removes a value from the front of a buffer. -/
def read (b : ByteBuffer) : Kind → Except ByteFault (Item × ByteBuffer)
  | .byte => (b.word .big 1).map fun r => (.byte (UInt8.ofNat r.1), r.2)
  | .half order => (b.word order 2).map fun r => (.half order (UInt16.ofNat r.1), r.2)
  | .word order => (b.word order 4).map fun r => (.word order (UInt32.ofNat r.1), r.2)
  | .string length => (b.take length).map fun r => (.string r.1, r.2)

end Kind

/-- What can be looked at, without removing it. -/
inductive Look where
  | byteAt (i : Nat)
  | word (order : ByteOrder)
  | string (length : Nat)
  deriving DecidableEq, Repr

namespace Look

/-- What a look at a buffer shows. -/
def see (b : ByteBuffer) : Look → Except ByteFault Item
  | .byteAt i => (b.byteAt i).map .byte
  | .word order => (b.peekWord order 4).map fun n => .word order (UInt32.ofNat n)
  | .string length => (b.peek length).map .string

/-- The look at what a read of a kind would return. There is none for two
bytes. -/
def before? : Kind → Option Look
  | .byte => some (.byteAt 0)
  | .half _ => none
  | .word order => some (.word order)
  | .string length => some (.string length)

end Look

variable {item : Item} {kind : Kind} {b b' : ByteBuffer}

@[simp] theorem Item.size_kind (item : Item) : item.kind.size = item.bytes.length := by
  cases item <;> simp [kind, bytes, Kind.size]

/-- **The bytes of a value tell it**, to a reader that knows its kind. -/
theorem Item.item_bytes (item : Item) : item.kind.item item.bytes = item := by
  cases item with
  | byte n => simp [kind, bytes, Kind.item, ByteOrder.value, ByteOrder.littleValue]
  | half order n =>
    rw [kind, bytes, Kind.item, ByteOrder.value_bytes,
      Nat.mod_eq_of_lt (by have := n.toNat_lt; omega), UInt16.ofNat_toNat]
  | word order n =>
    rw [kind, bytes, Kind.item, ByteOrder.value_bytes,
      Nat.mod_eq_of_lt (by have := n.toNat_lt; omega), UInt32.ofNat_toNat]
  | string bytes => rfl

/-- **A word is read by a look at its bytes, which are then dropped.** With the
look the dropping cannot fail, so no part of a word is ever removed alone. -/
theorem word_eq_peek_skip (order : ByteOrder) (count : Nat) (b : ByteBuffer) :
    b.word order count = (do
      let front ← b.peek count
      let ((), rest) ← b.skip count
      return (order.value front, rest)) := by
  unfold ByteBuffer.word ByteBuffer.peek ByteBuffer.skip
  cases b.take count <;> rfl

theorem Kind.read_eq (kind : Kind) (b : ByteBuffer) :
    kind.read b = (b.take kind.size).map fun r => (kind.item r.1, r.2) := by
  cases kind <;> simp only [read, size, item, ByteBuffer.word] <;> cases b.take _ <;> rfl

/-- **A value is read once its bytes are there**, and just these are removed. -/
theorem Item.read_append (item : Item) (rest : List UInt8) :
    item.kind.read ⟨item.bytes ++ rest⟩ = .ok (item, ⟨rest⟩) := by
  have htake : (⟨item.bytes ++ rest⟩ : ByteBuffer).take item.kind.size = .ok (item.bytes, ⟨rest⟩) :=
    ByteBuffer.take_eq_ok_iff.2 ⟨rfl, item.size_kind.symm⟩
  rw [Kind.read_eq, htake]
  simp only [Except.map, item_bytes]

/-- **Before that, there is nothing to read.** -/
theorem Kind.read_of_lt (h : b.size < kind.size) : kind.read b = .error .notEnough := by
  rw [read_eq, ByteBuffer.take_eq_error_iff.2 ⟨rfl, h⟩]
  rfl

/-- **A look shows what the read after it returns.** -/
theorem Look.see_of_read {look : Look} (hlook : before? kind = some look)
    (h : kind.read b = .ok (item, b')) : look.see b = .ok item := by
  cases kind with
  | byte =>
    cases hlook
    rw [Kind.read_eq] at h
    cases htake : b.take 1 with
    | error fault => simp [Kind.size, htake, Except.map] at h
    | ok r =>
      simp only [Kind.size, htake, Except.map, Except.ok.injEq, Prod.mk.injEq] at h
      obtain ⟨hcontent, hlen⟩ := ByteBuffer.take_eq_ok_iff.1 htake
      obtain ⟨n, hn⟩ := List.length_eq_one_iff.1 hlen
      rw [← h.1, hn]
      simp [see, ByteBuffer.byteAt, hcontent, hn, Except.map, Kind.item, ByteOrder.value,
        ByteOrder.littleValue]
  | half order => cases hlook
  | word order =>
    cases hlook
    simp only [Kind.read, see, ByteBuffer.peekWord] at h ⊢
    cases hword : b.word order 4 with
    | error fault => simp [hword, Except.map] at h
    | ok r =>
      simp only [hword, Except.map, Except.ok.injEq, Prod.mk.injEq] at h ⊢
      exact h.1
  | string length =>
    cases hlook
    simp only [Kind.read, see, ByteBuffer.peek] at h ⊢
    cases htake : b.take length with
    | error fault => simp [htake, Except.map] at h
    | ok r =>
      simp only [htake, Except.map, Except.ok.injEq, Prod.mk.injEq] at h ⊢
      exact h.1

/-! ## Writers -/

/-- Writes a value. -/
def Item.write (o : ByteOutput) : Item → ByteOutput
  | .byte n => o.put .big 1 n.toNat
  | .half order n => o.put order 2 n.toNat
  | .word order n => o.put order 4 n.toNat
  | .string bytes => o.append bytes

/-- Writes values one after the other. -/
def writeAll (o : ByteOutput) (items : List Item) : ByteOutput := items.foldl Item.write o

theorem Item.written_write (o : ByteOutput) (item : Item) :
    (item.write o).written = o.written ++ item.bytes := by
  cases item with
  | byte n => simp [write, bytes, ByteOrder.bytes, ByteOrder.littleBytes]
  | half order n => rfl
  | word order n => rfl
  | string bytes => rfl

/-- **What was written is the bytes of the values in their order.** -/
theorem written_writeAll (o : ByteOutput) (items : List Item) :
    (writeAll o items).written = o.written ++ items.flatMap Item.bytes := by
  induction items generalizing o with
  | nil => simp [writeAll]
  | cons item items ih =>
    rw [writeAll, List.foldl_cons, ← writeAll, ih, Item.written_write, List.append_assoc,
      List.flatMap_cons]

/-! ## Readers -/

/-- A reader that is told the kinds of the values it reads. -/
structure Reader where
  buffer : ByteBuffer := {}
  /-- the kinds of the values still to be read -/
  kinds : List Kind
  /-- the values read -/
  values : List Item := []

/-- What is done to a reader. -/
inductive Act where
  | deliver (piece : List UInt8)
  | look (look : Look)
  | read
  deriving DecidableEq, Repr

namespace Act

/-- The bytes an action brings. -/
def bytes : Act → List UInt8
  | .deliver piece => piece
  | .look _ => []
  | .read => []

/-- The action looks only. -/
def isLook : Act → Bool
  | .look _ => true
  | _ => false

end Act

namespace Reader

/-- Tries to read the next value, if there is one to be read. A read that
fails leaves the reader as it is. -/
def read (r : Reader) : Option (Except ByteFault Item) × Reader :=
  match r.kinds with
  | [] => (none, r)
  | kind :: kinds =>
    match kind.read r.buffer with
    | .ok (item, buffer) => (some (.ok item), ⟨buffer, kinds, r.values ++ [item]⟩)
    | .error fault => (some (.error fault), r)

/-- Carries out an action, with what is returned, if anything. -/
def act (r : Reader) : Act → Option (Except ByteFault Item) × Reader
  | .deliver piece => (none, { r with buffer := r.buffer.extend piece })
  | .look look => (some (look.see r.buffer), r)
  | .read => r.read

/-- Carries out actions one after the other. -/
def actAll (r : Reader) (acts : List Act) : Reader := acts.foldl (fun r a => (r.act a).2) r

/-- Reads values as long as they are there, so many of them at most. -/
def readUpTo (r : Reader) : Nat → Reader
  | 0 => r
  | count + 1 =>
    match r.read with
    | (some (.ok _), r') => r'.readUpTo count
    | _ => r

/-- Reads values as long as they are there. -/
def readReady (r : Reader) : Reader := r.readUpTo r.kinds.length

/-- Reads what is there, and again after each piece that comes in. -/
def receive (r : Reader) : List (List UInt8) → Reader
  | [] => r.readReady
  | piece :: pieces => (r.readReady.act (.deliver piece)).2.receive pieces

/-- **The place of a reader** that is delivered the bytes of values: some of
the values are read, and in the buffer are the bytes delivered for those that
are left. -/
structure IsAt (r : Reader) (read left : List Item) (delivered : List UInt8) : Prop where
  values_eq : r.values = read
  kinds_eq : r.kinds = left.map Item.kind
  delivered_eq : read.flatMap Item.bytes ++ r.buffer.content = delivered
  isPrefix : r.buffer.content <+: left.flatMap Item.bytes

variable {r : Reader} {read left : List Item} {delivered : List UInt8}

theorem isAt_start (items : List Item) : IsAt { kinds := items.map Item.kind } [] items [] where
  values_eq := rfl
  kinds_eq := rfl
  delivered_eq := rfl
  isPrefix := List.nil_prefix

namespace IsAt

/-- **A delivery puts bytes behind those that wait.** -/
theorem deliver (h : r.IsAt read left delivered) {piece : List UInt8}
    (hpiece : delivered ++ piece <+: (read ++ left).flatMap Item.bytes) :
    IsAt (r.act (.deliver piece)).2 read left (delivered ++ piece) where
  values_eq := h.values_eq
  kinds_eq := h.kinds_eq
  delivered_eq := by
    rw [← h.delivered_eq, List.append_assoc]
    rfl
  isPrefix := by
    rw [← h.delivered_eq, List.append_assoc, List.flatMap_append,
      List.prefix_append_right_inj] at hpiece
    exact hpiece

/-- A value that is all there is at the front of the buffer. -/
theorem exists_read_of_le (h : r.IsAt read (item :: left) delivered)
    (hle : item.bytes.length ≤ r.buffer.size) :
    ∃ rest, item.bytes ++ rest = r.buffer.content ∧
      item.kind.read r.buffer = .ok (item, ⟨rest⟩) := by
  obtain ⟨rest, hrest⟩ :=
    List.prefix_of_prefix_length_le (List.prefix_append item.bytes _) h.isPrefix hle
  exact ⟨rest, hrest, by rw [← item.read_append rest, hrest]⟩

theorem see_of_le (h : r.IsAt read (item :: left) delivered)
    (hle : item.bytes.length ≤ r.buffer.size) {look : Look}
    (hlook : Look.before? item.kind = some look) : look.see r.buffer = .ok item := by
  obtain ⟨rest, -, hitem⟩ := h.exists_read_of_le hle
  exact Look.see_of_read hlook hitem

/-- **A value that is all there is read.** -/
theorem read_of_le (h : r.IsAt read (item :: left) delivered)
    (hle : item.bytes.length ≤ r.buffer.size) :
    ∃ r', r.read = (some (.ok item), r') ∧ r'.IsAt (read ++ [item]) left delivered := by
  obtain ⟨rest, hrest, hitem⟩ := h.exists_read_of_le hle
  refine ⟨⟨⟨rest⟩, left.map Item.kind, r.values ++ [item]⟩, ?_, ?_⟩
  · simp only [Reader.read, h.kinds_eq, List.map_cons, hitem]
  · refine ⟨by rw [h.values_eq], rfl, ?_, ?_⟩
    · rw [← h.delivered_eq, ← hrest]
      simp
    · have hprefix := h.isPrefix
      rw [← hrest, List.flatMap_cons, List.prefix_append_right_inj] at hprefix
      exact hprefix

/-- **A value that is not all there stays**, and so does what is there of it. -/
theorem read_of_lt (h : r.IsAt read (item :: left) delivered)
    (hlt : r.buffer.size < item.bytes.length) : r.read = (some (.error .notEnough), r) := by
  have hitem : item.kind.read r.buffer = .error .notEnough :=
    Kind.read_of_lt (by rwa [item.size_kind])
  simp only [Reader.read, h.kinds_eq, List.map_cons, hitem]

theorem read_of_nil (h : r.IsAt read [] delivered) : r.read = (none, r) := by
  simp only [Reader.read, h.kinds_eq, List.map_nil]

/-- **Each action keeps the place**, or moves it on by one value. -/
theorem act (h : r.IsAt read left delivered) {a : Act}
    (ha : delivered ++ a.bytes <+: (read ++ left).flatMap Item.bytes) :
    ∃ read' left', read ++ left = read' ++ left' ∧
      IsAt (r.act a).2 read' left' (delivered ++ a.bytes) := by
  cases a with
  | deliver piece => exact ⟨read, left, rfl, h.deliver ha⟩
  | look look => exact ⟨read, left, rfl, by rwa [Act.bytes, List.append_nil]⟩
  | read =>
    rw [Act.bytes, List.append_nil]
    match left with
    | [] => exact ⟨read, [], rfl, by rwa [Reader.act, h.read_of_nil]⟩
    | item :: left =>
      rcases Nat.lt_or_ge r.buffer.size item.bytes.length with hlt | hle
      · exact ⟨read, item :: left, rfl, by rwa [Reader.act, h.read_of_lt hlt]⟩
      · obtain ⟨r', hread, h'⟩ := h.read_of_le hle
        exact ⟨read ++ [item], left, by simp, by rwa [Reader.act, hread]⟩

theorem actAll (h : r.IsAt read left delivered) {acts : List Act}
    (hacts : delivered ++ acts.flatMap Act.bytes <+: (read ++ left).flatMap Item.bytes) :
    ∃ read' left', read ++ left = read' ++ left' ∧
      IsAt (r.actAll acts) read' left' (delivered ++ acts.flatMap Act.bytes) := by
  induction acts generalizing r read left delivered with
  | nil => exact ⟨read, left, rfl, by rwa [List.flatMap_nil, List.append_nil]⟩
  | cons a acts ih =>
    rw [List.flatMap_cons, ← List.append_assoc] at hacts ⊢
    obtain ⟨read₁, left₁, hall₁, h₁⟩ := h.act ((List.prefix_append _ _).trans hacts)
    rw [hall₁] at hacts ⊢
    exact ih h₁ hacts

/-- **What is left after reading** begins with a value that is not all there. -/
theorem readReady (h : r.IsAt read left delivered) :
    ∃ read' left', read ++ left = read' ++ left' ∧ r.readReady.IsAt read' left' delivered ∧
      ∀ item rest, left' = item :: rest → r.readReady.buffer.size < item.bytes.length := by
  have hkinds : r.kinds.length = left.length := by rw [h.kinds_eq, List.length_map]
  rw [Reader.readReady, hkinds]
  clear hkinds
  induction left generalizing r read with
  | nil => exact ⟨read, [], rfl, h, by simp⟩
  | cons item left ih =>
    rw [List.length_cons, readUpTo]
    rcases Nat.lt_or_ge r.buffer.size item.bytes.length with hlt | hle
    · rw [h.read_of_lt hlt]
      refine ⟨read, item :: left, rfl, h, ?_⟩
      rintro item' rest ⟨⟩
      exact hlt
    · obtain ⟨r', hread, h'⟩ := h.read_of_le hle
      rw [hread]
      obtain ⟨read', left', hall, hready⟩ := ih h'
      exact ⟨read', left', by rw [← hall, List.append_assoc]; rfl, hready⟩

/-- **With everything delivered, everything is read.** -/
theorem readReady_of_all (h : r.IsAt read left ((read ++ left).flatMap Item.bytes)) :
    r.readReady = ⟨{}, [], read ++ left⟩ := by
  obtain ⟨read', left', hall, h', hnext⟩ := h.readReady
  have hcontent : r.readReady.buffer.content = left'.flatMap Item.bytes := by
    have hdelivered := h'.delivered_eq
    rw [hall, List.flatMap_append] at hdelivered
    exact List.append_cancel_left hdelivered
  match left' with
  | [] =>
    rw [List.append_nil] at hall
    have hvalues := h'.values_eq
    have hkinds := h'.kinds_eq
    generalize r.readReady = r' at hcontent hvalues hkinds
    obtain ⟨⟨content⟩, kinds, values⟩ := r'
    cases hcontent
    cases hkinds
    cases hvalues
    rw [hall]
  | item :: rest =>
    have hlt := hnext item rest rfl
    rw [ByteBuffer.size, hcontent, List.flatMap_cons, List.length_append] at hlt
    omega

/-- **However the bytes come in, the values are read.** -/
theorem receive (h : r.IsAt read left delivered) {pieces : List (List UInt8)}
    (hpieces : delivered ++ pieces.flatten = (read ++ left).flatMap Item.bytes) :
    r.receive pieces = ⟨{}, [], read ++ left⟩ := by
  induction pieces generalizing r read left delivered with
  | nil =>
    rw [List.flatten_nil, List.append_nil] at hpieces
    rw [hpieces] at h
    exact h.readReady_of_all
  | cons piece pieces ih =>
    obtain ⟨read', left', hall, h', -⟩ := h.readReady
    rw [List.flatten_cons, ← List.append_assoc] at hpieces
    rw [hall] at hpieces ⊢
    exact ih (h'.deliver ⟨pieces.flatten, hpieces⟩) hpieces

end IsAt

/-- **Looks in between change nothing.** -/
theorem actAll_filter_isLook (r : Reader) (acts : List Act) :
    r.actAll (acts.filter fun a => !a.isLook) = r.actAll acts := by
  induction acts generalizing r with
  | nil => rfl
  | cons a acts ih =>
    cases a with
    | look look => exact ih r
    | deliver piece => exact ih _
    | read => exact ih _

end Reader

/-- **What is written is read back, however it is delivered.** For all values:
a fresh writer has the bytes of those written so far, as many as their kinds
say, and gives out all of them, which leaves it empty. A reader of the same
kinds that is delivered these bytes piece by piece is always at a place
between two values, whatever reads and looks are made in between. A read
returns the next value, which a look before it shows, if that is all there,
and else has not enough bytes and changes nothing. Looks change nothing.
Trying again after each piece reads all the values in their order and leaves
nothing. -/
theorem read_back (items : List Item) :
    let bytes := items.flatMap Item.bytes
    let start : Reader := { kinds := items.map Item.kind }
    (∀ k, (writeAll {} (items.take k)).written = (items.take k).flatMap Item.bytes ∧
      (writeAll {} (items.take k)).size = ((items.take k).map fun item => item.kind.size).sum) ∧
    (writeAll {} items).drain = (bytes, {}) ∧
    (∀ acts : List Act, acts.flatMap Act.bytes <+: bytes →
      let r := start.actAll acts
      ∃ read left, items = read ++ left ∧ r.IsAt read left (acts.flatMap Act.bytes) ∧
        (∀ item rest, left = item :: rest →
          (item.kind.size ≤ r.buffer.size →
            (∃ r', r.read = (some (.ok item), r') ∧
              r'.IsAt (read ++ [item]) rest (acts.flatMap Act.bytes)) ∧
            ∀ look, Look.before? item.kind = some look → look.see r.buffer = .ok item) ∧
          (r.buffer.size < item.kind.size → r.read = (some (.error .notEnough), r))) ∧
        start.actAll (acts.filter fun a => !a.isLook) = r) ∧
    ∀ pieces : List (List UInt8), pieces.flatten = bytes →
      start.receive pieces = { buffer := {}, kinds := [], values := items } := by
  intro bytes start
  refine ⟨fun k => ?_, ?_, fun acts hacts => ?_, fun pieces hpieces => ?_⟩
  · have hwritten : (writeAll {} (items.take k)).written = (items.take k).flatMap Item.bytes := by
      rw [written_writeAll, List.nil_append]
    refine ⟨hwritten, ?_⟩
    rw [ByteOutput.size, hwritten, List.length_flatMap]
    simp only [Item.size_kind]
  · rw [ByteOutput.drain, written_writeAll, List.nil_append]
  · have hprefix : [] ++ acts.flatMap Act.bytes <+: ([] ++ items).flatMap Item.bytes := hacts
    obtain ⟨read, left, hall, h⟩ := (Reader.isAt_start items).actAll hprefix
    refine ⟨read, left, hall, h, ?_, start.actAll_filter_isLook acts⟩
    rintro item rest rfl
    refine ⟨fun hle => ?_, fun hlt => ?_⟩
    · rw [item.size_kind] at hle
      obtain ⟨r', hread, h'⟩ := h.read_of_le hle
      exact ⟨⟨r', hread, h'⟩, fun look hlook => h.see_of_le hle hlook⟩
    · rw [item.size_kind] at hlt
      exact h.read_of_lt hlt
  · exact (Reader.isAt_start items).receive hpieces

end Exchange

end ProgramStream
