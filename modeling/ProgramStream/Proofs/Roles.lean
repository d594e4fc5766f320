import ProgramStream.Proofs.Build
import ProgramStream.Proofs.SystemHeader
/-!
# Roles — bits that are checked, and bits that are not

A bit of a layout has a role: it belongs to a value, is a marker that has to
be set, or is reserved and may be any. `p.Follows k roles bits warnings a`
says of a parser that stands at a position `k` with `bits` ahead what it does
by these roles: on other bits in reserved places it has the same value, and
with a marker cleared it faults the field of that marker, whatever follows.
What is put together of such parsers is one (`Follows.bind`), and the roles
are put together as the layout is. So a whole parser follows the roles of the
value that it returns; and as layouts of one value are alike but for reserved
bits (`Role.Alike`), no others can be changed without changing it (`HasRoles`).
-/

namespace ProgramStream

/-- What a bit of a layout is for. -/
inductive Role where
  | value
  /-- has to be one, and belongs to a field -/
  | marker (field : String)
  | reserved
  deriving DecidableEq, Repr

namespace Role

/-- The roles of the bits of a value. -/
def values (n : Nat) : List Role := List.replicate n value

/-- The roles of reserved bits. -/
def unused (n : Nat) : List Role := List.replicate n reserved

@[simp] theorem length_values (n : Nat) : (values n).length = n := List.length_replicate

@[simp] theorem length_unused (n : Nat) : (unused n).length = n := List.length_replicate

/-- Bits that are the same but for reserved ones. -/
structure Agree (roles : List Role) (xs ys : List Bool) : Prop where
  length : ys.length = xs.length
  getElem?_eq : ∀ i : Nat, roles[i]? ≠ some reserved → ys[i]? = xs[i]?

theorem agree_iff {roles : List Role} {xs ys : List Bool} :
    Agree roles xs ys ↔ ys.length = xs.length ∧
      ∀ i < xs.length, roles[i]? ≠ some reserved → ys[i]? = xs[i]? := by
  refine ⟨fun h => ⟨h.length, fun i _ => h.getElem?_eq i⟩, fun h => ⟨h.1, fun i hi => ?_⟩⟩
  rcases Nat.lt_or_ge i xs.length with hlt | hge
  · exact h.2 i hlt hi
  · rw [List.getElem?_eq_none hge, List.getElem?_eq_none (h.1 ▸ hge)]

instance (roles : List Role) (xs ys : List Bool) : Decidable (Agree roles xs ys) :=
  decidable_of_iff _ agree_iff.symm

/-- Bits of which a marker of a field is cleared. -/
def Clears (roles : List Role) (field : String) (xs ys : List Bool) : Prop :=
  ∃ i, roles[i]? = some (marker field) ∧ ys = xs.set i false

variable {roles roles' : List Role} {xs xs' ys : List Bool} {field : String} {n i : Nat}

theorem Agree.refl (roles : List Role) (xs : List Bool) : Agree roles xs xs := ⟨rfl, fun _ _ => rfl⟩

/-- Without reserved bits, bits that agree are the same. -/
theorem Agree.eq (h : Agree roles xs ys) (hroles : reserved ∉ roles) : ys = xs :=
  List.ext_getElem? fun i => h.getElem?_eq i fun hi => hroles (List.mem_of_getElem? hi)

/-- Bits agree in parts. -/
theorem Agree.exists_append (hlen : xs.length = roles.length)
    (h : Agree (roles ++ roles') (xs ++ xs') ys) :
    ∃ ys₁ ys₂, ys = ys₁ ++ ys₂ ∧ Agree roles xs ys₁ ∧ Agree roles' xs' ys₂ := by
  have htotal := h.length
  rw [List.length_append] at htotal
  have htake : (ys.take xs.length).length = xs.length := List.length_take_of_le (by omega)
  refine ⟨ys.take xs.length, ys.drop xs.length, (List.take_append_drop _ _).symm,
    ⟨htake, fun i hi => ?_⟩, ⟨by rw [List.length_drop]; omega, fun i hi => ?_⟩⟩
  · rcases Nat.lt_or_ge i xs.length with hlt | hge
    · have hroles : (roles ++ roles')[i]? = roles[i]? := List.getElem?_append_left (hlen ▸ hlt)
      have hsame := h.getElem?_eq i (hroles ▸ hi)
      rwa [List.getElem?_append_left hlt, ← List.getElem?_take_of_lt hlt] at hsame
    · rw [List.getElem?_eq_none (by omega), List.getElem?_eq_none hge]
  · have hroles : (roles ++ roles')[xs.length + i]? = roles'[i]? := by
      rw [hlen, List.getElem?_append_right (Nat.le_add_right _ _), Nat.add_sub_cancel_left]
    have hsame := h.getElem?_eq (xs.length + i) (hroles ▸ hi)
    rwa [List.getElem?_append_right (Nat.le_add_right _ _), Nat.add_sub_cancel_left,
      ← List.getElem?_drop] at hsame

/-- Two layouts with these roles, the same but for reserved bits. -/
structure Alike (roles : List Role) (xs ys : List Bool) : Prop where
  length : xs.length = roles.length
  agree : Agree roles xs ys

namespace Alike

variable {ys' : List Bool}

theorem refl (hlen : xs.length = roles.length) : Alike roles xs xs := ⟨hlen, .refl roles xs⟩

/-- Reserved bits are alike whatever they are. -/
theorem unused (hxs : xs.length = n) (hys : ys.length = n) : Alike (unused n) xs ys := by
  refine ⟨by simp [hxs], hys.trans hxs.symm, fun i hi => ?_⟩
  have hge : n ≤ i := by
    by_contra hlt
    exact hi (List.getElem?_replicate_of_lt (Nat.lt_of_not_le hlt))
  rw [List.getElem?_eq_none (hys ▸ hge), List.getElem?_eq_none (hxs ▸ hge)]

/-- Layouts are alike in parts. -/
theorem append (h : Alike roles xs ys) (h' : Alike roles' xs' ys') :
    Alike (roles ++ roles') (xs ++ xs') (ys ++ ys') := by
  have hlen := h.length
  have hys := h.agree.length
  refine ⟨by rw [List.length_append, List.length_append, hlen, h'.length],
    by rw [List.length_append, List.length_append, hys, h'.agree.length], fun i hi => ?_⟩
  rcases Nat.lt_or_ge i xs.length with hlt | hge
  · rw [List.getElem?_append_left (hlen ▸ hlt)] at hi
    rw [List.getElem?_append_left hlt, List.getElem?_append_left (hys ▸ hlt)]
    exact h.agree.getElem?_eq i hi
  · rw [List.getElem?_append_right (hlen ▸ hge), ← hlen] at hi
    rw [List.getElem?_append_right hge, List.getElem?_append_right (hys ▸ hge), hys]
    exact h'.agree.getElem?_eq _ hi

/-- Layouts that begin with the same bits. -/
theorem after {front : List Bool} {roles₀ : List Role} (hlen : front.length = roles₀.length)
    (h : Alike roles xs ys) : Alike (roles₀ ++ roles) (front ++ xs) (front ++ ys) :=
  (refl hlen).append h

/-- A part that may be missing is alike if it is there. -/
theorem elim {α : Type} {o : Option α} {roles : α → List Role} {f g : α → List Bool}
    (h : ∀ a, Alike (roles a) (f a) (g a)) :
    Alike (o.elim [] roles) (o.elim [] f) (o.elim [] g) := by
  cases o with
  | none => exact refl rfl
  | some a => exact h a

end Alike

/-- A marker is cleared in one part. -/
theorem Clears.cases_append (hlen : xs.length = roles.length)
    (h : Clears (roles ++ roles') field (xs ++ xs') ys) :
    (∃ ys₁, ys = ys₁ ++ xs' ∧ Clears roles field xs ys₁) ∨
      ∃ ys₂, ys = xs ++ ys₂ ∧ Clears roles' field xs' ys₂ := by
  obtain ⟨i, hi, rfl⟩ := h
  rcases Nat.lt_or_ge i roles.length with hlt | hge
  · rw [List.getElem?_append_left hlt] at hi
    exact .inl ⟨xs.set i false, List.set_append_left i false (hlen ▸ hlt), i, hi, rfl⟩
  · rw [List.getElem?_append_right hge, ← hlen] at hi
    exact .inr ⟨xs'.set (i - xs.length) false, List.set_append_right i false (hlen ▸ hge), _, hi,
      rfl⟩

theorem not_mem_values : reserved ∉ values n := by
  simp [values]

theorem not_clears_of_not_marker (h : ∀ field, marker field ∉ roles) :
    ¬Clears roles field xs ys := by
  rintro ⟨i, hi, -⟩
  exact h field (List.mem_of_getElem? hi)

end Role

namespace Parser

open Parser.State

variable {α β : Type} {s t : State} {k n : Nat} {roles roles' : List Role}
  {bits bits' : List Bool} {ws ws' : List Warning} {a : α} {b : β}

/-! ## Positions -/

/-- How many bits were taken, one byte more so that the bits of a byte that is
not taken are none. -/
def State.position (s : State) : Nat := 8 * (s.cursor.taken + 1) - s.cursor.pending.length

namespace State

theorem Takes.position_eq (h : s.Takes bits ws t) : t.position = s.position + bits.length := by
  have htaken := h.cursor.taken_eq
  have hs := s.cursor.pending_lt
  have ht := t.cursor.pending_lt
  rw [position, position]
  omega

/-- A position tells whether it is between two bytes, -/
theorem isAligned_iff_dvd_position : s.IsAligned ↔ 8 ∣ s.position := by
  have hs := s.cursor.pending_lt
  rw [IsAligned, position, ← List.length_eq_zero_iff]
  omega

/-- and how many bytes were taken. -/
theorem taken_eq_position : s.cursor.taken = (s.position + 7) / 8 - 1 := by
  have hs := s.cursor.pending_lt
  rw [position]
  omega

/-- Bits that stand ahead in parts. -/
theorem Takes.append_isPrefix_iff (h : s.Takes bits ws t) :
    bits ++ bits' <+: s.cursor.ahead ↔ bits' <+: t.cursor.ahead := by
  rw [h.cursor.ahead_eq, List.prefix_append_right_inj]

end State

/-! ## Parsers that follow roles -/

/-- **A parser treats bits by their roles.** From a position it takes these
bits, which have these roles, gives these warnings and has this value. -/
structure Follows (p : Parser α) (k : Nat) (roles : List Role) (bits : List Bool)
    (ws : List Warning) (a : α) : Prop where
  length : bits.length = roles.length
  markers : ∀ (i : Nat) (field : String), roles[i]? = some (Role.marker field) →
    bits[i]? = some true
  /-- reserved bits may be any -/
  agree : ∀ s ys, s.position = k → Role.Agree roles bits ys → ys <+: s.cursor.ahead →
    ∃ t, p s = .ok a t ∧ s.Takes ys ws t
  /-- a marker that is cleared is at fault -/
  cleared : ∀ s ys field, s.position = k → Role.Clears roles field bits ys → ys <+: s.cursor.ahead →
    ∃ t, p s = .error (.marker field) t

namespace Follows

variable {p : Parser α} {f : α → Parser β}

/-- A parser that has a value of these bits, none of which is reserved or a
marker. -/
theorem of_values (hn : bits.length = n)
    (h : ∀ {s t : State}, s.position = k → s.Takes bits ws t → p s = .ok a t) :
    p.Follows k (Role.values n) bits ws a where
  length := by simp [hn]
  markers i field hi := by
    have hmem := List.mem_of_getElem? hi
    simp [Role.values] at hmem
  agree s ys hs hagree hahead := by
    obtain rfl := hagree.eq Role.not_mem_values
    obtain ⟨t, ht⟩ := exists_takes hahead ws
    exact ⟨t, h hs ht, ht⟩
  cleared s ys field _ hclears _ :=
    absurd hclears (Role.not_clears_of_not_marker fun field => by simp [Role.values])

/-- A parser that takes bits of this number and does not look at them. -/
theorem of_unused (hn : bits.length = n)
    (h : ∀ {s t : State} {ys : List Bool}, s.position = k → ys.length = n → s.Takes ys [] t →
      p s = .ok a t) : p.Follows k (Role.unused n) bits [] a where
  length := by simp [hn]
  markers i field hi := by
    have hmem := List.mem_of_getElem? hi
    simp [Role.unused] at hmem
  agree s ys hs hagree hahead := by
    obtain ⟨t, ht⟩ := exists_takes hahead []
    exact ⟨t, h hs (hagree.length.trans hn) ht, ht⟩
  cleared s ys field _ hclears _ :=
    absurd hclears (Role.not_clears_of_not_marker fun field => by simp [Role.unused])

theorem pure (a : α) : (Pure.pure a : Parser α).Follows k [] [] [] a :=
  of_values (n := 0) rfl fun _ h => by
    rw [pure_eq_ok_iff, takes_nil_iff.1 h]
    exact ⟨rfl, rfl⟩

/-- **Roles are followed in parts**, the second from where the first ends. -/
theorem append (hp : p.Follows k roles bits ws a)
    (hf : (f a).Follows (k + roles.length) roles' bits' ws' b) :
    (p >>= f).Follows k (roles ++ roles') (bits ++ bits') (ws ++ ws') b where
  length := by rw [List.length_append, List.length_append, hp.length, hf.length]
  markers i field hi := by
    rcases Nat.lt_or_ge i roles.length with hlt | hge
    · rw [List.getElem?_append_left hlt] at hi
      rw [List.getElem?_append_left (hp.length ▸ hlt)]
      exact hp.markers i field hi
    · rw [List.getElem?_append_right hge] at hi
      rw [List.getElem?_append_right (hp.length ▸ hge), hp.length]
      exact hf.markers _ field hi
  agree s ys hs hagree hahead := by
    obtain ⟨ys₁, ys₂, rfl, hagree₁, hagree₂⟩ := hagree.exists_append hp.length
    obtain ⟨t, hpt, ht⟩ := hp.agree s ys₁ hs hagree₁ ((List.prefix_append _ _).trans hahead)
    have hposition : t.position = k + roles.length := by
      rw [ht.position_eq, hs, hagree₁.length, hp.length]
    obtain ⟨u, hfu, hu⟩ := hf.agree t ys₂ hposition hagree₂ (ht.append_isPrefix_iff.1 hahead)
    exact ⟨u, (bind_of_ok hpt).trans hfu, ht.trans hu⟩
  cleared s ys field hs hclears hahead := by
    rcases hclears.cases_append hp.length with ⟨ys₁, rfl, hfirst⟩ | ⟨ys₂, rfl, hlast⟩
    · obtain ⟨t, hpt⟩ := hp.cleared s ys₁ field hs hfirst ((List.prefix_append _ _).trans hahead)
      exact ⟨t, bind_of_error hpt⟩
    · have hfront := (List.prefix_append _ _).trans hahead
      obtain ⟨t, hpt, ht⟩ := hp.agree s bits hs (.refl _ _) hfront
      have hposition : t.position = k + roles.length := by rw [ht.position_eq, hs, hp.length]
      obtain ⟨u, hfu⟩ :=
        hf.cleared t ys₂ field hposition hlast (ht.append_isPrefix_iff.1 hahead)
      exact ⟨u, (bind_of_ok hpt).trans hfu⟩

/-- Parts of which only the last may give warnings. -/
theorem bind (hp : p.Follows k roles bits [] a)
    (hf : (f a).Follows (k + roles.length) roles' bits' ws b) :
    (p >>= f).Follows k (roles ++ roles') (bits ++ bits') ws b := hp.append hf

/-- Parts of which only the first may give warnings. -/
theorem bind_first (hp : p.Follows k roles bits ws a)
    (hf : (f a).Follows (k + roles.length) roles' bits' [] b) :
    (p >>= f).Follows k (roles ++ roles') (bits ++ bits') ws b := by
  have happend := hp.append hf
  rwa [List.append_nil] at happend

/-- A value that is only made of what was read. -/
theorem bind_pure (hp : p.Follows k roles bits ws a) (hf : f a = Pure.pure b) :
    (p >>= f).Follows k roles bits ws b := by
  have happend := hp.bind_first (hf ▸ pure b)
  rwa [List.append_nil, List.append_nil] at happend

/-- A parser that looks first for what would be a fault. -/
theorem ite_neg {c : Prop} [Decidable c] {q : Parser α} (hc : ¬c)
    (hq : q.Follows k roles bits ws a) : (if c then p else q).Follows k roles bits ws a := by
  rwa [if_neg hc]

/-- A part behind a flag has its roles where the flag is set. -/
theorem given {present : Bool} {o : Option α} {roles : α → List Role} {bits : α → List Bool}
    (hpresent : o.isSome = present) (h : ∀ a ∈ o, p.Follows k (roles a) (bits a) [] a) :
    (Parser.given present p).Follows k (o.elim [] roles) (o.elim [] bits) [] o := by
  subst hpresent
  cases o with
  | none => exact .pure none
  | some a => exact (h a rfl).bind_pure rfl

end Follows

/-! ## The operations -/

theorem follows_marker (field : String) :
    (marker field).Follows k [.marker field] [true] [] () where
  length := rfl
  markers i name hi := by
    have hlt : i < 1 := (List.getElem?_eq_some_iff.1 hi).1
    obtain rfl : i = 0 := by omega
    rfl
  agree s ys hs hagree hahead := by
    obtain rfl := hagree.eq (by simp)
    obtain ⟨t, ht⟩ := exists_takes hahead []
    exact ⟨t, marker_eq_ok_iff.2 ht, ht⟩
  cleared s ys name hs hclears hahead := by
    obtain ⟨i, hi, rfl⟩ := hclears
    have hlt : i < 1 := (List.getElem?_eq_some_iff.1 hi).1
    obtain rfl : i = 0 := by omega
    cases hi
    obtain ⟨t, ht⟩ := exists_takes hahead []
    exact ⟨t, bind_of_ok (flag_eq_ok_iff.2 ht)⟩

theorem follows_field (hn : n ≤ 64) (v : BitVec n) :
    (field n).Follows k (Role.values n) (Bits.ofField v) [] v :=
  .of_values (by simp) fun _ => (field_eq_ok_iff hn).2

theorem follows_flag (b : Bool) : flag.Follows k (Role.values 1) [b] [] b :=
  .of_values rfl fun _ => flag_eq_ok_iff.2

theorem follows_field16 (v : UInt16) :
    field16.Follows k (Role.values 16) (Bits.ofField v.toBitVec) [] v :=
  .of_values (by simp) fun _ => field16_eq_ok_iff.2

theorem follows_bytes (hk : 8 ∣ k) {bs : List UInt8} (hn : bs.length = n) :
    (bytes n).Follows k (Role.values (8 * bs.length)) (Bits.ofBytes bs) [] bs :=
  .of_values (Bits.length_ofBytes bs) fun hs h =>
    bytes_eq_ok_iff.2 ⟨isAligned_iff_dvd_position.2 (hs ▸ hk), hn, h⟩

theorem follows_reserved (hn : n ≤ 64) (v : BitVec n) :
    (reserved n).Follows k (Role.unused n) (Bits.ofField v) [] () :=
  .of_unused (by simp) fun {_ _ ys} _ hlen h => (reserved_eq_ok_iff hn).2
    ⟨BitVec.ofNat n (Bits.toNat ys), by rwa [← (Bits.ofNat_toNat_eq_iff hlen).1 rfl]⟩

theorem follows_skip (hk : 8 ∣ k) {bs : List UInt8} (hn : bs.length = n) :
    (skip n).Follows k (Role.unused (8 * bs.length)) (Bits.ofBytes bs) [] () :=
  .of_unused (Bits.length_ofBytes bs) fun {_ _ ys} hs hlen h => by
    have hbytes : Bits.ofBytes (Bits.pack ys) = ys := Bits.ofBytes_pack ⟨bs.length, hlen⟩
    have hcount := congrArg List.length hbytes
    rw [Bits.length_ofBytes] at hcount
    exact skip_eq_ok_iff.2 ⟨isAligned_iff_dvd_position.2 (hs ▸ hk), Bits.pack ys, by omega,
      by rwa [hbytes]⟩

theorem follows_warn (w : Warning) : (warn w).Follows k [] [] [w] () :=
  .of_values (n := 0) rfl fun _ => warn_eq_ok_iff.2

/-- The number of bytes taken is known from the position. -/
theorem follows_taken_bind {f : Nat → Parser β}
    (hf : (f ((k + 7) / 8 - 1)).Follows k roles bits ws b) :
    (taken >>= f).Follows k roles bits ws b := by
  have htaken : taken.Follows k [] [] [] ((k + 7) / 8 - 1) :=
    .of_values (n := 0) rfl fun hs h => by
      rw [taken_eq_ok_iff, taken_eq_position, hs]
      exact ⟨rfl, takes_nil_iff.1 h⟩
  exact htaken.bind hf

/-! ## Whole parsers -/

/-- **The bits that a parser accepts have the roles of its value.** Of two byte
strings the parser accepts the first. -/
structure HasRoles (p : Parser α) (roles : α → List Role) : Prop where
  /-- what is taken has roles, bit by bit, -/
  consumed : ∀ (bytes : List UInt8) (a : α), (p.run (.ofBytes bytes)).result = .ok a →
    8 * bytes.length = (roles a).length + (p.run (.ofBytes bytes)).cursor.left
  /-- a marker is set, and at fault where it is the only bit cleared, -/
  marker : ∀ (bytes cleared : List UInt8) (a : α) (i : Nat) (field : String),
    (p.run (.ofBytes bytes)).result = .ok a → (roles a)[i]? = some (.marker field) →
    Bits.ofBytes cleared = (Bits.ofBytes bytes).set i false →
      (Bits.ofBytes bytes)[i]? = some true ∧
        (p.run (.ofBytes cleared)).result = .error (.marker field)
  /-- reserved bits may be any, -/
  reserved : ∀ (bytes changed : List UInt8) (a : α), (p.run (.ofBytes bytes)).result = .ok a →
    Role.Agree (roles a) (Bits.ofBytes bytes) (Bits.ofBytes changed) →
      (p.run (.ofBytes changed)).result = .ok a ∧
        (p.run (.ofBytes changed)).cursor.left = (p.run (.ofBytes bytes)).cursor.left ∧
        (p.run (.ofBytes changed)).warnings = (p.run (.ofBytes bytes)).warnings
  /-- and no others: with another bit taken, the value is another one. -/
  determined : ∀ (bytes changed : List UInt8) (a : α), (p.run (.ofBytes bytes)).result = .ok a →
    (p.run (.ofBytes changed)).result = .ok a →
      Role.Agree (roles a) ((Bits.ofBytes bytes).take (roles a).length)
        ((Bits.ofBytes changed).take (roles a).length)

/-- **A parser that follows roles has them**, if it reads its values off
layouts that are alike. -/
theorem HasRoles.of_follows {γ : Type} {p : Parser α} {roles : α → List Role}
    {valid : α → γ → Prop} {layout : α → γ → List Bool} {warnings : α → List Warning}
    (hok : ∀ {bytes : List UInt8} {a : α} {t : State}, p (ofBytes bytes) = .ok a t →
      ∃ fill, valid a fill ∧ (ofBytes bytes).Takes (layout a fill) (warnings a) t)
    (hfollows : ∀ {a : α} {fill : γ}, valid a fill →
      p.Follows 8 (roles a) (layout a fill) (warnings a) a)
    (halike : ∀ {a : α} {fill fill' : γ}, valid a fill → valid a fill' →
      Role.Alike (roles a) (layout a fill) (layout a fill')) : p.HasRoles roles where
  consumed bytes a ha := by
    obtain ⟨t, hp, hcursor⟩ := exists_of_result_run ha
    obtain ⟨fill, hvalid, ht⟩ := hok hp
    have hlen := (hfollows hvalid).length
    have hahead := congrArg List.length ht.cursor.ahead_eq
    rw [List.length_append, BitCursor.length_ahead, BitCursor.length_ahead, hlen] at hahead
    rw [hcursor, ← hahead, BitCursor.left]
    simp [ofBytes, BitCursor.ofBytes, Nat.mul_comm]
  marker bytes cleared a i field ha hi hcleared := by
    obtain ⟨t, hp, -⟩ := exists_of_result_run ha
    obtain ⟨fill, hvalid, ht⟩ := hok hp
    have hf := hfollows hvalid
    have hahead : Bits.ofBytes bytes = layout a fill ++ t.cursor.ahead := ht.cursor.ahead_eq
    have hlt : i < (layout a fill).length := hf.length ▸ (List.getElem?_eq_some_iff.1 hi).1
    have hset : (layout a fill).set i false <+: (ofBytes cleared).cursor.ahead :=
      ⟨t.cursor.ahead, by rw [← List.set_append_left i false hlt, ← hahead, ← hcleared]; rfl⟩
    obtain ⟨u, hu⟩ := hf.cleared (ofBytes cleared) _ field rfl ⟨i, hi, rfl⟩ hset
    rw [hahead, List.getElem?_append_left hlt]
    exact ⟨hf.markers i field hi, congrArg Outcome.result (run_of_error hu)⟩
  reserved bytes changed a ha hagree := by
    obtain ⟨t, hp, -⟩ := exists_of_result_run ha
    obtain ⟨fill, hvalid, ht⟩ := hok hp
    have hf := hfollows hvalid
    have hahead : Bits.ofBytes bytes = layout a fill ++ t.cursor.ahead := ht.cursor.ahead_eq
    rw [hahead, ← List.append_nil (roles a)] at hagree
    obtain ⟨ys, rest, hys, hagree, hrest⟩ := hagree.exists_append hf.length
    obtain ⟨u, hu, hutakes⟩ := hf.agree (ofBytes changed) ys rfl hagree ⟨rest, hys.symm⟩
    have hleft : u.cursor.left = t.cursor.left := by
      have hcut : (ofBytes changed).cursor.ahead = ys ++ u.cursor.ahead := hutakes.cursor.ahead_eq
      rw [← BitCursor.length_ahead, ← BitCursor.length_ahead, ← hrest.length,
        List.append_cancel_left (hcut.symm.trans hys)]
    have hwarnings : u.warnings = t.warnings :=
      Array.toList_inj.1 (hutakes.warnings.trans ht.warnings.symm)
    rw [show p.run (.ofBytes changed) = _ from run_of_ok hu,
      show p.run (.ofBytes bytes) = _ from run_of_ok hp]
    exact ⟨rfl, hleft, hwarnings⟩
  determined bytes changed a ha ha' := by
    have htake {bytes : List UInt8} {t : State} {fill : γ} (hvalid : valid a fill)
        (ht : (ofBytes bytes).Takes (layout a fill) (warnings a) t) :
        (Bits.ofBytes bytes).take (roles a).length = layout a fill := by
      have hahead : Bits.ofBytes bytes = layout a fill ++ t.cursor.ahead := ht.cursor.ahead_eq
      rw [hahead, ← (hfollows hvalid).length, List.take_left]
    obtain ⟨t, hp, -⟩ := exists_of_result_run ha
    obtain ⟨u, hp', -⟩ := exists_of_result_run ha'
    obtain ⟨fill, hvalid, ht⟩ := hok hp
    obtain ⟨fill', hvalid', hu⟩ := hok hp'
    rw [htake hvalid ht, htake hvalid' hu]
    exact (halike hvalid hvalid').agree

/-- So does one that reads each value off one layout. -/
theorem HasRoles.of_layout {p : Parser α} {roles : α → List Role} {valid : α → Prop}
    {layout : α → List Bool}
    (hok : ∀ {bytes : List UInt8} {a : α} {t : State}, p (ofBytes bytes) = .ok a t →
      valid a ∧ (ofBytes bytes).Takes (layout a) [] t)
    (hfollows : ∀ {a : α}, valid a → p.Follows 8 (roles a) (layout a) [] a) : p.HasRoles roles :=
  @HasRoles.of_follows α Unit p roles (fun a _ => valid a) (fun a _ => layout a) (fun _ => [])
    (fun h => ⟨(), hok h⟩) hfollows (fun hvalid _ => .refl (hfollows hvalid).length)

end Parser

end ProgramStream
