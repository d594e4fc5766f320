import ProgramStream.Proofs.Roles
/-!
# Roles in headers — clocks, pack headers and system headers

The roles of the bits of a timestamp, of a clock reference, of a pack header
and of a system header, in the order of their layouts, and that their parsers
follow them. The fields of a system header may stand anywhere in a byte; how
many bytes its parser counts between its two looks at the position depends on
no bit of it.
-/

namespace ProgramStream

open ProgramStream.Parser ProgramStream.Parser.State

variable {k : Nat}

/-! ## Clocks -/

/-- The roles of the bits of a 33-bit count of a field. -/
def Role.count33 (name : String) : List Role :=
  values 3 ++ ([marker name] ++ (values 15 ++ ([marker name] ++ (values 15 ++ [marker name]))))

@[simp] theorem Role.length_count33 (name : String) : (count33 name).length = 36 := by
  simp [count33]

theorem Parser.follows_count33 (name : String) (v : BitVec 33) :
    (count33 name).Follows k (Role.count33 name) (Bits.ofCount33 v.toNat) [] v := by
  obtain ⟨upper, low, rfl⟩ := Bits.exists_append_field (k := 18) (n := 15) v
  obtain ⟨high, middle, rfl⟩ := Bits.exists_append_field (k := 3) (n := 15) upper
  rw [Bits.ofCount33_append]
  exact (follows_field (by decide) high).bind <| (follows_marker name).bind <|
    (follows_field (by decide) middle).bind <| (follows_marker name).bind <|
    (follows_field (by decide) low).bind <| (follows_marker name).bind_pure rfl

/-- A number that fits a field is that of some field. -/
theorem Bits.exists_toNat_eq {width n : Nat} (h : n < 2 ^ width) :
    ∃ v : BitVec width, v.toNat = n :=
  ⟨BitVec.ofNat width n, toNat_ofNat_of_lt h⟩

namespace Timestamp

/-- The roles of the bits of a timestamp. -/
def roles : List Role := Role.values 4 ++ Role.count33 "timestamp"

@[simp] theorem length_roles : roles.length = 40 := by simp [roles]

theorem follows_parse {t : Timestamp} (ht : t.IsValid) : parse.Follows k roles t.bits [] t := by
  obtain ⟨code, value⟩ := t
  obtain ⟨code, rfl⟩ := Bits.exists_toNat_eq ht.1
  obtain ⟨value, rfl⟩ := Bits.exists_toNat_eq ht.2
  exact (follows_field (by decide) code).bind <|
    (follows_count33 "timestamp" value).bind_pure rfl

theorem follows_parseCode {t : Timestamp} {expected : Nat} (hcode : t.code = expected)
    (ht : t.IsValid) : (parseCode expected).Follows k roles t.bits [] t :=
  (follows_parse ht).bind_pure (if_pos hcode)

theorem hasRoles_parse : parse.HasRoles fun _ => roles :=
  .of_layout parse_eq_ok_iff.1 follows_parse

theorem hasRoles_parseCode (expected : Nat) : (parseCode expected).HasRoles fun _ => roles :=
  .of_layout (fun h => and_assoc.2 (parseCode_eq_ok_iff.1 h))
    fun hvalid => follows_parseCode hvalid.1 hvalid.2

example : (List.range 40).filter (roles[·]? = some (.marker "timestamp")) = [7, 23, 39] := by
  decide

end Timestamp

namespace ClockReference

/-- The roles of the bits of a clock reference of a field. -/
def roles (name : String) : List Role :=
  Role.count33 name ++ (Role.values 9 ++ [.marker name])

@[simp] theorem length_roles (name : String) : (roles name).length = 46 := by simp [roles]

theorem follows_parse (name : String) {c : ClockReference} (hc : c.IsValid) :
    (parse name).Follows k (roles name) c.bits [] c := by
  obtain ⟨base, extension⟩ := c
  obtain ⟨base, rfl⟩ := Bits.exists_toNat_eq hc.1
  obtain ⟨extension, rfl⟩ := Bits.exists_toNat_eq hc.2
  exact (follows_count33 name base).bind <| (follows_field (by decide) extension).bind <|
    (follows_marker name).bind_pure rfl

end ClockReference

/-! ## Pack headers -/

namespace PackHeader

/-- The roles of the bits of a pack header. -/
def roles (h : PackHeader) : List Role :=
  Role.values 32 ++ (Role.values 2 ++ (ClockReference.roles "system_clock_reference" ++
    (Role.values 22 ++ ([.marker "program_mux_rate"] ++ ([.marker "program_mux_rate"] ++
    (Role.unused 5 ++ (Role.values 3 ++ Role.values (8 * h.stuffing.length))))))))

theorem follows_parseStart (streamId : UInt8) :
    (parseStart streamId).Follows k (Role.values 32) (Bits.ofBytes (startBytes streamId)) [] () :=
  .of_values (by simp [startBytes]) fun _ => parseStart_eq_ok_iff.2

theorem follows_parseVersion (hk : 8 ∣ k) (mark : BitVec 2) :
    (parseVersion mark).Follows k (Role.values 2) (Bits.ofField mark) [] () :=
  .of_values (by simp) fun hs h =>
    parseVersion_eq_ok_iff.2 ⟨isAligned_iff_dvd_position.2 (hs ▸ hk), h⟩

theorem follows_parse (hk : 8 ∣ k) {h : PackHeader} (hvalid : h.IsValid) (reserved : BitVec 5) :
    parse.Follows k h.roles (h.bits reserved) [] h := by
  refine (follows_parseStart StreamId.pack).bind <| (follows_parseVersion ?_ 0b01).bind <|
    (ClockReference.follows_parse _ hvalid.1).bind <| (follows_field (by decide) h.muxRate).bind <|
    (follows_marker _).bind <| (follows_marker _).bind <|
    (follows_reserved (by decide) reserved).bind <|
    (follows_field (by decide) h.stuffingLength).bind <|
    (follows_bytes ?_ hvalid.2).bind_pure rfl
  all_goals simp
  all_goals omega

theorem alike_bits (h : PackHeader) (reserved reserved' : BitVec 5) :
    Role.Alike h.roles (h.bits reserved) (h.bits reserved') := by
  refine .after ?_ <| .after ?_ <| .after ?_ <| .after ?_ <| .after ?_ <| .after ?_ <|
    (Role.Alike.unused ?_ ?_).append <| .after ?_ <| .refl ?_
  all_goals simp [startBytes]

theorem hasRoles_parse : parse.HasRoles roles :=
  .of_follows
    (fun h =>
      have ⟨_, hvalid, reserved, htakes⟩ := parse_eq_ok_iff.1 h
      ⟨reserved, hvalid, htakes⟩)
    (fun hvalid => follows_parse (Nat.dvd_refl 8) hvalid _) (fun _ _ => alike_bits _ _ _)

end PackHeader

/-! ## System headers -/

theorem StreamBound.follows_parseMany {bs : List StreamBound} {n : Nat} (hn : bs.length = n) :
    (parseMany n).Follows k (Role.values (8 * (length * bs.length))) (bs.flatMap bits) [] bs :=
  .of_values (length_flatMap_bits bs) fun _ h => parseMany_eq_ok_iff.2 ⟨hn, h⟩

namespace SystemHeader

/-- The roles of the bits of a system header. -/
def roles (h : SystemHeader) : List Role :=
  Role.values 32 ++ (Role.values 16 ++ ([.marker "rate_bound"] ++ (Role.values 22 ++
    ([.marker "rate_bound"] ++ (Role.values 6 ++ (Role.values 1 ++ (Role.values 1 ++
    (Role.values 1 ++ (Role.values 1 ++ ([.marker "video_bound"] ++ (Role.values 5 ++
    (Role.values 1 ++ (Role.unused 7 ++
    Role.values (8 * (StreamBound.length * h.streams.length)))))))))))))))

theorem follows_parse {h : SystemHeader} (hvalid : h.IsValid) (reserved : BitVec 7) :
    parse.Follows k h.roles (h.bits reserved) [] h := by
  simp only [bits, fixedBits, List.append_assoc]
  refine (PackHeader.follows_parseStart StreamId.system).bind <|
    (follows_field16 h.headerLength).bind <| follows_taken_bind <|
    (follows_marker _).bind <| (follows_field (by decide) h.rateBound).bind <|
    (follows_marker _).bind <| (follows_field (by decide) h.audioBound).bind <|
    (follows_flag h.fixed).bind <| (follows_flag h.csps).bind <| (follows_flag h.audioLock).bind <|
    (follows_flag h.videoLock).bind <| (follows_marker _).bind <|
    (follows_field (by decide) h.videoBound).bind <| (follows_flag h.packetRateRestriction).bind <|
    (follows_reserved (by decide) reserved).bind <| follows_taken_bind <|
    Follows.ite_neg ?_ <| Follows.ite_neg ?_ <| (StreamBound.follows_parseMany ?_).bind_pure rfl
  -- what is counted between the two looks at the position is the fixed part
  all_goals simp only [IsValid, fixedLength, StreamBound.length] at hvalid
  all_goals simp only [Role.length_values, Role.length_unused, List.length_cons, List.length_nil,
    StreamBound.length]
  all_goals omega

theorem alike_bits (h : SystemHeader) (reserved reserved' : BitVec 7) :
    Role.Alike h.roles (h.bits reserved) (h.bits reserved') := by
  simp only [bits, fixedBits, List.append_assoc]
  refine .after ?_ <| .after ?_ <| .after ?_ <| .after ?_ <| .after ?_ <| .after ?_ <|
    .after ?_ <| .after ?_ <| .after ?_ <| .after ?_ <| .after ?_ <| .after ?_ <| .after ?_ <|
    (Role.Alike.unused ?_ ?_).append <|
    .refl ((StreamBound.length_flatMap_bits h.streams).trans (Role.length_values _).symm)
  all_goals simp [startBytes]

theorem hasRoles_parse : parse.HasRoles roles :=
  .of_follows
    (fun h =>
      have ⟨hvalid, reserved, htakes⟩ := parse_eq_ok_iff.1 h
      ⟨reserved, hvalid, htakes⟩)
    (fun hvalid => follows_parse hvalid _) (fun _ _ => alike_bits _ _ _)

end SystemHeader

end ProgramStream
