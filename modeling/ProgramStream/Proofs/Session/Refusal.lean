import ProgramStream.Proofs.Session.Partition
import ProgramStream.Proofs.Session.Pieces
/-!
# Sessions — a receiver that refuses

A refusal ends a call in the middle of its run. The unit refused is counted
and off the buffer by then and what comes after it is still there, so the
next call goes on where this one ended (`run_extend`). Whoever goes on
feeding, and at the end feeds nothing until nothing is refused (`attempts`),
makes the steps of a run that refuses nothing, with breaks between them. A
call ends at the first record its receiver refuses (`Delivers`), so there are
as many breaks as records refused.
-/

namespace ProgramStream

namespace Session

variable {ε : Type} {s t : Session} {refuse : Record → Option ε} {log out : Log}

/-! ## One call -/

/-- **Records delivered one after the other** until one is refused, and what
the receiver says of that one. -/
inductive Delivers (refuse : Record → Option ε) : List Record → Option ε → Prop
  | nil : Delivers refuse [] none
  | refused {r : Record} {reason : ε} (h : refuse r = some reason) :
      Delivers refuse [r] (some reason)
  | accepted {r : Record} {records : List Record} {refusal : Option ε} (h : refuse r = none)
      (hrest : Delivers refuse records refusal) : Delivers refuse (r :: records) refusal

namespace Delivers

variable {records : List Record} {refusal : Option ε}

/-- A refusal is what the receiver says of the last record. -/
theorem refusal_eq (h : Delivers refuse records refusal) :
    refusal = records.getLast?.bind refuse := by
  induction h with
  | nil => rfl
  | refused h => exact h.symm
  | @accepted r records refusal h hrest ih =>
    rw [ih]
    cases records with
    | nil => exact h.symm
    | cons r' records => rw [List.getLast?_cons_cons]

/-- All records before the last one are accepted. -/
theorem accepted_of_mem (h : Delivers refuse records refusal) :
    ∀ r ∈ records.dropLast, refuse r = none := by
  induction h with
  | nil => simp
  | refused h => simp
  | @accepted r records refusal h hrest ih =>
    cases records with
    | nil => simp
    | cons r' records =>
      rw [List.dropLast_cons_cons]
      exact List.forall_mem_cons.2 ⟨h, ih⟩

/-- There is a refusal for each record refused. -/
theorem countP_eq (h : Delivers refuse records refusal) :
    records.countP (fun r => (refuse r).isSome) = if refusal.isSome then 1 else 0 := by
  induction h with
  | nil => rfl
  | refused h => simp [h]
  | accepted h hrest ih => simp [h, ih]

end Delivers

/-- **A run delivers records until one is refused.** -/
theorem delivers_run (refuse : Record → Option ε) (s : Session) (log : Log) :
    ∃ records, (run refuse s log).log.records.toList = log.records.toList ++ records ∧
      Delivers refuse records (run refuse s log).refusal := by
  fun_induction run refuse s log with
  | case1 s log hfinished => exact ⟨[], by simp, .nil⟩
  | case2 s log hfinished hstep => exact ⟨[], by simp, .nil⟩
  | case3 s log hfinished t out hstep refusal hrefusal =>
    rcases records_step? hstep with hnone | ⟨r, hr⟩
    · rw [hnone] at hrefusal
      cases hrefusal
    · refine ⟨[r], by simp [hr], .refused ?_⟩
      rw [hr] at hrefusal
      simpa using hrefusal
  | case4 s log hfinished t out hstep hrefusal ih =>
    obtain ⟨records, hrecords, hdelivers⟩ := ih
    rcases records_step? hstep with hnone | ⟨r, hr⟩
    · exact ⟨records, by simp [hrecords, hnone], hdelivers⟩
    · refine ⟨r :: records, by simp [hrecords, hr], .accepted ?_ hdelivers⟩
      rw [hr] at hrefusal
      simpa using hrefusal

/-- A run that is refused a record has taken its unit off the buffer. -/
theorem length_run_lt (h : (run refuse s log).refusal ≠ none) :
    (run refuse s log).session.buffer.length < s.buffer.length := by
  fun_induction run refuse s log with
  | case1 s log hfinished => exact absurd rfl h
  | case2 s log hfinished hstep => exact absurd rfl h
  | case3 s log hfinished t out hstep refusal hrefusal => exact step_lt hstep
  | case4 s log hfinished t out hstep hrefusal ih => exact (ih h).trans (step_lt hstep)

/-! ## Calls until nothing is refused -/

/-- Feeds nothing, again and again, until nothing is refused. -/
def retry (refuse : Record → Option ε) (s : Session) : List (Run ε) :=
  let r := s.feed refuse []
  if _h : r.refusal = none then [r] else r :: retry refuse r.session
termination_by s.buffer.length
decreasing_by
  exact (length_run_lt _h).trans_eq (by rw [List.append_nil])

/-- Feeds pieces, each in a call of its own whatever is refused, and then
nothing until nothing is refused. As no two records of a session are alike,
a receiver that decides by what it has seen is one that decides by the
record. -/
def attempts (refuse : Record → Option ε) (s : Session) : List (List UInt8) → List (Run ε)
  | [] => retry refuse s
  | piece :: pieces =>
    let r := s.feed refuse piece
    r :: attempts refuse r.session pieces

/-- What calls put out, one after the other. -/
def putOut (calls : List (Run ε)) : Log := calls.foldr (fun r log => r.log.append log) {}

theorem records_putOut (calls : List (Run ε)) :
    (putOut calls).records.toList = calls.flatMap (·.log.records.toList) := by
  induction calls with
  | nil => rfl
  | cons r calls ih =>
    rw [List.flatMap_cons, ← ih]
    exact Array.toList_append

/-- As many calls are refused as records. -/
theorem countP_refusal {calls : List (Run ε)}
    (h : ∀ r ∈ calls, Delivers refuse r.log.records.toList r.refusal) :
    calls.countP (·.refusal.isSome) =
      (calls.flatMap (·.log.records.toList)).countP fun record => (refuse record).isSome := by
  induction calls with
  | nil => rfl
  | cons r calls ih =>
    obtain ⟨hr, hcalls⟩ := List.forall_mem_cons.1 h
    rw [List.flatMap_cons, List.countP_append, hr.countP_eq, ← ih hcalls, List.countP_cons,
      Nat.add_comm]

/-- Each attempt is a call. -/
theorem exists_feed_of_mem_attempts {pieces : List (List UInt8)} {r : Run ε}
    (h : r ∈ s.attempts refuse pieces) : ∃ t bytes, r = feed refuse t bytes := by
  induction pieces generalizing s with
  | nil =>
    rw [attempts] at h
    fun_induction retry refuse s with
    | case1 s r' hdone =>
      exact ⟨s, [], List.mem_singleton.1 h⟩
    | case2 s r' hrefused ih =>
      rcases List.mem_cons.1 h with rfl | hrest
      · exact ⟨s, [], rfl⟩
      · exact ih hrest
  | cons piece pieces ih =>
    rcases List.mem_cons.1 h with rfl | hrest
    · exact ⟨s, piece, rfl⟩
    · exact ih hrest

/-- **A call that ends early is taken up by the next.** -/
theorem run_feed (refuse : Record → Option ε) (s : Session) (piece rest : List UInt8) :
    let r := s.feed refuse piece
    let next := run (refuseNone (ε := ε)) (r.session.extend rest) {}
    run (refuseNone (ε := ε)) (s.extend (piece ++ rest)) {} =
      ⟨next.session, r.log.append next.log, next.refusal⟩ := by
  intro r next
  rw [← extend_extend, run_extend refuse (s.extend piece), ← run_append, Log.append_empty]
  rfl

/-- Calls that put out what a run puts out, the last of them in the session
where the run ends. -/
structure ComesTo (calls : List (Run ε)) (whole : Run ε) : Prop where
  putOut_eq : putOut calls = whole.log
  exists_last : ∃ last, calls.getLast? = some last ∧ last.session = whole.session ∧
    last.refusal = none

theorem ComesTo.cons {calls : List (Run ε)} {next : Run ε} (h : ComesTo calls next) (r : Run ε) :
    ComesTo (r :: calls) ⟨next.session, r.log.append next.log, next.refusal⟩ where
  putOut_eq := congrArg r.log.append h.putOut_eq
  exists_last := by
    obtain ⟨last, hlast, hend⟩ := h.exists_last
    exact ⟨last, by rw [List.getLast?_cons, hlast]; rfl, hend⟩

/-- **Feeding nothing until nothing is refused** comes to a run. -/
theorem comesTo_retry (refuse : Record → Option ε) (s : Session) :
    ComesTo (retry refuse s) (run (refuseNone (ε := ε)) s {}) := by
  have hwhole (s : Session) := run_feed refuse s [] []
  simp only [List.append_nil, extend_nil] at hwhole
  fun_induction retry refuse s with
  | case1 s r hdone =>
    -- a call that nothing is refused in leaves no step to make
    have hsettled : r.session.IsSettled := isSettled_of_refusal hdone
    rw [hwhole, run_of_isSettled refuseNone hsettled, Log.append_empty]
    exact ⟨Log.append_empty _, r, rfl, rfl, hdone⟩
  | case2 s r hrefused ih =>
    rw [hwhole]
    exact ih.cons r

/-- **So does feeding pieces first**, whatever is refused meanwhile. -/
theorem comesTo_attempts (refuse : Record → Option ε) (s : Session) (pieces : List (List UInt8)) :
    ComesTo (s.attempts refuse pieces)
      (run (refuseNone (ε := ε)) (s.extend pieces.flatten) {}) := by
  induction pieces generalizing s with
  | nil =>
    rw [List.flatten_nil, extend_nil]
    exact comesTo_retry refuse s
  | cons piece pieces ih =>
    rw [List.flatten_cons, run_feed refuse]
    exact (ih _).cons _

/-- What a call delivers. -/
theorem delivers_feed (refuse : Record → Option ε) (s : Session) (bytes : List UInt8) :
    Delivers refuse (s.feed refuse bytes).log.records.toList (s.feed refuse bytes).refusal := by
  obtain ⟨records, hrecords, hdelivers⟩ :=
    delivers_run refuse ({ s with buffer := s.buffer ++ bytes } : Session) {}
  rw [List.nil_append] at hrecords
  exact hrecords ▸ hdelivers

/-- **A refusal neither loses nor repeats a unit.** Whatever the receiver
refuses, whoever feeds a fresh session all pieces nevertheless, and then
nothing until nothing is refused, has the records and warnings put out and
the session left that feeding the pieces to a receiver that refuses nothing
has. A call ends at the first record refused, with what the receiver says of
it, so there are as many calls refused as records. -/
theorem attempts_eq_performFrom (refuse : Record → Option ε) (units : Nat)
    (pieces : List (List UInt8)) :
    let calls := (fresh units).attempts refuse pieces
    let whole := performFrom (fresh units) {} (pieces.map (Call.feed (refuseNone (ε := ε))))
    putOut calls = whole.2 ∧
      (∃ last, calls.getLast? = some last ∧ last.session = whole.1 ∧ last.refusal = none) ∧
      (∀ r ∈ calls, r.refusal = r.log.records.toList.getLast?.bind refuse ∧
        ∀ record ∈ r.log.records.toList.dropLast, refuse record = none) ∧
      calls.countP (·.refusal.isSome) =
        whole.2.records.toList.countP fun record => (refuse record).isSome := by
  intro calls whole
  have hwhole : whole = _ := performFrom_pieces units pieces
  have hcomes := comesTo_attempts refuse (fresh units) pieces
  have hlog : putOut calls = whole.2 := by
    rw [hwhole]
    exact hcomes.putOut_eq
  have hdelivers : ∀ r ∈ calls, Delivers refuse r.log.records.toList r.refusal := by
    intro r hr
    obtain ⟨t, bytes, rfl⟩ := exists_feed_of_mem_attempts hr
    exact delivers_feed refuse t bytes
  refine ⟨hlog, ?_,
    fun r hr => ⟨(hdelivers r hr).refusal_eq, (hdelivers r hr).accepted_of_mem⟩, ?_⟩
  · rw [hwhole]
    exact hcomes.exists_last
  · rw [← hlog, records_putOut]
    exact countP_refusal hdelivers

end Session

end ProgramStream
