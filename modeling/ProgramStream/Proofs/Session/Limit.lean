import ProgramStream.Proofs.Session.Partition
import ProgramStream.Proofs.Session.Pieces
/-!
# Sessions — a limit on units

A limit stops a session right behind a unit and leaves the rest in the
buffer. A step does not look at the limit, so the steps of a limited session
are steps of one without a limit (`Steps.setLimit_zero`), and lifting it at
any time goes on with the run that the limit broke off (`run_lift`). A chain
that ends at the limit ends with a unit, and would have been made without the
bytes behind it (`Steps.stopsAt`).
-/

namespace ProgramStream

namespace Session

variable {ε : Type} {s t u : Session} {log log' out : Log} {units : Nat}

/-! ## Limits and steps -/

@[simp] theorem setLimit_setLimit (s : Session) (units units' : Nat) :
    (s.setLimit units).setLimit units' = s.setLimit units' := rfl

@[simp] theorem setLimit_extend (s : Session) (units : Nat) (bytes : List UInt8) :
    (s.extend bytes).setLimit units = (s.setLimit units).extend bytes := rfl

/-- A limit that a session has already changes nothing. -/
theorem setLimit_of_limit (h : s.limit = some (units + 1)) : s.setLimit (units + 1) = s := by
  rw [setLimit, if_neg (Nat.succ_ne_zero units), ← h]

theorem takeUnit_setLimit (s : Session) (units : Nat) (id : UInt8) (bytes : List UInt8) :
    (s.setLimit units).takeUnit id bytes =
      ((s.takeUnit id bytes).1.setLimit units, (s.takeUnit id bytes).2) := by
  refine (takeUnit_frame s id bytes s.buffer (s.setLimit units).limit).trans ?_
  rw [setLimit, setLimit, ← buffer_takeUnit s id bytes]

/-- **A step does not look at the limit.** -/
theorem step?_setLimit (s : Session) (units : Nat) :
    (s.setLimit units).step? = s.step?.map fun r => (r.1.setLimit units, r.2) := by
  cases hframe : Frame.next s.buffer with
  | noUnit =>
    rw [step?_of_noUnit hframe, step?_of_noUnit (s := s.setLimit units) hframe]
    rfl
  | incomplete wanted =>
    unfold step?
    rw [show (s.setLimit units).buffer = s.buffer from rfl, hframe]
    rfl
  | whole id length =>
    have hpast : (s.setLimit units).pastUnit length = (s.pastUnit length).setLimit units := rfl
    rw [step?_of_whole hframe, step?_of_whole (s := s.setLimit units) hframe, hpast,
      takeUnit_setLimit]
    rfl

/-- **The steps of a limited session are steps without a limit.** -/
theorem Steps.setLimit_zero (h : Steps s log t log') :
    Steps (s.setLimit 0) log (t.setLimit 0) log' := by
  induction h with
  | refl => exact .refl _ _
  | step hrun hstep _ ih => exact .step rfl (by rw [step?_setLimit, hstep]; rfl) ih

/-- And the limit stays as it is. -/
theorem limit_step? (h : s.step? = some (t, out)) : t.limit = s.limit := by
  rcases step?_cases h with ⟨-, hskip⟩ | ⟨id, length, -, htake⟩
  · cases hskip
    rfl
  · have hlimit := limit_takeUnit (s.pastUnit length) id (s.buffer.take length)
    rw [htake] at hlimit
    exact hlimit

theorem Steps.limit_eq (h : Steps s log t log') : t.limit = s.limit := by
  induction h with
  | refl => rfl
  | step _ hstep _ ih => rw [ih, limit_step? hstep]

/-! ## Units and steps -/

/-- **A step passes over a byte, or takes the next unit of the buffer.** -/
theorem units_step? (h : s.step? = some (t, out)) :
    (t.unitIndex = s.unitIndex ∧ Frame.units s.buffer = Frame.units t.buffer ∧
        out.records.toList = []) ∨
      t.unitIndex = s.unitIndex + 1 ∧
        (∃ unit, Frame.units s.buffer = (unit, t.buffer) :: Frame.units t.buffer) ∧
        ∀ r ∈ out.records.toList, r.index = s.unitIndex := by
  rcases step?_cases h with ⟨hframe, hskip⟩ | ⟨id, length, hframe, htake⟩
  · cases hskip
    exact .inl ⟨rfl, Frame.units_of_noUnit hframe, rfl⟩
  · have hindex := unitIndex_takeUnit (s.pastUnit length) id (s.buffer.take length)
    have hbuffer := buffer_takeUnit (s.pastUnit length) id (s.buffer.take length)
    have hrecords := records_takeUnit (s.pastUnit length) id (s.buffer.take length)
    rw [htake] at hindex hbuffer hrecords
    refine .inr ⟨hindex, ⟨s.buffer.take length, ?_⟩, fun r hr => ?_⟩
    · rw [hbuffer]
      exact Frame.units_of_whole hframe
    · rcases hrecords with ⟨r', hr', heq⟩ | hnone
      · rw [heq] at hr
        rw [List.mem_singleton.1 hr]
        exact hr'
      · rw [hnone] at hr
        cases hr

/-- **A chain of steps takes the next units of the buffer**, and puts out
records with their numbers. -/
theorem Steps.exists_taken (h : Steps s log t log') :
    ∃ taken records, Frame.units s.buffer = taken ++ Frame.units t.buffer ∧
      t.unitIndex = s.unitIndex + taken.length ∧
      log'.records.toList = log.records.toList ++ records ∧
      ∀ r ∈ records, s.unitIndex ≤ r.index ∧ r.index < t.unitIndex := by
  induction h with
  | refl s log => exact ⟨[], [], rfl, rfl, (List.append_nil _).symm, by simp⟩
  | @step s t u log log' out hrun hstep _ ih =>
    obtain ⟨taken, records, htaken, hindex, hlog, hrecords⟩ := ih
    rw [Log.records_append, Array.toList_append, List.append_assoc] at hlog
    rcases units_step? hstep with ⟨hsame, hunits, hnone⟩ | ⟨hnext, ⟨unit, hunits⟩, hnumber⟩
    · refine ⟨taken, records, hunits.trans htaken, by rw [hindex, hsame], ?_, fun r hr => ?_⟩
      · rw [hlog, hnone, List.nil_append]
      · rw [← hsame]
        exact hrecords r hr
    · refine ⟨_ :: taken, _, by rw [hunits, htaken]; rfl, ?_, hlog, fun r hr => ?_⟩
      · rw [hindex, hnext, List.length_cons]
        omega
      · rcases List.mem_append.1 hr with hout | hrest
        · have := hnumber r hout
          omega
        · have := hrecords r hrest
          omega

/-- A chain puts out no record with the number of a unit to come. -/
theorem Steps.index_lt (h : Steps s {} t log) :
    ∀ r ∈ log.records.toList, r.index < t.unitIndex := by
  obtain ⟨-, records, -, -, hlog, hbounds⟩ := h.exists_taken
  rw [hlog]
  exact fun r hr => (hbounds r hr).2

/-- The records of a chain are, of all those that a longer one puts out, the
ones with the numbers of its units. -/
theorem Steps.records_eq_filter {log'' : Log} (h : Steps s {} t log)
    (hrest : Steps (t.setLimit 0) log u log'') :
    log.records.toList = log''.records.toList.filter (·.index < t.unitIndex) := by
  obtain ⟨-, behind, -, -, hbehind, hbounds⟩ := hrest.exists_taken
  rw [hbehind, List.filter_append, List.filter_eq_self.2, List.filter_eq_nil_iff.2, List.append_nil]
  · intro r hr
    have hle : t.unitIndex ≤ r.index := (hbounds r hr).1
    simpa using hle
  · intro r hr
    simpa using h.index_lt r hr

/-- Where no step follows, the buffer has no unit. -/
theorem units_of_step?_eq_none (h : s.step? = none) : Frame.units s.buffer = [] := by
  cases hframe : Frame.next s.buffer with
  | noUnit =>
    rw [step?_of_noUnit hframe] at h
    cases h
  | whole id length =>
    rw [step?_of_whole hframe] at h
    cases h
  | incomplete wanted => exact Frame.units_of_incomplete hframe

/-! ## Where a limit stops -/

theorem isFinished_iff : s.isFinished = true ↔ ∃ n, s.limit = some n ∧ n ≤ s.unitIndex := by
  unfold isFinished
  split
  · rename_i n hlimit
    simp [hlimit]
  · rename_i hlimit
    simp [hlimit]

/-- **A step that leaves a start code's length, or takes a unit, is made
without the bytes behind.** -/
theorem exists_front_step? {back more : List UInt8} (h : s.step? = some (t, out))
    (hback : t.buffer = back ++ more)
    (hlen : t.unitIndex = s.unitIndex → Frame.startLength ≤ back.length) :
    ∃ front, s.buffer = front ++ more ∧ Frame.startLength ≤ front.length ∧
      ({ s with buffer := front } : Session).step? = some ({ t with buffer := back }, out) := by
  -- a step without those bytes is the step with them
  have hsame {front : List UInt8} {r : Session × Log} (hfront : s.buffer = front ++ more)
      (hstep : ({ s with buffer := front } : Session).step? = some r) :
      ({ s with buffer := front } : Session).step? = some ({ t with buffer := back }, out) := by
    have hextend : ({ s with buffer := front } : Session).extend more = s := by
      rw [extend, ← hfront]
    have hall : (({ s with buffer := front } : Session).extend more).step? = _ := step?_extend hstep
    rw [hextend, h] at hall
    obtain ⟨ht, hout⟩ := Prod.mk.inj (Option.some.inj hall)
    have hbuffer : r.1.buffer = back := by
      rw [ht, buffer_extend] at hback
      exact List.append_cancel_right hback
    rw [hstep, ht, hout, ← hbuffer]
    rfl
  rcases step?_cases h with ⟨hframe, hskip⟩ | ⟨id, length, hframe, htake⟩
  · cases hskip
    have hfront : s.buffer = s.buffer.take 1 ++ back ++ more := by
      rw [List.append_assoc, ← hback]
      exact (List.take_append_drop 1 s.buffer).symm
    have hlong : Frame.startLength ≤ (s.buffer.take 1 ++ back).length := by
      have := hlen rfl
      rw [List.length_append]
      omega
    rw [hfront] at hframe
    exact ⟨_, hfront, hlong,
      hsame hfront (step?_of_noUnit (Frame.next_of_append_noUnit hframe hlong))⟩
  · have hbounds := Frame.whole_bounds hframe
    have hbuffer := buffer_takeUnit (s.pastUnit length) id (s.buffer.take length)
    rw [htake] at hbuffer
    have hfront : s.buffer = s.buffer.take length ++ back ++ more := by
      rw [List.append_assoc, ← hback, hbuffer]
      exact (List.take_append_drop length s.buffer).symm
    have hlong : length ≤ (s.buffer.take length ++ back).length := by
      rw [List.length_append, List.length_take]
      omega
    rw [hfront] at hframe
    exact ⟨_, hfront, hbounds.1.trans hlong,
      hsame hfront (step?_of_whole (Frame.next_of_append_whole hframe hlong))⟩

/-- **A chain that stops at the limit**, seen from its first session: it ends
with a unit, and would be made without the bytes behind it. -/
structure StopsAt (s : Session) (log : Log) (t : Session) (log' : Log) : Prop where
  limit_eq : t.limit = some t.unitIndex
  exists_units : ∃ before unit,
    Frame.units s.buffer = before ++ (unit, t.buffer) :: Frame.units t.buffer ∧
      t.unitIndex = s.unitIndex + before.length + 1
  exists_front : ∃ front, s.buffer = front ++ t.buffer ∧ Frame.startLength ≤ front.length ∧
    Steps { s with buffer := front } log { t with buffer := [] } log'

/-- A step that reaches the limit takes a unit. -/
theorem stopsAt_step? (hs : s.isFinished = false) (h : s.step? = some (t, out))
    (ht : t.isFinished = true) (log : Log) : StopsAt s log t (log.append out) := by
  have hlimit := limit_step? h
  obtain ⟨n, hn, hle⟩ := isFinished_iff.1 ht
  have hlt : s.unitIndex < n := by
    by_contra hge
    have hfinished := isFinished_iff.2 ⟨n, hlimit ▸ hn, Nat.not_lt.1 hge⟩
    rw [hs] at hfinished
    cases hfinished
  rcases units_step? h with ⟨hsame, -⟩ | ⟨hnext, ⟨unit, hunits⟩, -⟩
  · omega
  · obtain ⟨front, hfront, hlong, hstep⟩ :=
      exists_front_step? h (List.nil_append t.buffer).symm fun hsame => by omega
    exact ⟨by rw [hn]; congr 1; omega, ⟨[], unit, hunits, hnext⟩, front, hfront, hlong,
      .step hs hstep (.refl _ _)⟩

/-- And the steps before do with the bytes up to there. -/
theorem StopsAt.step (hs : s.isFinished = false) (h : s.step? = some (u, out))
    (hstops : StopsAt u (log.append out) t log') : StopsAt s log t log' := by
  obtain ⟨before, unit, hunits, hindex⟩ := hstops.exists_units
  obtain ⟨back, hback, hlong, hsteps⟩ := hstops.exists_front
  obtain ⟨front, hfront, hlong', hstep⟩ := exists_front_step? h hback fun _ => hlong
  refine ⟨hstops.limit_eq, ?_, front, hfront, hlong', .step hs hstep hsteps⟩
  rcases units_step? h with ⟨hsame, hunits', -⟩ | ⟨hnext, ⟨unit', hunits'⟩, -⟩
  · exact ⟨before, unit, hunits'.trans hunits, by rw [hindex, hsame]⟩
  · refine ⟨_ :: before, unit, by rw [hunits', hunits]; rfl, ?_⟩
    rw [hindex, hnext, List.length_cons]
    omega

/-- **A chain from below the limit to the limit stops right there.** -/
theorem Steps.stopsAt (h : Steps s log t log') (hs : s.isFinished = false)
    (ht : t.isFinished = true) : StopsAt s log t log' := by
  induction h with
  | refl =>
    rw [hs] at ht
    cases ht
  | @step s t u log log' out hrun hstep hsteps ih =>
    cases hu : u.isFinished with
    | false => exact (ih hu ht).step hrun hstep
    | true =>
      -- no step is made from the limit
      cases hsteps with
      | refl => exact stopsAt_step? hrun hstep hu log
      | step hrun' =>
        rw [hu] at hrun'
        cases hrun'

/-! ## A limit and no limit -/

/-- A fresh session without a limit takes the units of what it is fed. -/
theorem unitIndex_feed (fed : List UInt8) :
    ((fresh 0).feed (refuseNone (ε := ε)) fed).session.unitIndex = (Frame.units fed).length := by
  have hsteps := steps_run (refuseNone (ε := ε)) ((fresh 0).extend fed) {}
  have hsettled := (isSettled_run (ε := ε) ((fresh 0).extend fed) {}).1
  have hnone : ((fresh 0).feed (refuseNone (ε := ε)) fed).session.step? = none := by
    refine hsettled.resolve_left fun hfinished => ?_
    obtain ⟨n, hn, -⟩ := isFinished_iff.1 hfinished
    rw [hsteps.limit_eq] at hn
    cases hn
  obtain ⟨taken, -, htaken, hindex, -⟩ := hsteps.exists_taken
  change Frame.units fed = taken ++ Frame.units (feed refuseNone _ fed).session.buffer at htaken
  rw [units_of_step?_eq_none hnone, List.append_nil] at htaken
  rw [htaken]
  exact hindex.trans (Nat.zero_add _)

/-- **Lifting a limit goes on with the run that it broke off**, with what has
come in since. -/
theorem run_lift (s : Session) (log : Log) (rest : List UInt8) :
    let r := run (refuseNone (ε := ε)) s log
    run (refuseNone (ε := ε)) ((s.setLimit 0).extend rest) log =
      run refuseNone ((r.session.setLimit 0).extend rest) r.log :=
  run_of_steps (steps_run refuseNone s log).setLimit_zero.extend

theorem feed_lift (units : Nat) (fed : List UInt8) :
    let limited := (fresh units).feed (refuseNone (ε := ε)) fed
    (fresh 0).feed (refuseNone (ε := ε)) fed =
      run refuseNone (limited.session.setLimit 0) limited.log := by
  have hlift := run_lift (ε := ε) ((fresh units).extend fed) {} []
  simp only [extend_nil] at hlift
  exact hlift

/-- **A limit is reached, or does not show.** -/
theorem feed_limit_cases (limit : Nat) (fed : List UInt8) :
    let limited := (fresh (limit + 1)).feed (refuseNone (ε := ε)) fed
    limited.session.limit = some (limit + 1) ∧
      (StopsAt ((fresh (limit + 1)).extend fed) {} limited.session limited.log ∧
          limited.session.unitIndex = limit + 1 ∨
        limited.session.unitIndex ≤ limit ∧
          (fresh 0).feed (refuseNone (ε := ε)) fed =
            ⟨limited.session.setLimit 0, limited.log, none⟩) := by
  intro limited
  have hsteps : Steps ((fresh (limit + 1)).extend fed) {} limited.session limited.log :=
    steps_run refuseNone _ _
  have hlimit : limited.session.limit = some (limit + 1) := hsteps.limit_eq
  refine ⟨hlimit, ?_⟩
  cases hfinished : limited.session.isFinished with
  | true =>
    have hstops := hsteps.stopsAt rfl hfinished
    have hindex := hstops.limit_eq
    rw [hlimit] at hindex
    exact .inl ⟨hstops, (Option.some.inj hindex).symm⟩
  | false =>
    refine .inr ⟨?_, ?_⟩
    · by_contra hgt
      rw [isFinished_iff.2 ⟨limit + 1, hlimit, by omega⟩] at hfinished
      cases hfinished
    · have hnone : limited.session.step? = none :=
        (isSettled_run (ε := ε) ((fresh (limit + 1)).extend fed) {}).1.resolve_left
          (Bool.eq_false_iff.1 hfinished)
      have hsettled : (limited.session.setLimit 0).IsSettled :=
        .inr (by rw [step?_setLimit, hnone]; rfl)
      rw [feed_lift (limit + 1), run_of_isSettled refuseNone hsettled]

/-- **The records put out under a limit are those with the numbers below.** -/
theorem records_feed_limit (limit : Nat) (fed : List UInt8) :
    let limited := (fresh (limit + 1)).feed (refuseNone (ε := ε)) fed
    let whole := (fresh 0).feed (refuseNone (ε := ε)) fed
    limited.log.records.toList = whole.log.records.toList.filter (·.index < limit + 1) := by
  intro limited whole
  have hsteps : Steps ((fresh (limit + 1)).extend fed) {} limited.session limited.log :=
    steps_run refuseNone _ _
  have hwhole : whole = run refuseNone (limited.session.setLimit 0) limited.log :=
    feed_lift (limit + 1) fed
  obtain ⟨-, ⟨-, hindex⟩ | ⟨hindex, hsame⟩⟩ := feed_limit_cases (ε := ε) limit fed
  · have hrest := steps_run (refuseNone (ε := ε)) (limited.session.setLimit 0) limited.log
    rw [← hwhole] at hrest
    rw [← hindex]
    exact hsteps.records_eq_filter hrest
  · -- no more is put out without the limit, and no number is that high
    rw [show whole = _ from hsame]
    refine (List.filter_eq_self.2 fun r hr => ?_).symm
    have hlt := (hsteps.index_lt r hr).trans_le hindex
    simp only [decide_eq_true_eq]
    omega

/-- **What a limit leaves in the buffer could as well not have come in.** -/
theorem StopsAt.exists_feed {limit : Nat} {fed : List UInt8}
    (h : StopsAt ((fresh (limit + 1)).extend fed) {} t log) (hlimit : t.limit = some (limit + 1)) :
    ∃ upTo, fed = upTo ++ t.buffer ∧
      let part := (fresh 0).feed (refuseNone (ε := ε)) upTo
      t = (part.session.setLimit (limit + 1)).extend t.buffer ∧ log = part.log := by
  obtain ⟨upTo, hfed, -, hsteps⟩ := h.exists_front
  have hpart : (fresh 0).feed (refuseNone (ε := ε)) upTo = _ := run_of_steps hsteps.setLimit_zero
  rw [run_of_isSettled refuseNone (.inr rfl)] at hpart
  refine ⟨upTo, hfed, ?_⟩
  rw [hpart]
  refine ⟨?_, rfl⟩
  conv => lhs; rw [← setLimit_of_limit hlimit]
  rfl

/-- **Fed at once, a session with a limit pauses behind a unit.** -/
theorem feed_limit (limit : Nat) (fed : List UInt8) :
    let whole := (fresh 0).feed (refuseNone (ε := ε)) fed
    let limited := (fresh (limit + 1)).feed (refuseNone (ε := ε)) fed
    limited.session.unitIndex = min (limit + 1) (Frame.units fed).length ∧
    (∀ unit after, (Frame.units fed)[limit]? = some (unit, after) →
      limited.session.buffer = after ∧ ∃ upTo, fed = upTo ++ after ∧
        let part := (fresh 0).feed (refuseNone (ε := ε)) upTo
        limited.session = (part.session.setLimit (limit + 1)).extend after ∧
          limited.log = part.log) ∧
    ((Frame.units fed).length ≤ limit →
      limited.session = whole.session.setLimit (limit + 1) ∧ limited.log = whole.log) := by
  intro whole limited
  have hcount : whole.session.unitIndex = (Frame.units fed).length := unitIndex_feed fed
  obtain ⟨hlimit, ⟨hstops, hindex⟩ | ⟨hindex, hsame⟩⟩ := feed_limit_cases (ε := ε) limit fed
  · -- the unit that the limit stops behind has as many before it as the limit says
    obtain ⟨before, unit, hunits, hbefore⟩ := hstops.exists_units
    change Frame.units fed = _ at hunits
    change limited.session.unitIndex = 0 + before.length + 1 at hbefore
    change limited.session.unitIndex = limit + 1 at hindex
    have hlength : before.length = limit := by omega
    refine ⟨?_, fun unit' after hunit => ?_, fun hfew => ?_⟩
    · rw [hunits, List.length_append, List.length_cons]
      omega
    · rw [hunits, List.getElem?_append_right hlength.le, hlength, Nat.sub_self,
        List.getElem?_cons_zero] at hunit
      obtain ⟨-, rfl⟩ := Prod.mk.inj (Option.some.inj hunit)
      exact ⟨rfl, hstops.exists_feed hlimit⟩
    · rw [hunits, List.length_append, List.length_cons] at hfew
      omega
  · have hwhole : whole = ⟨limited.session.setLimit 0, limited.log, none⟩ := hsame
    rw [hwhole] at hcount ⊢
    change limited.session.unitIndex = _ at hcount
    change limited.session.unitIndex ≤ limit at hindex
    refine ⟨by omega, fun unit after hunit => ?_, fun _ => ⟨?_, rfl⟩⟩
    · have hlt := (List.getElem?_eq_some_iff.1 hunit).1
      omega
    · exact (setLimit_of_limit hlimit).symm

/-! ## Schedules -/

/-- The call a schedule has for a limit or a piece. -/
def scheduled : Nat ⊕ List UInt8 → Call ε
  | .inl units => .setLimit units
  | .inr piece => .feed refuseNone piece

/-- The pieces a schedule feeds. -/
def scheduledPieces (schedule : List (Nat ⊕ List UInt8)) : List (List UInt8) :=
  schedule.filterMap Sum.getRight?

@[simp] theorem scheduledPieces_limit (units : Nat) (schedule : List (Nat ⊕ List UInt8)) :
    scheduledPieces (.inl units :: schedule) = scheduledPieces schedule := rfl

@[simp] theorem scheduledPieces_piece (piece : List UInt8) (schedule : List (Nat ⊕ List UInt8)) :
    scheduledPieces (.inr piece :: schedule) = piece :: scheduledPieces schedule := rfl

/-- **Lifting the limit at the end goes on as if there had been none.** -/
theorem performFrom_schedule (s : Session) (log : Log) (schedule : List (Nat ⊕ List UInt8)) :
    let whole := run (refuseNone (ε := ε))
      ((s.setLimit 0).extend (scheduledPieces schedule).flatten) log
    performFrom s log (schedule.map scheduled ++ [.setLimit 0, .feed (refuseNone (ε := ε)) []]) =
      (whole.session, whole.log) := by
  induction schedule generalizing s log with
  | nil =>
    have hlog := run_append (refuseNone (ε := ε)) (s.setLimit 0) log {}
    rw [Log.append_empty] at hlog
    simp [scheduledPieces, performFrom, Call.perform, feed, hlog]
  | cons item schedule ih =>
    cases item with
    | inl units =>
      have hrest := ih (s.setLimit units) log
      simpa [scheduled, performFrom, Call.perform] using hrest
    | inr piece =>
      -- what the piece leads to is reached without the limit too
      have hlift := run_lift (ε := ε) (s.extend piece) log (scheduledPieces schedule).flatten
      have hlog := run_append (refuseNone (ε := ε)) (s.extend piece) log {}
      rw [Log.append_empty] at hlog
      rw [setLimit_extend, extend_extend, hlog] at hlift
      rw [scheduledPieces_piece, List.flatten_cons, hlift]
      exact ih _ _

/-- **A limit is an exact pause.** A fresh session without a limit that is fed
pieces takes the units of what it is fed. One with a limit, fed the same, has
put out the records with the numbers below the limit, and has taken the units
up to it. If there are that many, the bytes after the last of them are in its
buffer, and all else is what the bytes up to there lead to without a limit;
if there are fewer, the limit does not show. And whatever limits were set
between the pieces, once the limit is lifted, feeding nothing leads to the
session without a limit, and to what it put out. -/
theorem performFrom_limit (limit : Nat) (pieces : List (List UInt8)) :
    let feeds : List (Call ε) := pieces.map (Call.feed refuseNone)
    let fed := pieces.flatten
    let whole := performFrom (fresh 0) {} feeds
    let limited := performFrom (fresh (limit + 1)) {} feeds
    whole.1.unitIndex = (Frame.units fed).length ∧
    limited.2.records.toList = whole.2.records.toList.filter (·.index < limit + 1) ∧
    limited.1.unitIndex = min (limit + 1) (Frame.units fed).length ∧
    (∀ unit after, (Frame.units fed)[limit]? = some (unit, after) →
      limited.1.buffer = after ∧ ∃ upTo, fed = upTo ++ after ∧
        let part := (fresh 0).feed (refuseNone (ε := ε)) upTo
        limited.1 = (part.session.setLimit (limit + 1)).extend after ∧ limited.2 = part.log) ∧
    ((Frame.units fed).length ≤ limit →
      limited.1 = whole.1.setLimit (limit + 1) ∧ limited.2 = whole.2) ∧
    ∀ schedule, scheduledPieces schedule = pieces →
      performFrom (fresh 0) {}
        (schedule.map scheduled ++ [.setLimit 0, .feed (refuseNone (ε := ε)) []]) = whole := by
  intro feeds fed whole limited
  have hwhole : whole = _ := performFrom_pieces 0 pieces
  have hlimited : limited = _ := performFrom_pieces (limit + 1) pieces
  obtain ⟨hindex, hreached, hfew⟩ := feed_limit (ε := ε) limit fed
  rw [hwhole, hlimited]
  refine ⟨unitIndex_feed fed, records_feed_limit limit fed, hindex, hreached, hfew, ?_⟩
  rintro schedule rfl
  exact performFrom_schedule (fresh 0) {} schedule

end Session

end ProgramStream
