import ProgramStream.Proofs.Frame
import ProgramStream.Proofs.Record
import ProgramStream.Session
/-!
# Sessions — steps, one after the other

`step?_cases` says once what a step can do: skip a byte or take a unit. What
becomes of a unit is the verdict on its bytes (`StreamUnit.judge`): a record
(`takeUnit_of_ok`) or a count (`takeUnit_of_error`). `Steps` chains steps,
and a run is such a chain whoever receives the records (`steps_run`). Two
facts carry everything about input that comes in pieces: a chain is a chain
with more bytes behind it (`Steps.extend`), and a run that refuses nothing
may start anywhere along a chain (`run_of_steps`).
-/

namespace ProgramStream

namespace Session

variable {ε : Type} {s t u : Session} {log log' out : Log} {more : List UInt8}

/-- A receiver that refuses no record. -/
def refuseNone (_ : Record) : Option ε := none

/-- A session with more bytes in its buffer. -/
def extend (s : Session) (bytes : List UInt8) : Session := { s with buffer := s.buffer ++ bytes }

@[simp] theorem extend_nil (s : Session) : s.extend [] = s := by simp [extend]

@[simp] theorem extend_extend (s : Session) (xs ys : List UInt8) :
    (s.extend xs).extend ys = s.extend (xs ++ ys) := by simp [extend]

@[simp] theorem buffer_extend (s : Session) (bytes : List UInt8) :
    (s.extend bytes).buffer = s.buffer ++ bytes := rfl

/-! ## What a step can do -/

/-- The session whose buffer begins after a unit of the given length. -/
def pastUnit (s : Session) (length : Nat) : Session :=
  { s with buffer := s.buffer.drop length, inSync := true }

theorem step?_of_noUnit (h : Frame.next s.buffer = .noUnit) : s.step? = some s.skipByte := by
  unfold step?
  rw [h]

theorem step?_of_whole {id : UInt8} {length : Nat} (h : Frame.next s.buffer = .whole id length) :
    s.step? = some ((s.pastUnit length).takeUnit id (s.buffer.take length)) := by
  unfold step?
  rw [h]
  rfl

/-- **A step skips a byte that starts no unit, or takes a whole unit.** -/
theorem step?_cases (h : s.step? = some (t, out)) :
    (Frame.next s.buffer = .noUnit ∧ s.skipByte = (t, out)) ∨
      ∃ id length, Frame.next s.buffer = .whole id length ∧
        (s.pastUnit length).takeUnit id (s.buffer.take length) = (t, out) := by
  cases hframe : Frame.next s.buffer with
  | noUnit =>
    rw [step?_of_noUnit hframe] at h
    exact .inl ⟨rfl, Option.some.inj h⟩
  | incomplete wanted =>
    unfold step? at h
    rw [hframe] at h
    cases h
  | whole id length =>
    rw [step?_of_whole hframe] at h
    exact .inr ⟨id, length, rfl, Option.some.inj h⟩

/-- A decoded unit is counted as of its kind only. -/
theorem count_eq (stats : Stats) (content : StreamUnit) :
    (stats.count content).corruptUnits = stats.corruptUnits ∧
      (stats.count content).skippedBytes = stats.skippedBytes := by
  unfold Stats.count
  split
  all_goals try exact ⟨rfl, rfl⟩
  split <;> exact ⟨rfl, rfl⟩

@[simp] theorem corruptUnits_count (stats : Stats) (content : StreamUnit) :
    (stats.count content).corruptUnits = stats.corruptUnits := (count_eq stats content).1

@[simp] theorem skippedBytes_count (stats : Stats) (content : StreamUnit) :
    (stats.count content).skippedBytes = stats.skippedBytes := (count_eq stats content).2

/-- Taking a unit goes by the verdict on it. -/
theorem takeUnit_eq (s : Session) (id : UInt8) (bytes : List UInt8) :
    s.takeUnit id bytes =
      let verdict := StreamUnit.judge s.codecs id bytes
      let told : Session := { s with unitIndex := s.unitIndex + 1, codecs := verdict.codecs }
      match verdict.content with
      | .ok content =>
        let (t, record) := told.accept s.unitIndex content
        (t, ⟨#[record], verdict.warnings⟩)
      | .error fault =>
        let (t, warning) := told.dropUnit s.unitIndex id fault
        (t, ⟨#[], verdict.warnings.push warning⟩) := by
  cases hresult : ((StreamUnit.parse s.codecs id).run (BitCursor.ofBytes bytes)).result with
  | ok found =>
    by_cases htaken :
        ((StreamUnit.parse s.codecs id).run (BitCursor.ofBytes bytes)).cursor.taken = bytes.length
    · simp only [takeUnit, StreamUnit.judge, hresult, if_pos htaken]
    · simp only [takeUnit, StreamUnit.judge, hresult, if_neg htaken]
  | error fault => simp only [takeUnit, StreamUnit.judge, hresult]

/-- A unit with content becomes a record. -/
theorem takeUnit_of_ok {id : UInt8} {bytes : List UInt8} {content : StreamUnit}
    (h : (StreamUnit.judge s.codecs id bytes).content = .ok content) :
    s.takeUnit id bytes =
      let verdict := StreamUnit.judge s.codecs id bytes
      let (t, record) := { s with unitIndex := s.unitIndex + 1, codecs := verdict.codecs }.accept
        s.unitIndex content
      (t, ⟨#[record], verdict.warnings⟩) := by
  simp only [takeUnit_eq, h]

/-- A unit with a fault is counted, and what its parser told about codecs
stays. -/
theorem takeUnit_of_error {id : UInt8} {bytes : List UInt8} {fault : Fault}
    (h : (StreamUnit.judge s.codecs id bytes).content = .error fault) :
    s.takeUnit id bytes =
      let verdict := StreamUnit.judge s.codecs id bytes
      ({ s with
          unitIndex := s.unitIndex + 1
          codecs := verdict.codecs
          stats := { s.stats with corruptUnits := s.stats.corruptUnits + 1 } },
        ⟨#[], verdict.warnings.push (.droppedUnit s.unitIndex id fault)⟩) := by
  simp only [takeUnit_eq, h, dropUnit]

/-- **Taking a unit neither reads nor writes the buffer and the limit.** -/
theorem takeUnit_frame (s : Session) (id : UInt8) (bytes buffer : List UInt8)
    (limit : Option Nat) :
    ({ s with buffer, limit } : Session).takeUnit id bytes =
      ({ (s.takeUnit id bytes).1 with buffer, limit }, (s.takeUnit id bytes).2) := by
  cases h : (StreamUnit.judge s.codecs id bytes).content with
  | ok content =>
    rw [takeUnit_of_ok h, takeUnit_of_ok (s := { s with buffer, limit }) h]
    rfl
  | error fault =>
    rw [takeUnit_of_error h, takeUnit_of_error (s := { s with buffer, limit }) h]

theorem limit_takeUnit (s : Session) (id : UInt8) (bytes : List UInt8) :
    (s.takeUnit id bytes).1.limit = s.limit :=
  congrArg (fun r : Session × Log => r.1.limit) (takeUnit_frame s id bytes s.buffer s.limit)

/-- Taking a unit has nothing to do with the bytes behind it. -/
theorem takeUnit_extend (s : Session) (id : UInt8) (bytes more : List UInt8) :
    (s.extend more).takeUnit id bytes =
      ((s.takeUnit id bytes).1.extend more, (s.takeUnit id bytes).2) := by
  refine (takeUnit_frame s id bytes (s.buffer ++ more) s.limit).trans ?_
  rw [extend, buffer_takeUnit, ← limit_takeUnit s id bytes]

/-- Nor has skipping a byte. -/
theorem skipByte_extend (h : s.buffer ≠ []) (more : List UInt8) :
    (s.extend more).skipByte = (s.skipByte.1.extend more, s.skipByte.2) := by
  have hdrop : (s.buffer ++ more).drop 1 = s.buffer.drop 1 ++ more :=
    List.drop_append_of_le_length (List.length_pos_iff.2 h)
  simp only [skipByte, extend, hdrop]
  rfl

/-- **A step is the same step with more bytes behind it.** -/
theorem step?_extend (h : s.step? = some (t, out)) :
    (s.extend more).step? = some (t.extend more, out) := by
  rcases step?_cases h with ⟨hframe, hskip⟩ | ⟨id, length, hframe, htake⟩
  · rw [step?_of_noUnit (Frame.next_append_of_noUnit hframe),
      skipByte_extend (Frame.ne_nil_of_noUnit hframe), hskip]
  · have hle : length ≤ s.buffer.length := (Frame.whole_bounds hframe).2
    rw [step?_of_whole (Frame.next_append_of_whole hframe), buffer_extend,
      List.take_append_of_le_length hle]
    have hpast : (s.extend more).pastUnit length = (s.pastUnit length).extend more := by
      simp only [pastUnit, extend, List.drop_append_of_le_length hle]
    rw [hpast, takeUnit_extend, htake]

/-! ## Chains of steps -/

/-- **A chain of steps**, none of them after the limit is reached, from a
session and what was put out before it. -/
inductive Steps : Session → Log → Session → Log → Prop
  | refl (s : Session) (log : Log) : Steps s log s log
  | step {s t u : Session} {log log' out : Log} (hrun : s.isFinished = false)
      (hstep : s.step? = some (u, out)) (hsteps : Steps u (log.append out) t log') :
      Steps s log t log'

namespace Steps

theorem trans {log'' : Log} (h : Steps s log t log') (h' : Steps t log' u log'') :
    Steps s log u log'' := by
  induction h with
  | refl => exact h'
  | step hrun hstep _ ih => exact .step hrun hstep (ih h')

/-- **A chain is a chain with more bytes behind it.** -/
theorem extend (h : Steps s log t log') : Steps (s.extend more) log (t.extend more) log' := by
  induction h with
  | refl => exact .refl _ _
  | step hrun hstep _ ih => exact .step hrun (step?_extend hstep) ih

end Steps

/-- **A run is a chain of steps**, whatever the receiver refuses. -/
theorem steps_run (refuse : Record → Option ε) (s : Session) (log : Log) :
    Steps s log (run refuse s log).session (run refuse s log).log := by
  fun_induction run refuse s log with
  | case1 s log hfinished => exact .refl _ _
  | case2 s log hfinished hstep => exact .refl _ _
  | case3 s log hfinished t out hstep refusal hrefusal =>
    -- the step that put out the refused record is the last one
    exact .step (Bool.eq_false_iff.2 hfinished) hstep (.refl _ _)
  | case4 s log hfinished t out hstep hrefusal ih =>
    exact .step (Bool.eq_false_iff.2 hfinished) hstep ih

/-- No step follows: the limit is reached, or the unit in front is
incomplete. -/
def IsSettled (s : Session) : Prop := s.isFinished = true ∨ s.step? = none

theorem run_of_isSettled (refuse : Record → Option ε) (h : s.IsSettled) (log : Log) :
    run refuse s log = ⟨s, log, none⟩ := by
  unfold run
  rcases h with hfinished | hnone
  · rw [if_pos hfinished]
  · split
    · rfl
    · split
      · rfl
      · rename_i hsome
        rw [hnone] at hsome
        cases hsome

@[simp] theorem findSome?_refuseNone (records : Array Record) :
    records.findSome? (refuseNone (ε := ε)) = none := by
  simp [refuseNone]

/-- What a run makes of a step. -/
theorem run_of_some (refuse : Record → Option ε) (hrun : s.isFinished = false)
    (hstep : s.step? = some (t, out)) (log : Log) :
    run refuse s log =
      match out.records.findSome? refuse with
      | some refusal => ⟨t, log.append out, some refusal⟩
      | none => run refuse t (log.append out) := by
  -- the run on the right stays closed
  conv => lhs; unfold run
  rw [if_neg (Bool.eq_false_iff.1 hrun)]
  split
  · rename_i hnone
    rw [hstep] at hnone
    cases hnone
  · rename_i hsome
    rw [hstep] at hsome
    cases hsome
    rfl

theorem run_of_step? (hrun : s.isFinished = false) (hstep : s.step? = some (t, out)) (log : Log) :
    run (refuseNone (ε := ε)) s log = run refuseNone t (log.append out) := by
  rw [run_of_some refuseNone hrun hstep, findSome?_refuseNone]

/-- A run that is refused nothing goes on until no step follows. -/
theorem isSettled_of_refusal {refuse : Record → Option ε}
    (h : (run refuse s log).refusal = none) : (run refuse s log).session.IsSettled := by
  fun_induction run refuse s log with
  | case1 s log hfinished => exact .inl hfinished
  | case2 s log hfinished hstep => exact .inr hstep
  | case3 s log hfinished t out hstep refusal hrefusal => cases h
  | case4 s log hfinished t out hstep hrefusal ih => exact ih h

theorem refusal_run_refuseNone (s : Session) (log : Log) :
    (run (refuseNone (ε := ε)) s log).refusal = none := by
  fun_induction run refuseNone s log with
  | case1 s log hfinished => rfl
  | case2 s log hfinished hstep => rfl
  | case3 s log hfinished t out hstep refusal hrefusal =>
    rw [findSome?_refuseNone] at hrefusal
    cases hrefusal
  | case4 s log hfinished t out hstep hrefusal ih => exact ih

/-- A run that refuses nothing goes on until no step follows. -/
theorem isSettled_run (s : Session) (log : Log) :
    (run (refuseNone (ε := ε)) s log).session.IsSettled ∧
      (run (refuseNone (ε := ε)) s log).refusal = none :=
  ⟨isSettled_of_refusal (refusal_run_refuseNone s log), refusal_run_refuseNone s log⟩

/-- **A run that refuses nothing may start anywhere along a chain of
steps.** -/
theorem run_of_steps (h : Steps s log t log') :
    run (refuseNone (ε := ε)) s log = run refuseNone t log' := by
  induction h with
  | refl => rfl
  | step hrun hstep _ ih => rw [run_of_step? hrun hstep, ih]

end Session

end ProgramStream
