import ProgramStream.Proofs.Session.Calls
/-!
# Sessions — input in pieces

How the input is cut into pieces does not show. A session that was fed
everything at once takes the steps it would have taken on the first bytes
alone, and goes on from there (`run_extend`); so pieces fed to a settled
session come to their concatenation (`feedAll_of_isSettled`). Feeding all of
them is a call for each (`feedAll_eq_performFrom`).
-/

namespace ProgramStream

namespace Session

variable {ε : Type} {s : Session}

/-- A fresh session with a limit on units; zero is none. -/
def fresh (units : Nat) : Session := ({} : Session).setLimit units

/-- A fresh session is settled, whatever its limit. -/
theorem isSettled_fresh (units : Nat) : (fresh units).IsSettled := .inr rfl

/-- **A run on more bytes goes on from the run on fewer**, whatever the
receiver of the first one refuses. -/
theorem run_extend (refuse : Record → Option ε) (s : Session) (log : Log) (more : List UInt8) :
    run (refuseNone (ε := ε)) (s.extend more) log =
      run refuseNone ((run refuse s log).session.extend more) (run refuse s log).log :=
  run_of_steps (steps_run refuse s log).extend

/-- Pieces fed to a settled session come to their concatenation. -/
theorem feedAll_of_isSettled (h : s.IsSettled) (pieces : List (List UInt8)) (log : Log) :
    s.feedAll (refuseNone (ε := ε)) pieces log = run refuseNone (s.extend pieces.flatten) log := by
  -- each piece leaves the session settled, which is all that the next one needs
  induction pieces generalizing s log with
  | nil =>
    rw [feedAll_nil, List.flatten_nil, extend_nil, run_of_isSettled refuseNone h]
  | cons piece pieces ih =>
    obtain ⟨hsettled, hrefusal⟩ :=
      isSettled_run (ε := ε) { s with buffer := s.buffer ++ piece } log
    simp only [feedAll_cons, hrefusal]
    rw [ih hsettled, List.flatten_cons, ← extend_extend, run_extend refuseNone (s.extend piece)]
    rfl

/-- What a run puts out does not depend on what was put out before it. -/
theorem run_append (refuse : Record → Option ε) (s : Session) (before log : Log) :
    run refuse s (before.append log) =
      ⟨(run refuse s log).session, before.append (run refuse s log).log,
        (run refuse s log).refusal⟩ := by
  fun_induction run refuse s log with
  | case1 s log hfinished => exact run_of_isSettled refuse (.inl hfinished) _
  | case2 s log hfinished hstep => exact run_of_isSettled refuse (.inr hstep) _
  | case3 s log hfinished t out hstep refusal hrefusal =>
    rw [run_of_some refuse (Bool.eq_false_iff.2 hfinished) hstep, hrefusal, Log.append_assoc]
  | case4 s log hfinished t out hstep hrefusal ih =>
    rw [run_of_some refuse (Bool.eq_false_iff.2 hfinished) hstep, hrefusal, Log.append_assoc]
    exact ih

/-- **Feeding all pieces is a call for each**, where no record is refused. -/
theorem feedAll_eq_performFrom (s : Session) (pieces : List (List UInt8)) (log : Log) :
    let r := s.feedAll (refuseNone (ε := ε)) pieces log
    (r.session, r.log) = performFrom s log (pieces.map (Call.feed (refuseNone (ε := ε)))) := by
  induction pieces generalizing s log with
  | nil => simp [performFrom]
  | cons piece pieces ih =>
    have hrefusal := (isSettled_run (ε := ε) (s.extend piece) log).2
    have hlog := run_append (refuseNone (ε := ε)) (s.extend piece) log {}
    rw [Log.append_empty] at hlog
    simp only [feedAll_cons]
    rw [show ({ s with buffer := s.buffer ++ piece } : Session) = s.extend piece from rfl, hrefusal]
    simp only [ih]
    rw [hlog]
    rfl

/-- So calls that feed pieces to a fresh session come to one that feeds it all
of them. -/
theorem performFrom_pieces (units : Nat) (pieces : List (List UInt8)) :
    performFrom (fresh units) {} (pieces.map (Call.feed (refuseNone (ε := ε)))) =
      let whole := (fresh units).feed (refuseNone (ε := ε)) pieces.flatten
      (whole.session, whole.log) := by
  have hpieces := feedAll_eq_performFrom (ε := ε) (fresh units) pieces {}
  rw [feedAll_of_isSettled (isSettled_fresh units)] at hpieces
  exact hpieces.symm

/-- **How the input is cut does not show.** A fresh session with any limit
that is fed pieces, one call after the other, ends in the same session, with
the same records and warnings put out, as one that is fed their
concatenation, and neither is refused anything. All that can be asked of a
session is then the same, and so is what a flush does to it. -/
theorem feedAll_eq_feed_flatten (units : Nat) (pieces : List (List UInt8)) :
    (fresh units).feedAll refuseNone pieces {} =
        (fresh units).feed (refuseNone (ε := ε)) pieces.flatten ∧
      let whole := (fresh units).feed (refuseNone (ε := ε)) pieces.flatten
      let pieced := performFrom (fresh units) {} (pieces.map (Call.feed (refuseNone (ε := ε))))
      pieced = (whole.session, whole.log) ∧ whole.refusal = none ∧
        pieced.1.flush = whole.session.flush := by
  have hpieced := performFrom_pieces (ε := ε) units pieces
  refine ⟨feedAll_of_isSettled (isSettled_fresh units) pieces {}, hpieced,
    refusal_run_refuseNone _ _, ?_⟩
  rw [hpieced]

end Session

end ProgramStream
