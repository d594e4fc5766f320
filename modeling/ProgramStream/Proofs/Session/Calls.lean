import ProgramStream.Proofs.Session.Step
/-!
# Sessions — what calls lead to

A session is fed, flushed and given limits, in any order. `performAll`
carries such calls out, and `Reaches` is the same thing seen from inside:
every session that calls lead to, with the bytes it was fed, the moves that
took bytes off its buffer, and what it put out. Each constructor of
`Reaches` is one thing the session does, so a fact about all sessions is one
induction with six cases; `reaches_performAll` carries it to calls.
-/

namespace ProgramStream

/-! ## Logs -/

namespace Log

variable (k l m : Log)

theorem append_assoc : (k.append l).append m = k.append (l.append m) := by
  simp [append]

@[simp] theorem append_empty : l.append {} = l := by simp [append]

@[simp] theorem records_append : (l.append m).records = l.records ++ m.records := rfl

end Log

namespace Session

variable {ε : Type}

/-- Chains of steps put out the same after anything. -/
theorem Steps.append_left {s t : Session} {log log' : Log} (h : Steps s log t log') (before : Log) :
    Steps s (before.append log) t (before.append log') := by
  induction h with
  | refl => exact .refl _ _
  | step hrun hstep _ ih => exact .step hrun hstep (by rwa [Log.append_assoc])

/-! ## Calls -/

/-- What can be asked of a session. Each feeding has a receiver of its own;
as no two records of a session are alike, that covers a receiver that
decides by what it has seen. -/
inductive Call (ε : Type) where
  | feed (refuse : Record → Option ε) (bytes : List UInt8)
  | flush
  | setLimit (units : Nat)

namespace Call

/-- The bytes a call brings. -/
def bytes : Call ε → List UInt8
  | .feed _ bytes => bytes
  | .flush => []
  | .setLimit _ => []

/-- Carries out a call. -/
def perform (s : Session) : Call ε → Session × Log
  | .feed refuse bytes =>
    let r := s.feed refuse bytes
    (r.session, r.log)
  | .flush =>
    let (t, out, _) := s.flush
    (t, out)
  | .setLimit units => (s.setLimit units, {})

end Call

/-- Carries out calls one after the other, after what was put out before. -/
def performFrom (s : Session) (log : Log) : List (Call ε) → Session × Log
  | [] => (s, log)
  | call :: calls =>
    let (t, out) := call.perform s
    performFrom t (log.append out) calls

/-- Carries out calls on a fresh session. -/
def performAll (calls : List (Call ε)) : Session × Log := performFrom {} {} calls

/-! ## Moves -/

/-- Something that takes bytes off the front of a buffer. -/
inductive Move where
  /-- a byte that starts no unit is skipped -/
  | skipped (byte : UInt8)
  /-- a unit is taken, and becomes a record or is dropped -/
  | framed (streamId : UInt8) (bytes : List UInt8) (record : Option Record)
  /-- a flush gives up what is left -/
  | discarded (bytes : List UInt8)

namespace Move

/-- The bytes a move takes off the buffer. -/
def bytes : Move → List UInt8
  | .skipped byte => [byte]
  | .framed _ bytes _ => bytes
  | .discarded bytes => bytes

/-- The record a move puts out. -/
def record? : Move → Option Record
  | .framed _ _ record => record
  | _ => none

/-- The move takes a unit. -/
def isFramed : Move → Bool
  | .framed .. => true
  | _ => false

end Move

/-- **The sessions that calls lead to**, each with the bytes fed, the moves
made and what was put out on the way there. -/
inductive Reaches : List UInt8 → List Move → Log → Session → Prop
  | fresh : Reaches [] [] {} {}
  | setLimit {fed moves log s} (units : Nat) (h : Reaches fed moves log s) :
      Reaches fed moves log (s.setLimit units)
  | extend {fed moves log s} (bytes : List UInt8) (h : Reaches fed moves log s) :
      Reaches (fed ++ bytes) moves log (s.extend bytes)
  | skip {fed moves log s} (h : Reaches fed moves log s) (hrun : s.isFinished = false)
      (hframe : Frame.next s.buffer = .noUnit) :
      Reaches fed (moves ++ [.skipped (s.buffer.headD 0)]) (log.append s.skipByte.2) s.skipByte.1
  | take {fed moves log s id length} (h : Reaches fed moves log s) (hrun : s.isFinished = false)
      (hframe : Frame.next s.buffer = .whole id length) :
      Reaches fed
        (moves ++ [.framed id (s.buffer.take length)
          ((s.pastUnit length).takeUnit id (s.buffer.take length)).2.records[0]?])
        (log.append ((s.pastUnit length).takeUnit id (s.buffer.take length)).2)
        ((s.pastUnit length).takeUnit id (s.buffer.take length)).1
  | flush {fed moves log s} (h : Reaches fed moves log s) :
      Reaches fed (moves ++ [.discarded s.buffer]) (log.append s.flush.2.1) s.flush.1

variable {fed : List UInt8} {moves : List Move} {log log' out : Log} {s t : Session}

/-- A chain of steps makes moves. -/
theorem Reaches.steps (h : Reaches fed moves log s) (hsteps : Steps s log t log') :
    ∃ moves', Reaches fed moves' log' t := by
  induction hsteps generalizing moves with
  | refl => exact ⟨moves, h⟩
  | step hrun hstep _ ih =>
    rcases step?_cases hstep with ⟨hframe, hskip⟩ | ⟨id, length, hframe, htake⟩
    · have hnext := h.skip hrun hframe
      rw [hskip] at hnext
      exact ih hnext
    · have hnext := h.take hrun hframe
      rw [htake] at hnext
      exact ih hnext

/-- **What a call leads to is reached.** -/
theorem Reaches.perform (h : Reaches fed moves log s) (call : Call ε) :
    ∃ moves', Reaches (fed ++ call.bytes) moves' (log.append (call.perform s).2)
      (call.perform s).1 := by
  cases call with
  | feed refuse bytes =>
    -- the log of a feeding begins empty, and is put behind that of the calls before
    have hsteps := (steps_run refuse (s.extend bytes) {}).append_left log
    rw [Log.append_empty] at hsteps
    exact (h.extend bytes).steps hsteps
  | flush =>
    refine ⟨moves ++ [.discarded s.buffer], ?_⟩
    rw [Call.bytes, List.append_nil]
    exact h.flush
  | setLimit units =>
    refine ⟨moves, ?_⟩
    rw [Call.bytes, List.append_nil, Call.perform, Log.append_empty]
    exact h.setLimit units

theorem Reaches.performFrom (h : Reaches fed moves log s) (calls : List (Call ε)) :
    ∃ moves', Reaches (fed ++ calls.flatMap Call.bytes) moves' (performFrom s log calls).2
      (performFrom s log calls).1 := by
  induction calls generalizing fed moves log s with
  | nil =>
    refine ⟨moves, ?_⟩
    rw [List.flatMap_nil, List.append_nil]
    exact h
  | cons call calls ih =>
    obtain ⟨moves₁, h₁⟩ := h.perform call
    obtain ⟨moves₂, h₂⟩ := ih h₁
    refine ⟨moves₂, ?_⟩
    rw [List.flatMap_cons, ← List.append_assoc]
    exact h₂

/-- **Calls lead to reached sessions.** -/
theorem reaches_performAll (calls : List (Call ε)) :
    ∃ moves, Reaches (calls.flatMap Call.bytes) moves (performAll calls).2
      (performAll calls).1 := by
  obtain ⟨moves, h⟩ := Reaches.fresh.performFrom calls
  exact ⟨moves, h⟩

end Session

end ProgramStream
