/-!
# Stream ids — the byte after a start code prefix

The values that name whole units and the two ranges of elementary streams.
The ranges do not meet (`not_isVideo_of_isAudio`).
-/

namespace ProgramStream

namespace StreamId

/-- Ends a program stream. -/
def streamEnd : UInt8 := 0xB9

/-- Starts a pack header. -/
def pack : UInt8 := 0xBA

/-- Starts a system header. -/
def system : UInt8 := 0xBB

/-- Starts a program stream map. -/
def map : UInt8 := 0xBC

/-- In a map that leaves room for extensions, the entry of an extended
stream. -/
def extended : UInt8 := 0xFD

/-- The id of an audio stream. -/
def isAudio (id : UInt8) : Bool := 0xC0 ≤ id && id ≤ 0xDF

/-- The id of a video stream. -/
def isVideo (id : UInt8) : Bool := 0xE0 ≤ id && id ≤ 0xEF

/-- No id is of both kinds. -/
theorem not_isVideo_of_isAudio {id : UInt8} (h : isAudio id) : isVideo id = false := by
  simp only [isAudio, isVideo, Bool.and_eq_true, decide_eq_true_eq, Bool.and_eq_false_iff,
    decide_eq_false_iff_not, UInt8.le_iff_toNat_le] at h ⊢
  left
  have := h.2
  simp at this ⊢
  omega

end StreamId

end ProgramStream
