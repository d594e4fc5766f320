import ProgramStream.Parser
/-!
# Trick modes — how a decoder may play a packet's stream

One byte: three bits name the mode and give the other five their meaning.
-/

namespace ProgramStream

namespace Packet

/-- A playing speed other than the normal one. -/
inductive TrickMode where
  /-- fast, forward or backward -/
  | fast (backward : Bool) (fieldId : BitVec 2) (intraOnly : Bool) (truncation : BitVec 2)
  /-- slow, forward or backward -/
  | slow (backward : Bool) (repeats : BitVec 5)
  /-- one picture stands -/
  | freeze (fieldId : BitVec 2)
  /-- one of the modes from five on, which have no meaning yet -/
  | unassigned (fromFive : Fin 3)
  deriving DecidableEq, Repr

namespace TrickMode

/-- The three bits that name the mode. -/
def control : TrickMode → Nat
  | .fast false .. => 0
  | .slow false _ => 1
  | .freeze _ => 2
  | .fast true .. => 3
  | .slow true _ => 4
  | .unassigned code => 5 + code.val

/-- Which field is shown, zero where the mode does not say. -/
def fieldId : TrickMode → Nat
  | .fast _ id _ _ => id.toNat
  | .freeze id => id.toNat
  | _ => 0

/-- Pictures are coded by themselves, false where the mode does not say. -/
def intraOnly : TrickMode → Bool
  | .fast _ _ intra _ => intra
  | _ => false

/-- How far coefficients are left out, zero where the mode does not say. -/
def truncation : TrickMode → Nat
  | .fast _ _ _ t => t.toNat
  | _ => 0

/-- How often a picture is shown, zero where the mode does not say. -/
def repeats : TrickMode → Nat
  | .slow _ n => n.toNat
  | _ => 0

/-- Reads the rest of a fast mode. -/
def parseFast (backward : Bool) : Parser TrickMode := do
  let fieldId ← Parser.field 2
  let intraOnly ← Parser.flag
  let truncation ← Parser.field 2
  return .fast backward fieldId intraOnly truncation

/-- Reads the rest of a slow mode. -/
def parseSlow (backward : Bool) : Parser TrickMode := do
  return .slow backward (← Parser.field 5)

/-- Reads the rest of a standing picture. -/
def parseFreeze : Parser TrickMode := do
  let fieldId ← Parser.field 2
  Parser.reserved 3
  return .freeze fieldId

/-- Reads the rest of a mode without a meaning. -/
def parseUnassigned (control : Nat) : Parser TrickMode := do
  Parser.reserved 5
  return .unassigned (Fin.ofNat 3 (control - 5))

/-- Reads a trick mode. -/
def parse : Parser TrickMode := do
  let control ← Parser.field 3
  match control.toNat with
  | 0 => parseFast false
  | 1 => parseSlow false
  | 2 => parseFreeze
  | 3 => parseFast true
  | 4 => parseSlow true
  | n => parseUnassigned n

end TrickMode

end Packet

end ProgramStream
