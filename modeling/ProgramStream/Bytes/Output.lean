import ProgramStream.Bytes.Word
/-!
# A byte output — words and byte strings, one after the other

What is put out is appended, so `written` is the concatenation of the
pieces in the order they came (`written_append`, `written_put`).
-/

namespace ProgramStream

/-- Why bytes could not be put out. -/
inductive OutputFault where
  /-- the device behind the output failed -/
  | device (text : String)
  deriving DecidableEq, Repr

namespace OutputFault

/-- The wording of a fault. -/
def message : OutputFault → String
  | .device text => "io error: " ++ text

/-- The wordings of what lies behind a fault, nearest first. -/
def causes : OutputFault → List String
  | .device text => [text]

end OutputFault

/-- Bytes collected for output. -/
structure ByteOutput where
  written : List UInt8 := []
  deriving DecidableEq, Repr

namespace ByteOutput

/-- The number of bytes collected. -/
def size (o : ByteOutput) : Nat := o.written.length

/-- Nothing has been collected. -/
def isEmpty (o : ByteOutput) : Bool := o.written.isEmpty

/-- Appends a byte string. -/
def append (o : ByteOutput) (bytes : List UInt8) : ByteOutput :=
  ⟨o.written ++ bytes⟩

/-- Appends a number as a word of `count` bytes. -/
def put (o : ByteOutput) (order : ByteOrder) (count n : Nat) : ByteOutput :=
  o.append (order.bytes count n)

/-- Everything collected, leaving the output empty. -/
def drain (o : ByteOutput) : List UInt8 × ByteOutput :=
  (o.written, ⟨[]⟩)

@[simp] theorem written_append (o : ByteOutput) (bytes : List UInt8) :
    (o.append bytes).written = o.written ++ bytes := rfl

@[simp] theorem written_put (o : ByteOutput) (order : ByteOrder) (count n : Nat) :
    (o.put order count n).written = o.written ++ order.bytes count n := rfl

end ByteOutput

end ProgramStream
