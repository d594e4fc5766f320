/-!
# TOML numbers — what words may spell

Digits may have single underscores between them and, in decimal, no zero in
front. Integers have 64 bits and a sign. A floating point number only has to
be finite in double precision, as nothing here asks for its value.
-/

namespace ProgramStream

namespace Toml

namespace Number

/-- The value of a digit in a base of at most sixteen. -/
def digit? (base : Nat) (c : Char) : Option Nat :=
  let value :=
    if c.isDigit then some (c.toNat - 0x30)
    else if 'a' ≤ c && c ≤ 'f' then some (c.toNat - 0x61 + 10)
    else if 'A' ≤ c && c ≤ 'F' then some (c.toNat - 0x41 + 10)
    else none
  value.filter (· < base)

/-- Continues a run of digits, whose digits so far are `seen`, the last one
first; `gap` tells that an underscore has just been read. -/
def digitsAfter? (base : Nat) (zeros : Bool) (seen : List Nat) (gap : Bool) :
    List Char → Option (List Nat × List Char)
  | [] => if seen.isEmpty || gap then none else some (seen.reverse, [])
  | c :: cs =>
    match digit? base c with
    | some d =>
      if seen = [0] ∧ zeros = false then none else digitsAfter? base zeros (d :: seen) false cs
    | none =>
      if seen.isEmpty || gap then none
      else if c = '_' then digitsAfter? base zeros seen true cs
      else some (seen.reverse, c :: cs)

/-- The digits at the front of a word and the rest of the word. With
`zeros`, zeros may stand in front of other digits. -/
def digits? (base : Nat) (zeros : Bool) (cs : List Char) : Option (List Nat × List Char) :=
  digitsAfter? base zeros [] false cs

/-- The number that digits stand for. -/
def value (base : Nat) (digits : List Nat) : Nat := digits.foldl (fun n d => n * base + d) 0

/-- The exponent from which on no more digits are taken in. -/
def exponentLimit : Nat := 0x10000

/-- The exponent that digits stand for. Once it has come to the limit, the
digits that follow mean nothing. -/
def exponent (digits : List Nat) : Nat :=
  digits.foldl (fun n d => if n < exponentLimit then n * 10 + d else n) 0

/-- Takes a sign off the front of a word; true for a minus. -/
def sign : List Char → Bool × List Char
  | '-' :: cs => (true, cs)
  | '+' :: cs => (false, cs)
  | cs => (false, cs)

/-- A number under a sign. -/
def signed (negative : Bool) (n : Nat) : Int := if negative then -n else n

/-- The number, if it has a place in 64 bits. -/
def int64? (n : Int) : Option Int :=
  if -0x8000000000000000 ≤ n ∧ n < 0x8000000000000000 then some n else none

/-- The integer a whole word spells in a base without signs. -/
def unsigned? (base : Nat) (cs : List Char) : Option Int := do
  let (digits, rest) ← digits? base true cs
  if rest.isEmpty then int64? (value base digits) else none

/-- The integer a whole word spells in decimal. -/
def decimal? (cs : List Char) : Option Int := do
  let (negative, cs) := sign cs
  let (digits, rest) ← digits? 10 false cs
  if rest.isEmpty then int64? (signed negative (value 10 digits)) else none

/-- The least number that is rounded to infinity in double precision. -/
def infinite : Nat := 1 <<< 1024 - 1 <<< 970

/-- The count of the digits of `infinite`. -/
def infiniteLength : Nat := 309

/-- The number with these digits, moved up by `e` places, is finite in double
precision. Its length tells, unless it is as long as the least infinite one;
then the digits before the point do, as that one has none after it. -/
def isFinite (digits : List Nat) (e : Int) : Bool :=
  let digits := digits.dropWhile (· = 0)
  let length := digits.length + e
  if digits.isEmpty || length < infiniteLength then true
  else if infiniteLength < length then false
  else value 10 ((digits ++ List.replicate infiniteLength 0).take infiniteLength) < infinite

end Number

end Toml

end ProgramStream
