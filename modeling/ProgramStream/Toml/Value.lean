import ProgramStream.Toml.Number
import ProgramStream.Toml.Token
/-!
# TOML values — what stands after a key

A value is read off the front of a list of tokens. Numbers and dates are
spelled by several tokens, as `.`, `:` and `+` are signs of their own; a
date is only told from a number here, and what it says is not looked at.
Keys may have several parts, each of which but the last names a table that
the key reaches into and that other such keys may reach into as well.

Arrays and tables in braces may stand in one another up to a limit: a text
that goes deeper is told from one that is malformed. A key may have any
number of parts, and how deep it reaches is a matter for those who go
through the value.
-/

namespace ProgramStream

namespace Toml

/-- A value of a document. -/
inductive Value where
  | string (text : String)
  | integer (n : Int)
  | float
  | boolean (b : Bool)
  | date
  | array (items : List Value)
  /-- keys and values in their order; `reached` if a key of several parts
  made the table, so that others may add to it -/
  | table (reached : Bool) (entries : List (String × Value))

/-- Keys and values in their order. -/
abbrev Entries := List (String × Value)

/-- Why a text is no document. -/
inductive Fault where
  | malformed
  /-- nested deeper than there is room for -/
  | tooDeep
  deriving DecidableEq, Repr

/-- How deep values may be nested. -/
def depthLimit : Nat := 10000

/-- What was read, if it could be. -/
def Fault.orMalformed {α : Type} : Option α → Except Fault α
  | some a => .ok a
  | none => .error .malformed

/-- A reader of something at the front of a list of tokens. -/
abbrev Reader (α : Type) := List Token → Option (α × List Token)

namespace Value

/-- Replaces the first value under a key. -/
def replace (key : String) (value : Value) : Entries → Entries
  | [] => []
  | e :: es => if e.1 = key then (key, value) :: es else e :: replace key value es

/-- Adds a value under a key of one or more parts. -/
def insert : List String → Value → Entries → Option Entries
  | [], _, _ => none
  | [key], value, entries => some (entries ++ [(key, value)])
  | key :: keys, value, entries =>
    match entries.lookup key with
    | some (.table true inner) => do
      let inner ← insert keys value inner
      return replace key (.table true inner) entries
    | some _ => none
    | none => do
      let inner ← insert keys value []
      return entries ++ [(key, .table true inner)]

mutual

/-- How deep a value is nested, whether in brackets, in braces or by a key of
several parts. -/
def depth : Value → Nat
  | .array items => depthOfItems items + 1
  | .table _ entries => depthOfEntries entries + 1
  | _ => 0

/-- How deep the deepest item is nested. -/
def depthOfItems : List Value → Nat
  | [] => 0
  | value :: values => max (depth value) (depthOfItems values)

/-- How deep the deepest value under a key is nested. -/
def depthOfEntries : List (String × Value) → Nat
  | [] => 0
  | (_, value) :: entries => max (depth value) (depthOfEntries entries)

end

/-! ## Skipping and expecting tokens -/

/-- Passes over blanks. -/
def skipBlanks : List Token → List Token
  | .blanks _ :: ts => skipBlanks ts
  | ts => ts

/-- Passes over blanks, ends of line and comments. -/
def skipLines : List Token → List Token
  | .blanks _ :: ts => skipLines ts
  | .newline :: ts => skipLines ts
  | .comment :: ts => skipLines ts
  | ts => ts

/-- Passes over a token that has to be there. -/
def expect (token : Token) : List Token → Option (List Token)
  | t :: ts => if t = token then some ts else none
  | [] => none

/-- Passes over a word that has to be there. -/
def expectWord : List Token → Option (List Token)
  | .word _ :: ts => some ts
  | _ => none

/-- Passes over a sign and a word that has to follow it, if the sign is
there. -/
def skipSigned (sign : Token) : List Token → Option (List Token)
  | [] => some []
  | t :: ts => if t = sign then expectWord ts else some (t :: ts)

/-! ## Numbers and dates -/

/-- The rest of a date after its first word, and its colon if `colon` is
set. A time may follow its day after a single space. -/
def readDate (colon : Bool) (ts : List Token) : Option (Value × List Token) := do
  let ts := match ts with
    | .blanks true :: .word _ :: rest => rest
    | ts => ts
  let time := match colon, ts with
    | true, ts => some ts
    | false, .colon :: rest => some rest
    | false, _ => none
  match time with
  | none => return (.date, ts)
  | some ts =>
    let ts ← expectWord ts
    let ts ← expect .colon ts
    let ts ← expectWord ts
    let ts ← skipSigned .period ts
    let ts ← skipSigned .plus ts
    let ts ← skipSigned .colon ts
    return (.date, ts)

/-- A floating point number from its digits and its exponent. -/
def float? (integral fraction : List Nat) (exponent : Int) : Option Value :=
  if Number.isFinite (integral ++ fraction) (exponent - fraction.length)
  then some .float else none

/-- The exponent at the end of a floating point number, none if there is
none: `e` or `E` and an integer, whose plus is a token of its own. -/
def readExponent (suffix : List Char) (ts : List Token) : Option (Int × List Token) :=
  match suffix with
  | [] => some (0, ts)
  | mark :: cs =>
    if mark ≠ 'e' ∧ mark ≠ 'E' then none
    else if cs.isEmpty then
      let ts := match ts with
        | .plus :: rest => rest
        | ts => ts
      match ts with
      | .word w :: rest => do
        let (digits, tail) ← Number.digits? 10 true w.toList
        if tail.isEmpty then some (Number.exponent digits, rest) else none
      | _ => none
    else do
      let (negative, cs) := Number.sign cs
      let (digits, tail) ← Number.digits? 10 true cs
      if tail.isEmpty then some (Number.signed negative (Number.exponent digits), ts) else none

/-- A floating point number with its point, if it has one, still ahead. -/
def readFloat (word : List Char) (fraction : Option (List Char)) (ts : List Token) :
    Option (Value × List Token) := do
  let (integral, suffix) ← Number.digits? 10 false (Number.sign word).2
  match fraction with
  | none =>
    let (exponent, ts) ← readExponent suffix ts
    return (← float? integral [] exponent, ts)
  | some after =>
    if !suffix.isEmpty then none
    else
      let (digits, suffix) ← Number.digits? 10 true after
      let (exponent, ts) ← readExponent suffix ts
      return (← float? integral digits exponent, ts)

/-- A number that starts with a word. -/
def readNumber (word : List Char) (ts : List Token) : Option (Value × List Token) :=
  match word.take 2 with
  | ['0', 'x'] => (Number.unsigned? 16 (word.drop 2)).map fun n => (.integer n, ts)
  | ['0', 'o'] => (Number.unsigned? 8 (word.drop 2)).map fun n => (.integer n, ts)
  | ['0', 'b'] => (Number.unsigned? 2 (word.drop 2)).map fun n => (.integer n, ts)
  | _ =>
    if word.any fun c => c = 'e' || c = 'E' then readFloat word none ts
    else match ts with
      | .period :: .word fraction :: rest => readFloat word (some fraction.toList) rest
      | .period :: _ => none
      | ts =>
        if ["inf", "-inf", "nan", "-nan"].contains (String.ofList word) then some (.float, ts)
        else (Number.decimal? word).map fun n => (.integer n, ts)

/-- A negative exponent stands in the word. -/
def hasNegativeExponent : List Char → Bool
  | a :: b :: cs => ((a = 'e' || a = 'E') && b = '-') || hasNegativeExponent (b :: cs)
  | _ => false

/-- The word is the start of a date: it has the letter before a time in it,
or a hyphen that is neither a sign nor part of an exponent. -/
def startsDate (word : List Char) : Bool :=
  word.any (fun c => c = 'T' || c = 't') ||
    ((word.drop 1).contains '-' && !hasNegativeExponent word)

/-- A number or a date that starts with a word. -/
def readNumberOrDate (word : List Char) (ts : List Token) : Option (Value × List Token) :=
  if startsDate word then readDate false ts
  else match ts with
    | .colon :: rest => readDate true rest
    | ts => readNumber word ts

/-- A value that starts with a word. -/
def readWord (word : String) (ts : List Token) : Option (Value × List Token) :=
  if word = "true" then some (.boolean true, ts)
  else if word = "false" then some (.boolean false, ts)
  else if word = "inf" ∨ word = "nan" then readNumberOrDate word.toList ts
  else match word.toList with
    | c :: cs => if c = '-' || c.isDigit then readNumberOrDate (c :: cs) ts else none
    | [] => none

/-! ## Keys, arrays and tables -/

/-- One part of a key. -/
def readKeyPart : Reader String
  | .word key :: ts => some (key, ts)
  | .string key false :: ts => some (key, ts)
  | _ => none

/-- The parts of a key after its first, each behind a period; `fuel` bounds
the number of tokens. -/
def readKeyParts : Nat → Reader (List String)
  | 0, _ => none
  | fuel + 1, ts =>
    match skipBlanks ts with
    | .period :: ts => do
      let (part, ts) ← readKeyPart (skipBlanks ts)
      let (parts, ts) ← readKeyParts fuel ts
      return (part :: parts, ts)
    | ts => some ([], ts)

/-- A key of one or more parts; `fuel` bounds the number of tokens. -/
def readKey (fuel : Nat) (ts : List Token) : Option (List String × List Token) := do
  let (part, ts) ← readKeyPart ts
  let (parts, ts) ← readKeyParts fuel ts
  return (part :: parts, ts)

/-- A key and the sign between it and its value; `fuel` bounds the number of
tokens. -/
def readKeyEquals (fuel : Nat) (ts : List Token) : Option (List String × List Token) := do
  let (key, ts) ← readKey fuel ts
  let ts ← expect .equals (skipBlanks ts)
  return (key, skipBlanks ts)

mutual

/-- A value; `fuel` bounds how many values and items are read, `depth` how
deep they are nested. -/
def readFuel : Nat → Nat → List Token → Except Fault (Value × List Token)
  | 0, _, _ => .error .malformed
  | fuel + 1, depth, ts =>
    match ts with
    | .string text _ :: ts => .ok (.string text, ts)
    | .word word :: ts => Fault.orMalformed (readWord word ts)
    | .plus :: .word word :: ts => Fault.orMalformed (readNumber word.toList ts)
    | .leftBrace :: ts =>
      match depth, skipBlanks ts with
      | 0, _ => .error .tooDeep
      | _, .rightBrace :: ts => .ok (.table false [], ts)
      | depth + 1, ts => (readPairs fuel depth ts []).map fun r => (.table false r.1, r.2)
    | .leftBracket :: ts =>
      match depth with
      | 0 => .error .tooDeep
      | depth + 1 => (readItems fuel depth ts []).map fun r => (.array r.1, r.2)
    | _ => .error .malformed

/-- The keys and values of a table in braces, up to its end. -/
def readPairs : Nat → Nat → List Token → Entries → Except Fault (Entries × List Token)
  | 0, _, _, _ => .error .malformed
  | fuel + 1, depth, ts, entries => do
    let (key, ts) ← Fault.orMalformed (readKeyEquals fuel ts)
    let (value, ts) ← readFuel fuel depth ts
    let entries ← Fault.orMalformed (insert key value entries)
    match skipBlanks ts with
    | .rightBrace :: ts => .ok (entries, ts)
    | .comma :: ts => readPairs fuel depth (skipBlanks ts) entries
    | _ => .error .malformed

/-- The items of an array, up to its end. Those read so far are in `read`,
the last one first. -/
def readItems : Nat → Nat → List Token → List Value → Except Fault (List Value × List Token)
  | 0, _, _, _ => .error .malformed
  | fuel + 1, depth, ts, read =>
    match skipLines ts with
    | .rightBracket :: ts => .ok (read.reverse, ts)
    | ts => do
      let (item, ts) ← readFuel fuel depth ts
      match skipLines ts with
      | .comma :: ts => readItems fuel depth ts (item :: read)
      | .rightBracket :: ts => .ok ((item :: read).reverse, ts)
      | _ => .error .malformed

end

/-- A value; `fuel` bounds the number of tokens. Each value and item takes up
a token at least, so there are no more than twice as many of them. -/
def read (fuel : Nat) (ts : List Token) : Except Fault (Value × List Token) :=
  readFuel (2 * fuel + 1) depthLimit ts

end Value

end Toml

end ProgramStream
