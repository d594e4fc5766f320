/-!
# TOML tokens — the words of a settings document

A document is a list of tokens: signs, runs of blanks, ends of line,
comments, words and strings. A word is a run of letters, digits, `-` and
`_`; whether it is a key, a number or a part of a date is for its readers
to tell. Strings are decoded here, in the four forms they have: basic ones
with escapes and literal ones without, each on one line or over several.

An end of line is a line feed, with or without a carriage return before it;
a mark of the byte order at the very start is passed over.
-/

namespace ProgramStream

namespace Toml

/-- A token of a document. -/
inductive Token where
  | newline
  /-- a run of blanks; `sole` if it is a single space -/
  | blanks (sole : Bool)
  | comment
  | equals
  | period
  | comma
  | colon
  | plus
  | leftBrace
  | rightBrace
  | leftBracket
  | rightBracket
  | word (text : String)
  | string (text : String) (multiline : Bool)
  /-- what is no token; nothing is read after it -/
  | invalid
  deriving DecidableEq, Repr

namespace Token

/-- Ends of line as single line feeds; what comes before them is in `read`,
the last character first. -/
def foldLines (read : List Char) : List Char → List Char
  | [] => read.reverse
  | c :: cs => foldLines (if c = '\r' ∧ cs.head? = some '\n' then read else c :: read) cs

/-- A blank. -/
def isBlank (c : Char) : Bool := c = ' ' || c = '\t'

/-- A character of a word. -/
def isWordChar (c : Char) : Bool := c.isAlphanum || c = '-' || c = '_'

/-- A character that may stand in a comment. -/
def isCommentChar (c : Char) : Bool := c = '\t' || ' ' ≤ c

/-- A character that may stand in a string as it is. -/
def isPlainChar (c : Char) : Bool := c = '\t' || (' ' ≤ c && c ≠ Char.ofNat 0x7F)

/-- The value of a hexadecimal digit. -/
def hexValue? (c : Char) : Option Nat :=
  if c.isDigit then some (c.toNat - 0x30)
  else if 'a' ≤ c && c ≤ 'f' then some (c.toNat - 0x61 + 10)
  else if 'A' ≤ c && c ≤ 'F' then some (c.toNat - 0x41 + 10)
  else none

/-- The number that hexadecimal digits stand for. -/
def hexNumber? (cs : List Char) : Option Nat :=
  cs.foldlM (fun n c => (hexValue? c).map (n * 16 + ·)) 0

/-- The character of a code point given by `count` hexadecimal digits, and
what follows them. -/
def codePoint? (count : Nat) (cs : List Char) : Option (Char × List Char) := do
  let digits := cs.take count
  if digits.length < count then none
  else
    let n ← hexNumber? digits
    if n.isValidChar then some (Char.ofNat n, cs.drop count) else none

/-- What an escape in a basic string stands for, given what follows the
backslash. In a string of several lines a backslash at the end of a line
takes away all blanks and ends of line up to the next character. -/
def escape? (multiline : Bool) : List Char → Option (List Char × List Char)
  | [] => none
  | c :: cs =>
    if c = Char.ofNat 0x22 then some ([c], cs)
    else if c = '\\' then some ([c], cs)
    else if c = 'b' then some ([Char.ofNat 0x08], cs)
    else if c = 'f' then some ([Char.ofNat 0x0C], cs)
    else if c = 'n' then some (['\n'], cs)
    else if c = 'r' then some (['\r'], cs)
    else if c = 't' then some (['\t'], cs)
    else if c = 'u' then (codePoint? 4 cs).map fun r => ([r.1], r.2)
    else if c = 'U' then (codePoint? 8 cs).map fun r => ([r.1], r.2)
    else if multiline ∧ (isBlank c ∨ c = '\n') then
      let line := (c :: cs).dropWhile isBlank
      match line.head? with
      | some '\n' => some ([], line.dropWhile fun d => isBlank d || d = '\n')
      | some _ => none
      | none => some ([], [])
    else none

/-- The rest of a string after its opening mark: its decoded text and what
follows the closing mark. Two more marks may stand before the closing one of
a string of several lines. The text so far is in `text`, the last character
first; `fuel` bounds the number of characters. -/
def stringBody? (delimiter : Char) (multiline : Bool) :
    Nat → List Char → List Char → Option (List Char × List Char)
  | 0, _, _ => none
  | _, [], _ => none
  | fuel + 1, c :: rest, text =>
    if c = delimiter then
      if multiline then
        let marks := (rest.takeWhile (· = delimiter)).length + 1
        if marks < 3 then stringBody? delimiter multiline fuel rest (c :: text)
        else
          let inner := min (marks - 3) 2
          some ((List.replicate inner delimiter ++ text).reverse, rest.drop (2 + inner))
      else some (text.reverse, rest)
    else if c = '\n' then
      if multiline then stringBody? delimiter multiline fuel rest (c :: text) else none
    else if c = '\\' ∧ delimiter = Char.ofNat 0x22 then
      match escape? multiline rest with
      | none => none
      | some (decoded, after) =>
        stringBody? delimiter multiline fuel after (decoded.reverse ++ text)
    else if isPlainChar c then stringBody? delimiter multiline fuel rest (c :: text)
    else none

/-- A string, from what follows the first character of its opening mark. An
end of line right after the opening mark of a string of several lines is
passed over. -/
def string? (fuel : Nat) (delimiter : Char) (cs : List Char) : Option (Token × List Char) :=
  let token (multiline : Bool) (r : List Char × List Char) : Token × List Char :=
    (.string (String.ofList r.1) multiline, r.2)
  if cs.take 2 = [delimiter, delimiter] then
    let body := cs.drop 2
    let body := if body.head? = some '\n' then body.drop 1 else body
    (stringBody? delimiter true fuel body []).map (token true)
  else (stringBody? delimiter false fuel cs []).map (token false)

/-- The token at the front of a text, and the rest; `fuel` bounds the number
of characters. -/
def first? (fuel : Nat) : List Char → Option (Token × List Char)
  | [] => none
  | c :: cs =>
    if c = '\n' then some (.newline, cs)
    else if isBlank c then
      some (.blanks (c = ' ' ∧ (cs.takeWhile isBlank).isEmpty), cs.dropWhile isBlank)
    else if c = '#' then some (.comment, cs.dropWhile isCommentChar)
    else if c = '=' then some (.equals, cs)
    else if c = '.' then some (.period, cs)
    else if c = ',' then some (.comma, cs)
    else if c = ':' then some (.colon, cs)
    else if c = '+' then some (.plus, cs)
    else if c = '\x7b' then some (.leftBrace, cs)
    else if c = '\x7d' then some (.rightBrace, cs)
    else if c = '[' then some (.leftBracket, cs)
    else if c = ']' then some (.rightBracket, cs)
    else if c = Char.ofNat 0x27 ∨ c = Char.ofNat 0x22 then string? fuel c cs
    else if isWordChar c then
      some (.word (String.ofList (c :: cs.takeWhile isWordChar)), cs.dropWhile isWordChar)
    else none

/-- The tokens of a text, up to what is none. Those read so far are in
`read`, the last one first; `fuel` bounds the number of characters, and each
token takes up one at least. -/
def all : Nat → List Char → List Token → List Token
  | _, [], read => read.reverse
  | 0, _, read => (.invalid :: read).reverse
  | fuel + 1, cs, read =>
    match first? (fuel + 1) cs with
    | some (token, rest) => all fuel rest (token :: read)
    | none => (.invalid :: read).reverse

/-- The tokens of a document. -/
def ofText (text : String) : List Token :=
  let cs := foldLines [] text.toList
  all cs.length (if cs.head? = some (Char.ofNat 0xFEFF) then cs.drop 1 else cs) []

end Token

end Toml

end ProgramStream
