import ProgramStream.Toml.Value
/-!
# TOML documents — sections, and the tree they stand for

A document is a list of sections. A section has a header, which names the
table its keys belong to, or one more item of an array of tables; the keys
before the first header are a section without one.

The tree is gathered from the sections: a table takes in the section with
its own header and all sections whose headers lead through it, wherever
they stand. A table may have only one section of its own, and an array of
tables has to come before whatever leads through it. Keys are kept in
order, also when one comes twice: that is for the reader of the tree to
refuse.
-/

namespace ProgramStream

namespace Toml

/-- A header and the keys and values under it. -/
structure Section where
  header : List String
  /-- the header opens an item of an array of tables -/
  isItem : Bool
  entries : Entries

/-- The section with its keys in the opposite order. -/
def Section.reversed (s : Section) : Section := { s with entries := s.entries.reverse }

/-- The sections of a document. -/
abbrev Document := List Section

namespace Document

/-! ## Reading lines -/

/-- Passes over the rest of a line: blanks, a comment and its end. -/
def endLine (ts : List Token) : Option (List Token) :=
  let ts := match Value.skipBlanks ts with
    | .comment :: ts => ts
    | ts => ts
  match ts with
  | [] => some []
  | .newline :: ts => some ts
  | _ => none

/-- The rest of a header after its opening bracket or brackets; `fuel` bounds
the number of tokens. -/
def readHeader (fuel : Nat) (isItem : Bool) (ts : List Token) :
    Option (Section × List Token) := do
  let (header, ts) ← Value.readKey fuel (Value.skipBlanks ts)
  let ts ← Value.expect .rightBracket (Value.skipBlanks ts)
  let ts ← if isItem then Value.expect .rightBracket ts else some ts
  return ({ header, isItem, entries := [] }, ← endLine ts)

/-- Adds a key and its value to the section that is open, whose keys stand
the last one first. It is one without a header if none is open. -/
def addPair (key : List String) (value : Value) : Document → Option Document
  | [] => do
    let entries ← Value.insert key value []
    return [{ header := [], isItem := false, entries }]
  | s :: ss =>
    match key with
    | [key] => some ({ s with entries := (key, value) :: s.entries } :: ss)
    | key => do
      let entries ← Value.insert key value s.entries.reverse
      return { s with entries := entries.reverse } :: ss

/-- Reads lines up to the end of the document. The sections read so far are
in `read`, the last one first, and their keys likewise; `fuel` bounds the
number of tokens, and each line takes up one at least. -/
def readLines : Nat → List Token → Document → Except Fault Document
  | 0, _, _ => .error .malformed
  | fuel + 1, ts, read =>
    match Value.skipLines ts with
    | [] => .ok (read.reverse.map Section.reversed)
    | .leftBracket :: .leftBracket :: ts => do
      let (header, ts) ← Fault.orMalformed (readHeader fuel true ts)
      readLines fuel ts (header :: read)
    | .leftBracket :: ts => do
      let (header, ts) ← Fault.orMalformed (readHeader fuel false ts)
      readLines fuel ts (header :: read)
    | ts => do
      let (key, ts) ← Fault.orMalformed (Value.readKeyEquals fuel ts)
      let (value, ts) ← Value.read fuel ts
      let ts ← Fault.orMalformed (endLine ts)
      let read ← Fault.orMalformed (addPair key value read)
      readLines fuel ts read

/-- The sections of a text. -/
def ofText (text : String) : Except Fault Document :=
  let ts := Token.ofText text
  readLines (ts.length + 1) ts []

/-- How deep the deepest value of a document is nested, counted from the
document. -/
def depth (d : Document) : Nat :=
  d.foldr (fun s deepest => max (s.header.length + Value.depthOfEntries s.entries) deepest) 0

/-! ## Gathering the tree -/

/-- Sections that a tree is gathered from; those that are used up hold no
entries any more. -/
abbrev Pool := Array (Section × Bool)

/-- The number of the first section from `start` on and before `limit` that
is not used up and whose header begins with `path`. -/
def find? (pool : Pool) (path : List String) (start limit : Nat) : Option Nat :=
  (List.range' start (limit - start)).find? fun i =>
    match pool[i]? with
    | some (s, used) => !used && path.isPrefixOf s.header
    | none => false

/-- The number of the next item of the array that section `i` is an item
of, before `limit`; `limit` if there is none. -/
def nextItem (pool : Pool) (header : List String) (i limit : Nat) : Nat :=
  ((List.range' (i + 1) (limit - (i + 1))).find? fun j =>
    match pool[j]? with
    | some (s, _) => s.isItem && s.header = header
    | none => false).getD limit

mutual

/-- The keys and values of the table that the first `depth` parts of the
header of section `parent` name, from section `start` on. -/
def gather : Nat → Pool → Nat → Nat → Nat → Nat → Option (Entries × Pool)
  | 0, _, _, _, _, _ => none
  | fuel + 1, pool, depth, parent, start, limit => do
    let (owner, _) ← pool[parent]?
    match find? pool (owner.header.take depth) start limit with
    | none => return ([], pool)
    | some i =>
      let (s, _) ← pool[i]?
      if i ≠ parent ∧ s.header = owner.header then none
      else
        let parent := if i ≠ parent ∧ s.header.length < owner.header.length then i else parent
        match s.header[depth]? with
        | some key =>
          let (value, pool) ←
            if s.isItem ∧ depth + 1 = s.header.length then do
              let (items, pool) ← gatherItems fuel pool depth i limit
              some (Value.array items, pool)
            else do
              let (entries, pool) ← gather fuel pool (depth + 1) i 0 limit
              some (Value.table false entries, pool)
          let (entries, pool) ← gather fuel pool depth parent (i + 1) limit
          return ((key, value) :: entries, pool)
        | none =>
          if s.isItem then none
          else
            let (entries, pool) ← gather fuel (pool.setIfInBounds i (s, true)) depth parent i limit
            return (s.entries ++ entries, pool)

/-- The items of an array of tables, from the one of section `i` on. -/
def gatherItems : Nat → Pool → Nat → Nat → Nat → Option (List Value × Pool)
  | 0, _, _, _, _ => none
  | fuel + 1, pool, depth, i, limit => do
    if i = limit then return ([], pool)
    else
      let (s, _) ← pool[i]?
      let next := nextItem pool s.header i limit
      let (entries, pool) ← gather fuel (pool.setIfInBounds i (s, true)) (depth + 1) i 0 next
      let (items, pool) ← gatherItems fuel pool depth next limit
      return (.table false (s.entries ++ entries) :: items, pool)

end

/-- The keys and values of a document. Each step of the gathering uses up a
section or goes one part further into a header. -/
def tree? (d : Document) : Option Entries :=
  if d.isEmpty then some []
  else
    let parts := d.foldr (fun s n => s.header.length + 2 + n) 0
    (gather (4 * (parts + 1)) (d.map fun s => (s, false)).toArray 0 0 0 d.length).map (·.1)

end Document

end Toml

end ProgramStream
