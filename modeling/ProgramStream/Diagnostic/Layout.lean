/-!
# Diagnostic layout — values over several lines

A value is shown as a text, as a value with a name before it, or as a group
of values between an opening and a closing text. An empty group is one
line; otherwise each item has lines of its own, four blanks further in and
with a comma at the end.
-/

namespace ProgramStream

namespace Diagnostic

/-- How a value is shown. -/
inductive Shown where
  | text (s : String)
  | named (name : String) (value : Shown)
  | group (opening closing : String) (items : List Shown)

namespace Shown

/-- Puts a text before the first line. -/
def onFirst (s : String) : List String → List String
  | [] => [s]
  | line :: lines => (s ++ line) :: lines

/-- Puts a text after the last line. -/
def onLast (s : String) : List String → List String
  | [] => [s]
  | [line] => [line ++ s]
  | line :: next :: lines => line :: onLast s (next :: lines)

/-- Moves lines four blanks in. -/
def indent (lines : List String) : List String := lines.map ("    " ++ ·)

mutual

/-- The lines of a value. -/
def lines : Shown → List String
  | .text s => [s]
  | .named name value => onFirst (name ++ ": ") value.lines
  | .group opening closing [] => [opening ++ closing]
  | .group opening closing (item :: items) =>
    opening :: (itemLines (item :: items) ++ [closing])

/-- The lines of the items of a group. -/
def itemLines : List Shown → List String
  | [] => []
  | item :: items => indent (onLast "," item.lines) ++ itemLines items

end

/-- A value as text, with an end of line after each line. -/
def render (s : Shown) : String :=
  s.lines.foldl (fun acc line => acc ++ line ++ "\n") ""

/-- A number. -/
def number (n : Nat) : Shown := .text (toString n)

/-- A flag, as a number. -/
def bit (b : Bool) : Shown := number b.toNat

/-- A record: its name and its named fields. -/
def record (name : String) (fields : List (String × Shown)) : Shown :=
  .group (name ++ " \x7b") "\x7d" (fields.map fun f => .named f.1 f.2)

/-- A constructor applied to a value. -/
def apply (name : String) (value : Shown) : Shown := .group (name ++ "(") ")" [value]

/-- A list. -/
def list (items : List Shown) : Shown := .group "[" "]" items

/-- A value that may be absent. -/
def option : Option Shown → Shown
  | none => .text "None"
  | some value => apply "Some" value

end Shown

end Diagnostic

end ProgramStream
