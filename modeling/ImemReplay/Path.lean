import ImemReplay.Text.Parts

/-!
# Paths

A path names a file by the names on the way to it, from the root or from wherever its reader
stands. Single dots and empty names lead nowhere and are dropped; double dots stay, since what
they lead to depends on the files. A path that begins with exactly two slashes keeps both.

Main results:

- Theorem `join_of_root`: a path from the root is not joined to anything.
- Theorem `join_here`: joining to the empty path changes nothing.
-/

namespace ImemReplay

/-- Where a path starts. -/
inductive PathStart where
  | here
  | root
  | doubleRoot
deriving DecidableEq, Repr

/-- A path. -/
structure Path where
  start : PathStart := .here
  /-- The names on the way. -/
  names : List String := []
deriving DecidableEq, Repr

namespace PathStart

/-- The start of a written path. -/
def ofChars : List Char → PathStart
  | '/' :: '/' :: '/' :: _ => root
  | '/' :: '/' :: _ => doubleRoot
  | '/' :: _ => root
  | _ => here

/-- The slashes of a start. -/
def text : PathStart → String
  | here => ""
  | root => "/"
  | doubleRoot => "//"

end PathStart

namespace Path

/-- A path as it is written. -/
def ofText (s : String) : Path where
  start := .ofChars s.toList
  names :=
    ((Text.parts '/' s.toList).map String.ofList).filter fun name => name ≠ "" ∧ name ≠ "."

/-- The written form of a path; the path to where its reader stands is a dot. -/
def text (p : Path) : String :=
  if p.start = .here ∧ p.names = [] then "."
  else p.start.text ++ "/".intercalate p.names

/-- A path that is read from where another one leads. -/
def join (base p : Path) : Path :=
  if p.start = .here then { base with names := base.names ++ p.names } else p

theorem join_of_root {base p : Path} (h : p.start ≠ .here) : base.join p = p :=
  if_neg h

@[simp]
theorem join_here {base : Path} : base.join {} = base := by
  simp [join]

/-- The written form without what leads nowhere. -/
def tidy (s : String) : String := (ofText s).text

end Path
end ImemReplay
