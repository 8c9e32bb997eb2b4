import ImemReplay.Document.Tag
import ImemReplay.Document.Token

/-!
# Scalars in blocks of lines

A scalar may be a block of lines, which are indented alike. A bar in front of it keeps the ends of
the lines; an angle bracket folds them, so that one line end between two lines that start with no
blank counts as a blank, and of several the first is dropped. Signs behind the bar or bracket say
whether the line ends at the end of the block stay, and how far the lines are indented; without a
number the first line that is not blank shows it.

Main results:

- Definition `BlockHeader.read`: the signs in front of a block.
- Definition `block`: the block at a cursor.
-/

namespace ImemReplay
namespace Document

/-- What becomes of the line ends at the end of a block. -/
inductive Chomping where
  /-- One of them stays. -/
  | clip
  /-- None of them stays. -/
  | strip
  /-- All of them stay. -/
  | keep
deriving DecidableEq, Repr

namespace Chomping

/-- The line ends that stay, of the one behind the last line and those behind it. -/
def kept (chomping : Chomping) (last rest : List Char) : List Char :=
  match chomping with
  | clip => last
  | strip => []
  | keep => last ++ rest

/-- The sign at the beginning of a text, and what follows it. -/
def read? : List Char → Option (Chomping × List Char)
  | '+' :: cs => some (keep, cs)
  | '-' :: cs => some (strip, cs)
  | _ => none

end Chomping

/-- The signs in front of a block. -/
structure BlockHeader where
  chomping : Chomping := .clip
  /-- By how much the lines are indented further than what is around them. -/
  increment? : Option Nat := none
deriving DecidableEq, Repr

namespace BlockHeader

/-- A digit at the beginning of a text, and what follows it. -/
def readDigit? : List Char → Option (Nat × List Char)
  | c :: cs => if c.isDigit then some (c.toNat - '0'.toNat, cs) else none
  | [] => none

/-- The signs at the beginning of a text, in any order, and what follows them. -/
def readSigns (cs : List Char) : BlockHeader × List Char :=
  match Chomping.read? cs, readDigit? cs with
  | some (chomping, rest), _ =>
    match readDigit? rest with
    | some (n, rest) => (⟨chomping, some n⟩, rest)
    | none => (⟨chomping, none⟩, rest)
  | none, some (n, rest) =>
    match Chomping.read? rest with
    | some (chomping, rest) => (⟨chomping, some n⟩, rest)
    | none => (⟨.clip, some n⟩, rest)
  | none, none => ({}, cs)

/-- The signs at the beginning of a text, and what follows their line. An increment is positive. -/
def read (cs : List Char) : Option (BlockHeader × List Char) :=
  let (header, rest) := readSigns cs
  if header.increment? = some 0 || !Tag.endsPart rest then none
  else (dropLine rest).map (header, ·)

end BlockHeader

/-- The blank lines in front of a block and the indentation of its first line: how many characters
they take, the line ends, and the deepest column of a blank. -/
def leadingBreaks (column deepest : Nat) : List Char → Nat × List Char × Nat
  | [] => (0, [], deepest)
  | c :: cs =>
    if c = ' ' then
      let (count, breaks, deepest) := leadingBreaks (column + 1) (max deepest (column + 1)) cs
      (count + 1, breaks, deepest)
    else if isBreak c then
      let (count, breaks, deepest) := leadingBreaks 0 deepest cs
      (count + 1, normalBreak c :: breaks, deepest)
    else (0, [], deepest)

/-- The blank lines in front of a line of a block and its indentation: how many characters they
take, and the line ends. -/
def blockBreaks (indent column : Nat) : List Char → Nat × List Char
  | [] => (0, [])
  | c :: cs =>
    if c = ' ' && column < indent then
      let (count, breaks) := blockBreaks indent (column + 1) cs
      (count + 1, breaks)
    else if isBreak c then
      let (count, breaks) := blockBreaks indent 0 cs
      (count + 1, normalBreak c :: breaks)
    else (0, [])

/-- What stands between two lines of a block with some line ends between them, the first of which is
the end of the line in front. -/
def joint (folded : Bool) (line next : List Char) (last breaks : List Char) : List Char :=
  let isText (cs : List Char) : Bool := cs.head?.all fun c => c ≠ ' ' && c ≠ '\t'
  if folded && last = ['\n'] && isText line && isText next then
    if breaks.isEmpty then [' '] else []
  else last

/-- Goes on with a block whose text so far is `done`; `breaks` are the line ends of the blank lines
in front of the cursor. -/
def blockLines (folded : Bool) (chomping : Chomping) (indent fuel : Nat) (cursor : Cursor)
    (done last breaks : List Char) : List Char × Cursor :=
  match fuel with
  | 0 => (done, cursor)
  | fuel + 1 =>
    if cursor.column = indent && !cursor.rest.isEmpty then
      let line := cursor.rest.takeWhile fun c => !isBreak c
      let ended := cursor.skip line.length
      let last := (ended.rest.take 1).map normalBreak
      let behind := ended.skip last.length
      let (count, next) := blockBreaks indent behind.column behind.rest
      let cursor := behind.skip count
      let done := done ++ breaks ++ line
      if cursor.column = indent && !cursor.rest.isEmpty then
        blockLines folded chomping indent fuel cursor
          (done ++ joint folded line cursor.rest last next) [] next
      else (done ++ chomping.kept last next, cursor)
    else (done ++ chomping.kept last breaks, cursor)

/-- The block at a cursor that stands on its bar or bracket. Its lines are indented at least to the
column `least`. -/
def block (folded : Bool) (least : Nat) (cursor : Cursor) : Except Fault (List Char × Cursor) :=
  match BlockHeader.read (cursor.rest.drop 1) with
  | none => .error .malformed
  | some (header, rest) =>
    let start := cursor.skip (cursor.rest.length - rest.length)
    let fuel := rest.length + 1
    match header.increment? with
    | some n =>
      let indent := least + n - 1
      let (count, breaks) := blockBreaks indent start.column start.rest
      .ok (blockLines folded header.chomping indent fuel (start.skip count) [] [] breaks)
    | none =>
      let (count, breaks, deepest) := leadingBreaks start.column 0 start.rest
      .ok (blockLines folded header.chomping (max least deepest) fuel (start.skip count) [] []
        breaks)

example : (block true 1 { rest := "> # c\n a\n b\n\n c\n".toList }).toOption.map Prod.fst =
    some "a b\nc\n".toList := by
  decide +kernel

end Document
end ImemReplay
