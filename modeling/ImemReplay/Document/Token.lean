import ImemReplay.Document.Directive

/-!
# Tokens of a document

A document is cut into tokens: scalars, the marks of lists and fields between brackets, and the
marks of lists and fields that are laid out by indentation, whose beginning and end follow from
the columns. A mark of a key stands in front of a scalar or a bracket once a colon shows that it
was a key. A directive is one token, and so is a name or tag of a node. Where a text cannot be cut
further, the last token says why.

Main results:

- Theorem `readable_of_all`: a text of printable characters can be read as a whole.
- Theorem `Cursor.rest_skip`: skipping characters leaves the rest of the text.
-/

namespace ImemReplay
namespace Document

/-- A token. -/
inductive Token where
  | documentStart
  | documentEnd
  | blockListStart
  | blockFieldsStart
  | blockEnd
  | flowListStart
  | flowListEnd
  | flowFieldsStart
  | flowFieldsEnd
  | itemMark
  | comma
  | key
  | value
  | directive (directive : Directive)
  /-- The name that the node behind it gets. -/
  | anchor (name : String)
  /-- The name of a node, which stands for it. -/
  | alias (name : String)
  /-- The kind of value that the node behind it stands for. -/
  | tag (mark : TagMark)
  /-- A scalar; `plain` is set when it stands without quotes. -/
  | scalar (text : String) (plain : Bool)
  /-- The fault behind which there are no tokens. -/
  | fault (cause : Fault)
deriving DecidableEq, Repr, Inhabited

/-- Whether a line starts with a document mark: three times the character, and a boundary. -/
def startsWithMark (mark : Char) : List Char → Bool
  | a :: b :: c :: cs => a = mark && b = mark && c = mark && atBoundary cs
  | _ => false

/-- Whether a line starts with one of the document marks. -/
def startsWithDocumentMark (cs : List Char) : Bool :=
  startsWithMark '-' cs || startsWithMark '.' cs

/-- The number of characters that are taken from a file at once. -/
def windowSize : Nat := 4096

/-- The part of a text that can be read, and whether that is all. A file is taken window by window,
the first two together, and nothing is read of a window with a character it may not hold. -/
def readable (cs : List Char) : List Char × Bool :=
  let size := (cs.takeWhile isPrintable).length
  if size = cs.length then (cs, true)
  else if size < 2 * windowSize then ([], false)
  else (cs.take (size / windowSize * windowSize), false)

theorem readable_of_all {cs : List Char} (h : cs.all isPrintable = true) :
    readable cs = (cs, true) := by
  have hsize : cs.takeWhile isPrintable = cs := by
    induction cs with
    | nil => rfl
    | cons c cs ih =>
      simp only [List.all_cons, Bool.and_eq_true] at h
      rw [List.takeWhile_cons, if_pos h.1, ih h.2]
  simp [readable, hsize]

/-- The text that is still to be read, and where it starts. -/
structure Cursor where
  rest : List Char
  index : Nat := 0
  line : Nat := 0
  column : Nat := 0
deriving Repr

namespace Cursor

/-- Moves the cursor behind one character. The byte order mark takes no column. -/
def step (cursor : Cursor) : Cursor :=
  match cursor.rest with
  | [] => cursor
  | c :: rest =>
    if isBreak c then ⟨rest, cursor.index + 1, cursor.line + 1, 0⟩
    else
      ⟨rest, cursor.index + 1, cursor.line,
        if c = '\uFEFF' then cursor.column else cursor.column + 1⟩

/-- Moves the cursor behind some characters of its text. -/
def skip (cursor : Cursor) : Nat → Cursor
  | 0 => cursor
  | count + 1 => cursor.step.skip count

theorem rest_step {cursor : Cursor} : cursor.step.rest = cursor.rest.drop 1 := by
  cases hrest : cursor.rest with
  | nil => simp [step, hrest]
  | cons c rest =>
    simp only [step, hrest]
    split <;> rfl

theorem rest_skip {cursor : Cursor} {count : Nat} :
    (cursor.skip count).rest = cursor.rest.drop count := by
  induction count generalizing cursor with
  | zero => rfl
  | succ count ih => simp [skip, ih, rest_step]

end Cursor
end Document
end ImemReplay
