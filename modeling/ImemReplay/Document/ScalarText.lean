import ImemReplay.Document.Token
import ImemReplay.Text.Surrogate

/-!
# Scalars in the text of a document

Plain scalars end where a mark of the document begins; quoted ones end at their quote. Both may
run over several lines, which are then folded: one line end counts as a blank, and further ones
stay.

Main results:

- Definition `plain`: the plain scalar at a cursor.
- Definition `quoted`: the quoted scalar behind a quote.
-/

namespace ImemReplay
namespace Document

/-- The marks that end a word inside brackets. -/
def isFlowMark (c : Char) : Bool := c = ',' || c = '[' || c = ']' || c = '{' || c = '}'

/-- The longest run of characters that go on with a plain scalar. -/
def plainRun (inFlow : Bool) : List Char → List Char
  | [] => []
  | c :: cs =>
    let endsKey := c = ':' &&
      (atBoundary cs || (inFlow && match cs with
        | [] => false
        | d :: _ => isFlowMark d))
    if isSpaceOrBreak c || endsKey || (inFlow && (isFlowMark c || c = '?')) then []
    else c :: plainRun inFlow cs

/-- The blanks and line ends after the first line end of a gap in a plain scalar: how many
characters they take, the line ends, and whether a document mark cuts the scalar off. -/
def plainBreaks (lineStart : Bool) (cs : List Char) : Nat × List Char × Bool :=
  if lineStart && startsWithDocumentMark cs then (0, [], true)
  else
    match cs with
    | [] => (0, [], false)
    | c :: rest =>
      if c = ' ' then
        let (count, breaks, cut) := plainBreaks false rest
        (count + 1, breaks, cut)
      else if isBreak c then
        let (count, breaks, cut) := plainBreaks true rest
        (count + 1, normalBreak c :: breaks, cut)
      else (0, [], false)

/-- What a folded line end stands for. -/
def fold (first : Char) (breaks : List Char) : List Char :=
  if normalBreak first ≠ '\n' then normalBreak first :: breaks
  else if breaks.isEmpty then [' ']
  else breaks

/-- The gap behind a run of a plain scalar: how many characters it takes, what it stands for
inside the scalar, and whether it ends a line. -/
def plainGap (cs : List Char) : Nat × List Char × Bool :=
  let blanks := cs.takeWhile (· = ' ')
  match cs.drop blanks.length with
  | c :: rest =>
    if isBreak c then
      let (count, breaks, cut) := plainBreaks true rest
      (blanks.length + 1 + count, if cut then [] else fold c breaks, true)
    else (blanks.length, blanks, false)
  | [] => (blanks.length, blanks, false)

/-- A plain scalar that has been read. -/
structure PlainText where
  text : List Char
  cursor : Cursor
  /-- Whether the scalar ended at the end of a line. -/
  endsLine : Bool

/-- Goes on with a plain scalar whose runs so far are `done` and whose gap behind them stands for
`gap`. A continuation line must be indented by at least `indent` outside brackets. -/
def plainFrom (inFlow : Bool) (indent : Int) (fuel : Nat) (cursor : Cursor)
    (done gap : List Char) (endsLine : Bool) : PlainText :=
  match fuel with
  | 0 => ⟨done, cursor, endsLine⟩
  | fuel + 1 =>
    let run := if cursor.rest.head? = some '#' then [] else plainRun inFlow cursor.rest
    if run.isEmpty then ⟨done, cursor, endsLine⟩
    else
      let done := done ++ gap ++ run
      let behind := cursor.skip run.length
      let (count, gap, endsLine) := plainGap behind.rest
      let next := behind.skip count
      if gap.isEmpty || next.rest.head? = some '#' || (!inFlow && (next.column : Int) < indent) then
        ⟨done, next, endsLine⟩
      else plainFrom inFlow indent fuel next done gap endsLine

/-- The plain scalar at a cursor. -/
def plain (inFlow : Bool) (indent : Int) (cursor : Cursor) : PlainText :=
  plainFrom inFlow indent (cursor.rest.length + 1) cursor [] [] false

/-! ## Quoted scalars -/

/-- The blank lines behind a line end inside quotes: how many characters they take, and the line
ends. A document mark may not stand inside quotes. -/
def quotedBreaks (lineStart : Bool) (cs : List Char) : Except Fault (Nat × List Char) :=
  if lineStart && startsWithDocumentMark cs then .error .malformed
  else
    match cs with
    | [] => .ok (0, [])
    | c :: rest =>
      if c = ' ' || c = '\t' then do
        let (count, breaks) ← quotedBreaks false rest
        return (count + 1, breaks)
      else if isBreak c then do
        let (count, breaks) ← quotedBreaks true rest
        return (count + 1, normalBreak c :: breaks)
      else .ok (0, [])

/-- The characters behind a backslash that stand for another character. -/
def escaped? : Char → Option Char
  | '0' => some '\x00'
  | 'a' => some '\x07'
  | 'b' => some '\x08'
  | 't' => some '\t'
  | '\t' => some '\t'
  | 'n' => some '\n'
  | 'v' => some '\x0B'
  | 'f' => some '\x0C'
  | 'r' => some '\r'
  | 'e' => some '\x1B'
  | ' ' => some ' '
  | '"' => some '"'
  | '\\' => some '\\'
  | '/' => some '/'
  | 'N' => some '\u0085'
  | '_' => some '\u00A0'
  | 'L' => some '\u2028'
  | 'P' => some '\u2029'
  | _ => none

/-- The number of hexadecimal digits behind a letter that announces a code point. -/
def codeLength? : Char → Option Nat
  | 'x' => some 2
  | 'u' => some 4
  | 'U' => some 8
  | _ => none

/-- The numbers that can be asked for as code points are below this number. -/
def codeBound : Nat := 0x80000000

/-- The characters that spell the code point of a number. -/
def ofCodePoint (n : Nat) : Except Fault (List Char) :=
  if n < Text.codePointBound then .ok (Text.spell n)
  else .error (if n < codeBound then .codePoint else .unbounded)

/-- The characters that spell a code point in hexadecimal. -/
def ofCode (digits : List Char) (size : Nat) : Except Fault (List Char) :=
  match digits.mapM hexValue? with
  | some values =>
    if values.length = size then ofCodePoint (values.foldl (fun acc d => acc * 16 + d) 0)
    else .error .malformed
  | none => .error .malformed

/-- Goes on with a quoted scalar whose text so far is `done`, up to its closing quote. -/
def quotedFrom (double : Bool) (fuel : Nat) (cursor : Cursor) (done : List Char) :
    Except Fault (List Char × Cursor) :=
  match fuel with
  | 0 => .error .malformed
  | fuel + 1 =>
    let quote := if double then '"' else '\''
    match cursor.rest with
    | [] => .error .malformed
    | c :: rest =>
      if c = quote then
        if !double && rest.head? = some '\'' then
          quotedFrom double fuel (cursor.skip 2) (done ++ ['\''])
        else .ok (done, cursor.skip 1)
      else if double && c = '\\' then
        match rest with
        | [] => .error .malformed
        | d :: after =>
          match escaped? d, codeLength? d with
          | some e, _ => quotedFrom double fuel (cursor.skip 2) (done ++ [e])
          | none, some size =>
            match ofCode (after.take size) size with
            | .ok es => quotedFrom double fuel (cursor.skip (2 + size)) (done ++ es)
            | .error fault => .error fault
          | none, none =>
            if isBreak d then do
              let (count, breaks) ← quotedBreaks true after
              quotedFrom double fuel (cursor.skip (2 + count)) (done ++ breaks)
            else .error .malformed
      else if isSpaceOrBreak c then
        let blanks := cursor.rest.takeWhile fun d => d = ' ' || d = '\t'
        match cursor.rest.drop blanks.length with
        | [] => .error .malformed
        | d :: after =>
          if isBreak d then do
            let (count, breaks) ← quotedBreaks true after
            quotedFrom double fuel (cursor.skip (blanks.length + 1 + count))
              (done ++ fold d breaks)
          else quotedFrom double fuel (cursor.skip blanks.length) (done ++ blanks)
      else quotedFrom double fuel (cursor.skip 1) (done ++ [c])

/-- The quoted scalar at a cursor that stands on its opening quote. -/
def quoted (double : Bool) (cursor : Cursor) : Except Fault (List Char × Cursor) :=
  quotedFrom double (cursor.rest.length + 1) (cursor.skip 1) []

end Document
end ImemReplay
