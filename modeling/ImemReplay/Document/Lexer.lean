import ImemReplay.Document.BlockText
import ImemReplay.Document.ScalarText

/-!
# Cutting a document into tokens

The tokens of a text depend on its columns. Outside brackets a list or fields begin where a mark
stands further in than the lines around it, and end where a line stands further out. A scalar or
a bracket may turn out to be a key when a colon follows on its line, and so may a name or tag in
front of them. So the place of the last candidate is kept for each level of brackets; a candidate
that must be a key and is followed by none is a fault. A block of lines is never a key.

The tokens are handed out as they are asked for, and no more of the text is read than that takes: a
token is settled once it can no longer turn out to be a key. So a fault of the text is only met
behind the tokens that were settled before it.

Main results:

- Definition `Token.ofText`: the tokens of a text, up to a fault if there is one.
- Definition `LexState.settled`: the number of tokens that no key mark can come in front of.
- Theorem `unwind_inFlow`: inside brackets columns have no meaning.
- Theorem `rest_directive`: the token of a directive takes the line of the directive.
-/

namespace ImemReplay
namespace Document

/-- A place that a key may turn out to have started at. -/
structure KeySpot where
  /-- The number of tokens in front of it. -/
  place : Nat
  /-- Whether the layout needs a key here. -/
  required : Bool
  index : Nat
  line : Nat
  column : Nat
deriving Repr

/-- The tokens so far, and what is known at the cursor. -/
structure LexState where
  cursor : Cursor
  tokens : Array Token := #[]
  /-- The column of the innermost list or fields outside brackets. -/
  indent : Int := -1
  /-- The columns around it, innermost first. -/
  indents : List Int := []
  /-- Whether a key may start here. -/
  allowKey : Bool := true
  /-- The candidate for a key of each level of brackets, innermost first. -/
  keys : List (Option KeySpot) := [none]
  /-- Whether the end of the text ends the document; else nothing behind it can be read. -/
  complete : Bool := true
  /-- Whether all tokens have been read. -/
  done : Bool := false
deriving Repr

namespace LexState

/-- Whether the cursor is inside brackets. -/
def inFlow (s : LexState) : Bool := 1 < s.keys.length

/-- Adds a token that takes some characters. -/
def emit (s : LexState) (token : Token) (count : Nat) : LexState :=
  { s with tokens := s.tokens.push token, cursor := s.cursor.skip count }

/-- Closes the lists and fields that are further in than a column. -/
def closeTo (column : Int) : List Int → Int → Array Token → List Int × Int × Array Token
  | [], indent, tokens => ([], indent, tokens)
  | outer :: indents, indent, tokens =>
    if column < indent then closeTo column indents outer (tokens.push .blockEnd)
    else (outer :: indents, indent, tokens)

/-- Closes what is further in than a column, outside brackets. -/
def unwind (s : LexState) (column : Int) : LexState :=
  if s.inFlow then s
  else
    let (indents, indent, tokens) := closeTo column s.indents s.indent s.tokens
    { s with indents, indent, tokens }

theorem unwind_inFlow {s : LexState} {column : Int} (h : s.inFlow = true) :
    s.unwind column = s := by
  simp [unwind, h]

@[simp]
theorem cursor_unwind {s : LexState} {column : Int} : (s.unwind column).cursor = s.cursor := by
  unfold unwind
  split <;> rfl

/-- Gives up the candidates that a colon can no longer follow. -/
def dropStaleKeys (s : LexState) : Except Fault LexState := do
  let keys ← s.keys.mapM fun candidate =>
    match candidate with
    | none => Except.ok none
    | some spot =>
      if spot.line ≠ s.cursor.line ∨ 1024 < s.cursor.index - spot.index then
        if spot.required then Except.error Fault.malformed else Except.ok none
      else Except.ok (some spot)
  return { s with keys }

/-- Gives up the candidate of the innermost level. -/
def dropKey (s : LexState) : Except Fault LexState :=
  match s.keys with
  | some spot :: keys =>
    if spot.required then .error .malformed else .ok { s with keys := none :: keys }
  | _ => .ok s

theorem cursor_dropKey {s t : LexState} (h : s.dropKey = .ok t) : t.cursor = s.cursor := by
  unfold dropKey at h
  split at h
  · split at h
    · simp at h
    · simp only [Except.ok.injEq] at h
      exact h ▸ rfl
  · simp only [Except.ok.injEq] at h
    exact h ▸ rfl

/-- Makes the cursor a candidate, if a key may start here. -/
def saveKey (s : LexState) : Except Fault LexState :=
  if s.allowKey then do
    let s ← s.dropKey
    let spot : KeySpot :=
      { place := s.tokens.size
        required := !s.inFlow && s.indent = s.cursor.column
        index := s.cursor.index
        line := s.cursor.line
        column := s.cursor.column }
    return { s with keys := some spot :: s.keys.drop 1 }
  else .ok s

/-- Begins a list or fields at a column that is further in, with its mark at a place among the
tokens. -/
def openAt (s : LexState) (column : Nat) (token : Token) (place : Nat) : LexState :=
  if s.indent < column then
    { s with
      indents := s.indent :: s.indents
      indent := column
      tokens := s.tokens.insertIdxIfInBounds place token }
  else s

/-- The blanks, comments and line ends in front of the next token: how many characters they
take, and whether a line ends. -/
def gap (inComment : Bool) : List Char → Nat × Bool
  | [] => (0, false)
  | c :: cs =>
    if isBreak c || inComment || c = ' ' || c = '#' then
      let (count, endsLine) := gap (!isBreak c && (inComment || c = '#')) cs
      (count + 1, isBreak c || endsLine)
    else (0, false)

/-- Moves to the next token. A byte order mark at the beginning is passed over, and behind a
line end a key may start. -/
def toNextToken (s : LexState) : LexState :=
  let cursor :=
    if s.cursor.index = 0 ∧ s.cursor.rest.head? = some '\uFEFF' then s.cursor.skip 1
    else s.cursor
  let (count, endsLine) := gap false cursor.rest
  { s with
    cursor := cursor.skip count
    allowKey := s.allowKey || (endsLine && !s.inFlow) }

/-- A document mark. -/
def documentMark (s : LexState) (token : Token) : Except Fault LexState := do
  let s ← (s.unwind (-1)).dropKey
  return { s with allowKey := false }.emit token 3

/-- A directive, which takes its line; `after` is the text behind its percent sign. -/
def directive (s : LexState) (after : List Char) : Except Fault LexState := do
  let s ← (s.unwind (-1)).dropKey
  let (directive, rest) ← Directive.read after
  return { s with allowKey := false }.emit (.directive directive)
    (s.cursor.rest.length - rest.length)

theorem rest_directive {s t : LexState} {after : List Char} (h : s.directive after = .ok t)
    (hs : s.cursor.rest = '%' :: after) :
    ∃ d, Directive.read after = .ok (d, t.cursor.rest) := by
  simp only [directive, bind, Except.bind] at h
  split at h
  · simp at h
  · next u hkey =>
    have hu : u.cursor.rest = '%' :: after := by rw [cursor_dropKey hkey, cursor_unwind, hs]
    split at h
    · simp at h
    · next read hread =>
      obtain ⟨d, rest⟩ := read
      have hdrop : rest = _ := List.suffix_iff_eq_drop.1
        ((Directive.read_suffix hread).trans (List.suffix_cons '%' after))
      simp only [pure, Except.pure, Except.ok.injEq] at h
      subst h
      simp only [emit, Cursor.rest_skip, hu, ← hdrop]
      exact ⟨d, hread⟩

/-- An opening bracket. -/
def openFlow (s : LexState) (token : Token) : Except Fault LexState := do
  let s ← s.saveKey
  return { s with keys := none :: s.keys, allowKey := true }.emit token 1

/-- A closing bracket. -/
def closeFlow (s : LexState) (token : Token) : Except Fault LexState := do
  let s ← s.dropKey
  if s.inFlow then
    return { s with keys := s.keys.drop 1, allowKey := false }.emit token 1
  else throw .malformed

/-- A comma. -/
def comma (s : LexState) : Except Fault LexState := do
  let s ← s.dropKey
  return { s with allowKey := true }.emit .comma 1

/-- The mark of a list item. -/
def itemMark (s : LexState) : Except Fault LexState := do
  if !s.inFlow && !s.allowKey then throw .malformed
  let s := if s.inFlow then s else s.openAt s.cursor.column .blockListStart s.tokens.size
  let s ← s.dropKey
  return { s with allowKey := true }.emit .itemMark 1

/-- The mark of a key. -/
def keyMark (s : LexState) : Except Fault LexState := do
  if !s.inFlow && !s.allowKey then throw .malformed
  let s := if s.inFlow then s else s.openAt s.cursor.column .blockFieldsStart s.tokens.size
  let s ← s.dropKey
  return { s with allowKey := !s.inFlow }.emit .key 1

/-- A colon: the candidate in front of it becomes a key, and without one the key is empty. -/
def valueMark (s : LexState) : Except Fault LexState :=
  match s.keys with
  | some spot :: keys =>
    let s := { s with keys := none :: keys }
    let s := { s with tokens := s.tokens.insertIdxIfInBounds spot.place .key, allowKey := false }
    let s := if s.inFlow then s else s.openAt spot.column .blockFieldsStart spot.place
    .ok (s.emit .value 1)
  | _ =>
    if s.inFlow then .ok ({ s with allowKey := false }.emit .value 1)
    else if s.allowKey then
      .ok ({ s.openAt s.cursor.column .blockFieldsStart s.tokens.size with
        allowKey := true }.emit .value 1)
    else .error .malformed

/-- A quoted scalar. -/
def quotedScalar (s : LexState) (double : Bool) : Except Fault LexState := do
  let s ← s.saveKey
  let (text, cursor) ← quoted double s.cursor
  return { s with
    tokens := s.tokens.push (.scalar (String.ofList text) false), cursor, allowKey := false }

/-- A plain scalar. -/
def plainScalar (s : LexState) : Except Fault LexState := do
  let s ← s.saveKey
  let read := plain s.inFlow (s.indent + 1) s.cursor
  return { s with
    tokens := s.tokens.push (.scalar (String.ofList read.text) true)
    cursor := read.cursor
    allowKey := read.endsLine }

/-- A block of lines. A key may start behind it. -/
def blockScalar (s : LexState) (folded : Bool) : Except Fault LexState := do
  let s ← { s with allowKey := true }.dropKey
  let (text, cursor) ← block folded (max 1 (s.indent + 1)).toNat s.cursor
  return { s with tokens := s.tokens.push (.scalar (String.ofList text) false), cursor }

/-- Whether a name of a node can end here. -/
def endsName : List Char → Bool
  | [] => true
  | c :: _ => isSpaceOrBreak c || c ∈ ['?', ':', ',', ']', '\x7d', '%', '@', Char.ofNat 0x60]

/-- A name that a node gets or that stands for a node. -/
def nodeName (s : LexState) (token : String → Token) (after : List Char) :
    Except Fault LexState := do
  let s ← s.saveKey
  let name := after.takeWhile Tag.isNameChar
  if name.isEmpty || !endsName (after.drop name.length) then throw .malformed
  return { s with allowKey := false }.emit (token (String.ofList name)) (name.length + 1)

/-- A tag. -/
def tag (s : LexState) : Except Fault LexState := do
  let s ← s.saveKey
  match TagMark.read s.cursor.rest with
  | some (mark, rest) =>
    return { s with allowKey := false }.emit (.tag mark) (s.cursor.rest.length - rest.length)
  | none => throw .malformed

/-- The characters that no plain scalar starts with. -/
def indicators : List Char :=
  ['-', '?', ':', ',', '[', ']', '{', '}', '#', '&', '*', '!', '|', '>', '\'', '"', '%', '@',
    Char.ofNat 0x60]

/-- Whether a plain scalar starts with a character in front of some text. -/
def startsPlain (inFlow : Bool) (c : Char) (after : List Char) : Bool :=
  (!isSpaceOrBreak c && c ∉ indicators) ||
    (!atBoundary after && (c = '-' || (!inFlow && (c = '?' || c = ':'))))

/-- Reads the token that starts with a character. -/
def next (s : LexState) (c : Char) (after : List Char) : Except Fault LexState :=
  let lineStart := s.cursor.column = 0
  if lineStart ∧ c = '%' then s.directive after
  else if lineStart ∧ startsWithMark '-' (c :: after) then s.documentMark .documentStart
  else if lineStart ∧ startsWithMark '.' (c :: after) then s.documentMark .documentEnd
  else if c = '[' then s.openFlow .flowListStart
  else if c = '{' then s.openFlow .flowFieldsStart
  else if c = ']' then s.closeFlow .flowListEnd
  else if c = '}' then s.closeFlow .flowFieldsEnd
  else if c = ',' then s.comma
  else if c = '-' ∧ atBoundary after then s.itemMark
  else if c = '?' ∧ (s.inFlow ∨ atBoundary after) then s.keyMark
  else if c = ':' ∧ (s.inFlow ∨ atBoundary after) then s.valueMark
  else if c = '*' then s.nodeName .alias after
  else if c = '&' then s.nodeName .anchor after
  else if c = '!' then s.tag
  else if c = '|' ∧ !s.inFlow then s.blockScalar false
  else if c = '>' ∧ !s.inFlow then s.blockScalar true
  else if c = '\'' then s.quotedScalar false
  else if c = '"' then s.quotedScalar true
  else if startsPlain s.inFlow c after then s.plainScalar
  else .error .malformed

/-- Ends the document. -/
def finish (s : LexState) : Except Fault LexState := do
  let s ← (s.unwind (-1)).dropKey
  return { s with done := true }

/-- Reads the next token with the marks in front of it, or ends the document. The end of a text
that is not complete cannot be passed. -/
def advance (s : LexState) : Except Fault LexState := do
  let s ← s.toNextToken.dropStaleKeys
  let s := s.unwind s.cursor.column
  let s ←
    match s.cursor.rest with
    | [] => s.finish
    | c :: after => s.next c after
  if !s.complete && s.cursor.rest.isEmpty then throw .malformed
  return s

/-- The number of tokens in front of all candidates for a key. -/
def settled (s : LexState) : Nat :=
  (s.keys.filterMap id).foldl (fun count spot => min count spot.place) s.tokens.size

/-- The first tokens, with a fault behind them. -/
def cutAt (s : LexState) (count : Nat) (cause : Fault) : List Token :=
  s.tokens.toList.take count ++ [.fault cause]

/-- Reads tokens up to the end of the text or a fault; `count` of the tokens so far are settled.
Every token takes a character, so the length of the text bounds the number of rounds. -/
def run (fuel count : Nat) (s : LexState) : List Token :=
  match fuel with
  | 0 => s.cutAt count .malformed
  | fuel + 1 =>
    if s.done then s.tokens.toList
    else
      match s.dropStaleKeys with
      | .error cause => s.cutAt count cause
      | .ok s =>
        match s.advance with
        | .error cause => s.cutAt s.settled cause
        | .ok next => run fuel s.settled next

end LexState

/-- The tokens of a text. -/
def Token.ofText (cs : List Char) : List Token :=
  let (text, complete) := readable cs
  LexState.run (text.length + 2) 0 { cursor := { rest := text }, complete }

end Document
end ImemReplay
