import ImemReplay.Document.Character

/-!
# Tags

A tag says which kind of value a node stands for. It is written behind an exclamation mark: a
handle, which stands for the beginning of the tag's name, and the end of the name; or the whole
name between angle brackets; or nothing, for a node that is to be read as if it had no quotes. In
names a percent sign stands in front of the two digits of a byte.

Main results:

- Definition `Tag.ofName`: the kind of value that the name of a tag stands for.
- Definition `TagMark.read`: the mark of a tag at the beginning of a text.
- Theorem `readName_suffix`: what follows a name is the end of the text.
-/

namespace ImemReplay
namespace Document

/-- The kinds of values that a node may be tagged as. -/
inductive Tag where
  | text
  | nothing
  | truth
  | whole
  | real
  | timestamp
  | list
  | fields
  /-- The key whose fields are taken into the fields around it. -/
  | merge
  /-- The key that stands for the value itself. -/
  | equals
  /-- A kind that nothing is read as. -/
  | other
deriving DecidableEq, Repr, Inhabited

namespace Tag

/-- Whether a tag is one of lists or fields. -/
def isCollection (tag : Tag) : Bool := tag = list || tag = fields

/-- What the names of common tags begin with. -/
def commonStart : String := "tag:yaml.org,2002:"

/-- The common tags by the ends of their names. -/
def common : List (String × Tag) :=
  [("str", text), ("null", nothing), ("bool", truth), ("int", whole), ("float", real),
    ("timestamp", timestamp), ("seq", list), ("map", fields), ("merge", merge), ("value", equals)]

/-- The tag of a name. -/
def ofName (name : String) : Tag :=
  ((common.find? fun entry => commonStart ++ entry.1 = name).map (·.2)).getD other

/-- The characters of the names of handles, anchors and directives. -/
def isNameChar (c : Char) : Bool := c.isAlphanum || c = '-' || c = '_'

/-- The characters of the name of a tag, the percent sign apart. -/
def isTagChar (c : Char) : Bool := isNameChar c || c ∈ ";/?:@&=+$,.!~*'()[]".toList

/-- Whether a part of a line can end here, where no tab is a blank. -/
def endsPart : List Char → Bool
  | [] => true
  | c :: _ => c = ' ' || isBreak c

/-- The characters that bytes make up. -/
def decoded? (bytes : ByteArray) : Option (List Char) := (String.fromUTF8? bytes).map String.toList

/-- The longest run of the characters of a name, and what follows it. A percent sign stands in front
of the two digits of a byte; `bytes` are those directly in front, which must make up characters
where they end. -/
def readRun (bytes : ByteArray) : List Char → Option (List Char × List Char)
  | [] => (decoded? bytes).map (·, [])
  | c :: cs =>
    if c = '%' then
      match cs with
      | high :: low :: rest =>
        match hexValue? high, hexValue? low with
        | some high, some low => readRun (bytes.push (UInt8.ofNat (16 * high + low))) rest
        | _, _ => none
      | _ => none
    else
      match decoded? bytes with
      | none => none
      | some front =>
        if isTagChar c then (readRun ⟨#[]⟩ cs).map fun (name, rest) => (front ++ c :: name, rest)
        else some (front, c :: cs)

/-- A name, which is not empty, and what follows it. -/
def readName (cs : List Char) : Option (String × List Char) :=
  match readRun ⟨#[]⟩ cs with
  | some (name, rest) =>
    if rest.length < cs.length then some (String.ofList name, rest) else none
  | none => none

/-- A handle, and what follows it: an exclamation mark in front of a blank, or two of them around a
name that may be empty. -/
def readHandle : List Char → Option (String × List Char)
  | '!' :: ' ' :: rest => some ("!", ' ' :: rest)
  | '!' :: rest =>
    match rest.dropWhile isNameChar with
    | '!' :: after => some (String.ofList ('!' :: rest.takeWhile isNameChar ++ ['!']), after)
    | _ => none
  | _ => none

theorem readRun_suffix {bytes : ByteArray} {cs name rest : List Char}
    (h : readRun bytes cs = some (name, rest)) : rest <:+ cs := by
  fun_induction readRun bytes cs generalizing name rest with
  | case1 bytes =>
    obtain ⟨front, -, heq⟩ := Option.map_eq_some_iff.1 h
    exact (Prod.mk.inj heq).2 ▸ List.suffix_rfl
  | case2 bytes high low tail a b ha hb ih =>
    exact (ih h).trans ((List.suffix_cons _ _).trans
      ((List.suffix_cons _ _).trans (List.suffix_cons _ _)))
  | case3 => simp at h
  | case4 => simp at h
  | case5 => simp at h
  | case6 bytes c tail hpercent front hfront hchar ih =>
    obtain ⟨⟨inner, after⟩, hrun, heq⟩ := Option.map_eq_some_iff.1 h
    exact (Prod.mk.inj heq).2 ▸ (ih hrun).trans (List.suffix_cons _ _)
  | case7 bytes c tail hpercent front hfront hchar =>
    simp only [Option.some.injEq, Prod.mk.injEq] at h
    exact h.2 ▸ List.suffix_rfl

theorem readName_suffix {cs rest : List Char} {name : String}
    (h : readName cs = some (name, rest)) : rest <:+ cs := by
  simp only [readName] at h
  split at h
  · next hrun =>
    split at h
    · simp only [Option.some.injEq, Prod.mk.injEq] at h
      exact h.2 ▸ readRun_suffix hrun
    · simp at h
  · simp at h

theorem readHandle_suffix {cs rest : List Char} {name : String}
    (h : readHandle cs = some (name, rest)) : rest <:+ cs := by
  unfold readHandle at h
  split at h
  · simp only [Option.some.injEq, Prod.mk.injEq] at h
    exact h.2 ▸ List.suffix_cons _ _
  · next tail _ =>
    split at h
    · next after hafter =>
      simp only [Option.some.injEq, Prod.mk.injEq] at h
      have hdrop : tail.dropWhile isNameChar <:+ tail := List.dropWhile_suffix _
      rw [hafter] at hdrop
      exact h.2 ▸ ((List.suffix_cons _ _).trans hdrop).trans (List.suffix_cons _ _)
    · simp at h
  · simp at h

end Tag

/-- The mark of a tag as it is written. -/
structure TagMark where
  /-- What stands for the beginning of the name, unless the name is written as a whole. -/
  handle? : Option String
  /-- The end of the name. -/
  name : String
deriving DecidableEq, Repr, Inhabited

namespace TagMark

/-- The name of the mark that stands alone. -/
def alone : String := "!"

/-- A name between angle brackets, behind the first one. -/
def readWhole (cs : List Char) : Option (TagMark × List Char) :=
  match Tag.readName cs with
  | some (name, '>' :: rest) => some (⟨none, name⟩, rest)
  | _ => none

/-- A handle and a name. The handle is a single exclamation mark if no other follows. -/
def readParts (cs : List Char) : Option (TagMark × List Char) := do
  let word := (cs.drop 1).takeWhile fun c => !Tag.endsPart [c]
  let (handle, rest) ← if '!' ∈ word then Tag.readHandle cs else some ("!", cs.drop 1)
  let (name, rest) ← Tag.readName rest
  return (⟨some handle, name⟩, rest)

/-- The mark of a tag at the beginning of a text, and what follows it. -/
def read (cs : List Char) : Option (TagMark × List Char) := do
  let (mark, rest) ←
    match cs with
    | '!' :: '<' :: rest => readWhole rest
    | '!' :: rest => if atBoundary rest then some (⟨none, alone⟩, rest) else readParts cs
    | _ => none
  if Tag.endsPart rest then return (mark, rest) else none

/-- The name of the tag, for handles with what they stand for. A handle must stand for something. -/
def fullName? (handles : List (String × String)) (mark : TagMark) : Option String :=
  match mark.handle? with
  | none => some mark.name
  | some handle => (handles.lookup handle).map (· ++ mark.name)

/-- The handles of a document that names none. -/
def commonHandles : List (String × String) := [("!", "!"), ("!!", Tag.commonStart)]

example : (read "!!int 3".toList).map (fun result => result.1.fullName? commonHandles) =
    some (some "tag:yaml.org,2002:int") := by
  decide +kernel

end TagMark
end Document
end ImemReplay
