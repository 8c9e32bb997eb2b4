import ImemReplay.Document.PlainScalar
import ImemReplay.Document.Tag

/-!
# Directives

A line in front of a document that begins with a percent sign is a directive. One names the version
of the grammar, one names a handle for the tags of the document, and any other is passed over. A
comment may follow on the line. A document that names its version twice, another major version than
the first, or a handle twice cannot be read.

Main results:

- Definition `Directive.read`: the directive at the beginning of a text.
- Theorem `Directive.read_suffix`: what follows a directive is the end of the text.
- Definition `Preamble.add`: what is known behind a directive.
- Theorem `Preamble.add_version`: a version can follow exactly if it is the first and has major one.
-/

namespace ImemReplay
namespace Document

/-- What a directive says. -/
inductive Directive where
  /-- The version of the grammar; the minor version has no meaning. -/
  | version (major : Nat)
  /-- A handle that stands for the beginning of tags. -/
  | handle (name start : String)
  /-- A directive of another name. -/
  | other
deriving DecidableEq, Repr, Inhabited

namespace Directive

/-- A number, and what follows it. -/
def number (cs : List Char) : Except Fault (Nat × List Char) :=
  let digits := cs.takeWhile Char.isDigit
  if digits.isEmpty then .error .malformed
  else (PlainScalar.decimalValue digits).map fun n => (n, cs.dropWhile Char.isDigit)

/-- A version: two numbers around a point. -/
def readVersion (cs : List Char) : Except Fault (Directive × List Char) := do
  let (major, rest) ← number cs
  match rest with
  | '.' :: rest =>
    let (_, rest) ← number rest
    if Tag.endsPart rest then return (version major, rest) else throw .malformed
  | _ => throw .malformed

/-- A handle, and behind blanks what it stands for. -/
def readTag (cs : List Char) : Option (Directive × List Char) := do
  let (name, rest) ← Tag.readHandle cs
  if rest.head? ≠ some ' ' then none
  else
    let (start, rest) ← Tag.readName (rest.dropWhile (· = ' '))
    if Tag.endsPart rest then some (handle name start, rest) else none

/-- What a directive of a name says, and what follows it. -/
def readNamed (name : String) (cs : List Char) : Except Fault (Directive × List Char) :=
  if name = "YAML" then readVersion (cs.dropWhile (· = ' '))
  else if name = "TAG" then
    match readTag (cs.dropWhile (· = ' ')) with
    | some result => .ok result
    | none => .error .malformed
  else .ok (other, cs.dropWhile fun c => !isBreak c)

/-- The directive at the beginning of a text behind its percent sign, and what follows its line. -/
def read (cs : List Char) : Except Fault (Directive × List Char) := do
  let name := cs.takeWhile Tag.isNameChar
  let rest := cs.dropWhile Tag.isNameChar
  if name.isEmpty || !Tag.endsPart rest then throw .malformed
  let (directive, rest) ← readNamed (String.ofList name) rest
  match dropLine rest with
  | some rest => return (directive, rest)
  | none => throw .malformed

/-! ### What follows a part is the end of the text -/

theorem number_suffix {cs rest : List Char} {n : Nat} (h : number cs = .ok (n, rest)) :
    rest <:+ cs := by
  simp only [number] at h
  split at h
  · simp at h
  · cases hvalue : PlainScalar.decimalValue (cs.takeWhile Char.isDigit) with
    | error fault => simp [hvalue, Except.map] at h
    | ok value =>
      simp only [hvalue, Except.map, Except.ok.injEq, Prod.mk.injEq] at h
      exact h.2 ▸ List.dropWhile_suffix _

theorem readVersion_suffix {cs rest : List Char} {directive : Directive}
    (h : readVersion cs = .ok (directive, rest)) : rest <:+ cs := by
  simp only [readVersion, bind, Except.bind] at h
  split at h
  · simp at h
  · next hmajor =>
    have hfirst := number_suffix hmajor
    split at h
    · next hpoint =>
      rw [hpoint] at hfirst
      split at h
      · simp at h
      · next hminor =>
        have hsecond := number_suffix hminor
        split at h
        · simp only [pure, Except.pure, Except.ok.injEq, Prod.mk.injEq] at h
          exact h.2 ▸ (hsecond.trans (List.suffix_cons _ _)).trans hfirst
        · simp [throw, throwThe, MonadExceptOf.throw] at h
    · simp [throw, throwThe, MonadExceptOf.throw] at h

theorem readTag_suffix {cs rest : List Char} {directive : Directive}
    (h : readTag cs = some (directive, rest)) : rest <:+ cs := by
  simp only [readTag, bind, Option.bind_eq_some_iff] at h
  obtain ⟨⟨name, tail⟩, hhandle, h⟩ := h
  split at h
  · simp at h
  · obtain ⟨⟨start, after⟩, hname, h⟩ := Option.bind_eq_some_iff.1 h
    split at h
    · simp only [Option.some.injEq, Prod.mk.injEq] at h
      exact h.2 ▸ ((Tag.readName_suffix hname).trans (List.dropWhile_suffix _)).trans
        (Tag.readHandle_suffix hhandle)
    · simp at h

theorem readNamed_suffix {name : String} {cs rest : List Char} {directive : Directive}
    (h : readNamed name cs = .ok (directive, rest)) : rest <:+ cs := by
  simp only [readNamed] at h
  split at h
  · exact (readVersion_suffix h).trans (List.dropWhile_suffix _)
  · split at h
    · split at h
      · next hresult =>
        simp only [Except.ok.injEq] at h
        exact (readTag_suffix (h ▸ hresult)).trans (List.dropWhile_suffix _)
      · simp at h
    · simp only [Except.ok.injEq, Prod.mk.injEq] at h
      exact h.2 ▸ List.dropWhile_suffix _

theorem read_suffix {cs rest : List Char} {directive : Directive}
    (h : read cs = .ok (directive, rest)) : rest <:+ cs := by
  simp only [read, bind, Except.bind] at h
  split at h
  · simp at h
  · split at h
    · simp at h
    · next hnamed =>
      split at h
      · next hline =>
        simp only [pure, Except.pure, Except.ok.injEq, Prod.mk.injEq] at h
        exact h.2 ▸ ((dropLine_suffix hline).trans (readNamed_suffix hnamed)).trans
          (List.dropWhile_suffix _)
      · simp [throw, throwThe, MonadExceptOf.throw] at h

end Directive

/-- What the directives in front of a document have said. -/
structure Preamble where
  /-- Whether they have named a version. -/
  hasVersion : Bool := false
  /-- The handles that they have named, with what these stand for. -/
  handles : List (String × String) := []
deriving DecidableEq, Repr

namespace Preamble

/-- Takes in a directive. -/
def add (p : Preamble) : Directive → Except Fault Preamble
  | .version major =>
    if p.hasVersion || major ≠ 1 then .error .malformed else .ok { p with hasVersion := true }
  | .handle name start =>
    if (p.handles.lookup name).isSome then .error .malformed
    else .ok { p with handles := (name, start) :: p.handles }
  | .other => .ok p

theorem add_version {p q : Preamble} {major : Nat} :
    p.add (.version major) = .ok q ↔
      p.hasVersion = false ∧ major = 1 ∧ q = { p with hasVersion := true } := by
  by_cases hversion : p.hasVersion = true <;> by_cases hmajor : major = 1 <;>
    simp [add, hversion, hmajor, eq_comm]

/-- All handles of the document; those that are not named have their common meaning. -/
def allHandles (p : Preamble) : List (String × String) := p.handles ++ TagMark.commonHandles

end Preamble

example : (Directive.read "YAML 1.2 # text\n---".toList).toOption =
    some (.version 1, "---".toList) := by
  decide +kernel

example : (Directive.read "TAG !e! tag:e,%C3%A9:\n".toList).toOption =
    some (.handle "!e!" "tag:e,é:", []) := by
  decide +kernel

example : (Directive.read "YAML 1\n".toList).toOption = none := by decide +kernel

end Document
end ImemReplay
