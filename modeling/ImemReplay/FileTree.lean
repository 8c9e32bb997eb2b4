import ImemReplay.Document.Reading
import ImemReplay.Path

/-!
# File trees

A file tree holds texts at places, which are lists of names from the root, and the place from
which relative paths are followed. A file that is written takes the place of what was there. Names
are bytes: a surrogate of a certain range stands for a byte that belongs to no character, and no
path has another surrogate.

Main results:

- Theorem `encodingFault?_eq_none_iff`: a path can be asked for only if all its code points have
  bytes.
- Theorem `find?_insert_self`: a text that was stored is found.
- Theorem `find?_insert_of_ne`: storing a text changes no other file.
-/

namespace ImemReplay

/-- The files that can be read and written. -/
structure FileTree where
  /-- The place from which relative paths are followed. -/
  here : List String
  /-- Directories that exist whether or not they hold a file. -/
  directories : List (List String) := []
  /-- The files with their texts. -/
  files : List (List String × String) := []
deriving DecidableEq, Repr

namespace FileTree

/-- The text of the file at a place. -/
def find? (t : FileTree) (place : List String) : Option String :=
  (t.files.find? fun file => file.1 = place).map (·.2)

/-- Whether a place is a directory: on the way to where relative paths start, to a directory, or
to a file. -/
def isDirectory (t : FileTree) (place : List String) : Bool :=
  place.isPrefixOf t.here || t.directories.any place.isPrefixOf ||
    t.files.any fun file => place.isPrefixOf file.1 && place ≠ file.1

/-- Puts a text into a list of files, over the file at the same place or behind all others. -/
def store (place : List String) (text : String) :
    List (List String × String) → List (List String × String)
  | [] => [(place, text)]
  | file :: files =>
    if file.1 = place then (place, text) :: files else file :: store place text files

/-- Stores a text at a place. -/
def insert (t : FileTree) (place : List String) (text : String) : FileTree :=
  { t with files := store place text t.files }

theorem find?_store_self {place : List String} {text : String}
    {files : List (List String × String)} :
    (store place text files).find? (fun file => file.1 = place) = some (place, text) := by
  induction files with
  | nil => simp [store]
  | cons file files ih =>
    by_cases hfile : file.1 = place <;> simp [store, hfile, ih]

theorem find?_store_of_ne {place other : List String} {text : String}
    {files : List (List String × String)} (h : other ≠ place) :
    (store place text files).find? (fun file => file.1 = other) =
      files.find? (fun file => file.1 = other) := by
  induction files with
  | nil => simpa [store] using h.symm
  | cons file files ih =>
    by_cases hfile : file.1 = place
    · have hother : file.1 ≠ other := fun heq => h (heq.symm.trans hfile)
      simp [store, hfile, h.symm]
    · simp [store, hfile, List.find?_cons, ih]

@[simp]
theorem find?_insert_self {t : FileTree} {place : List String} {text : String} :
    (t.insert place text).find? place = some text := by
  simp [find?, insert, find?_store_self]

theorem find?_insert_of_ne {t : FileTree} {place other : List String} {text : String}
    (h : other ≠ place) : (t.insert place text).find? other = t.find? other := by
  simp [find?, insert, find?_store_of_ne h]

/-- Where a name leads from a place: a dot and an empty name stay, a double dot goes back. -/
def child (place : List String) (name : String) : List String :=
  if name = "" ∨ name = "." then place
  else if name = ".." then place.dropLast
  else place ++ [name]

/-- Whether a code point has bytes. Of the surrogates only those that stand for one byte have. -/
def hasBytes (n : Nat) : Bool := !Text.isSurrogate n || (0xDC80 ≤ n ∧ n < 0xDD00)

/-- The fault of a path whose first code points, `index` of them, have bytes, if one of those behind
them has none. Surrogates that follow it are part of the fault. -/
def encodingFault? (index : Nat) : List Nat → Option Fault
  | [] => none
  | n :: ns =>
    if hasBytes n then encodingFault? (index + 1) ns
    else some (.pathEncoding n index (index + (ns.takeWhile Text.isSurrogate).length))

theorem encodingFault?_eq_none_iff {index : Nat} {ns : List Nat} :
    encodingFault? index ns = none ↔ ∀ n ∈ ns, hasBytes n = true := by
  induction ns generalizing index with
  | nil => simp [encodingFault?]
  | cons n ns ih => by_cases h : hasBytes n = true <;> simp [encodingFault?, h, ih]

/-- The number of bytes of a name or path. -/
def byteSize (s : String) : Nat :=
  (Text.codePoints s.toList).foldl
    (fun size n => size + if Text.isSurrogate n then 1 else (Char.ofNat n).utf8Size) 0

/-- The number of bytes that a name may have. -/
def nameLimit : Nat := 255

/-- The number of bytes that a written path may have. -/
def pathLimit : Nat := 4095

/-- Follows names from a place. Only the last of them may lead to what is no directory. -/
def follow (t : FileTree) (place : List String) : List String → Except Fault (List String)
  | [] => .ok place
  | name :: names =>
    if t.isDirectory place then
      if nameLimit < byteSize name then .error .pathSize
      else t.follow (child place name) names
    else if (t.find? place).isSome then .error .notADirectory
    else .error .fileMissing

/-- The place that a written path leads to. -/
def placeOf (t : FileTree) (path : String) : Except Fault (List String) :=
  match encodingFault? 0 (Text.codePoints path.toList) with
  | some fault => .error fault
  | none =>
    if '\x00' ∈ path.toList then .error .pathTerminator
    else if path = "" then .error .fileMissing
    else if pathLimit < byteSize path then .error .pathSize
    else
      t.follow (if PathStart.ofChars path.toList = .here then t.here else [])
        ((Text.parts '/' path.toList).map String.ofList)

/-- Whether a written path leads to a file or a directory. There is no answer for a path that is
too long. -/
def holds (t : FileTree) (path : String) : Except Fault Bool :=
  match t.placeOf path with
  | .ok place => .ok ((t.find? place).isSome || t.isDirectory place)
  | .error .pathSize => .error .pathSize
  | .error _ => .ok false

/-- The text of the file that a written path leads to. -/
def read (t : FileTree) (path : String) : Except Fault String := do
  let place ← t.placeOf path
  match t.find? place with
  | some text => return text
  | none => throw (if t.isDirectory place then .directoryOpened else .fileMissing)

/-- The place of the file that is written under a path. -/
def target (t : FileTree) (path : String) : Except Fault (List String) := do
  let place ← t.placeOf path
  if t.isDirectory place then throw .directoryOpened
  return place

/-- Writes a text to where a written path leads. -/
def write (t : FileTree) (path text : String) : Except Fault FileTree :=
  (t.target path).map fun place => t.insert place text

/-- The document in the file that a written path leads to. -/
def document (t : FileTree) (path : String) : Except Fault Value := do
  Value.ofText (← t.read path)

end FileTree
end ImemReplay
