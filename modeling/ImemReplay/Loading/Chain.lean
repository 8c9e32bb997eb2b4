import ImemReplay.FileTree
import ImemReplay.Frame

/-!
# Loading a chain

A chain is stored as a list under `frames`. Each frame is fields with its literals under `lits`,
and may have the length of its state segment under `n_lits`; without it the segment is empty.

Main results:

- Theorem `ofRows_append`: the frames of two lists of items are loaded one list after the other.
- Definition `ofDocument`: the chain in a document.
-/

namespace ImemReplay

/-- The frame in an item of a list. -/
def Frame.ofValue (path : String) (index : Nat) (item : Value) : Except Fault Frame :=
  match item with
  | .fields _ =>
    match item.field "lits" with
    | .error _ => .error (.inFile path (.frameLiterals index))
    | .ok lits => do
      let lits ← (← lits.items).mapM Value.toInt
      let stateCount ← (← item.fieldD "n_lits" (.whole 0)).toInt
      Frame.ofLits lits stateCount
  | _ => .error (.inFile path (.frameKind index))

namespace Chain

/-- The frames in the items of a list from a number on. -/
def ofRows (path : String) (index : Nat) : List Value → Except Fault Chain
  | [] => .ok []
  | item :: items => do
    let frame ← Frame.ofValue path index item
    let frames ← ofRows path (index + 1) items
    return frame :: frames

theorem ofRows_append {path : String} {index : Nat} {front back : List Value} :
    ofRows path index (front ++ back) = do
      let frames ← ofRows path index front
      let rest ← ofRows path (index + front.length) back
      return frames ++ rest := by
  induction front generalizing index with
  | nil =>
    simp only [List.nil_append, ofRows, List.length_nil, Nat.add_zero]
    cases ofRows path index back <;> rfl
  | cons item front ih =>
    have hindex : index + 1 + front.length = index + (item :: front).length := by
      simp
      omega
    simp only [List.cons_append, ofRows, ih, hindex]
    cases Frame.ofValue path index item with
    | error fault => rfl
    | ok frame =>
      cases ofRows path (index + 1) front with
      | error fault => rfl
      | ok frames =>
        cases ofRows path (index + (item :: front).length) back <;> rfl

/-- The chain in a document. -/
def ofDocument (path : String) (doc : Value) : Except Fault Chain :=
  match doc.field "frames" with
  | .ok (.list items) => ofRows path 0 items
  | _ => .error (.inFile path .framesMissing)

/-- The chain in a file. -/
def load (t : FileTree) (path : String) : Except Fault Chain := do
  if ← t.holds (Path.tidy path) then
    ofDocument (Path.tidy path) (← t.document (Path.tidy path))
  else
    throw (.chainMissing (Path.tidy path))

end Chain
end ImemReplay
