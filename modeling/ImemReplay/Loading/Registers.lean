import ImemReplay.FileTree
import ImemReplay.Registers

/-!
# Loading registers

Registers are stored as a list under `registers`. Each of them is fields with the input under
`pi`, and may have its instruction under `inst` and its copy under `copy`. A register without an
instruction, or with a negative one, cannot be addressed.

Main results:

- Theorem `ofRows_length`: there is a register for each item.
- Definition `ofDocument`: the table in a document.
-/

namespace ImemReplay

/-- The instruction that a document stands for. -/
def Register.instOf (v : Value) : Except Fault (Option Int) :=
  match v with
  | .scalar .null => .ok none
  | v => do
    let inst ← v.toInt
    return if inst < 0 then none else some inst

/-- The register in an item of a list. -/
def Register.ofValue (path : String) (index : Nat) (item : Value) : Except Fault Register :=
  match item.field "pi" with
  | .error _ => .error (.inFile path (.registerEntry index))
  | .ok pi => do
    let inst ← Register.instOf (← item.fieldD "inst" .null)
    let pi ← pi.toInt
    let copy ← (← item.fieldD "copy" (.whole 0)).toInt
    return { inst, pi, copy }

namespace RegisterTable

/-- The registers in the items of a list from a number on. -/
def ofRows (path : String) (index : Nat) : List Value → Except Fault (List Register)
  | [] => .ok []
  | item :: items => do
    let register ← Register.ofValue path index item
    let registers ← ofRows path (index + 1) items
    return register :: registers

theorem ofRows_length {path : String} {index : Nat} {items : List Value}
    {registers : List Register} (h : ofRows path index items = .ok registers) :
    registers.length = items.length := by
  induction items generalizing index registers with
  | nil =>
    cases h
    rfl
  | cons item items ih =>
    simp only [ofRows] at h
    cases hitem : Register.ofValue path index item with
    | error fault => simp [hitem, bind, Except.bind] at h
    | ok register =>
      cases hrest : ofRows path (index + 1) items with
      | error fault => simp [hitem, hrest, bind, Except.bind] at h
      | ok rest =>
        simp only [hitem, hrest, bind, Except.bind, pure, Except.pure, Except.ok.injEq] at h
        subst h
        simp [ih hrest]

/-- The register table in a document. -/
def ofDocument (path : String) (doc : Value) : Except Fault RegisterTable :=
  match doc.field "registers" with
  | .ok (.list items) => do
    let registers ← ofRows path 0 items
    (ofList registers).mapError (.inFile path)
  | _ => .error (.inFile path .registersMissing)

/-- The register table in a file. -/
def load (t : FileTree) (path : String) : Except Fault RegisterTable := do
  if ← t.holds (Path.tidy path) then
    ofDocument path (← t.document (Path.tidy path))
  else
    throw (.tableMissing (Path.tidy path))

/-- The line printed for a loaded register table. -/
def loadedLine (t : RegisterTable) : String :=
  s!"[TABLE] registers: {t.length} entries\n"

end RegisterTable
end ImemReplay
