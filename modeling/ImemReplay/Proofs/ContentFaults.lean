import ImemReplay.Capacity
import ImemReplay.Document.Value
import Mathlib.Data.List.Forall2

/-!
# Faults of a file's content

What is read from a document may fail in many places: a field is missing, a value is no integer, a
list has no room.  A fault of two steps is one of the first or one of the second, and a fault of a
pass over a list is one of an element; with these a fault is followed to the value that it comes
from.  A fault in a file names the file.

Main results:

- Theorem `names_inFile`: the text of a fault in a file begins with the path.
- Theorem `exists_of_mapM_error`: where a fault of a pass over a list comes from.
- Theorem `ofContent_of_toInt`: the groups of faults of what stands for no integer.
-/

namespace ImemReplay

/-! ## Faults that name a file -/

namespace Fault

/-- The fault is one of an invalid value, and its text begins with the path of a file. -/
def Names (path : String) (fault : Fault) : Prop :=
  fault.kind = .invalidValue ∧ ∃ text, fault.reported.message? = some (path ++ ": " ++ text)

/-- Faults of invalid values have a text. -/
theorem exists_message {fault : Fault} (h : fault.kind = .invalidValue) :
    ∃ text, fault.message? = some text := by
  induction fault with
  | inFile path cause ih =>
    rcases ih h with ⟨text, htext⟩
    refine ⟨s!"{path}: {text}", ?_⟩
    rw [message?, htext]
    rfl
  | _ => simp_all [kind, message?]

/-- A fault that is reported in place of another one stays in the file. -/
theorem reported_inFile (path : String) (cause : Fault) :
    (inFile path cause).reported = inFile path cause.reported := by
  by_cases hshown : cause.shown.all Text.isWritable = true
  · rw [reported_eq_self hshown]
    exact reported_eq_self hshown
  · have houter : (inFile path cause).reported = (inFile path cause).unwritten := if_neg hshown
    have hinner : cause.reported = cause.unwritten := if_neg hshown
    rw [houter, hinner, unwritten]

/-- A fault in a file names the file. -/
theorem names_inFile (path : String) {cause : Fault} (h : cause.kind = .invalidValue) :
    (inFile path cause).Names path := by
  refine ⟨h, ?_⟩
  have hkind : cause.reported.kind = .invalidValue := by
    unfold reported
    split
    · exact h
    · exact kind_unwritten
  rcases exists_message hkind with ⟨text, htext⟩
  refine ⟨text, ?_⟩
  rw [reported_inFile, message?, htext]
  rfl

end Fault

/-! ## Passes over lists -/

section Passes

variable {α β : Type} {fault : Fault}

/-- A fault of a pass over a list is one of an element. -/
theorem exists_of_mapM_error {f : α → Except Fault β} {xs : List α}
    (h : xs.mapM f = .error fault) : ∃ x ∈ xs, f x = .error fault := by
  induction xs with
  | nil => cases h
  | cons x xs ih =>
    rw [List.mapM_cons, bind_eq_error_iff] at h
    rcases h with hx | ⟨y, -, h⟩
    · exact ⟨x, List.mem_cons_self, hx⟩
    · rw [bind_eq_error_iff] at h
      rcases h with hxs | ⟨ys, -, h⟩
      · rcases ih hxs with ⟨z, hz, hfault⟩
        exact ⟨z, List.mem_cons_of_mem x hz, hfault⟩
      · cases h

/-- A pass over a list that succeeds has the results of the elements. -/
theorem forall₂_of_mapM_ok {f : α → Except Fault β} {xs : List α} {ys : List β}
    (h : xs.mapM f = .ok ys) : List.Forall₂ (fun x y => f x = .ok y) xs ys := by
  induction xs generalizing ys with
  | nil =>
    cases h
    exact .nil
  | cons x xs ih =>
    rw [List.mapM_cons, bind_eq_ok_iff] at h
    rcases h with ⟨y, hx, h⟩
    rcases bind_eq_ok_iff.1 h with ⟨rest, hxs, hdone⟩
    cases hdone
    exact .cons hx (ih hxs)

/-- A result of a pass over a list is that of the element at its index. -/
theorem exists_of_getElem?_mapM {f : α → Except Fault β} {xs : List α} {ys : List β} {index : Nat}
    {y : β} (h : xs.mapM f = .ok ys) (hy : ys[index]? = some y) :
    ∃ x, xs[index]? = some x ∧ f x = .ok y := by
  rcases List.forall₂_iff_get.1 (forall₂_of_mapM_ok h) with ⟨hlength, hresults⟩
  rcases List.getElem?_eq_some_iff.1 hy with ⟨hindex, rfl⟩
  have hbefore : index < xs.length := by omega
  exact ⟨xs[index], List.getElem?_eq_getElem hbefore, hresults index hbefore hindex⟩

end Passes

namespace Value

/-- An optional field is found, or the default stands for it. -/
theorem fieldD_fields (entries : Fields) (key : String) (default : Value) :
    (fields entries).fieldD key default =
      .ok (((fields entries).field key).toOption.getD default) := by
  cases hfind : Fields.find? (.text key) entries with
  | none => simp [fieldD, field, hfind, Except.toOption]
  | some v => simp [fieldD, field, hfind, Except.toOption]

/-- The value of an optional field is that of the field, or the one that stands for its absence. -/
theorem fieldD_eq_ok {doc v default : Value} {key : String}
    (h : doc.fieldD key default = .ok v) : doc.field key = .ok v ∨ v = default := by
  cases doc with
  | scalar s => cases h
  | list items => cases h
  | fields entries =>
    simp only [fieldD, Except.ok.injEq] at h
    simp only [field]
    cases hfind : Fields.find? (.text key) entries with
    | none =>
      rw [hfind] at h
      exact Or.inr h.symm
    | some w =>
      rw [hfind] at h
      exact Or.inl (congrArg Except.ok h)

/-- What has a field can be asked for another one. -/
theorem fieldD_ne_error {doc v default : Value} {key other : String} {fault : Fault}
    (h : doc.field other = .ok v) : doc.fieldD key default ≠ .error fault := by
  cases doc with
  | scalar s => cases h
  | list items => cases h
  | fields entries => simp [fieldD]

/-- What follows an optional integer fails because of the field, or for the integer that stands
for its absence. -/
theorem optional_eq_error {α : Type} {doc v : Value} {key other : String} {default : Int}
    {fault : Fault} {f : Int → Except Fault α} (hfield : doc.field other = .ok v)
    (h : (doc.fieldD key (whole default) >>= fun w => w.toInt >>= f) = .error fault) :
    (∃ w, doc.field key = .ok w ∧
        (w.toInt = .error fault ∨ ∃ i, w.toInt = .ok i ∧ f i = .error fault)) ∨
      f default = .error fault := by
  rcases bind_eq_error_iff.1 h with hmissing | ⟨w, hw, h⟩
  · exact absurd hmissing (fieldD_ne_error hfield)
  · rcases fieldD_eq_ok hw with hpresent | rfl
    · exact Or.inl ⟨w, hpresent, bind_eq_error_iff.1 h⟩
    · exact Or.inr h

end Value

/-! ## Groups of faults -/

/-- The groups of faults that the content of a file can cause. -/
def Fault.OfContent (fault : Fault) : Prop :=
  fault.kind = .invalidValue ∨ fault.kind = .wrongType ∨ fault.kind = .overflow ∨
    fault.kind = .outOfMemory

/-- A fault that is reported in place of one of these is one of these. -/
theorem Fault.OfContent.reported {fault : Fault} (h : fault.OfContent) :
    fault.reported.OfContent := by
  unfold Fault.reported
  split
  · exact h
  · exact Or.inl kind_unwritten

/-- Lists that cannot be made exceed the words or the memory. -/
theorem Capacity.ofContent_of_demand [Memory] {sizes : List Int} {fault : Fault}
    (h : demand sizes = .error fault) : fault.OfContent := by
  rcases demand_eq_error h with rfl | rfl
  · exact Or.inr (Or.inr (Or.inr rfl))
  · exact Or.inr (Or.inr (Or.inl rfl))

namespace Value

/-- The groups of faults of a scalar that stands for no integer. -/
theorem ofContent_of_scalarToInt {s : Scalar} {fault : Fault} (h : scalarToInt s = .error fault) :
    fault.OfContent := by
  unfold scalarToInt at h
  split at h
  · cases h
  · cases h
  · split at h
    · cases h
    · split at h
      · cases h
        exact Or.inl rfl
      · cases h
        exact Or.inr (Or.inr (Or.inl rfl))
  · split at h
    · cases h
      exact Or.inl rfl
    · cases h
    · cases h
      exact Or.inl rfl
  · cases h
    exact Or.inr (Or.inl rfl)
  · cases h
    exact Or.inr (Or.inl rfl)

/-- The groups of faults of a value that stands for no integer. -/
theorem ofContent_of_toInt {v : Value} {fault : Fault} (h : v.toInt = .error fault) :
    fault.OfContent := by
  cases v with
  | scalar s => exact ofContent_of_scalarToInt h
  | list items =>
    cases h
    exact Or.inr (Or.inl rfl)
  | fields entries =>
    cases h
    exact Or.inr (Or.inl rfl)

/-- What has no parts is of the wrong type. -/
theorem items_eq_error {v : Value} {fault : Fault} (h : v.items = .error fault) :
    fault = .wrongType := by
  unfold items at h
  split at h <;> cases h
  rfl

end Value

end ImemReplay
