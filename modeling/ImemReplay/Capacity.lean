import ImemReplay.Fault

/-!
# Capacity

Lists are indexed by machine words and kept in memory.  An integer beyond the words is no index at
all, and a list needs room.  How much room there is depends on the machine: a `Memory` tells of
which sizes lists can be kept at the same time, and everything that makes a list of a given size
asks it.  What is only as long as something that is there already, such as a text or the literals
of a frame, is not asked for.

Main results:

- Theorem `isIndex_of_range` and theorem `isWritable_of_le`: the numbers of the places of a list are
  indexes, and can be written.
- Theorem `demand_eq_ok_iff`: lists can be made if their sizes are words and there is room.
- Theorem `demand_eq_error`: the faults of lists that cannot be made.
-/

namespace ImemReplay
namespace Capacity

/-- The words are the integers from its negation on that are below this number. -/
def wordBound : Int := 9223372036854775808

/-- Whether an integer can be an index, be it one from the end. -/
def isIndex (i : Int) : Bool := -wordBound ≤ i ∧ i < wordBound

theorem isIndex_iff {i : Int} : isIndex i = true ↔ -wordBound ≤ i ∧ i < wordBound := by
  simp only [isIndex, decide_eq_true_eq]

theorem isIndex_of_range {i : Int} (hlow : 0 ≤ i) (hhigh : i < wordBound) : isIndex i = true := by
  rw [isIndex_iff]
  simp only [wordBound] at *
  omega

/-- A number of a place, and a literal on it, do not have too many digits. -/
theorem isWritable_of_le {i : Int} (hlow : 0 ≤ i) (hhigh : i ≤ 2 * wordBound) :
    Text.isWritable i = true := by
  have hsmall : i.natAbs < 100000000000000000000 := by
    simp only [wordBound] at hhigh
    omega
  exact Text.isWritable_of_lt (show 0 < 20 by decide) (by decide) hsmall

end Capacity

/-- What there is room for. -/
class Memory where
  /-- Whether lists of the given sizes can be kept at the same time. -/
  holds : List Int → Bool
  /-- The places of a list are numbered by words. -/
  lt_wordBound : ∀ {sizes size}, holds sizes = true → size ∈ sizes → size < Capacity.wordBound
  /-- Lists without places need no room. -/
  holds_of_nonpos : ∀ {sizes}, (∀ size ∈ sizes, size ≤ 0) → holds sizes = true
  /-- Fewer lists need no more room. -/
  holds_sublist : ∀ {fewer sizes}, fewer.Sublist sizes → holds sizes = true → holds fewer = true
  /-- A shorter list needs no more room. -/
  holds_of_le : ∀ {size longer}, size ≤ longer → holds [longer] = true → holds [size] = true

/-- The memory of a run that is given no other one: it has room for some lists of up to `2 ^ 30`
places. -/
instance Memory.standard : Memory where
  holds sizes := sizes.all (· ≤ 1073741824)
  lt_wordBound := by
    intro sizes size hholds hsize
    have hle := of_decide_eq_true (List.all_eq_true.1 hholds size hsize)
    simp only [Capacity.wordBound]
    omega
  holds_of_nonpos := by
    intro sizes hsizes
    apply List.all_eq_true.2
    intro size hsize
    have hle := hsizes size hsize
    exact decide_eq_true (by omega)
  holds_sublist := by
    intro fewer sizes hsub hholds
    apply List.all_eq_true.2
    intro size hsize
    exact List.all_eq_true.1 hholds size (hsub.subset hsize)
  holds_of_le := by
    intro size longer hle hholds
    simp only [List.all_cons, List.all_nil, Bool.and_true, decide_eq_true_eq] at *
    omega

namespace Capacity

variable [Memory] {sizes : List Int} {fault : Fault}

/-- Asks for lists of the given sizes. -/
def demand (sizes : List Int) : Except Fault Unit :=
  if sizes.all isIndex then
    if Memory.holds sizes then .ok () else .error .memory
  else .error .unbounded

theorem demand_eq_ok_iff :
    demand sizes = .ok () ↔ (∀ size ∈ sizes, isIndex size = true) ∧ Memory.holds sizes = true := by
  unfold demand
  rw [← List.all_eq_true]
  by_cases hindex : sizes.all isIndex = true
  · by_cases hholds : Memory.holds sizes = true
    · simp [hindex, hholds]
    · simp [hindex, hholds]
  · simp [hindex]

/-- Lists whose sizes are not negative can be made if there is room. -/
theorem demand_eq_ok_iff_of_nonneg (h : ∀ size ∈ sizes, 0 ≤ size) :
    demand sizes = .ok () ↔ Memory.holds sizes = true := by
  rw [demand_eq_ok_iff, and_iff_right_iff_imp]
  intro hholds size hsize
  exact isIndex_of_range (h size hsize) (Memory.lt_wordBound hholds hsize)

/-- Without room the fault is about memory, unless a size is no word. -/
theorem demand_of_no_room (h : Memory.holds sizes = false) :
    demand sizes = .error (if sizes.all isIndex then .memory else .unbounded) := by
  unfold demand
  rw [h]
  cases sizes.all isIndex <;> rfl

theorem demand_eq_error (h : demand sizes = .error fault) :
    fault = .memory ∨ fault = .unbounded := by
  unfold demand at h
  split at h
  · split at h
    · cases h
    · exact Or.inl (Except.error.inj h).symm
  · exact Or.inr (Except.error.inj h).symm

end Capacity
end ImemReplay
