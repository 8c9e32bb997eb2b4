import ImemReplay.Proofs.BlockingClause
import ImemReplay.Proofs.Pictures

/-!
# Pictures and last literals

No two inputs drive one bit, so a literal on one input never changes what a literal on another has
painted.  A picture therefore depends on nothing but the last literal of each declared and placed
input: frames that agree on these have one picture, and frames that differ on one of them have
pictures that differ in the character of its bit.

Main results:

- Theorem `exists_lastOf` and theorem `lastOf_of_unique`: the last literal on a variable.
- Theorem `SameLast.strokes_eq`: literals with the same last literals leave the same memory.
- Theorem `generalized_eq_iff_sameLast`: two pictures show the same rows exactly for frames with
  the same last literals.
- Theorem `SameLast.ofFrame_eq`: frames with the same literals, in an order that keeps the last
  ones, have one picture, or fail to have one in the same way.
-/

namespace ImemReplay

/-! ## The last literal on a variable -/

namespace Literal

variable {lits : List Int} {l id : Int}

/-- The last literal on a variable is one of the literals on it. -/
theorem mem_of_lastOf (h : lastOf lits id = some l) : l ∈ lits ∧ l / 2 = id := by
  have hmem := List.mem_filter.1 (List.mem_of_getLast? h)
  exact ⟨hmem.1, by simpa using hmem.2⟩

/-- A variable has no last literal exactly if there is no literal on it. -/
theorem lastOf_eq_none_iff : lastOf lits id = none ↔ ∀ l ∈ lits, l / 2 ≠ id := by
  unfold lastOf
  rw [List.getLast?_eq_none_iff, List.filter_eq_nil_iff]
  simp

/-- The variable of a literal has a last literal. -/
theorem exists_lastOf (hl : l ∈ lits) : ∃ last, lastOf lits (l / 2) = some last := by
  cases hlast : lastOf lits (l / 2) with
  | none => exact absurd rfl (lastOf_eq_none_iff.1 hlast l hl)
  | some last => exact ⟨last, rfl⟩

/-- The only literal on a variable is the last one. -/
theorem lastOf_of_unique (hl : l ∈ lits) (hunique : ∀ m ∈ lits, m / 2 = l / 2 → m = l) :
    lastOf lits (l / 2) = some l := by
  rcases exists_lastOf hl with ⟨last, hlast⟩
  rcases mem_of_lastOf hlast with ⟨hmem, hvar⟩
  rw [hlast, hunique last hmem hvar]

/-- Two literals of one variable and one polarity are the same. -/
theorem eq_of_assertsVariable_eq {m : Int} (hvar : l / 2 = m / 2)
    (hasserts : assertsVariable l = assertsVariable m) : l = m := by
  rw [eq_of_polarity l, eq_of_polarity m, hvar, hasserts]

end Literal

/-- The characters of the generalized view tell cells apart. -/
theorem Cell.generalized_injective {a b : Cell} (h : generalized a = generalized b) : a = b := by
  rcases a with _ | _ | _ <;> rcases b with _ | _ | _ <;> simp_all [generalized]

namespace Rendering

open Literal

variable {t : Placement} {nPis : Int}

/-! ## The last literal on a bit -/

/-- A bit without a declared input has no last literal. -/
theorem lastOn_eq_none {slot : Int} (h : ∀ input < nPis, t.slotAt? input ≠ some slot)
    (lits : List Int) : lastOn t nPis lits slot = none := by
  unfold lastOn
  rw [List.getLast?_eq_none_iff, List.filter_eq_nil_iff]
  intro l _ hl
  have htarget := Placement.target?_eq_some_iff.1 (of_decide_eq_true hl)
  exact h (l / 2) (Placement.keeps_iff.1 htarget.1).1 htarget.2

/-! ## Literals with the same last literals -/

/-- Two lists of literals have the same last literal on every declared input with a position. -/
def SameLast (t : Placement) (nPis : Int) (a b : List Int) : Prop :=
  ∀ {input slot : Int}, input < nPis → t.slotAt? input = some slot →
    lastOf a input = lastOf b input

section SameLast

variable {a b : List Int}

/-- They have the same last literal on every bit. -/
theorem SameLast.lastOn_eq (ht : t.WellFormed) (h : SameLast t nPis a b) (slot : Int) :
    lastOn t nPis a slot = lastOn t nPis b slot := by
  by_cases hdriven : ∃ input < nPis, t.slotAt? input = some slot
  · rcases hdriven with ⟨input, hdeclared, hslot⟩
    rw [lastOn_eq_lastOf ht hdeclared hslot, lastOn_eq_lastOf ht hdeclared hslot]
    exact h hdeclared hslot
  · have hfree : ∀ input < nPis, t.slotAt? input ≠ some slot := by
      intro input hdeclared hslot
      exact hdriven ⟨input, hdeclared, hslot⟩
    rw [lastOn_eq_none hfree, lastOn_eq_none hfree]

/-- They leave the same memory. -/
theorem SameLast.strokes_eq (ht : t.WellFormed) (h : SameLast t nPis a b) (cells : Array Cell) :
    strokes t nPis a cells = strokes t nPis b cells := by
  have hsize : (strokes t nPis a cells).size = (strokes t nPis b cells).size := by
    rw [size_strokes, size_strokes]
  apply Array.ext_getElem?
  intro i
  by_cases hi : i < cells.size
  · have hlow : (0 : Int) ≤ i := Int.natCast_nonneg i
    have hhigh : (i : Int) < cells.size := Int.ofNat_lt.2 hi
    have hcell := getElem?_strokes ht nPis a hlow hhigh
    have hcell' := getElem?_strokes ht nPis b hlow hhigh
    rw [← h.lastOn_eq ht] at hcell'
    exact hcell.trans hcell'.symm
  · rw [Array.getElem?_eq_none, Array.getElem?_eq_none]
    · rw [size_strokes]
      omega
    · rw [size_strokes]
      omega

end SameLast

section SameLits

variable {f g : Frame}

/-- Frames with the same literals have the same picture in every shape, if the literals have the
same last ones. -/
theorem SameLast.ofFrame_eq_ok_iff [Memory] (ht : t.WellFormed)
    (h : SameLast t nPis f.inputLits g.inputLits)
    (hmem : ∀ l, l ∈ f.inputLits ↔ l ∈ g.inputLits) (shape : Shape) (r : Rendering) :
    ofFrame t nPis shape f = .ok r ↔ ofFrame t nPis shape g = .ok r := by
  rw [Rendering.ofFrame_eq_ok_iff, Rendering.ofFrame_eq_ok_iff, h.strokes_eq ht]
  simp only [hmem]

/-- On the memory of the placement they paint the same, or fail in the same way. -/
theorem SameLast.paint_eq (ht : t.WellFormed) (h : SameLast t nPis f.inputLits g.inputLits)
    (hmem : ∀ l, l ∈ f.inputLits ↔ l ∈ g.inputLits) (hnonneg : ∀ l ∈ f.inputLits, 0 ≤ l) :
    paint t nPis f.inputLits (blank t.shape) = paint t nPis g.inputLits (blank t.shape) := by
  have hpainted (cells : Array Cell) : paint t nPis f.inputLits (blank t.shape) = .ok cells ↔
      paint t nPis g.inputLits (blank t.shape) = .ok cells := by
    rw [paint_eq_ok_iff, paint_eq_ok_iff, h.strokes_eq ht]
    simp only [hmem]
  cases hf : paint t nPis f.inputLits (blank t.shape) with
  | ok cells => exact ((hpainted cells).1 hf).symm
  | error fault =>
    cases hg : paint t nPis g.inputLits (blank t.shape) with
    | ok cells =>
      rw [(hpainted cells).2 hg] at hf
      contradiction
    | error other =>
      have hnonneg' : ∀ l ∈ g.inputLits, 0 ≤ l := fun l hl => hnonneg l ((hmem l).2 hl)
      rw [fault_of_paint hnonneg (slot_lt_size_blank ht) hf,
        fault_of_paint hnonneg' (slot_lt_size_blank ht) hg]

/-- In the shape of the placement they fail to have a picture in the same way. -/
theorem SameLast.ofFrame_eq [Memory] (ht : t.WellFormed)
    (h : SameLast t nPis f.inputLits g.inputLits)
    (hmem : ∀ l, l ∈ f.inputLits ↔ l ∈ g.inputLits) (hnonneg : ∀ l ∈ f.inputLits, 0 ≤ l) :
    ofFrame t nPis t.shape f = ofFrame t nPis t.shape g :=
  ofFrame_congr (h.paint_eq ht hmem hnonneg)

end SameLits

/-- Two pictures show the same rows exactly if their frames have the same last literals.  Where the
frames differ on an input, its bit tells their last literals apart. -/
theorem generalized_eq_iff_sameLast [Memory] (ht : t.WellFormed) {f g : Frame} {r r' : Rendering}
    (hf : ofFrame t nPis t.shape f = .ok r) (hg : ofFrame t nPis t.shape g = .ok r') :
    r.generalized = r'.generalized ↔ SameLast t nPis f.inputLits g.inputLits := by
  constructor
  · intro hrows input slot hdeclared hslot
    have hshown := shownAt_ofFrame ht hf hslot
    rw [hrows, shownAt_ofFrame ht hg hslot] at hshown
    -- The character of a bit gives its cell back, and with it the polarity of the last literal.
    have hcells := Cell.generalized_injective (Option.some.inj hshown)
    rw [lastOn_eq_lastOf ht hdeclared hslot, lastOn_eq_lastOf ht hdeclared hslot] at hcells
    cases hlast : lastOf f.inputLits input with
    | none =>
      rw [hlast] at hcells
      exact (Option.map_eq_none_iff.1 hcells).symm
    | some l =>
      rw [hlast] at hcells
      rcases Option.map_eq_some_iff.1 hcells with ⟨m, hm, hasserts⟩
      have hvar : l / 2 = m / 2 := by
        rw [(mem_of_lastOf hlast).2, (mem_of_lastOf hm).2]
      rw [hm, eq_of_assertsVariable_eq hvar hasserts.symm]
  · intro hsame
    rcases ofFrame_eq_ok hf with ⟨-, -, rfl⟩
    rcases ofFrame_eq_ok hg with ⟨-, -, rfl⟩
    rw [hsame.strokes_eq ht]

end Rendering
end ImemReplay
