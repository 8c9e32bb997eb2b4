import ImemReplay.Proofs.LastLiterals

/-!
# Order of literals

The literals of a frame are painted one after the other on one memory.  Still the order matters only
among the literals of one variable, since two variables never share a bit.  A frame whose kept
literals do not contradict each other may have its literals in any order and any number of copies,
and these are the only frames with this property.

Main results:

- Theorem `Rearranged.sameLast`: an order that keeps the order on each variable keeps the last ones.
- Theorem `sameLast_of_mem_iff`: consistent literals have the same last ones in every order.
- Theorem `exists_perm_lastOf`: any of the literals on a variable is the last one in some order.
- Theorem `ofFrame_ignores_order`: which rearrangements leave the picture of a frame as it is.
-/

namespace ImemReplay

namespace Literal

/-- The same literals in another order, which keeps the order of the literals on each variable. -/
structure Rearranged (a b : List Int) : Prop where
  perm : a.Perm b
  order_eq : ∀ id, (a.filter fun l => l / 2 = id) = b.filter fun l => l / 2 = id

/-- A rearrangement keeps the last literal on each variable. -/
theorem Rearranged.lastOf_eq {a b : List Int} (h : Rearranged a b) (id : Int) :
    lastOf a id = lastOf b id := by
  unfold lastOf
  rw [h.order_eq id]

/-- Any of some literals is the last one on its variable if they are put in the right order. -/
theorem exists_perm_lastOf {lits : List Int} {l : Int} (hl : l ∈ lits) :
    ∃ others, lits.Perm (others ++ [l]) ∧ lastOf (others ++ [l]) (l / 2) = some l := by
  rcases List.append_of_mem hl with ⟨front, back, rfl⟩
  refine ⟨front ++ back, ?_, ?_⟩
  · rw [List.append_assoc]
    exact (List.perm_append_singleton l back).symm.append_left front
  · unfold lastOf
    rw [List.filter_append, List.filter_cons_of_pos (by simp), List.filter_nil,
      List.getLast?_concat]

end Literal

namespace Rendering

open Literal

variable {t : Placement} {nPis : Int} {f g : Frame}

/-! ## Literals in another order -/

/-- A rearrangement that keeps the order on each variable keeps the last literals. -/
theorem sameLast_of_rearranged {a b : List Int} (h : Rearranged a b) : SameLast t nPis a b := by
  intro input slot _ _
  exact h.lastOf_eq input

/-- Literals have the same last ones in every order and any number of copies, if the kept ones do
not contradict each other. -/
theorem sameLast_of_mem_iff {a b : List Int}
    (hconsistent : ¬Contradictory (a.filter (t.keeps nPis))) (hmem : ∀ l, l ∈ a ↔ l ∈ b) :
    SameLast t nPis a b := by
  intro input slot hdeclared hslot
  rcases Option.bind_eq_some_iff.1 hslot with ⟨place, hplace, -⟩
  have hkept : ∀ l ∈ a, l / 2 = input → l ∈ a.filter (t.keeps nPis) := by
    intro l hl hvar
    rw [← hvar] at hdeclared hplace
    exact List.mem_filter.2 ⟨hl, Placement.keeps_iff.2 ⟨hdeclared, place, hplace⟩⟩
  cases hlast : lastOf a input with
  | none =>
    have hnone := lastOf_eq_none_iff.1 hlast
    exact (lastOf_eq_none_iff.2 fun l hl => hnone l ((hmem l).2 hl)).symm
  | some l =>
    rcases mem_of_lastOf hlast with ⟨hl, hvar⟩
    have hunique : ∀ m ∈ b, m / 2 = l / 2 → m = l := by
      intro m hm hsame
      have hm' := (hmem m).2 hm
      by_cases hpolarity : assertsVariable m = assertsVariable l
      · exact eq_of_assertsVariable_eq hsame hpolarity
      · have hmkept := hkept m hm' (hsame.trans hvar)
        exact absurd (contradictory_of_polarity hmkept (hkept l hl hvar) hsame hpolarity)
          hconsistent
    rw [← hvar]
    exact (lastOf_of_unique ((hmem l).1 hl) hunique).symm

/-! ## Pictures of reordered frames -/

/-- Two frames have the same pictures in every shape; in that of the placement they also fail to
have one in the same way. -/
structure DrawnAlike [Memory] (t : Placement) (nPis : Int) (f g : Frame) : Prop where
  picture_iff : ∀ shape r, ofFrame t nPis shape f = .ok r ↔ ofFrame t nPis shape g = .ok r
  outcome_eq : ofFrame t nPis t.shape f = ofFrame t nPis t.shape g

/-- Frames with the same literals are drawn alike if the literals have the same last ones. -/
theorem SameLast.drawnAlike [Memory] (ht : t.WellFormed)
    (h : SameLast t nPis f.inputLits g.inputLits)
    (hmem : ∀ l, l ∈ f.inputLits ↔ l ∈ g.inputLits) (hnonneg : ∀ l ∈ f.inputLits, 0 ≤ l) :
    DrawnAlike t nPis f g :=
  ⟨h.ofFrame_eq_ok_iff ht hmem, h.ofFrame_eq ht hmem hnonneg⟩

/-- Frames with the same literals have pictures or have none. -/
theorem exists_ofFrame_of_perm [Memory] (ht : t.WellFormed) {lits : List Int} {r : Rendering}
    (hperm : f.inputLits.Perm lits) (hpicture : ofFrame t nPis t.shape f = .ok r) :
    ∃ r', ofFrame t nPis t.shape { inputLits := lits } = .ok r' := by
  have hnonneg := (ofFrame_eq_ok hpicture).1
  rcases (exists_ofFrame_iff ht hnonneg).1 ⟨r, hpicture⟩ with ⟨hroom, hslots⟩
  apply (exists_ofFrame_iff ht fun l hl => hnonneg l (hperm.mem_iff.2 hl)).2
  exact ⟨hroom, fun l hl => hslots l (hperm.mem_iff.2 hl)⟩

/-- If kept literals contradict each other, there is an order that shows other rows. -/
theorem exists_perm_of_contradictory [Memory] (ht : t.WellFormed) {r : Rendering}
    (hpicture : ofFrame t nPis t.shape f = .ok r)
    (hcontradictory : Contradictory (f.inputLits.filter (t.keeps nPis))) :
    ∃ lits r', f.inputLits.Perm lits ∧
      ofFrame t nPis t.shape { inputLits := lits } = .ok r' ∧ r'.generalized ≠ r.generalized := by
  rcases hcontradictory with ⟨id, hasserting, hdenying⟩
  rcases List.mem_filter.1 hasserting with ⟨hasserting, hkeeps⟩
  have hdenying := (List.mem_filter.1 hdenying).1
  rcases (ofFrame_eq_ok hpicture).2.1 _ hasserting hkeeps with ⟨slot, htarget, -⟩
  have hslot := (Placement.target?_eq_some_iff.1 htarget).2
  have hdeclared := (Placement.keeps_iff.1 hkeeps).1
  have hvar : 2 * id / 2 = id := by omega
  rw [hvar] at hslot hdeclared
  -- One of the two literals is not the last one of the frame.
  have hother : ∃ l ∈ f.inputLits, l / 2 = id ∧ lastOf f.inputLits id ≠ some l := by
    by_cases hlast : lastOf f.inputLits id = some (2 * id)
    · refine ⟨2 * id + 1, hdenying, by omega, ?_⟩
      rw [hlast, ne_eq, Option.some.injEq]
      omega
    · exact ⟨2 * id, hasserting, hvar, hlast⟩
  rcases hother with ⟨l, hl, rfl, hnot⟩
  rcases exists_perm_lastOf hl with ⟨others, hperm, hlast⟩
  rcases exists_ofFrame_of_perm ht hperm hpicture with ⟨r', hpicture'⟩
  refine ⟨_, r', hperm, hpicture', ?_⟩
  intro hrows
  have hsame := (generalized_eq_iff_sameLast ht hpicture' hpicture).1 hrows hdeclared hslot
  exact hnot (hsame.symm.trans hlast)

/-- How far a frame may be reordered. -/
structure IgnoresOrder [Memory] (t : Placement) (nPis : Int) (f : Frame) : Prop where
  /-- The literals of different variables may change places. -/
  rearranged : ∀ {g : Frame}, Rearranged f.inputLits g.inputLits → DrawnAlike t nPis f g
  /-- If no declared and placed input occurs in both polarities, all literals may change places. -/
  permuted : ¬Contradictory (f.inputLits.filter (t.keeps nPis)) →
    ∀ {g : Frame}, f.inputLits.Perm g.inputLits → DrawnAlike t nPis f g
  /-- Then a literal may also occur more often, or less often as long as it occurs. -/
  copied : ¬Contradictory (f.inputLits.filter (t.keeps nPis)) →
    ∀ {g : Frame}, (∀ l, l ∈ f.inputLits ↔ l ∈ g.inputLits) → DrawnAlike t nPis f g
  /-- Otherwise a frame with a picture has literals whose order shows. -/
  order_shows : Contradictory (f.inputLits.filter (t.keeps nPis)) →
    ∀ {r}, ofFrame t nPis t.shape f = .ok r →
      ∃ lits r', f.inputLits.Perm lits ∧
        ofFrame t nPis t.shape { inputLits := lits } = .ok r' ∧ r'.generalized ≠ r.generalized

/-- The picture of a frame without negative input literals depends on the order of its literals
only as far as they are on one variable, and contradict each other there. -/
theorem ofFrame_ignores_order [Memory] {entries : List PlacementEntry} {instLen nInsts : Int}
    {t : Placement} (hplacement : Placement.ofEntries entries instLen nInsts = .ok t) (nPis : Int)
    {f : Frame} (hnonneg : ∀ l ∈ f.inputLits, 0 ≤ l) : IgnoresOrder t nPis f := by
  have ht := Placement.wellFormed_of_ofEntries hplacement
  have hcopied : ¬Contradictory (f.inputLits.filter (t.keeps nPis)) →
      ∀ {g : Frame}, (∀ l, l ∈ f.inputLits ↔ l ∈ g.inputLits) → DrawnAlike t nPis f g := by
    intro hconsistent g hmem
    have hsame : SameLast t nPis f.inputLits g.inputLits := sameLast_of_mem_iff hconsistent hmem
    exact hsame.drawnAlike ht hmem hnonneg
  constructor
  case rearranged =>
    intro g hrearranged
    have hsame : SameLast t nPis f.inputLits g.inputLits := sameLast_of_rearranged hrearranged
    exact hsame.drawnAlike ht (fun l => hrearranged.perm.mem_iff) hnonneg
  case permuted =>
    intro hconsistent g hperm
    exact hcopied hconsistent fun l => hperm.mem_iff
  case copied => exact hcopied
  case order_shows =>
    intro hcontradictory r hpicture
    exact exists_perm_of_contradictory ht hpicture hcontradictory

/-- The frame of the small chain, which has input 2 in both polarities, and a frame without such an
input, drawn like one with a copy of a literal and another order. -/
theorem ofFrame_ignores_order_sample :
    (Placement.ofIndexes [none, none, some 0, some 3, some 1] 2 2 = .ok .sample ∧
      (∀ l ∈ [2, 4, 7, 5, 8, 40, 4], (0 : Int) ≤ l) ∧
        IgnoresOrder .sample 5 { inputLits := [2, 4, 7, 5, 8, 40, 4] }) ∧
    DrawnAlike .sample 5 { inputLits := [4, 7, 8] } { inputLits := [8, 4, 7, 4] } := by
  have hnonneg : ∀ l ∈ [2, 4, 7, 5, 8, 40, 4], (0 : Int) ≤ l := by decide
  have hnonneg' : ∀ l ∈ [4, 7, 8], (0 : Int) ≤ l := by decide
  have hconsistent : ¬Contradictory ([4, 7, 8].filter (Placement.sample.keeps 5)) := by
    have hkept : [4, 7, 8].filter (Placement.sample.keeps 5) = [4, 7, 8] := rfl
    rw [hkept]
    intro hcontradictory
    rcases hcontradictory with ⟨id, hasserting, hdenying⟩
    simp only [List.mem_cons, List.not_mem_nil, or_false] at hasserting hdenying
    omega
  refine ⟨⟨Placement.ofIndexes_sample, hnonneg, ?_⟩, ?_⟩
  · exact ofFrame_ignores_order Placement.ofIndexes_sample 5 hnonneg
  · apply (ofFrame_ignores_order Placement.ofIndexes_sample 5 hnonneg').copied hconsistent
    intro l
    simp only [List.mem_cons, List.not_mem_nil, or_false]
    omega

end Rendering
end ImemReplay
