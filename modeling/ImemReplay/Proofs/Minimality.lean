import ImemReplay.Proofs.LastLiterals
import Mathlib.Data.List.Nodup
import Mathlib.Data.List.Perm.Subperm

/-!
# Minimality of extracted programs

A literal of a program can be dropped without a trace in the rows if a later literal on its variable
overrules or repeats it, and in no other case: every literal of a program is on an input with a bit
of its own, so the last literal on each variable is seen.  A program without repeated variables has
no literal to spare.

Main results:

- Theorem `eq_of_keepsLast`: without repeated variables only the whole list has the last literals.
- Theorem `sameLast_iff_keepsLast`: which sublists of a program leave the memory as it does.
- Theorem `extract_minimal_exactly`: which literals of an extracted program can be dropped.
- Theorem `not_renders_same_rows_without_room`: a program without a picture, from which nothing is
  dropped.
-/

namespace ImemReplay

namespace Literal

variable {lits kept : List Int}

/-- A list has the last literals of another one: on each variable of that one, the last literals of
both are the same. -/
def KeepsLast (lits kept : List Int) : Prop :=
  ∀ l ∈ lits, ∃ last, lastOf kept (l / 2) = some last ∧ lastOf lits (l / 2) = some last

theorem keepsLast_iff : KeepsLast lits kept ↔
    ∀ l ∈ lits, lastOf kept (l / 2) = lastOf lits (l / 2) := by
  constructor
  · intro h l hl
    rcases h l hl with ⟨last, hkept, hlast⟩
    rw [hkept, hlast]
  · intro h l hl
    rcases exists_lastOf hl with ⟨last, hlast⟩
    exact ⟨last, (h l hl).trans hlast, hlast⟩

/-- No literal of a list without repeated variables can be dropped if the last literals are to
stay. -/
theorem eq_of_keepsLast (hnodup : (lits.map (· / 2)).Nodup) (hsub : kept.Sublist lits)
    (h : KeepsLast lits kept) : kept = lits := by
  -- Every literal is the last one on its variable, so the sublist must have it.
  have hsubset : lits ⊆ kept := by
    intro l hl
    have hlast : lastOf lits (l / 2) = some l := by
      apply lastOf_of_unique hl
      intro m hm hvar
      exact List.inj_on_of_nodup_map hnodup hm hl hvar
    rw [← keepsLast_iff.1 h l hl] at hlast
    exact (mem_of_lastOf hlast).1
  apply hsub.eq_of_length_le
  exact (List.subperm_of_subset hnodup.of_map hsubset).length_le

end Literal

namespace Rendering

open Literal

variable {t : Placement} {nPis : Int} {lits kept : List Int}

/-- For literals on declared inputs with positions, a sublist leaves the same memory if it has the
last literals. -/
theorem sameLast_iff_keepsLast
    (hplaced : ∀ l ∈ lits, l / 2 < nPis ∧ ∃ slot, t.slotAt? (l / 2) = some slot)
    (hsub : kept.Sublist lits) : SameLast t nPis kept lits ↔ KeepsLast lits kept := by
  rw [keepsLast_iff]
  constructor
  · intro hsame l hl
    rcases hplaced l hl with ⟨hdeclared, slot, hslot⟩
    exact hsame hdeclared hslot
  · intro hkeeps input slot _ _
    cases hlast : lastOf lits input with
    | some last =>
      rcases mem_of_lastOf hlast with ⟨hmem, rfl⟩
      rw [hkeeps last hmem, hlast]
    | none =>
      have hfree := lastOf_eq_none_iff.1 hlast
      exact lastOf_eq_none_iff.2 fun l hl => hfree l (hsub.subset hl)

end Rendering

/-! ## Parts of a program -/

namespace Program

open Literal

variable {t : Placement} {nPis resetVar : Int} {start : StartFrame} {p : Program}
  {kept : List Int}

/-- The literals of a program are on declared inputs with bits. -/
theorem keeps_of_mem_lits (h : ofStartFrame t nPis resetVar start = .ok p) :
    ∀ l ∈ p.lits, t.keeps nPis l = true := by
  rcases ofStartFrame_eq_ok_iff.1 h with ⟨-, -, rfl⟩
  intro l hl
  exact (List.mem_filter.1 hl).2

/-- A part of a program has a picture if there is room for it and its literals have positions. -/
theorem exists_ofFrame_sublist_iff [Memory] (ht : t.WellFormed)
    (h : ofStartFrame t nPis resetVar start = .ok p) (hsub : kept.Sublist p.lits) :
    (∃ r, Rendering.ofFrame t nPis t.shape { inputLits := kept } = .ok r) ↔
      t.shape.HasRoom ∧ ∀ l ∈ kept, ∃ slot, t.slotAt? (l / 2) = some slot := by
  rw [Rendering.exists_ofFrame_iff ht fun l hl => lits_nonneg h l (hsub.subset hl)]
  apply and_congr_right
  intro _
  constructor
  · intro hslots l hl
    exact hslots l hl (keeps_of_mem_lits h l (hsub.subset hl))
  · intro hslots l hl _
    exact hslots l hl

/-- A part of a program with a picture has one as well, and it shows the same rows exactly if the
part has the last literals of the program. -/
theorem rows_sublist_iff [Memory] (ht : t.WellFormed)
    (h : ofStartFrame t nPis resetVar start = .ok p) (hsub : kept.Sublist p.lits) {r : Rendering}
    (hpicture : Rendering.ofFrame t nPis t.shape p.toFrame = .ok r) :
    ∃ r', Rendering.ofFrame t nPis t.shape { inputLits := kept } = .ok r' ∧
      (r'.generalized = r.generalized ↔ KeepsLast p.lits kept) := by
  have hwhole := exists_ofFrame_sublist_iff ht h (List.Sublist.refl p.lits)
  rcases hwhole.1 ⟨r, hpicture⟩ with ⟨hroom, hslots⟩
  have hpart := exists_ofFrame_sublist_iff ht h hsub
  rcases hpart.2 ⟨hroom, fun l hl => hslots l (hsub.subset hl)⟩ with ⟨r', hpicture'⟩
  refine ⟨r', hpicture', ?_⟩
  -- All literals of a program are on inputs with bits, so the rows show every last literal.
  rw [Rendering.generalized_eq_iff_sameLast ht hpicture' hpicture]
  apply Rendering.sameLast_iff_keepsLast _ hsub
  intro l hl
  exact ⟨(Placement.keeps_iff.1 (keeps_of_mem_lits h l hl)).1, hslots l hl⟩

end Program

namespace Decoder

open Literal

/-- What becomes of the rows of a program when literals are dropped. -/
structure MinimalExactly [Memory] (t : Placement) (nPis : Int) (p : Program) : Prop where
  /-- The program or a part of it has a picture if there is room and its literals have positions. -/
  exists_iff : ∀ {kept : List Int}, kept.Sublist p.lits →
    ((∃ r, Rendering.ofFrame t nPis t.shape { inputLits := kept } = .ok r) ↔
      t.shape.HasRoom ∧ ∀ l ∈ kept, ∃ slot, t.slotAt? (l / 2) = some slot)
  /-- A part of a program with a picture shows the same rows if it has the last literals. -/
  rows_eq_iff : ∀ {kept : List Int} {r}, kept.Sublist p.lits →
    Rendering.ofFrame t nPis t.shape p.toFrame = .ok r →
      ∃ r', Rendering.ofFrame t nPis t.shape { inputLits := kept } = .ok r' ∧
        (r'.generalized = r.generalized ↔ KeepsLast p.lits kept)
  /-- If no variable is repeated, no literal can be dropped. -/
  rows_ne : (p.lits.map (· / 2)).Nodup → ∀ {kept : List Int} {r}, kept.Sublist p.lits →
    kept ≠ p.lits → Rendering.ofFrame t nPis t.shape p.toFrame = .ok r →
      ∃ r', Rendering.ofFrame t nPis t.shape { inputLits := kept } = .ok r' ∧
        r'.generalized ≠ r.generalized

/-- The literals of an extracted program that can be dropped without a trace in the rows are those
that do not come last on their variable. -/
theorem extract_minimal_exactly [Memory] {entries : List PlacementEntry} {instLen nInsts : Int}
    {t : Placement} {registers : RegisterTable} {nPis resetVar : Int} {d : Decoder}
    (hplacement : Placement.ofEntries entries instLen nInsts = .ok t)
    (hdecoder : ofTables t registers nPis resetVar = .ok d) {c : Chain} {s s' : DecoderState}
    {p : Program} (hextract : d.extract c s = (.ok p, s')) : MinimalExactly t nPis p := by
  have ht := Placement.wellFormed_of_ofEntries hplacement
  rcases ofTables_eq_ok hdecoder with ⟨-, rfl⟩
  rcases extract_eq_ok hextract with ⟨start, -, hprogram, -⟩
  constructor
  case exists_iff =>
    intro kept hsub
    exact Program.exists_ofFrame_sublist_iff ht hprogram hsub
  case rows_eq_iff =>
    intro kept r hsub hpicture
    exact Program.rows_sublist_iff ht hprogram hsub hpicture
  case rows_ne =>
    intro hnodup kept r hsub hne hpicture
    rcases Program.rows_sublist_iff ht hprogram hsub hpicture with ⟨r', hpicture', hiff⟩
    refine ⟨r', hpicture', ?_⟩
    intro hsame
    exact hne (eq_of_keepsLast hnodup hsub (hiff.1 hsame))

/-- The program of the small chain sets and clears input 2 before it sets it again.  Without the
literals in front it shows the same rows; without the last one it does not. -/
theorem extract_minimal_exactly_sample :
    MinimalExactly .sample 5 ⟨1, [4, 7, 5, 8, 4]⟩ ∧
      KeepsLast [4, 7, 5, 8, 4] [7, 8, 4] ∧ ¬KeepsLast [4, 7, 5, 8, 4] [4, 7, 5, 8] := by
  refine ⟨?_, ?_, ?_⟩
  · exact extract_minimal_exactly Placement.ofIndexes_sample ofTables_sample extract_sample
  · rw [keepsLast_iff]
    decide
  · rw [keepsLast_iff]
    decide

/-- A decoder whose only input has a bit of an instruction that is longer than a list can be. -/
def oversized : Decoder := ⟨⟨9223372036854775808, 1, [some (.whole 0)]⟩, {}, 1, 2⟩

/-- The program of a chain has no picture in any memory, and so it does not have the rows of its own
literals, although none of them is dropped. -/
theorem not_renders_same_rows_without_room :
    Placement.ofIndexes [some 0] 9223372036854775808 1 = .ok oversized.placement ∧
      ofTables oversized.placement {} 1 2 = .ok oversized ∧
      oversized.extract [{ inputLits := [0] }] oversized.start = (.ok ⟨0, [0]⟩, oversized.start) ∧
      ([0] : List Int).Sublist [0] ∧
      ∀ [Memory], ¬((∃ r r', oversized.render (Program.toFrame ⟨0, [0]⟩) oversized.start = .ok r ∧
            oversized.render { inputLits := [0] } oversized.start = .ok r' ∧
            r'.generalized = r.generalized) ↔
          KeepsLast [0] [0]) := by
  have hkeeps : KeepsLast [0] [0] := keepsLast_iff.2 fun l _ => rfl
  refine ⟨rfl, rfl, rfl, List.Sublist.refl [0], ?_⟩
  intro memory hclaim
  rcases hclaim.2 hkeeps with ⟨r, r', hpicture, -, -⟩
  exact absurd (Rendering.lt_wordBound_of_ofFrame hpicture) (by decide)

end Decoder
end ImemReplay
