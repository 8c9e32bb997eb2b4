import ImemReplay.Proofs.Decoding

/-!
# What a blocking clause blocks

A valuation gives a value to every input.  It runs the extracted program when it makes all
literals of the program true, and the blocking clause rules it out when it makes all literals of
the clause false; these are the same valuations.  The generalized picture describes them too, as
long as the program does not have a variable in both polarities: the picture then shows only the
last of them, while no valuation runs the program.

Main results:

- Theorem `falsifies_map_opposite`: the negated literals are false exactly when the literals hold.
- Theorem `matches_of_holds` and theorem `holds_of_matches`: the valuations that run a program
  are those that match its picture, the latter for programs that do not contradict themselves.
- Theorem `blockingClause_blocks_program`: the clause of an extracted program blocks exactly the
  program.
-/

namespace ImemReplay

/-- A value for every input. -/
abbrev Valuation := Int → Bool

namespace Literal

/-- Whether a literal is true under a valuation. -/
def Holds (v : Valuation) (l : Int) : Prop := v (l / 2) = assertsVariable l

/-- Whether all literals of a clause are false under a valuation. -/
def Falsifies (v : Valuation) (clause : List Int) : Prop := ∀ l ∈ clause, ¬Holds v l

/-- Whether some variable occurs in both polarities. -/
def Contradictory (lits : List Int) : Prop := ∃ id, 2 * id ∈ lits ∧ 2 * id + 1 ∈ lits

/-- A literal holds exactly when its opposite does not. -/
theorem holds_opposite {v : Valuation} {l : Int} : Holds v (opposite l) ↔ ¬Holds v l := by
  unfold Holds
  rw [opposite_ediv, assertsVariable_opposite]
  cases v (l / 2) <;> cases assertsVariable l <;> decide

/-- The negated literals are false exactly when the literals hold. -/
theorem falsifies_map_opposite {v : Valuation} {lits : List Int} :
    Falsifies v (lits.map opposite) ↔ ∀ l ∈ lits, Holds v l := by
  unfold Falsifies
  rw [List.forall_mem_map]
  constructor
  · intro h l hl
    by_cases hholds : Holds v l
    · exact hholds
    · exact absurd (holds_opposite.2 hholds) (h l hl)
  · intro h l hl hopposite
    exact holds_opposite.1 hopposite (h l hl)

/-- Two literals of one variable that differ in polarity contradict each other. -/
theorem contradictory_of_polarity {lits : List Int} {l m : Int} (hl : l ∈ lits) (hm : m ∈ lits)
    (hvar : l / 2 = m / 2) (hpolarity : assertsVariable l ≠ assertsVariable m) :
    Contradictory lits := by
  have hlits := eq_of_polarity l
  have hmits := eq_of_polarity m
  rw [← hvar] at hmits
  cases hasserts : assertsVariable l with
  | true =>
    have hdenies : assertsVariable m = false := by
      rw [hasserts] at hpolarity
      simpa using hpolarity.symm
    rw [hasserts, Bool.toInt, cond_true] at hlits
    rw [hdenies, Bool.toInt, cond_false] at hmits
    refine ⟨l / 2, ?_, ?_⟩
    · rwa [show 2 * (l / 2) = l by omega]
    · rwa [show 2 * (l / 2) + 1 = m by omega]
  | false =>
    have hdenies : assertsVariable m = true := by
      rw [hasserts] at hpolarity
      simpa using hpolarity.symm
    rw [hasserts, Bool.toInt, cond_false] at hlits
    rw [hdenies, Bool.toInt, cond_true] at hmits
    refine ⟨l / 2, ?_, ?_⟩
    · rwa [show 2 * (l / 2) = m by omega]
    · rwa [show 2 * (l / 2) + 1 = l by omega]

/-- No valuation makes literals true that contradict each other. -/
theorem not_holds_of_contradictory {lits : List Int} (h : Contradictory lits) (v : Valuation) :
    ¬∀ l ∈ lits, Holds v l := by
  intro hholds
  rcases h with ⟨id, hasserted, hdenied⟩
  have htrue := hholds _ hasserted
  have hfalse := hholds _ hdenied
  unfold Holds assertsVariable at htrue hfalse
  rw [show (2 * id + 1) / 2 = 2 * id / 2 by omega, htrue, decide_eq_decide] at hfalse
  omega

end Literal

namespace Rendering

open Literal

/-- Whether the picture leaves every declared and placed input free or shows its value. -/
def Matches (t : Placement) (nPis : Int) (r : Rendering) (v : Valuation) : Prop :=
  ∀ {input slot : Int}, input < nPis → t.slotAt? input = some slot →
    shownAt t.instLen r.generalized slot = some 'x' ∨
      shownAt t.instLen r.generalized slot = some (Cell.digit (v input))

/-- The last literal on a position is one of the kept literals, and it is on the position's
input. -/
theorem lastOn_mem {t : Placement} {nPis slot l : Int} {lits : List Int}
    (h : lastOn t nPis lits slot = some l) :
    l ∈ lits.filter (t.keeps nPis) ∧ t.target? nPis l = some slot := by
  have hmem := List.mem_filter.1 (List.mem_of_getLast? h)
  have htarget : t.target? nPis l = some slot := by simpa using hmem.2
  exact ⟨List.mem_filter.2 ⟨hmem.1, (Placement.target?_eq_some_iff.1 htarget).1⟩, htarget⟩

/-- A position that a literal reaches has a last literal. -/
theorem exists_lastOn {t : Placement} {nPis slot l : Int} {lits : List Int} (hl : l ∈ lits)
    (htarget : t.target? nPis l = some slot) : ∃ m, lastOn t nPis lits slot = some m := by
  unfold lastOn
  have hmem : l ∈ lits.filter fun l => t.target? nPis l = some slot :=
    List.mem_filter.2 ⟨hl, by simpa using htarget⟩
  exact ⟨_, List.getLast?_eq_some_getLast (List.ne_nil_of_mem hmem)⟩

/-- A valuation that makes the kept literals of a frame true matches the frame's picture. -/
theorem matches_of_holds [Memory] {t : Placement} (ht : t.WellFormed) {nPis : Int} {f : Frame}
    {r : Rendering} (h : ofFrame t nPis t.shape f = .ok r) {v : Valuation}
    (hholds : ∀ l ∈ f.inputLits.filter (t.keeps nPis), Holds v l) : r.Matches t nPis v := by
  intro input slot _ hslot
  rw [shownAt_ofFrame ht h hslot]
  cases hlast : lastOn t nPis f.inputLits slot with
  | none => exact Or.inl rfl
  | some l =>
    right
    rcases lastOn_mem hlast with ⟨hl, htarget⟩
    have hinput : l / 2 = input :=
      ht.slot_injective (Placement.target?_eq_some_iff.1 htarget).2 hslot
    have hvalue := hholds l hl
    rw [Holds, hinput] at hvalue
    rw [Option.map_some, Cell.generalized_some, hvalue]

/-- The characters of bits differ from the mark of a free bit and from each other. -/
theorem digit_injective {a b : Bool} (h : Cell.digit a = Cell.digit b) : a = b := by
  cases a <;> cases b <;> simp_all [Cell.digit]

theorem digit_ne_free (a : Bool) : Cell.digit a ≠ 'x' := by
  cases a <;> decide

/-- A valuation that matches the picture of a frame makes its kept literals true, unless they
contradict each other. -/
theorem holds_of_matches [Memory] {t : Placement} (ht : t.WellFormed) {nPis : Int} {f : Frame}
    {r : Rendering} (h : ofFrame t nPis t.shape f = .ok r) {v : Valuation}
    (hconsistent : ¬Contradictory (f.inputLits.filter (t.keeps nPis)))
    (hmatches : r.Matches t nPis v) :
    ∀ l ∈ f.inputLits.filter (t.keeps nPis), Holds v l := by
  intro l hl
  rcases List.mem_filter.1 hl with ⟨hmem, hkeeps⟩
  rcases (ofFrame_eq_ok h).2.1 l hmem hkeeps with ⟨slot, htarget, -⟩
  rcases exists_lastOn hmem htarget with ⟨m, hlast⟩
  rcases lastOn_mem hlast with ⟨hm, hmtarget⟩
  have hslot := (Placement.target?_eq_some_iff.1 htarget).2
  have hvar : m / 2 = l / 2 := ht.target_injective hmtarget htarget
  have hsame : assertsVariable m = assertsVariable l := by
    by_cases hpolarity : assertsVariable m = assertsVariable l
    · exact hpolarity
    · exact absurd (contradictory_of_polarity hm hl hvar hpolarity) hconsistent
  have hshown := hmatches (Placement.keeps_iff.1 hkeeps).1 hslot
  rw [shownAt_ofFrame ht h hslot, hlast, Option.map_some, Cell.generalized_some, hsame] at hshown
  rcases hshown with hfree | hvalue
  · exact absurd (Option.some.inj hfree) (digit_ne_free _)
  · exact (digit_injective (Option.some.inj hvalue)).symm

end Rendering

namespace Decoder

open Literal

/-- A clause blocks a program that was taken from a frame, and nothing else. -/
structure Blocks [Memory] (t : Placement) (nPis : Int) (clause : List Int) (p : Program)
    (f : Frame) : Prop where
  /-- The valuations that the clause rules out are those that run the program. -/
  falsifies_iff : ∀ v, Falsifies v clause ↔ ∀ l ∈ p.lits, Holds v l
  /-- They match the picture of the frame. -/
  matches_of_falsifies : ∀ r, Rendering.ofFrame t nPis t.shape f = .ok r →
    ∀ v, Falsifies v clause → r.Matches t nPis v
  /-- Nothing else matches the picture, if the program does not contradict itself. -/
  falsifies_of_matches : ∀ r, Rendering.ofFrame t nPis t.shape f = .ok r →
    ¬Contradictory p.lits → ∀ v, r.Matches t nPis v → Falsifies v clause
  /-- Otherwise there are no such valuations. -/
  not_falsifies : Contradictory p.lits → ∀ v, ¬Falsifies v clause

/-- The blocking clause of an extracted program blocks exactly the program.  A valuation makes
every literal of the clause false if and only if it makes every literal of the program true; it
then matches the generalized picture of the start frame.  Conversely every valuation that matches
the picture falsifies the clause, unless some variable occurs in the program in both polarities,
and then no valuation falsifies it. -/
theorem blockingClause_blocks_program [Memory] {entries : List PlacementEntry}
    {instLen nInsts : Int} {t : Placement} {registers : RegisterTable} {nPis resetVar : Int}
    {d : Decoder}
    (hplacement : Placement.ofEntries entries instLen nInsts = .ok t)
    (hdecoder : ofTables t registers nPis resetVar = .ok d) {c : Chain} {s s' : DecoderState}
    {p : Program} (hextract : d.extract c s = (.ok p, s')) :
    ∃ clause start, p.blockingClause = .ok clause ∧ c.startFrame resetVar = .ok start ∧
      Blocks t nPis clause p start.frame := by
  have ht := Placement.wellFormed_of_ofEntries hplacement
  rcases ofTables_eq_ok hdecoder with ⟨-, rfl⟩
  rcases extract_eq_ok hextract with ⟨start, hstart, hprogram, -⟩
  have hclause : p.blockingClause = .ok (p.lits.map opposite) := by
    rw [Program.blockingClause, Program.negateAll_eq_checked]
    exact checked_of_nonneg _ (Program.lits_nonneg hprogram)
  rcases Program.ofStartFrame_eq_ok_iff.1 hprogram with ⟨-, -, rfl⟩
  refine ⟨_, start, hclause, hstart, ?_⟩
  constructor
  case falsifies_iff => exact fun v => falsifies_map_opposite
  case matches_of_falsifies =>
    intro r hpicture v hfalsifies
    exact Rendering.matches_of_holds ht hpicture (falsifies_map_opposite.1 hfalsifies)
  case falsifies_of_matches =>
    intro r hpicture hconsistent v hmatches
    apply falsifies_map_opposite.2
    exact Rendering.holds_of_matches ht hpicture hconsistent hmatches
  case not_falsifies =>
    intro hcontradictory v hfalsifies
    exact not_holds_of_contradictory hcontradictory v (falsifies_map_opposite.1 hfalsifies)

/-- A program that does not contradict itself, and the program of the small chain, which has
input 2 in both polarities. -/
theorem blockingClause_blocks_program_sample :
    (¬Contradictory [4, 7] ∧ ∃ clause start, Program.blockingClause ⟨0, [4, 7]⟩ = .ok clause ∧
      Chain.startFrame 1 [{ inputLits := [4, 7] }] = .ok start ∧
        Blocks .sample 5 clause ⟨0, [4, 7]⟩ start.frame) ∧
    (Contradictory [4, 7, 5, 8, 4] ∧ ∃ clause start,
      Program.blockingClause ⟨1, [4, 7, 5, 8, 4]⟩ = .ok clause ∧
        Chain.sample.startFrame 1 = .ok start ∧
          Blocks .sample 5 clause ⟨1, [4, 7, 5, 8, 4]⟩ start.frame) := by
  constructor
  · constructor
    · rintro ⟨id, hasserted, hdenied⟩
      simp only [List.mem_cons, List.not_mem_nil, or_false] at hasserted hdenied
      omega
    · exact blockingClause_blocks_program Placement.ofIndexes_sample ofTables_sample
        (show Decoder.sample.extract [{ inputLits := [4, 7] }] Decoder.sample.start =
          (.ok ⟨0, [4, 7]⟩, Decoder.sample.start) from rfl)
  · refine ⟨⟨2, by decide, by decide⟩, ?_⟩
    exact blockingClause_blocks_program Placement.ofIndexes_sample ofTables_sample
      extract_sample

end Decoder
end ImemReplay
