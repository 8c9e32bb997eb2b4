import ImemReplay.Assignment
import ImemReplay.Extraction
import ImemReplay.Proofs.Literals

/-!
# Well-formed placements

A placement that was built from a table puts its inputs at different bits of the instruction
memory.  `Placement.WellFormed` states this for the positions of the inputs, whatever the table
spells them with, and `Placement.Indexed` says that the table spells them as integers.  Under the
two, the passes over literals that depend on a placement have closed forms.

Main results:

- Theorem `checkFrom_eq_ok_iff`: what the check of a table accepts.
- Theorem `wellFormed_of_ofEntries`: a placement that was built is well formed.
- Theorem `keptLits_eq_checked`: the kept literals are a filter of a checked list.
- Theorem `ofLits_eq_checked`: the assignments of an indexed placement are those of the kept
  literals.
-/

namespace ImemReplay

/-- The numbers of a table, in order. -/
def PlacementEntry.places (entries : List PlacementEntry) : List Number :=
  entries.filterMap PlacementEntry.place?

namespace Placement

open PlacementEntry

/-! ## Accepted tables -/

/-- The check of a table accepts numbers inside the memory that differ from each other and from
the numbers that are taken. -/
theorem checkFrom_eq_ok_iff {totalBits : Int} {input : Nat} {taken : List (Nat × Number)}
    {entries : List PlacementEntry} :
    checkFrom totalBits input taken entries = .ok () ↔
      foreign ∉ entries ∧
        (∀ place ∈ places entries, place.within totalBits = true ∧
          ∀ owner ∈ taken, owner.2.same place = false) ∧
        (places entries).Pairwise fun a b => a.same b = false := by
  induction entries generalizing input taken with
  | nil => simp [checkFrom, places]
  | cons entry entries ih =>
    cases entry with
    | unmapped =>
      rw [checkFrom, ih, show places (unmapped :: entries) = places entries from rfl]
      simp
    | foreign => simp [checkFrom]
    | slot place =>
      rw [checkFrom, show places (slot place :: entries) = place :: places entries from rfl]
      by_cases hwithin : place.within totalBits = true
      · cases hfind : taken.find? fun owner => owner.2.same place with
        | some owner =>
          have hsame := List.find?_some hfind
          simp only [hwithin, if_true, reduceCtorEq, false_iff]
          rintro ⟨-, hplaces, -⟩
          have hfree := (hplaces place List.mem_cons_self).2 owner
            (List.mem_of_find?_eq_some hfind)
          rw [hfree] at hsame
          contradiction
        | none =>
          have hfree : ∀ owner ∈ taken, owner.2.same place = false := by
            simpa [List.find?_eq_none] using hfind
          simp only [hwithin, if_true, ih, List.pairwise_cons, List.forall_mem_cons]
          constructor
          · rintro ⟨hforeign, hplaces, hpairs⟩
            refine ⟨by simpa using hforeign, ⟨⟨trivial, hfree⟩, ?_⟩, ?_, hpairs⟩
            · exact fun other hother => ⟨(hplaces other hother).1, (hplaces other hother).2.2⟩
            · exact fun other hother => (hplaces other hother).2.1
          · rintro ⟨hforeign, ⟨-, hplaces⟩, hdiffers, hpairs⟩
            refine ⟨by simpa using hforeign, ?_, hpairs⟩
            exact fun other hother =>
              ⟨(hplaces other hother).1, hdiffers other hother, (hplaces other hother).2⟩
      · simp [hwithin]

/-! ## Positions of inputs -/

/-- The bit of an input as a position in the memory. -/
def slotAt? (t : Placement) (input : Int) : Option Int := (t.lookup input).bind Number.index?

/-- Inputs have positions in the memory, and no two inputs have the same. -/
structure WellFormed (t : Placement) : Prop where
  instLen_pos : 0 < t.instLen
  nInsts_pos : 0 < t.nInsts
  slot_range : ∀ {input slot : Int}, t.slotAt? input = some slot → 0 ≤ slot ∧ slot < t.totalBits
  slot_injective : ∀ {input other slot : Int},
    t.slotAt? input = some slot → t.slotAt? other = some slot → input = other

/-- Every bit of the table is spelled as an integer. -/
structure Indexed (t : Placement) : Prop where
  lookup_whole : ∀ {input : Int} {place : Number},
    t.lookup input = some place → ∃ slot, place = .whole slot

/-- An input with a bit is one of the table. -/
theorem lookup_eq_some_iff {t : Placement} {input : Int} {place : Number} :
    t.lookup input = some place ↔ 0 ≤ input ∧ t.slots[input.toNat]? = some (some place) := by
  unfold lookup
  by_cases h : input < 0
  · simp only [h, if_true, reduceCtorEq, false_iff]
    rintro ⟨hnonneg, -⟩
    omega
  · simp only [h, if_false, Option.join_eq_some_iff]
    exact ⟨fun hslot => ⟨by omega, hslot⟩, fun hslot => hslot.2⟩

/-- An input with a bit is within the bounds of the table. -/
theorem input_range {t : Placement} {input : Int} {place : Number}
    (h : t.lookup input = some place) : 0 ≤ input ∧ input < t.length := by
  rcases lookup_eq_some_iff.1 h with ⟨hnonneg, hslot⟩
  have hlt := (List.getElem?_eq_some_iff.1 hslot).1
  unfold length
  omega

/-- The check accepts the entries of a placement that was built. -/
theorem checkFrom_of_ofEntries {entries : List PlacementEntry} {instLen nInsts : Int}
    {t : Placement} (h : ofEntries entries instLen nInsts = .ok t) :
    0 < instLen ∧ 0 < nInsts ∧ checkFrom (instLen * nInsts) 0 [] entries = .ok () ∧
      t = ⟨instLen, nInsts, entries.map place?⟩ := by
  unfold ofEntries at h
  split at h
  · contradiction
  · next hshape =>
    cases hcheck : checkFrom (instLen * nInsts) 0 [] entries with
    | error fault => simp [hcheck, bind, Except.bind] at h
    | ok done =>
      simp only [hcheck, bind, Except.bind, pure, Except.pure, Except.ok.injEq] at h
      exact ⟨by omega, by omega, rfl, h.symm⟩

/-- Two inputs of an accepted table have different numbers. -/
theorem same_eq_false_of_pairwise {entries : List PlacementEntry}
    (h : (places entries).Pairwise fun a b => a.same b = false) {i j : Nat} {a b : Number}
    (hi : (entries.map place?)[i]? = some (some a)) (hj : (entries.map place?)[j]? = some (some b))
    (hij : i < j) : a.same b = false := by
  have hpairs := List.pairwise_iff_getElem.1 (List.pairwise_filterMap.1 h)
  rw [List.getElem?_map, Option.map_eq_some_iff] at hi hj
  rcases hi with ⟨e, he, hea⟩
  rcases hj with ⟨f, hf, hfb⟩
  rcases List.getElem?_eq_some_iff.1 he with ⟨hilt, rfl⟩
  rcases List.getElem?_eq_some_iff.1 hf with ⟨hjlt, rfl⟩
  exact hpairs i j hilt hjlt hij a hea b hfb

/-- A placement that was built is well formed. -/
theorem wellFormed_of_ofEntries {entries : List PlacementEntry} {instLen nInsts : Int}
    {t : Placement} (h : ofEntries entries instLen nInsts = .ok t) : t.WellFormed := by
  rcases checkFrom_of_ofEntries h with ⟨hlen, hinsts, hcheck, rfl⟩
  rcases checkFrom_eq_ok_iff.1 hcheck with ⟨-, hplaces, hpairs⟩
  refine ⟨hlen, hinsts, ?_, ?_⟩
  · intro input slot hslot
    rcases Option.bind_eq_some_iff.1 hslot with ⟨place, hlookup, hindex⟩
    have hmem := List.mem_of_getElem? (lookup_eq_some_iff.1 hlookup).2
    have hplace : place ∈ places entries := by simpa [places] using hmem
    exact (Number.within_iff hindex).1 (hplaces place hplace).1
  · intro input other slot hinput hother
    rcases Option.bind_eq_some_iff.1 hinput with ⟨a, hlookup, ha⟩
    rcases Option.bind_eq_some_iff.1 hother with ⟨b, hlookup', hb⟩
    rcases lookup_eq_some_iff.1 hlookup with ⟨hnonneg, hslots⟩
    rcases lookup_eq_some_iff.1 hlookup' with ⟨hnonneg', hslots'⟩
    rcases Nat.lt_trichotomy input.toNat other.toNat with hlt | heq | hgt
    · have hdiffers := same_eq_false_of_pairwise hpairs hslots hslots' hlt
      rw [(Number.same_of_index? ha hb).2 rfl] at hdiffers
      contradiction
    · omega
    · have hdiffers := same_eq_false_of_pairwise hpairs hslots' hslots hgt
      rw [(Number.same_of_index? hb ha).2 rfl] at hdiffers
      contradiction

/-- The bits of an integer table are spelled as integers. -/
theorem map_place?_ofIndex? (entries : List (Option Int)) :
    (entries.map ofIndex?).map place? = entries.map (Option.map Number.whole) := by
  rw [List.map_map]
  apply List.map_congr_left
  intro entry hentry
  cases entry with
  | none => rfl
  | some slot => rfl

/-- A placement from a table of integers spells every bit as an integer. -/
theorem indexed_of_ofIndexes {entries : List (Option Int)} {instLen nInsts : Int} {t : Placement}
    (h : ofIndexes entries instLen nInsts = .ok t) : t.Indexed := by
  constructor
  intro input place hlookup
  have hmem := List.mem_of_getElem? (lookup_eq_some_iff.1 hlookup).2
  rw [slots_of_ofEntries h, List.map_map, List.mem_map] at hmem
  rcases hmem with ⟨entry, -, hentry⟩
  cases entry with
  | none => simp [ofIndex?, place?] at hentry
  | some slot => exact ⟨slot, by simpa [ofIndex?, place?, eq_comm] using hentry⟩

/-- An indexed placement gives the position of every input with a bit. -/
theorem Indexed.lookup_eq {t : Placement} (h : t.Indexed) (input : Int) :
    t.lookup input = (t.slotAt? input).map Number.whole := by
  cases hlookup : t.lookup input with
  | none => simp [slotAt?, hlookup]
  | some place =>
    rcases h.lookup_whole hlookup with ⟨slot, rfl⟩
    simp [slotAt?, hlookup]

/-! ## Coordinates -/

/-- The instruction of a position is one of the memory. -/
theorem WellFormed.inst_range {t : Placement} (h : t.WellFormed) {input slot : Int}
    (hslot : t.slotAt? input = some slot) :
    0 ≤ slot / t.instLen ∧ slot / t.instLen < t.nInsts := by
  rcases h.slot_range hslot with ⟨hlow, hhigh⟩
  refine ⟨Int.ediv_nonneg hlow (Int.le_of_lt h.instLen_pos), ?_⟩
  rw [Int.ediv_lt_iff_lt_mul h.instLen_pos, Int.mul_comm]
  exact hhigh

/-- The bit of a position is one of its instruction. -/
theorem WellFormed.bit_range {t : Placement} (h : t.WellFormed) (slot : Int) :
    0 ≤ slot % t.instLen ∧ slot % t.instLen < t.instLen :=
  ⟨Int.emod_nonneg slot (Int.ne_of_gt h.instLen_pos), Int.emod_lt_of_pos slot h.instLen_pos⟩

/-! ## Kept literals -/

/-- Whether a literal is one on a declared and placed input. -/
def keeps (t : Placement) (nPis : Int) (l : Int) : Bool :=
  l / 2 < nPis && (t.lookup (l / 2)).isSome

theorem keeps_iff {t : Placement} {nPis l : Int} :
    t.keeps nPis l = true ↔ l / 2 < nPis ∧ ∃ place, t.lookup (l / 2) = some place := by
  simp [keeps, Option.isSome_iff_exists]

/-- The bit that a literal reaches, for one that is not negative. -/
theorem slotOfLiteral?_of_nonneg {t : Placement} {nPis l : Int} (h : 0 ≤ l) :
    t.slotOfLiteral? nPis l = .ok (if t.keeps nPis l then t.lookup (l / 2) else none) := by
  unfold slotOfLiteral? keeps
  rw [Literal.var_of_nonneg h]
  by_cases hdeclared : nPis ≤ l / 2
  · simp [bind, Except.bind, pure, Except.pure, hdeclared, Int.not_lt.2 hdeclared]
  · cases hlookup : t.lookup (l / 2) <;>
      simp [bind, Except.bind, pure, Except.pure, hdeclared, hlookup]

theorem slotOfLiteral?_of_neg {t : Placement} {nPis l : Int} (h : l < 0) :
    t.slotOfLiteral? nPis l = .error (.negativeLiteral l) := by
  unfold slotOfLiteral?
  rw [Literal.var_of_neg h]
  rfl

/-- A literal reaches a bit exactly when it is kept. -/
theorem isSome_slotOf {t : Placement} {nPis l : Int} :
    (if t.keeps nPis l then t.lookup (l / 2) else none).isSome = t.keeps nPis l := by
  by_cases h : t.keeps nPis l = true
  · rcases keeps_iff.1 h with ⟨-, place, hplace⟩
    rw [if_pos h, h, hplace, Option.isSome_some]
  · rw [if_neg h]
    simpa using h

/-- The kept literals are a filter of a checked list. -/
theorem keptLits_eq_checked (t : Placement) (nPis : Int) (lits : List Int) :
    t.keptLits nPis lits = Literal.checked lits (lits.filter (t.keeps nPis)) := by
  induction lits with
  | nil => rfl
  | cons l lits ih =>
    by_cases hl : l < 0
    · rw [Literal.checked_cons_of_neg lits _ hl, keptLits, slotOfLiteral?_of_neg hl]
      rfl
    · have hnonneg : 0 ≤ l := by omega
      rw [Literal.checked_cons_of_nonneg lits _ hnonneg, keptLits,
        slotOfLiteral?_of_nonneg hnonneg, ih]
      simp only [bind, Except.bind, isSome_slotOf, List.filter_cons]
      exact Literal.map_checked lits _ fun rest =>
        if t.keeps nPis l = true then l :: rest else rest

/-! ## Assignments -/

/-- The assignment of a literal on a placed input. -/
def assignmentOf (t : Placement) (l : Int) : Assignment :=
  let slot := (t.slotAt? (l / 2)).getD 0
  ⟨l, l / 2, Literal.assertsVariable l, slot / t.instLen, slot % t.instLen⟩

/-- The number that an indexed placement spells a position with. -/
theorem Indexed.lookup_of_slotAt {t : Placement} (h : t.Indexed) {input slot : Int}
    (hslot : t.slotAt? input = some slot) : t.lookup input = some (.whole slot) := by
  rw [h.lookup_eq, hslot]
  rfl

/-- The bit of an input whose position is known. -/
theorem Indexed.slotOf_eq {t : Placement} (h : t.Indexed) {input slot : Int}
    (hslot : t.slotAt? input = some slot) : t.slotOf input = .ok (.whole slot) := by
  have hlookup := h.lookup_of_slotAt hslot
  unfold slotOf
  rw [get_of_mem (input_range hlookup), hlookup]
  rfl

/-- The instruction of an input whose position is known. -/
theorem Indexed.instructionOf_eq {t : Placement} (h : t.Indexed) {input slot : Int}
    (hslot : t.slotAt? input = some slot) :
    t.instructionOf input = .ok (.whole (slot / t.instLen)) := by
  unfold instructionOf
  rw [h.slotOf_eq hslot]
  rfl

/-- The position in its instruction of an input whose position is known. -/
theorem Indexed.bitOf_eq {t : Placement} (h : t.Indexed) {input slot : Int}
    (hslot : t.slotAt? input = some slot) :
    t.bitOf input = .ok (.whole (slot % t.instLen)) := by
  unfold bitOf
  rw [h.slotOf_eq hslot]
  rfl

/-- The position of a kept literal's input. -/
theorem Indexed.exists_slotAt {t : Placement} (h : t.Indexed) {nPis l : Int}
    (hkeeps : t.keeps nPis l = true) : ∃ slot, t.slotAt? (l / 2) = some slot := by
  rcases keeps_iff.1 hkeeps with ⟨-, place, hplace⟩
  rcases h.lookup_whole hplace with ⟨slot, rfl⟩
  exact ⟨slot, by rw [slotAt?, hplace]; rfl⟩

/-- The assignment of a literal of an indexed placement, for one that is not negative. -/
theorem Indexed.ofLit?_of_nonneg {t : Placement} (h : t.Indexed) {nPis l : Int} (hl : 0 ≤ l) :
    Assignment.ofLit? t nPis l =
      .ok (if t.keeps nPis l then some (t.assignmentOf l) else none) := by
  unfold Assignment.ofLit?
  rw [slotOfLiteral?_of_nonneg hl]
  by_cases hkeeps : t.keeps nPis l = true
  · rcases h.exists_slotAt hkeeps with ⟨slot, hslot⟩
    rw [if_pos hkeeps, if_pos hkeeps, h.lookup_of_slotAt hslot, Literal.var_of_nonneg hl,
      Literal.isComplement_eq hl]
    simp only [bind, Except.bind, pure, Except.pure, Option.isNone_some,
      h.instructionOf_eq hslot, h.bitOf_eq hslot, Assignment.coordinate, Number.index?_whole,
      assignmentOf, hslot, Option.getD_some, Bool.not_not, Bool.false_eq_true, if_false]
  · rw [if_neg hkeeps, if_neg hkeeps]
    rfl

/-- The assignments of an indexed placement are those of the kept literals. -/
theorem Indexed.ofLits_eq_checked {t : Placement} (h : t.Indexed) (nPis : Int) (lits : List Int) :
    Assignment.ofLits t nPis lits =
      Literal.checked lits ((lits.filter (t.keeps nPis)).map t.assignmentOf) := by
  induction lits with
  | nil => rfl
  | cons l lits ih =>
    by_cases hl : l < 0
    · rw [Literal.checked_cons_of_neg lits _ hl, Assignment.ofLits, Assignment.ofLit?,
        slotOfLiteral?_of_neg hl]
      rfl
    · have hnonneg : 0 ≤ l := by omega
      rw [Literal.checked_cons_of_nonneg lits _ hnonneg, Assignment.ofLits,
        h.ofLit?_of_nonneg hnonneg, ih]
      by_cases hkeeps : t.keeps nPis l = true
      · rw [List.filter_cons_of_pos hkeeps, if_pos hkeeps]
        exact Literal.map_checked lits _ (t.assignmentOf l :: ·)
      · rw [List.filter_cons_of_neg hkeeps, if_neg hkeeps]
        exact Literal.map_checked lits _ id

/-- Literals that are not negative have the assignments of those that are kept. -/
theorem Indexed.ofLits_of_nonneg {t : Placement} (h : t.Indexed) (nPis : Int) {lits : List Int}
    (hnonneg : ∀ l ∈ lits, 0 ≤ l) :
    Assignment.ofLits t nPis lits = .ok ((lits.filter (t.keeps nPis)).map t.assignmentOf) := by
  rw [h.ofLits_eq_checked]
  exact Literal.checked_of_nonneg _ hnonneg

/-- Kept literals are kept again. -/
theorem filter_keeps (t : Placement) (nPis : Int) (lits : List Int) :
    (lits.filter (t.keeps nPis)).filter (t.keeps nPis) = lits.filter (t.keeps nPis) := by
  rw [List.filter_filter]
  simp only [Bool.and_self]

/-- Every kept literal has an assignment. -/
theorem Indexed.ofLits_of_filter {t : Placement} (h : t.Indexed) (nPis : Int) {lits : List Int}
    (hnonneg : ∀ l ∈ lits, 0 ≤ l) :
    Assignment.ofLits t nPis (lits.filter (t.keeps nPis)) =
      .ok ((lits.filter (t.keeps nPis)).map t.assignmentOf) := by
  rw [h.ofLits_of_nonneg nPis fun l hl => hnonneg l (List.mem_filter.1 hl).1, filter_keeps]

end Placement
end ImemReplay
