import ImemReplay.Proofs.Placements
import Mathlib.Data.Int.Interval
import Mathlib.Data.Finset.Dedup

/-!
# Accepted tables

A table of integers is accepted when it is a partial injection of the inputs into the memory: each
input that drives a bit drives one of the memory, and no two inputs drive the same.  The check goes
through the inputs in order and keeps the bits in use, each with the input that drives it.  What it
keeps is the inverse of the table in front of the input that it has come to, so it ends at the first
input whose bit lies outside the memory or belongs to an earlier input, and names that owner.
The refusal shows the bit; where that has too many digits to be shown, the number is reported and no
input is named.

Main results:

- Theorem `partialInjection_iff`: a partial injection is a table without misplaced inputs.
- Theorem `checkFrom_cases`: the check accepts a table or names its first misplaced input.
- Theorem `numMapped_le`: no more inputs drive a bit than there are bits.
- Theorem `ofIndexes_accepts_exactly`: which tables are accepted, and how the others are refused.
- Theorem `unwritable_shared_bit_not_named`: a refusal that names no input.
-/

namespace ImemReplay
namespace Placement

open PlacementEntry

/-! ## Partial injections -/

section Tables

variable {entries : List (Option Int)} {totalBits : Int}

/-- A table gives an input a bit. -/
def Drives (entries : List (Option Int)) (input : Nat) (slot : Int) : Prop :=
  entries[input]? = some (some slot)

/-- A table gives its inputs bits of the memory, and no two of them the same. -/
structure PartialInjection (entries : List (Option Int)) (totalBits : Int) : Prop where
  slot_range : ∀ {input : Nat} {slot : Int}, Drives entries input slot →
    0 ≤ slot ∧ slot < totalBits
  slot_injective : ∀ {input other : Nat} {slot : Int},
    Drives entries input slot → Drives entries other slot → input = other

/-- The bit of an input lies outside the memory. -/
def Outside (entries : List (Option Int)) (totalBits : Int) (input : Nat) : Prop :=
  ∃ slot, Drives entries input slot ∧ ¬(0 ≤ slot ∧ slot < totalBits)

/-- The bit of an input is that of an earlier one. -/
def Repeats (entries : List (Option Int)) (input : Nat) : Prop :=
  ∃ slot owner, owner < input ∧ Drives entries owner slot ∧ Drives entries input slot

/-- An input that cannot have its bit. -/
def Misplaced (entries : List (Option Int)) (totalBits : Int) (input : Nat) : Prop :=
  Outside entries totalBits input ∨ Repeats entries input

/-- The smallest such input of a table. -/
def FirstMisplaced (entries : List (Option Int)) (totalBits : Int) (input : Nat) : Prop :=
  Misplaced entries totalBits input ∧ ∀ other < input, ¬Misplaced entries totalBits other

/-- An input has at most one bit. -/
theorem Drives.unique {input : Nat} {slot other : Int} (h : Drives entries input slot)
    (hother : Drives entries input other) : slot = other := by
  unfold Drives at h hother
  rw [h] at hother
  simpa using hother

/-- A partial injection is a table without misplaced inputs. -/
theorem partialInjection_iff :
    PartialInjection entries totalBits ↔ ∀ input, ¬Misplaced entries totalBits input := by
  constructor
  · intro h input hmisplaced
    cases hmisplaced with
    | inl houtside =>
      rcases houtside with ⟨slot, hslot, hrange⟩
      exact hrange (h.slot_range hslot)
    | inr hrepeats =>
      rcases hrepeats with ⟨slot, owner, howner, hdrives, hslot⟩
      have heq := h.slot_injective hdrives hslot
      omega
  · intro h
    constructor
    case slot_range =>
      intro input slot hslot
      by_cases hrange : 0 ≤ slot ∧ slot < totalBits
      · exact hrange
      · exact absurd (Or.inl ⟨slot, hslot, hrange⟩) (h input)
    case slot_injective =>
      intro input other slot hinput hother
      rcases Nat.lt_trichotomy input other with hlt | heq | hgt
      · exact absurd (Or.inr ⟨slot, input, hlt, hinput, hother⟩) (h other)
      · exact heq
      · exact absurd (Or.inr ⟨slot, other, hgt, hother, hinput⟩) (h input)

/-- A bit of a partial injection belongs to one input at most, so there are no more inputs with a
bit than bits. -/
theorem PartialInjection.count_le (h : PartialInjection entries totalBits)
    (hbits : 0 ≤ totalBits) : (entries.countP Option.isSome : Int) ≤ totalBits := by
  have hnodup : (entries.filterMap id).Nodup := by
    apply List.pairwise_filterMap.2
    apply List.pairwise_iff_getElem.2
    intro i j hi hj hij a ha b hb hab
    subst hab
    have hdrives : Drives entries i a := List.getElem?_eq_some_iff.2 ⟨hi, ha⟩
    have hdrives' : Drives entries j a := List.getElem?_eq_some_iff.2 ⟨hj, hb⟩
    have heq := h.slot_injective hdrives hdrives'
    omega
  have hsubset : (entries.filterMap id).toFinset ⊆ Finset.Ico 0 totalBits := by
    intro slot hslot
    rw [List.mem_toFinset, List.mem_filterMap] at hslot
    rcases hslot with ⟨entry, hentry, heq⟩
    have hsome : entry = some slot := heq
    subst hsome
    rcases List.getElem?_of_mem hentry with ⟨input, hinput⟩
    exact Finset.mem_Ico.2 (h.slot_range hinput)
  have hcard := Finset.card_le_card hsubset
  rw [List.toFinset_card_of_nodup hnodup, Int.card_Ico, List.length_filterMap_eq_countP] at hcard
  have hcount : entries.countP Option.isSome = entries.countP fun entry => (id entry).isSome := rfl
  omega

end Tables

/-! ## Bits in use -/

/-- The bits in use are those of the inputs in front, each kept with the input that drives it. -/
def OwnedBy (front : List (Option Int)) (taken : List (Nat × Number)) : Prop :=
  ∀ {owner : Nat} {place : Number}, (owner, place) ∈ taken ↔
    ∃ slot, place = .whole slot ∧ Drives front owner slot

section Owners

variable {front : List (Option Int)} {taken : List (Nat × Number)}

/-- No bit is in use in front of the first input. -/
theorem ownedBy_nil : OwnedBy [] [] := by
  intro owner place
  simp [Drives]

/-- Entries behind others do not change theirs. -/
theorem drives_append_of_lt (rest : List (Option Int)) {owner : Nat} {slot : Int}
    (h : owner < front.length) : Drives (front ++ rest) owner slot ↔ Drives front owner slot := by
  unfold Drives
  rw [List.getElem?_append_left h]

/-- What an entry behind others adds to a table. -/
theorem drives_concat {entry : Option Int} {owner : Nat} {slot : Int} :
    Drives (front ++ [entry]) owner slot ↔
      Drives front owner slot ∨ (owner = front.length ∧ entry = some slot) := by
  unfold Drives
  rw [List.getElem?_append]
  split
  · next hlt =>
    have hne : owner ≠ front.length := by omega
    simp [hne]
  · next hge =>
    have hnone : front[owner]? = none := List.getElem?_eq_none (by omega)
    rw [List.getElem?_singleton, hnone]
    by_cases heq : owner = front.length
    · simp [heq]
    · have hpos : ¬owner - front.length = 0 := by omega
      simp [heq, hpos]

/-- An input without a bit uses none. -/
theorem OwnedBy.skip (h : OwnedBy front taken) : OwnedBy (front ++ [none]) taken := by
  intro owner place
  rw [h]
  simp [drives_concat]

/-- An input with a bit uses it. -/
theorem OwnedBy.own (h : OwnedBy front taken) (slot : Int) :
    OwnedBy (front ++ [some slot]) ((front.length, .whole slot) :: taken) := by
  intro owner place
  rw [List.mem_cons, h, Prod.mk.injEq]
  constructor
  · intro hmem
    rcases hmem with ⟨howner, hplace⟩ | ⟨other, hplace, hother⟩
    · exact ⟨slot, hplace, drives_concat.2 (Or.inr ⟨howner, rfl⟩)⟩
    · exact ⟨other, hplace, drives_concat.2 (Or.inl hother)⟩
  · intro hdrives
    rcases hdrives with ⟨other, hplace, hother⟩
    rcases drives_concat.1 hother with hfront | ⟨howner, heq⟩
    · exact Or.inr ⟨other, hplace, hfront⟩
    · have hslot : slot = other := by simpa using heq
      subst hslot
      exact Or.inl ⟨howner, hplace⟩

/-- The owner that is found for a bit drives it. -/
theorem OwnedBy.drives_of_find? (h : OwnedBy front taken) {slot : Int} {owner : Nat × Number}
    (hfind : (taken.find? fun owner => owner.2.same (.whole slot)) = some owner) :
    Drives front owner.1 slot := by
  rcases owner with ⟨input, place⟩
  rcases h.1 (List.mem_of_find?_eq_some hfind) with ⟨other, hplace, hdrives⟩
  have hsame : place.same (.whole slot) = true := by simpa using List.find?_some hfind
  rw [hplace, Number.same_of_index? rfl rfl] at hsame
  rwa [← hsame]

/-- No input drives a bit without an owner. -/
theorem OwnedBy.not_drives_of_find? (h : OwnedBy front taken) {slot : Int}
    (hfind : (taken.find? fun owner => owner.2.same (.whole slot)) = none) (owner : Nat) :
    ¬Drives front owner slot := by
  intro hdrives
  have hmem : (owner, Number.whole slot) ∈ taken := h.2 ⟨slot, rfl, hdrives⟩
  have hdiffers := List.find?_eq_none.1 hfind _ hmem
  have hsame : (Number.whole slot).same (.whole slot) = true :=
    (Number.same_of_index? rfl rfl).2 rfl
  exact hdiffers hsame

end Owners

/-! ## The check -/

/-- The fault of a misplaced input and its text.  They name the input: with its bit if that lies
outside the memory, and else with the one earlier input that drives the bit. -/
inductive Complaint (entries : List (Option Int)) (totalBits : Int) (input : Nat) :
    Fault → String → Prop
  | outside {slot : Int} (hslot : Drives entries input slot)
      (hrange : ¬(0 ≤ slot ∧ slot < totalBits)) :
      Complaint entries totalBits input (.slotRange input (.whole slot) totalBits)
        s!"placement of PI {input} out of range: {slot} (total_bits={totalBits})"
  | shared {slot : Int} {owner : Nat} (hslot : Drives entries input slot)
      (hrange : 0 ≤ slot ∧ slot < totalBits) (howner : owner < input)
      (hdrives : Drives entries owner slot)
      (hunique : ∀ other < input, Drives entries other slot → other = owner) :
      Complaint entries totalBits input (.slotShared input owner (.whole slot))
        s!"PI {input} and PI {owner} share imem slot {slot}"

/-- A complaint is about a value.  It is reported with its text, unless that shows an integer with
too many digits. -/
theorem Complaint.reported_eq {entries : List (Option Int)} {totalBits : Int} {input : Nat}
    {fault : Fault} {text : String} (h : Complaint entries totalBits input fault text) :
    fault.kind = .invalidValue ∧ fault.reported.message? =
      if fault.shown.all Text.isWritable then some text else Fault.message? .integerSize := by
  have hmessage : fault.kind = .invalidValue ∧ fault.message? = some text ∧
      fault.unwritten = .integerSize := by
    cases h with
    | outside hslot hrange => exact ⟨rfl, rfl, rfl⟩
    | shared hslot hrange howner hdrives hunique => exact ⟨rfl, rfl, rfl⟩
  rcases hmessage with ⟨hkind, htext, hunwritten⟩
  refine ⟨hkind, ?_⟩
  rw [Fault.reported, apply_ite Fault.message?, htext, hunwritten]

section Check

variable {entries front rest : List (Option Int)} {totalBits : Int} {taken : List (Nat × Number)}

/-- Only an input of the table can be misplaced. -/
theorem Misplaced.lt_length {input : Nat} (h : Misplaced entries totalBits input) :
    input < entries.length := by
  rcases h with ⟨slot, hslot, -⟩ | ⟨slot, owner, -, -, hslot⟩
  · exact (List.getElem?_eq_some_iff.1 hslot).1
  · exact (List.getElem?_eq_some_iff.1 hslot).1

/-- As long as no input is misplaced a bit has one owner. -/
theorem owner_unique {input owner other : Nat} {slot : Int}
    (hplaced : ∀ input' < input, ¬Misplaced entries totalBits input')
    (howner : owner < input) (hdrives : Drives entries owner slot)
    (hother : other < input) (hdrives' : Drives entries other slot) : other = owner := by
  rcases Nat.lt_trichotomy other owner with hlt | heq | hgt
  · exact absurd (Or.inr ⟨slot, other, hlt, hdrives', hdrives⟩) (hplaced owner howner)
  · exact heq
  · exact absurd (Or.inr ⟨slot, owner, hgt, hdrives, hdrives'⟩) (hplaced other hother)

/-- An input with a bit passes if the bit lies in the memory and is not in use.  Otherwise the check
ends with the complaint about it. -/
theorem checkFrom_some_cases {slot : Int} (howned : OwnedBy front taken)
    (hplaced : ∀ input < front.length, ¬Misplaced (front ++ some slot :: rest) totalBits input) :
    (checkFrom totalBits front.length taken ((some slot :: rest).map ofIndex?) =
        checkFrom totalBits (front.length + 1) ((front.length, .whole slot) :: taken)
          (rest.map ofIndex?) ∧
        ¬Misplaced (front ++ some slot :: rest) totalBits front.length) ∨
      ∃ fault text, checkFrom totalBits front.length taken ((some slot :: rest).map ofIndex?) =
          .error fault ∧
        FirstMisplaced (front ++ some slot :: rest) totalBits front.length ∧
        Complaint (front ++ some slot :: rest) totalBits front.length fault text := by
  have hslot : Drives (front ++ some slot :: rest) front.length slot := by simp [Drives]
  by_cases hrange : 0 ≤ slot ∧ slot < totalBits
  · have hwithin : (Number.whole slot).within totalBits = true := (Number.within_iff rfl).2 hrange
    cases hfind : taken.find? fun owner => owner.2.same (.whole slot) with
    | none =>
      left
      constructor
      · simp only [List.map_cons, ofIndex?, checkFrom, hwithin, if_true, hfind]
      · intro hmisplaced
        rcases hmisplaced with ⟨other, hother, hout⟩ | ⟨other, owner, howner, hdrives, hother⟩
        · rw [hother.unique hslot] at hout
          exact hout hrange
        · rw [hother.unique hslot, drives_append_of_lt _ howner] at hdrives
          exact howned.not_drives_of_find? hfind owner hdrives
    | some owner =>
      right
      have hfront := howned.drives_of_find? hfind
      have howner : owner.1 < front.length := (List.getElem?_eq_some_iff.1 hfront).1
      have hdrives := (drives_append_of_lt (some slot :: rest) howner).2 hfront
      have hunique : ∀ other < front.length, Drives (front ++ some slot :: rest) other slot →
          other = owner.1 := by
        intro other hother hdrives'
        exact owner_unique hplaced howner hdrives hother hdrives'
      have hcomplaint := Complaint.shared hslot hrange howner hdrives hunique
      refine ⟨_, _, ?_, ⟨?_, hplaced⟩, hcomplaint⟩
      · simp only [List.map_cons, ofIndex?, checkFrom, hwithin, if_true, hfind]
      · exact Or.inr ⟨slot, owner.1, howner, hdrives, hslot⟩
  · right
    have hwithin : (Number.whole slot).within totalBits = false := by
      rw [← Bool.not_eq_true, Number.within_iff rfl]
      exact hrange
    refine ⟨_, _, ?_, ⟨?_, hplaced⟩, Complaint.outside hslot hrange⟩
    · simp only [List.map_cons, ofIndex?, checkFrom, hwithin, Bool.false_eq_true, if_false]
    · exact Or.inl ⟨slot, hslot, hrange⟩

/-- The check accepts a partial injection, and of any other table it names the first misplaced
input.  The induction is on the entries that are left; those in front have been accepted, and the
bits in use are theirs. -/
theorem checkFrom_cases (howned : OwnedBy front taken)
    (hplaced : ∀ input < front.length, ¬Misplaced (front ++ rest) totalBits input) :
    (checkFrom totalBits front.length taken (rest.map ofIndex?) = .ok () ∧
        PartialInjection (front ++ rest) totalBits) ∨
      ∃ input fault text,
        checkFrom totalBits front.length taken (rest.map ofIndex?) = .error fault ∧
          FirstMisplaced (front ++ rest) totalBits input ∧
          Complaint (front ++ rest) totalBits input fault text := by
  induction rest generalizing front taken with
  | nil =>
    left
    refine ⟨rfl, partialInjection_iff.2 ?_⟩
    intro input hmisplaced
    have hlt := hmisplaced.lt_length
    rw [List.append_nil] at hlt
    exact hplaced input hlt hmisplaced
  | cons entry rest ih =>
    have hlength : (front ++ [entry]).length = front.length + 1 := by simp
    have happend : front ++ [entry] ++ rest = front ++ entry :: rest := by simp
    have hnext : ¬Misplaced (front ++ entry :: rest) totalBits front.length →
        ∀ input < (front ++ [entry]).length,
          ¬Misplaced (front ++ [entry] ++ rest) totalBits input := by
      intro hnot input hlt
      rw [happend]
      rcases Nat.lt_succ_iff_lt_or_eq.1 (hlength ▸ hlt) with hfront | heq
      · exact hplaced input hfront
      · rwa [heq]
    cases entry with
    | none =>
      have hnot : ¬Misplaced (front ++ none :: rest) totalBits front.length := by
        intro hmisplaced
        rcases hmisplaced with ⟨slot, hslot, -⟩ | ⟨slot, owner, -, -, hslot⟩
        · simp [Drives] at hslot
        · simp [Drives] at hslot
      have hrest := ih howned.skip (hnext hnot)
      rw [hlength, happend] at hrest
      exact hrest
    | some slot =>
      rcases checkFrom_some_cases howned hplaced with
        ⟨hcheck, hnot⟩ | ⟨fault, text, hcheck, hfault⟩
      · have hrest := ih (howned.own slot) (hnext hnot)
        rw [hlength, happend] at hrest
        rw [hcheck]
        exact hrest
      · exact Or.inr ⟨front.length, fault, text, hcheck, hfault⟩

end Check

/-! ## Accepted tables -/

section Build

variable {instLen nInsts : Int}

/-- In a valid shape the placement of a table is built from a partial injection, and every other
table is refused at its first misplaced input. -/
theorem ofIndexes_cases (entries : List (Option Int)) (hlen : 0 < instLen) (hinsts : 0 < nInsts) :
    (ofIndexes entries instLen nInsts =
        .ok ⟨instLen, nInsts, entries.map (Option.map Number.whole)⟩ ∧
      PartialInjection entries (instLen * nInsts)) ∨
    ∃ input fault text, ofIndexes entries instLen nInsts = .error fault ∧
      FirstMisplaced entries (instLen * nInsts) input ∧
      Complaint entries (instLen * nInsts) input fault text := by
  have hshape : ¬(instLen ≤ 0 ∨ nInsts ≤ 0) := by omega
  have hnone : ∀ input < ([] : List (Option Int)).length,
      ¬Misplaced ([] ++ entries) (instLen * nInsts) input := by simp
  unfold ofIndexes ofEntries
  rw [if_neg hshape, map_place?_ofIndex?]
  rcases checkFrom_cases ownedBy_nil hnone with
    ⟨hcheck, hinjection⟩ | ⟨input, fault, text, hcheck, hfirst, hcomplaint⟩
  · left
    rw [List.length_nil] at hcheck
    rw [hcheck]
    exact ⟨rfl, hinjection⟩
  · right
    rw [List.length_nil] at hcheck
    rw [hcheck]
    exact ⟨input, fault, text, rfl, hfirst, hcomplaint⟩

/-- A shape without bits is refused before any input is looked at. -/
theorem ofIndexes_of_no_shape (entries : List (Option Int)) (hshape : ¬(0 < instLen ∧ 0 < nInsts)) :
    ofIndexes entries instLen nInsts = .error (.memoryShape instLen nInsts) :=
  if_pos (by omega)

/-- What an accepted table is, and its placement. -/
theorem ofIndexes_eq_ok {entries : List (Option Int)} {t : Placement}
    (h : ofIndexes entries instLen nInsts = .ok t) :
    (0 < instLen ∧ 0 < nInsts) ∧ PartialInjection entries (instLen * nInsts) ∧
      t = ⟨instLen, nInsts, entries.map (Option.map Number.whole)⟩ := by
  by_cases hshape : 0 < instLen ∧ 0 < nInsts
  · rcases ofIndexes_cases entries hshape.1 hshape.2 with
      ⟨hok, hinjection⟩ | ⟨input, fault, text, herror, -, -⟩
    · rw [hok] at h
      exact ⟨hshape, hinjection, (Except.ok.inj h).symm⟩
    · rw [herror] at h
      contradiction
  · rw [ofIndexes_of_no_shape entries hshape] at h
    contradiction

/-- Why a table is refused in a valid shape. -/
theorem ofIndexes_eq_error {entries : List (Option Int)} {fault : Fault} (hlen : 0 < instLen)
    (hinsts : 0 < nInsts) (h : ofIndexes entries instLen nInsts = .error fault) :
    ∃ input text, FirstMisplaced entries (instLen * nInsts) input ∧
      Complaint entries (instLen * nInsts) input fault text := by
  rcases ofIndexes_cases entries hlen hinsts with
    ⟨hok, -⟩ | ⟨input, other, text, herror, hfirst, hcomplaint⟩
  · rw [hok] at h
    contradiction
  · rw [herror] at h
    cases h
    exact ⟨input, text, hfirst, hcomplaint⟩

/-- Every refusal of a table is about a value. -/
theorem kind_of_ofIndexes_error {entries : List (Option Int)} {fault : Fault}
    (h : ofIndexes entries instLen nInsts = .error fault) : fault.kind = .invalidValue := by
  by_cases hshape : 0 < instLen ∧ 0 < nInsts
  · rcases ofIndexes_eq_error hshape.1 hshape.2 h with ⟨input, text, -, hcomplaint⟩
    exact hcomplaint.reported_eq.1
  · rw [ofIndexes_of_no_shape entries hshape] at h
    cases h
    rfl

/-- No more inputs of an accepted table drive a bit than there are bits. -/
theorem numMapped_le {entries : List (Option Int)} (hlen : 0 < instLen) (hinsts : 0 < nInsts)
    (h : PartialInjection entries (instLen * nInsts)) :
    (numMapped ⟨instLen, nInsts, entries.map (Option.map Number.whole)⟩ : Int) ≤
      instLen * nInsts := by
  have hcount : numMapped ⟨instLen, nInsts, entries.map (Option.map Number.whole)⟩ =
      entries.countP Option.isSome := by
    simp only [numMapped, List.countP_map]
    congr 1
    funext entry
    simp
  rw [hcount]
  exact h.count_le (Int.le_of_lt (Int.mul_pos hlen hinsts))

/-- Two inputs of a memory share its last bit. -/
theorem ofIndexes_of_shared {slot : Int} (hslot : 0 ≤ slot) :
    ofIndexes [some slot, some slot] (slot + 1) 1 = .error (.slotShared 1 0 (.whole slot)) := by
  have hshape : ¬(slot + 1 ≤ 0 ∨ (1 : Int) ≤ 0) := by omega
  have hwithin : (Number.whole slot).within ((slot + 1) * 1) = true := by
    apply (Number.within_iff rfl).2
    omega
  have hsame : (Number.whole slot).same (.whole slot) = true :=
    (Number.same_of_index? rfl rfl).2 rfl
  unfold ofIndexes ofEntries
  rw [if_neg hshape]
  simp only [List.map_cons, List.map_nil, ofIndex?, checkFrom, hwithin, hsame, if_true,
    List.find?_nil, List.find?_cons]
  rfl

end Build

/-- Which tables are accepted in a shape, what their placement is, and what the fault is otherwise.
-/
structure AcceptsExactly (entries : List (Option Int)) (instLen nInsts : Int) : Prop where
  succeeds_iff : (∃ t, ofIndexes entries instLen nInsts = .ok t) ↔
    0 < instLen ∧ 0 < nInsts ∧ PartialInjection entries (instLen * nInsts)
  /-- The placement has the bits of the table. -/
  placement_eq : ∀ {t}, ofIndexes entries instLen nInsts = .ok t →
    t = ⟨instLen, nInsts, entries.map (Option.map Number.whole)⟩
  /-- A shape without bits is refused before any input is looked at. -/
  fault_of_shape : ¬(0 < instLen ∧ 0 < nInsts) →
    ofIndexes entries instLen nInsts = .error (.memoryShape instLen nInsts)
  /-- In a valid shape the fault names the smallest misplaced input.  So does the text that is
  reported, unless the bit or the size of the memory has too many digits to be written. -/
  names_first : 0 < instLen → 0 < nInsts →
    ∀ {fault}, ofIndexes entries instLen nInsts = .error fault →
      ∃ input text, FirstMisplaced entries (instLen * nInsts) input ∧
        Complaint entries (instLen * nInsts) input fault text ∧
        fault.reported.message? =
          if fault.shown.all Text.isWritable then some text else Fault.message? .integerSize
  kind_of_error : ∀ {fault}, ofIndexes entries instLen nInsts = .error fault →
    fault.reported.kind = .invalidValue
  /-- The inputs with a bit are no more than the bits. -/
  numMapped_le : ∀ {t}, ofIndexes entries instLen nInsts = .ok t →
    (t.numMapped : Int) ≤ instLen * nInsts

/-- The tables that are accepted are the partial injections of the inputs into a memory with bits.
Any other table is refused at the smallest input whose bit lies outside the memory or belongs to an
earlier input. -/
theorem ofIndexes_accepts_exactly (entries : List (Option Int)) (instLen nInsts : Int) :
    AcceptsExactly entries instLen nInsts := by
  constructor
  case succeeds_iff =>
    constructor
    · intro hsucceeds
      rcases hsucceeds with ⟨t, ht⟩
      rcases ofIndexes_eq_ok ht with ⟨⟨hlen, hinsts⟩, hinjection, -⟩
      exact ⟨hlen, hinsts, hinjection⟩
    · intro haccepted
      rcases haccepted with ⟨hlen, hinsts, hinjection⟩
      rcases ofIndexes_cases entries hlen hinsts with
        ⟨hok, -⟩ | ⟨input, fault, text, -, hfirst, -⟩
      · exact ⟨_, hok⟩
      · exact absurd hfirst.1 (partialInjection_iff.1 hinjection input)
  case placement_eq =>
    intro t ht
    exact (ofIndexes_eq_ok ht).2.2
  case fault_of_shape => exact ofIndexes_of_no_shape entries
  case names_first =>
    intro hlen hinsts fault hfault
    rcases ofIndexes_eq_error hlen hinsts hfault with ⟨input, text, hfirst, hcomplaint⟩
    exact ⟨input, text, hfirst, hcomplaint, hcomplaint.reported_eq.2⟩
  case kind_of_error =>
    intro fault hfault
    rw [Fault.kind_reported, kind_of_ofIndexes_error hfault, ite_self]
  case numMapped_le =>
    intro t ht
    rcases ofIndexes_eq_ok ht with ⟨⟨hlen, hinsts⟩, hinjection, rfl⟩
    exact Placement.numMapped_le hlen hinsts hinjection

/-- Input 2 has the bit of input 0; that input 3 lies outside the memory is not noticed. -/
example : ofIndexes [some 1, none, some 1, some 9] 2 1 = .error (.slotShared 2 0 (.whole 1)) :=
  rfl

/-- Two inputs share a bit that has too many digits to be written.  The check ends with the fault
about the two, but what is reported in its place names none of them. -/
theorem unwritable_shared_bit_not_named :
    Drives [some Text.leastUnwritable, some Text.leastUnwritable] 0 Text.leastUnwritable ∧
      Drives [some Text.leastUnwritable, some Text.leastUnwritable] 1 Text.leastUnwritable ∧
      ofIndexes [some Text.leastUnwritable, some Text.leastUnwritable]
          (Text.leastUnwritable + 1) 1 =
        .error (.slotShared 1 0 (.whole Text.leastUnwritable)) ∧
      (Fault.slotShared 1 0 (.whole Text.leastUnwritable)).reported = .integerSize := by
  have hshared := ofIndexes_of_shared (Int.le_of_lt Text.leastUnwritable_pos)
  have hshown : ¬(Fault.slotShared 1 0 (.whole Text.leastUnwritable)).shown.all
      Text.isWritable = true := by
    simp [Fault.shown, Number.shown, Text.isWritable_leastUnwritable]
  exact ⟨rfl, rfl, hshared, if_neg hshown⟩

end Placement
end ImemReplay
