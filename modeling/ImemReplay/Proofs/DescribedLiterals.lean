import ImemReplay.Proofs.Outputs

/-!
# Described literals

The bit of a literal is looked up twice when the literal is described.  The first lookup decides
whether there is a row at all: it takes any variable, and finds nothing for one that is not declared
or is behind the table.  The instruction and the position are then asked for by the variable, and
these questions refuse an input that is out of range or has no bit.  They cannot refuse what the
first lookup has found, so a negative literal is all that can go wrong.

Main results:

- Theorem `address_of_slotOfLiteral?`: what the first lookup finds has an address.
- Theorem `FaithfulTo.eq_assignmentOf`: a faithful row is determined by its literal.
- Theorem `ofLits_eq_ok_iff`: the rows of a list are the faithful ones of its kept literals.
- Theorem `describes_exactly`: when literals can be described, and their rows.
- Theorem `unwritable_literal_not_described`: a negative literal that is not named.
-/

namespace ImemReplay

namespace Placement

variable {t : Placement} {nPis : Int}

/-! ## Lookups -/

/-- A literal whose bit is found by the first lookup is kept. -/
theorem keeps_of_slotOfLiteral? {l : Int} {place : Number}
    (hfound : t.slotOfLiteral? nPis l = .ok (some place)) :
    0 ≤ l ∧ t.keeps nPis l = true := by
  by_cases hneg : l < 0
  · rw [slotOfLiteral?_of_neg hneg] at hfound
    contradiction
  have hnonneg : 0 ≤ l := Int.not_lt.1 hneg
  rw [slotOfLiteral?_of_nonneg hnonneg, Except.ok.injEq] at hfound
  refine ⟨hnonneg, ?_⟩
  rw [← isSome_slotOf, hfound, Option.isSome_some]

/-- What the first lookup finds has an instruction and a position in it. -/
theorem Indexed.address_of_slotOfLiteral? (hindexed : t.Indexed) {l : Int} {place : Number}
    (hfound : t.slotOfLiteral? nPis l = .ok (some place)) :
    ∃ slot, t.instructionOf (l / 2) = .ok (.whole (slot / t.instLen)) ∧
      t.bitOf (l / 2) = .ok (.whole (slot % t.instLen)) := by
  rcases hindexed.exists_slotAt (keeps_of_slotOfLiteral? hfound).2 with ⟨slot, hslot⟩
  exact ⟨slot, hindexed.instructionOf_eq hslot, hindexed.bitOf_eq hslot⟩

end Placement

namespace Assignment

open Placement

variable {t : Placement} {nPis : Int}

/-! ## Faithful rows -/

/-- A row that says which literal it is of, and where the bit of its input is. -/
structure FaithfulTo (t : Placement) (row : Assignment) : Prop where
  literal_eq : row.literal = 2 * row.input + (1 - row.value.toInt)
  place_eq : t.lookup row.input = some (.whole (row.inst * t.instLen + row.bit))
  bit_range : 0 ≤ row.bit ∧ row.bit < t.instLen

/-- The row of a kept literal is faithful. -/
theorem faithfulTo_assignmentOf (ht : t.WellFormed) (hindexed : t.Indexed) {l : Int}
    (hkeeps : t.keeps nPis l = true) : FaithfulTo t (t.assignmentOf l) := by
  rcases hindexed.exists_slotAt hkeeps with ⟨slot, hslot⟩
  constructor
  case literal_eq => exact t.literal_of_assignmentOf l
  case place_eq =>
    simp only [assignmentOf, hslot, Option.getD_some]
    rw [Int.ediv_mul_add_emod]
    exact hindexed.lookup_of_slotAt hslot
  case bit_range => exact (address_range ht hindexed hkeeps).2

/-- A faithful row is the one of its literal. -/
theorem FaithfulTo.eq_assignmentOf {row : Assignment} (h : FaithfulTo t row) :
    row = t.assignmentOf row.literal := by
  obtain ⟨literal, input, value, inst, bit⟩ := row
  rcases h with ⟨hliteral, hplace, hbit⟩
  simp only at hliteral hplace hbit
  rcases Literal.polarity_unique hliteral with ⟨hinput, hvalue⟩
  -- The input gives its bit, and the bit its instruction and its position there.
  have hslot : t.slotAt? input = some (inst * t.instLen + bit) := by
    rw [slotAt?, hplace]
    rfl
  have hlen : t.instLen ≠ 0 := by omega
  have hinst : (inst * t.instLen + bit) / t.instLen = inst := by
    rw [Int.add_comm, Int.add_mul_ediv_right bit inst hlen,
      Int.ediv_eq_zero_of_lt hbit.1 hbit.2, Int.zero_add]
  have hposition : (inst * t.instLen + bit) % t.instLen = bit := by
    rw [Int.add_comm, Int.add_mul_emod_self_right, Int.emod_eq_of_lt hbit.1 hbit.2]
  simp only [assignmentOf, hinput, hvalue, hslot, Option.getD_some, hinst, hposition]

/-- The rows of a list without negative literals are the faithful rows of its kept literals, in
order. -/
theorem ofLits_eq_ok_iff (ht : t.WellFormed) (hindexed : t.Indexed) {lits : List Int}
    {rows : List Assignment} :
    ofLits t nPis lits = .ok rows ↔ (∀ l ∈ lits, 0 ≤ l) ∧
      rows.map (·.literal) = lits.filter (t.keeps nPis) ∧ ∀ row ∈ rows, FaithfulTo t row := by
  rw [hindexed.ofLits_eq_checked, Literal.checked_eq_ok_iff]
  refine and_congr_right fun _ => ?_
  constructor
  · rintro rfl
    refine ⟨t.map_literal_assignmentOf _, ?_⟩
    intro row hrow
    rcases List.mem_map.1 hrow with ⟨l, hl, rfl⟩
    exact faithfulTo_assignmentOf ht hindexed (List.mem_filter.1 hl).2
  · rintro ⟨hliterals, hfaithful⟩
    calc (lits.filter (t.keeps nPis)).map t.assignmentOf
        = (rows.map (·.literal)).map t.assignmentOf := by rw [hliterals]
      _ = rows.map (fun row => t.assignmentOf row.literal) := List.map_map
      _ = rows.map id :=
        List.map_congr_left fun row hrow => (hfaithful row hrow).eq_assignmentOf.symm
      _ = rows := List.map_id rows

/-! ## Descriptions -/

/-- When literals can be described, and what their rows are. -/
structure DescribesExactly (t : Placement) (nPis : Int) (lits : List Int) : Prop where
  /-- The description fails exactly for a list with a negative literal. -/
  fails_iff : (∃ fault, ofLits t nPis lits = .error fault) ↔ ∃ l ∈ lits, l < 0
  /-- The fault is that of the first one. -/
  names_first : ∀ {fault}, ofLits t nPis lits = .error fault ↔
    ∃ front l back, lits = front ++ l :: back ∧ l < 0 ∧ (∀ m ∈ front, 0 ≤ m) ∧
      fault = .negativeLiteral l
  /-- It is reported as one of invalid values. -/
  kind_of_error : ∀ {fault}, ofLits t nPis lits = .error fault →
    fault.reported.kind = .invalidValue
  /-- The text that is reported shows that literal, unless it has too many digits to be written: the
  fault that is reported is about its size then. -/
  text_of_error : ∀ {fault}, ofLits t nPis lits = .error fault →
    ∃ front l back, lits = front ++ l :: back ∧ l < 0 ∧ (∀ m ∈ front, 0 ≤ m) ∧
      fault.NamesLiteral l
  /-- A literal whose bit is found by the first lookup has an instruction and a position. -/
  address_of_found : ∀ {l place}, t.slotOfLiteral? nPis l = .ok (some place) →
    ∃ inst bit, t.instructionOf (l / 2) = .ok (.whole inst) ∧ t.bitOf (l / 2) = .ok (.whole bit)
  /-- So no input is out of range or without a bit. -/
  not_refused : ∀ input, ofLits t nPis lits ≠ .error (.inputRange input) ∧
    ofLits t nPis lits ≠ .error (.inputUnmapped input)
  /-- Without negative literals there are rows. -/
  succeeds : (∀ l ∈ lits, 0 ≤ l) → ∃ rows, ofLits t nPis lits = .ok rows
  /-- The rows are the faithful ones of the literals on declared and placed inputs, in order. -/
  rows_iff : ∀ {rows}, ofLits t nPis lits = .ok rows ↔ (∀ l ∈ lits, 0 ≤ l) ∧
    rows.map (·.literal) = lits.filter (t.keeps nPis) ∧ ∀ row ∈ rows, FaithfulTo t row
  /-- The rows of a list in two parts are those of the first part and those of the second; the
  fault is that of the first part that fails. -/
  append : ∀ back, ofLits t nPis (lits ++ back) = (do
    let first ← ofLits t nPis lits
    let second ← ofLits t nPis back
    return first ++ second)

/-- For a placement of integers, literals can be described exactly if none of them is negative,
whatever the number of declared inputs is. -/
theorem describes_exactly {entries : List (Option Int)} {instLen nInsts : Int} {t : Placement}
    (hplacement : ofIndexes entries instLen nInsts = .ok t) (nPis : Int) (lits : List Int) :
    DescribesExactly t nPis lits := by
  have ht := wellFormed_of_ofEntries hplacement
  have hindexed := indexed_of_ofIndexes hplacement
  have hnames : ∀ {fault}, ofLits t nPis lits = .error fault ↔
      ∃ front l back, lits = front ++ l :: back ∧ l < 0 ∧ (∀ m ∈ front, 0 ≤ m) ∧
        fault = .negativeLiteral l := by
    intro fault
    rw [hindexed.ofLits_eq_checked, Literal.checked_eq_error_iff]
  constructor
  case fails_iff =>
    constructor
    · rintro ⟨fault, hfails⟩
      rw [hindexed.ofLits_eq_checked] at hfails
      rcases Literal.exists_neg_of_checked_error hfails with ⟨l, hl, hneg, -⟩
      exact ⟨l, hl, hneg⟩
    · rintro ⟨l, hl, hneg⟩
      cases hresult : ofLits t nPis lits with
      | error fault => exact ⟨fault, rfl⟩
      | ok rows =>
        have hnonneg := ((ofLits_eq_ok_iff ht hindexed).1 hresult).1 l hl
        exact absurd hneg (Int.not_lt.2 hnonneg)
  case names_first => exact hnames
  case kind_of_error =>
    intro fault hfails
    rcases hnames.1 hfails with ⟨front, l, back, -, -, -, rfl⟩
    exact Fault.kind_reported_of_invalidValue rfl
  case text_of_error =>
    intro fault hfails
    rcases hnames.1 hfails with ⟨front, l, back, hsplit, hneg, hfront, rfl⟩
    exact ⟨front, l, back, hsplit, hneg, hfront, Fault.namesLiteral_negativeLiteral l⟩
  case address_of_found =>
    intro l place hfound
    rcases hindexed.address_of_slotOfLiteral? hfound with ⟨slot, hinst, hbit⟩
    exact ⟨_, _, hinst, hbit⟩
  case not_refused =>
    intro input
    constructor
    · intro hfails
      rcases hnames.1 hfails with ⟨front, l, back, -, -, -, hfault⟩
      contradiction
    · intro hfails
      rcases hnames.1 hfails with ⟨front, l, back, -, -, -, hfault⟩
      contradiction
  case succeeds => exact fun hnonneg => ⟨_, hindexed.ofLits_of_nonneg nPis hnonneg⟩
  case rows_iff => exact ofLits_eq_ok_iff ht hindexed
  case append => exact fun back => ofLits_append

/-- More inputs are declared than the small placement has, and literals on inputs without a bit and
behind the table are passed over; behind the first negative literal nothing is looked at. -/
theorem describes_exactly_sample :
    ofIndexes [none, none, some 0, some 3, some 1] 2 2 = .ok sample ∧
      ofLits sample 9 [4, 2, 7, 16, 4] = .ok
        [⟨4, 2, true, 0, 0⟩, ⟨7, 3, false, 1, 1⟩, ⟨4, 2, true, 0, 0⟩] ∧
      DescribesExactly sample 9 [4, 2, 7, 16, 4] ∧
      ofLits sample 9 [4, 16, -3, -1] = .error (.negativeLiteral (-3)) ∧
      DescribesExactly sample 9 [4, 16, -3, -1] :=
  ⟨rfl, rfl, describes_exactly ofIndexes_sample 9 _, rfl, describes_exactly ofIndexes_sample 9 _⟩

/-- A list of one negative literal, which cannot be written: the fault that is reported does not
show it. -/
theorem unwritable_literal_not_described :
    ofIndexes [none, none, some 0, some 3, some 1] 2 2 = .ok sample ∧
      -Text.leastUnwritable < 0 ∧
      ∃ fault, ofLits sample 9 [-Text.leastUnwritable] = .error fault ∧
        fault.reported = .integerSize ∧
        Fault.integerSize.message? = "Exceeds the limit (4300 digits) for integer string " ++
          "conversion; use sys.set_int_max_str_digits() to increase the limit" := by
  have hneg : -Text.leastUnwritable < 0 := Int.neg_neg_of_pos Text.leastUnwritable_pos
  have hindexed := indexed_of_ofIndexes ofIndexes_sample
  have hfails : ofLits sample 9 [-Text.leastUnwritable] =
      .error (.negativeLiteral (-Text.leastUnwritable)) := by
    rw [hindexed.ofLits_eq_checked, Literal.checked_cons_of_neg _ _ hneg]
  exact ⟨rfl, hneg, _, hfails, Fault.reported_negativeLiteral_unwritable, rfl⟩

end Assignment
end ImemReplay
