import ImemReplay.Proofs.Decoding

/-!
# Addresses of inputs and registers

The address of an input is the instruction of its bit and the position of the bit in the
instruction.  It stands for the bit: the two give the bit back, and no two inputs have one address.
A register has the position of its input, which the table of registers lists.  A number that a table
does not list is refused, and so is an input without a bit.

The refusal of a number shows it.  A number with too many digits cannot be shown, so it is not the
index that is reported then, but the number.

Main results:

- Theorem `slotOf_of_ofIndexes`: the bit of an input is looked up in the table of the placement.
- Theorem `ofColumns_eq_ok`: the inputs of the registers are the column of a table.
- Theorem `answer_registerBit_of_itemAt`: a register has the position of its input.
- Theorem `answers_addresses`: how every question about an address is answered.
- Theorem `overlong_input_not_outOfBounds`: a register whose input is listed nowhere and cannot be
  shown.
-/

namespace ImemReplay

/-! ## Numbers of a table -/

/-- What a table lists under a number, counted from zero. -/
def itemAt {α : Type} (items : List α) (id : Int) : Option α :=
  if id < 0 then none else items[id.toNat]?

section Items

variable {α β : Type} {items : List α} {id : Int}

/-- A table lists nothing exactly under the numbers out of its range. -/
theorem itemAt_eq_none_iff : itemAt items id = none ↔ ¬(0 ≤ id ∧ id < items.length) := by
  unfold itemAt
  by_cases h : id < 0
  · simp only [h, if_true, true_iff]
    omega
  · simp only [h, if_false, List.getElem?_eq_none_iff]
    omega

/-- A number that a table lists is in its range. -/
theorem range_of_itemAt {item : α} (h : itemAt items id = some item) :
    0 ≤ id ∧ id < items.length := by
  by_cases hrange : 0 ≤ id ∧ id < items.length
  · exact hrange
  · rw [itemAt_eq_none_iff.2 hrange] at h
    contradiction

/-- What a table lists under a number is one of its items. -/
theorem mem_of_itemAt {item : α} (h : itemAt items id = some item) : item ∈ items := by
  unfold itemAt at h
  split at h
  · contradiction
  · exact List.mem_of_getElem? h

theorem itemAt_map (f : α → β) : itemAt (items.map f) id = (itemAt items id).map f := by
  unfold itemAt
  split
  · rfl
  · exact List.getElem?_map

end Items

namespace Placement

variable {entries : List (Option Int)} {instLen nInsts : Int} {t : Placement}

/-- The bit of an input is the one that the table lists. -/
theorem lookup_of_ofIndexes (h : ofIndexes entries instLen nInsts = .ok t) (id : Int) :
    t.lookup id = (itemAt entries id).join.map Number.whole := by
  have hslots : t.slots = entries.map (Option.map Number.whole) := by
    rw [slots_of_ofEntries h, map_place?_ofIndex?]
  have hlookup : t.lookup id = (itemAt t.slots id).join := by
    unfold lookup itemAt
    split
    · rfl
    · rfl
  rw [hlookup, hslots, itemAt_map]
  rcases itemAt entries id with _ | _ | slot <;> rfl

/-- So is its position in the memory. -/
theorem slotAt?_of_ofIndexes (h : ofIndexes entries instLen nInsts = .ok t) (id : Int) :
    t.slotAt? id = (itemAt entries id).join := by
  rw [slotAt?, lookup_of_ofIndexes h]
  rcases itemAt entries id with _ | _ | slot <;> rfl

/-- The bit of an input is looked up in the table; an input out of range and one without a bit are
refused. -/
theorem slotOf_of_ofIndexes (h : ofIndexes entries instLen nInsts = .ok t) (id : Int) :
    t.slotOf id =
      match itemAt entries id with
      | none => .error (.inputRange id)
      | some none => .error (.inputUnmapped id)
      | some (some slot) => .ok (.whole slot) := by
  have hlength : t.length = entries.length := by
    rw [length_of_ofEntries h, List.length_map]
  have hlookup := lookup_of_ofIndexes h id
  unfold slotOf
  cases hitem : itemAt entries id with
  | none =>
    have hrange := itemAt_eq_none_iff.1 hitem
    rw [← hlength] at hrange
    rw [get_of_not_mem hrange]
    rfl
  | some bit =>
    have hrange := range_of_itemAt hitem
    rw [← hlength] at hrange
    rw [hitem] at hlookup
    rw [get_of_mem hrange, hlookup]
    cases bit with
    | none => rfl
    | some slot => rfl

end Placement

/-! ## Columns of registers -/

namespace Register

/-- No number of a register is negative. -/
structure Valid (r : Register) : Prop where
  inst_nonneg : ∀ {inst}, r.inst = some inst → 0 ≤ inst
  pi_nonneg : 0 ≤ r.pi
  copy_nonneg : 0 ≤ r.copy

/-- The check of a register accepts the valid ones. -/
theorem check_eq_ok_iff {r : Register} (id : Nat) : r.check id = .ok () ↔ r.Valid := by
  have hrest : check.checkRest r id = .ok () ↔ 0 ≤ r.pi ∧ 0 ≤ r.copy := by
    unfold check.checkRest
    split
    · simp
      omega
    · split
      · simp
        omega
      · simp
        omega
  unfold check
  cases hinst : r.inst with
  | none =>
    rw [hrest]
    constructor
    · intro h
      exact ⟨by simp [hinst], h.1, h.2⟩
    · intro h
      exact ⟨h.pi_nonneg, h.copy_nonneg⟩
  | some inst =>
    by_cases hneg : inst < 0
    · simp only [hneg, if_true, reduceCtorEq, false_iff]
      intro h
      have hnonneg := h.inst_nonneg hinst
      omega
    · simp only [hneg, if_false, hrest]
      constructor
      · intro h
        refine ⟨?_, h.1, h.2⟩
        intro other hother
        rw [hinst] at hother
        cases hother
        omega
      · intro h
        exact ⟨h.pi_nonneg, h.copy_nonneg⟩

end Register

namespace RegisterTable

/-- The check of a table accepts valid registers. -/
theorem checkFrom_eq_ok_iff (id : Nat) {registers : List Register} :
    checkFrom id registers = .ok () ↔ ∀ r ∈ registers, r.Valid := by
  induction registers generalizing id with
  | nil => simp [checkFrom]
  | cons r registers ih =>
    rw [checkFrom, bind_eq_ok_iff, List.forall_mem_cons, ← ih (id + 1),
      ← Register.check_eq_ok_iff id]
    constructor
    · intro h
      rcases h with ⟨done, hr, hregisters⟩
      exact ⟨hr, hregisters⟩
    · intro h
      exact ⟨(), h.1, h.2⟩

/-- The inputs of the registers are the column that the table was built from, and none is
negative. -/
theorem ofColumns_eq_ok {inst : List (Option Int)} {pis copy : List Int} {t : RegisterTable}
    (h : ofColumns inst pis copy = .ok t) :
    t.registers.map Register.pi = pis ∧ ∀ r ∈ t.registers, r.Valid := by
  unfold ofColumns at h
  split at h
  · next hlengths =>
    rcases bind_eq_ok_iff.1 h with ⟨done, hcheck, ht⟩
    cases ht
    refine ⟨?_, (checkFrom_eq_ok_iff 0).1 hcheck⟩
    have hcopy : pis.length ≤ copy.length := by omega
    have hinst : (pis.zip copy).length ≤ inst.length := by
      rw [List.length_zip]
      omega
    have hpi : Register.pi ∘ (fun row : Option Int × Int × Int => ⟨row.1, row.2.1, row.2.2⟩) =
        Prod.fst ∘ Prod.snd := rfl
    rw [List.map_map, hpi, ← List.map_map, List.map_snd_zip hinst, List.map_fst_zip hcopy]
  · contradiction

/-- No input of a column that a table was built from is negative. -/
theorem nonneg_of_ofColumns {inst : List (Option Int)} {pis copy : List Int} {t : RegisterTable}
    (h : ofColumns inst pis copy = .ok t) : ∀ pi ∈ pis, 0 ≤ pi := by
  intro pi hpi
  rcases ofColumns_eq_ok h with ⟨hpis, hvalid⟩
  rw [← hpis, List.mem_map] at hpi
  rcases hpi with ⟨r, hr, rfl⟩
  exact (hvalid r hr).pi_nonneg

/-- A register of the table has an input of the column. -/
theorem get_of_ofColumns {inst : List (Option Int)} {pis copy : List Int} {t : RegisterTable}
    (h : ofColumns inst pis copy = .ok t) (id : Int) :
    (t.get id).map Register.pi =
      match itemAt pis id with
      | none => .error (.registerRange id)
      | some pi => .ok pi := by
  have hget : t.get id =
      match itemAt t.registers id with
      | none => .error (.registerRange id)
      | some r => .ok r := by
    unfold get itemAt
    cases (if id < 0 then none else t.registers[id.toNat]?) with
    | none => rfl
    | some r => rfl
  rw [← (ofColumns_eq_ok h).1, itemAt_map, hget]
  cases itemAt t.registers id with
  | none => rfl
  | some r => rfl

end RegisterTable

/-! ## Questions -/

/-- The questions about an input. -/
def Query.OnInput (query : Query) : Prop := query = .inputInstruction ∨ query = .inputBit

namespace Decoder

variable {d : Decoder} {entries : List (Option Int)} {instLen nInsts : Int}

/-- A question is refused, and the fault that is reported is of a kind. -/
def Refuses (d : Decoder) (query : Query) (id : Int) (kind : Fault.Kind) : Prop :=
  ∃ fault, d.answer query id = .error fault ∧ fault.reported.kind = kind

theorem refuses_iff_of_error {query : Query} {id : Int} {fault : Fault}
    (h : d.answer query id = .error fault) (kind : Fault.Kind) :
    d.Refuses query id kind ↔ fault.reported.kind = kind := by
  constructor
  · intro hrefuses
    rcases hrefuses with ⟨other, hother, hkind⟩
    rw [h] at hother
    cases hother
    exact hkind
  · intro hkind
    exact ⟨fault, h, hkind⟩

theorem not_refuses_of_ok {query : Query} {id : Int} {answer : Option Number}
    (h : d.answer query id = .ok answer) (kind : Fault.Kind) : ¬d.Refuses query id kind := by
  intro hrefuses
  rcases hrefuses with ⟨fault, hfault, -⟩
  rw [h] at hfault
  contradiction

/-- A question about an input without a bit is refused like the search for its bit. -/
theorem answer_of_slotOf_error {query : Query} (hquery : query.OnInput) {id : Int} {fault : Fault}
    (h : d.placement.slotOf id = .error fault) : d.answer query id = .error fault := by
  rcases hquery with rfl | rfl
  · simp only [answer, Placement.instructionOf, h, bind, Except.bind]
  · simp only [answer, Placement.bitOf, h, bind, Except.bind]

/-- A bit that is an integer has integers for its address. -/
theorem answer_of_slotOf {id slot : Int} (h : d.placement.slotOf id = .ok (.whole slot)) :
    d.answer .inputInstruction id = .ok (some (.whole (slot / d.placement.instLen))) ∧
      d.answer .inputBit id = .ok (some (.whole (slot % d.placement.instLen))) := by
  constructor
  · simp only [answer, Placement.instructionOf, h, bind, Except.bind]
    rfl
  · simp only [answer, Placement.bitOf, h, bind, Except.bind]
    rfl

/-- A register of the table is asked for through its input. -/
theorem answer_registerBit (d : Decoder) (id : Int) :
    d.answer .registerBit id =
      ((d.registers.get id).map Register.pi).bind (d.answer .inputBit) := by
  cases hget : d.registers.get id with
  | error fault => simp only [answer, hget, bind, Except.bind, Except.map]
  | ok r => simp only [answer, hget, bind, Except.bind, Except.map]

/-! ## Kinds of refusals -/

section Refusals

variable {query : Query} {id : Int}

/-- A fault that shows one number is reported as that number's if the number cannot be shown. -/
theorem kind_reported_of_shown {fault : Fault} {id : Int} (hshown : fault.shown = [id])
    (hkind : fault.kind = .outOfBounds) (kind : Fault.Kind) :
    fault.reported.kind = kind ↔
      (kind = .outOfBounds ∧ Text.isWritable id = true) ∨
        (kind = .invalidValue ∧ Text.isWritable id = false) := by
  rw [Fault.kind_reported, hshown, hkind, List.all_cons, List.all_nil, Bool.and_true]
  cases Text.isWritable id with
  | true => simp [eq_comm]
  | false => simp [eq_comm]

/-- An input without a bit is refused as a value. -/
theorem kind_reported_inputUnmapped (id : Int) (kind : Fault.Kind) :
    (Fault.inputUnmapped id).reported.kind = kind ↔ kind = .invalidValue := by
  rw [Fault.kind_reported_of_invalidValue rfl, eq_comm]

variable (hplacement : Placement.ofIndexes entries instLen nInsts = .ok d.placement)
include hplacement

/-- The refusals of a question about an input: the input is out of range, or it has no bit. -/
theorem refuses_input_iff (hquery : query.OnInput) (kind : Fault.Kind) :
    d.Refuses query id kind ↔
      (itemAt entries id = none ∧
          ((kind = .outOfBounds ∧ Text.isWritable id = true) ∨
            (kind = .invalidValue ∧ Text.isWritable id = false))) ∨
        (itemAt entries id = some none ∧ kind = .invalidValue) := by
  have hslot := Placement.slotOf_of_ofIndexes hplacement id
  rcases hitem : itemAt entries id with _ | _ | slot
  · rw [hitem] at hslot
    rw [refuses_iff_of_error (answer_of_slotOf_error hquery hslot),
      kind_reported_of_shown rfl rfl]
    simp
  · rw [hitem] at hslot
    rw [refuses_iff_of_error (answer_of_slotOf_error hquery hslot), kind_reported_inputUnmapped]
    simp
  · rw [hitem] at hslot
    have hanswers := answer_of_slotOf hslot
    have hnot : ¬d.Refuses query id kind := by
      rcases hquery with rfl | rfl
      · exact not_refuses_of_ok hanswers.1 kind
      · exact not_refuses_of_ok hanswers.2 kind
    simp [hnot]

omit hplacement in
/-- The refusals of a question about the position of a register: the register is out of range, or
the question about its input is refused. -/
theorem refuses_registerBit_iff {inst : List (Option Int)} {pis copy : List Int}
    (hregisters : RegisterTable.ofColumns inst pis copy = .ok d.registers) (kind : Fault.Kind) :
    d.Refuses .registerBit id kind ↔
      (itemAt pis id = none ∧
          ((kind = .outOfBounds ∧ Text.isWritable id = true) ∨
            (kind = .invalidValue ∧ Text.isWritable id = false))) ∨
        ∃ pi, itemAt pis id = some pi ∧ d.Refuses .inputBit pi kind := by
  have hanswer := answer_registerBit d id
  rw [RegisterTable.get_of_ofColumns hregisters] at hanswer
  cases hitem : itemAt pis id with
  | none =>
    rw [hitem] at hanswer
    rw [refuses_iff_of_error hanswer, kind_reported_of_shown rfl rfl]
    simp
  | some pi =>
    rw [hitem] at hanswer
    have hinput : d.answer .registerBit id = d.answer .inputBit pi := hanswer
    unfold Refuses
    rw [hinput]
    simp

end Refusals

section Addresses

variable {inst : List (Option Int)} {pis copy : List Int} {id slot : Int}

/-- The position of an input whose bit the table lists. -/
theorem slotAt?_of_itemAt
    (hplacement : Placement.ofIndexes entries instLen nInsts = .ok d.placement)
    (hitem : itemAt entries id = some (some slot)) : d.placement.slotAt? id = some slot := by
  rw [Placement.slotAt?_of_ofIndexes hplacement, hitem]
  rfl

/-- The address of an input whose bit the table lists. -/
theorem answer_of_itemAt
    (hplacement : Placement.ofIndexes entries instLen nInsts = .ok d.placement)
    (hitem : itemAt entries id = some (some slot)) :
    d.answer .inputInstruction id = .ok (some (.whole (slot / instLen))) ∧
      d.answer .inputBit id = .ok (some (.whole (slot % instLen))) := by
  have hlen : d.placement.instLen = instLen := by
    rw [(Placement.checkFrom_of_ofEntries hplacement).2.2.2]
  have hslot := Placement.slotOf_of_ofIndexes hplacement id
  rw [hitem] at hslot
  have hanswer := answer_of_slotOf hslot
  rwa [hlen] at hanswer

/-- The coordinates of a bit that the table lists are those of an instruction and a bit in it. -/
theorem address_range_of_itemAt
    (hplacement : Placement.ofIndexes entries instLen nInsts = .ok d.placement)
    (hitem : itemAt entries id = some (some slot)) :
    (0 ≤ slot / instLen ∧ slot / instLen < nInsts) ∧
      (0 ≤ slot % instLen ∧ slot % instLen < instLen) := by
  have ht := Placement.wellFormed_of_ofEntries hplacement
  have hinst := ht.inst_range (slotAt?_of_itemAt hplacement hitem)
  have hbit := ht.bit_range slot
  rw [(Placement.checkFrom_of_ofEntries hplacement).2.2.2] at hinst hbit
  exact ⟨hinst, hbit⟩

/-- The input of a register is out of range exactly if it is too great. -/
theorem itemAt_input_eq_none_iff
    (hregisters : RegisterTable.ofColumns inst pis copy = .ok d.registers) {pi : Int}
    (hitem : itemAt pis id = some pi) :
    itemAt entries pi = none ↔ (entries.length : Int) ≤ pi := by
  have hnonneg := RegisterTable.nonneg_of_ofColumns hregisters pi (mem_of_itemAt hitem)
  rw [itemAt_eq_none_iff]
  omega

end Addresses

/-! ## All questions about addresses -/

/-- How the questions about inputs and about the positions of registers are answered, for every
number. -/
structure AnswersAddresses (d : Decoder) (entries : List (Option Int)) (instLen nInsts : Int)
    (pis : List Int) : Prop where
  /-- An input out of range is refused as an index, unless it cannot be shown. -/
  input_outOfBounds_iff : ∀ {query id}, query.OnInput →
    (d.Refuses query id .outOfBounds ↔
      ¬(0 ≤ id ∧ id < entries.length) ∧ Text.isWritable id = true)
  /-- An input without a bit is refused as a value, and so is a number that cannot be shown. -/
  input_invalidValue_iff : ∀ {query id}, query.OnInput →
    (d.Refuses query id .invalidValue ↔
      itemAt entries id = some none ∨
        (¬(0 ≤ id ∧ id < entries.length) ∧ Text.isWritable id = false))
  /-- The address of an input is an instruction and a position in it that give the bit back. -/
  input_address : ∀ {id slot}, itemAt entries id = some (some slot) →
    ∃ inst bit, d.answer .inputInstruction id = .ok (some (.whole inst)) ∧
      d.answer .inputBit id = .ok (some (.whole bit)) ∧
      (0 ≤ inst ∧ inst < nInsts) ∧ (0 ≤ bit ∧ bit < instLen) ∧ inst * instLen + bit = slot
  /-- No two inputs have one address. -/
  address_injective : ∀ {id other slot slot'}, itemAt entries id = some (some slot) →
    itemAt entries other = some (some slot') → id ≠ other →
      ¬(d.answer .inputInstruction id = d.answer .inputInstruction other ∧
        d.answer .inputBit id = d.answer .inputBit other)
  /-- A register is refused as an index if it or its input is out of range and can be shown. -/
  register_outOfBounds_iff : ∀ {id}, d.Refuses .registerBit id .outOfBounds ↔
    (¬(0 ≤ id ∧ id < pis.length) ∧ Text.isWritable id = true) ∨
      ∃ pi, itemAt pis id = some pi ∧ entries.length ≤ pi ∧ Text.isWritable pi = true
  /-- It is refused as a value if its input has no bit, and if the number out of range cannot be
  shown. -/
  register_invalidValue_iff : ∀ {id}, d.Refuses .registerBit id .invalidValue ↔
    (¬(0 ≤ id ∧ id < pis.length) ∧ Text.isWritable id = false) ∨
      ∃ pi, itemAt pis id = some pi ∧
        (itemAt entries pi = some none ∨
          (entries.length ≤ pi ∧ Text.isWritable pi = false))
  /-- Otherwise its position is that of its input. -/
  register_address : ∀ {id pi}, itemAt pis id = some pi →
    d.answer .registerBit id = d.answer .inputBit pi

/-- Every question about an address is answered by the tables. -/
theorem answers_addresses {inst : List (Option Int)} {pis copy : List Int}
    (hplacement : Placement.ofIndexes entries instLen nInsts = .ok d.placement)
    (hregisters : RegisterTable.ofColumns inst pis copy = .ok d.registers) :
    AnswersAddresses d entries instLen nInsts pis := by
  constructor
  case input_outOfBounds_iff =>
    intro query id hquery
    rw [refuses_input_iff hplacement hquery, ← itemAt_eq_none_iff]
    simp
  case input_invalidValue_iff =>
    intro query id hquery
    rw [refuses_input_iff hplacement hquery, ← itemAt_eq_none_iff]
    simp [or_comm]
  case input_address =>
    intro id slot hitem
    rcases answer_of_itemAt hplacement hitem with ⟨hinst, hbit⟩
    rcases address_range_of_itemAt hplacement hitem with ⟨hinsts, hbits⟩
    refine ⟨_, _, hinst, hbit, hinsts, hbits, ?_⟩
    rw [Int.mul_comm, Int.mul_ediv_add_emod]
  case address_injective =>
    intro id other slot slot' hitem hother hne hsame
    rcases hsame with ⟨hinst, hbit⟩
    rcases answer_of_itemAt hplacement hitem with ⟨hinst₁, hbit₁⟩
    rcases answer_of_itemAt hplacement hother with ⟨hinst₂, hbit₂⟩
    rw [hinst₁, hinst₂] at hinst
    rw [hbit₁, hbit₂] at hbit
    have hquotient : slot / instLen = slot' / instLen := by simpa using hinst
    have hremainder : slot % instLen = slot' % instLen := by simpa using hbit
    have hslots : slot = slot' := by
      rw [← Int.mul_ediv_add_emod slot instLen, hquotient, hremainder, Int.mul_ediv_add_emod]
    rw [hslots] at hitem
    apply hne
    exact (Placement.wellFormed_of_ofEntries hplacement).slot_injective
      (slotAt?_of_itemAt hplacement hitem) (slotAt?_of_itemAt hplacement hother)
  case register_outOfBounds_iff =>
    intro id
    rw [refuses_registerBit_iff hregisters, ← itemAt_eq_none_iff]
    apply or_congr
    · simp
    · apply exists_congr
      intro pi
      apply and_congr_right
      intro hitem
      rw [refuses_input_iff hplacement (Or.inr rfl), itemAt_input_eq_none_iff hregisters hitem]
      simp
  case register_invalidValue_iff =>
    intro id
    rw [refuses_registerBit_iff hregisters, ← itemAt_eq_none_iff]
    apply or_congr
    · simp
    · apply exists_congr
      intro pi
      apply and_congr_right
      intro hitem
      rw [refuses_input_iff hplacement (Or.inr rfl), itemAt_input_eq_none_iff hregisters hitem]
      simp [or_comm]
  case register_address =>
    intro id pi hitem
    have hanswer := answer_registerBit d id
    rw [RegisterTable.get_of_ofColumns hregisters, hitem] at hanswer
    exact hanswer

/-- A table with a register on input 3 and one on an input that the small placement does not list.
-/
def withRegisters : Decoder := { sample with registers := ⟨[⟨some 0, 3, 0⟩, ⟨none, 7, 1⟩]⟩ }

/-- The questions about the addresses of the small placement. -/
theorem answers_addresses_sample :
    Placement.ofIndexes [none, none, some 0, some 3, some 1] 2 2 = .ok withRegisters.placement ∧
      RegisterTable.ofColumns [some 0, none] [3, 7] [0, 1] = .ok withRegisters.registers ∧
      AnswersAddresses withRegisters [none, none, some 0, some 3, some 1] 2 2 [3, 7] := by
  have hregisters : RegisterTable.ofColumns [some 0, none] [3, 7] [0, 1] =
      .ok withRegisters.registers := rfl
  refine ⟨Placement.ofIndexes_sample, hregisters, ?_⟩
  exact answers_addresses Placement.ofIndexes_sample hregisters

/-- A decoder with one placed input and one register, on a given input. -/
def withRegisterOn (pi : Int) : Decoder where
  placement := ⟨1, 1, [some (.whole 0)]⟩
  registers := ⟨[⟨none, pi, 0⟩]⟩
  nPis := 1
  resetVar := 1

theorem ofColumns_withRegisterOn {pi : Int} (h : 0 ≤ pi) :
    RegisterTable.ofColumns [none] [pi] [0] = .ok (withRegisterOn pi).registers := by
  have hvalid : ∀ r ∈ [Register.mk none pi 0], r.Valid := by
    intro r hr
    rw [List.mem_singleton.1 hr]
    exact ⟨by simp, h, Int.le_refl 0⟩
  have hcheck := (RegisterTable.checkFrom_eq_ok_iff 0).2 hvalid
  refine (if_pos ⟨rfl, rfl⟩).trans ?_
  exact bind_eq_ok_iff.2 ⟨(), hcheck, rfl⟩

/-- The position of a register on an input that cannot be shown is not refused as an index. -/
theorem not_outOfBounds_withRegisterOn {pi : Int} (h : 0 ≤ pi)
    (hlong : Text.isWritable pi = false) :
    ¬(withRegisterOn pi).Refuses .registerBit 0 .outOfBounds := by
  have hplacement : Placement.ofIndexes [some 0] 1 1 = .ok (withRegisterOn pi).placement := rfl
  rw [refuses_registerBit_iff (ofColumns_withRegisterOn h)]
  intro hrefuses
  rcases hrefuses with ⟨hitem, -⟩ | ⟨other, hitem, hinput⟩
  · cases hitem
  · have hpi : pi = other := Option.some.inj hitem
    rw [← hpi, refuses_input_iff hplacement (Or.inr rfl)] at hinput
    simp [hlong] at hinput

/-- The input of a register is out of range, and yet the question about the position of the
register is not refused as one with an index out of range. -/
theorem overlong_input_not_outOfBounds :
    Placement.ofIndexes [some 0] 1 1 = .ok (withRegisterOn Text.leastUnwritable).placement ∧
      RegisterTable.ofColumns [none] [Text.leastUnwritable] [0] =
        .ok (withRegisterOn Text.leastUnwritable).registers ∧
      itemAt [Text.leastUnwritable] 0 = some Text.leastUnwritable ∧
      ([some 0] : List (Option Int)).length ≤ Text.leastUnwritable ∧
      ¬(withRegisterOn Text.leastUnwritable).Refuses .registerBit 0 .outOfBounds := by
  have hnonneg : 0 ≤ Text.leastUnwritable := Int.le_of_lt Text.leastUnwritable_pos
  refine ⟨rfl, ofColumns_withRegisterOn hnonneg, rfl, Text.leastUnwritable_pos, ?_⟩
  exact not_outOfBounds_withRegisterOn hnonneg Text.isWritable_leastUnwritable

end Decoder

end ImemReplay
