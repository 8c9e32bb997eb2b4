import ImemReplay.Proofs.Addresses
import ImemReplay.Proofs.LoadingFaults

/-!
# Loading registers item by item

Registers are read from the items of a list in two passes.  The first makes a register of each item
and refuses the first item without an input; an instruction that is negative, null or missing is no
instruction.  The second refuses the first register with a negative input or copy, the input being
looked at before the copy.  An item without an input is therefore reported before a negative number
of an earlier item, and an instruction is never reported.

The refusals name the file and the item.  A number with too many digits cannot be shown, so that a
refusal on its account names the file only.

Main results:

- Theorem `ofValue_of_integers`: the register that an item gives.
- Theorem `ofRows_cases`: all items give registers, or the first without an input is reported.
- Theorem `checkFrom_cases`: no register has a negative number, or the first with one is reported.
- Theorem `load_reads_exactly`: when a list of items is loaded, and how it is refused otherwise.
- Theorem `unwritable_input_not_named`: a refusal that names no item.
-/

namespace ImemReplay

/-! ## Items -/

namespace Register

/-- The integer of a field of an item. -/
def integerAt? (item : Value) (key : String) : Option Int :=
  ((item.field key).bind Value.toInt).toOption

/-- An item has fields, and one of them is for the input. -/
def HasInput (item : Value) : Prop := ∃ v, item.field "pi" = .ok v

/-- The fields of an item that are looked at are integers; that of the instruction may be null. -/
structure IntegerFields (item : Value) : Prop where
  pi : ∀ {v}, item.field "pi" = .ok v → ∃ i, v.toInt = .ok i
  inst : ∀ {v}, item.field "inst" = .ok v → v = .null ∨ ∃ i, v.toInt = .ok i
  copy : ∀ {v}, item.field "copy" = .ok v → ∃ i, v.toInt = .ok i

/-- A register has what an item gives: its input, its copy or else zero, and its instruction unless
that is negative. -/
structure GivenBy (item : Value) (r : Register) : Prop where
  pi_eq : integerAt? item "pi" = some r.pi
  copy_eq : r.copy = (integerAt? item "copy").getD 0
  inst_eq : r.inst = (integerAt? item "inst").filter (0 ≤ ·)

/-- An item gives a negative number for the input or for the copy. -/
def Negative (item : Value) : Prop :=
  (∃ pi < 0, integerAt? item "pi" = some pi) ∨ ∃ copy < 0, integerAt? item "copy" = some copy

section Items

variable {item v : Value} {key : String}

theorem integerAt?_of_field {i : Int} (h : item.field key = .ok v) (hv : v.toInt = .ok i) :
    integerAt? item key = some i := by
  unfold integerAt?
  rw [h]
  simp only [Except.bind, hv]
  rfl

theorem integerAt?_of_missing {fault : Fault} (h : item.field key = .error fault) :
    integerAt? item key = none := by
  unfold integerAt?
  rw [h]
  rfl

theorem integerAt?_of_null (h : item.field key = .ok .null) : integerAt? item key = none := by
  unfold integerAt?
  rw [h]
  rfl

/-- A field of an item with fields is found, or the default stands for it. -/
theorem fieldD_of_hasInput (h : HasInput item) (key : String) (default : Value) :
    item.fieldD key default = .ok ((item.field key).toOption.getD default) := by
  rcases h with ⟨pi, hpi⟩
  cases item with
  | scalar s => cases hpi
  | list items => cases hpi
  | fields entries => exact Value.fieldD_fields entries key default

/-- An integer is an instruction unless it is negative. -/
theorem instOf_of_toInt {i : Int} (h : v.toInt = .ok i) :
    instOf v = .ok ((some i).filter (0 ≤ ·)) := by
  unfold instOf
  split
  · cases h
  · rw [h, Option.filter_some]
    by_cases hneg : i < 0
    · simp [bind, Except.bind, pure, Except.pure, hneg]
    · simp [bind, Except.bind, pure, Except.pure, hneg, Int.not_lt.1 hneg]

/-- An item with an input and integers gives a register. -/
theorem ofValue_of_integers (path : String) (index : Nat) (hinput : HasInput item)
    (hfields : IntegerFields item) : ∃ r, ofValue path index item = .ok r ∧ GivenBy item r := by
  have hfound := fieldD_of_hasInput hinput
  rcases hinput with ⟨w, hw⟩
  rcases hfields.pi hw with ⟨pi, hpi⟩
  have hinst : instOf ((item.field "inst").toOption.getD .null) =
      .ok ((integerAt? item "inst").filter (0 ≤ ·)) := by
    cases hfield : item.field "inst" with
    | error fault =>
      rw [integerAt?_of_missing hfield]
      rfl
    | ok u =>
      rcases hfields.inst hfield with rfl | ⟨i, hi⟩
      · rw [integerAt?_of_null hfield]
        rfl
      · rw [integerAt?_of_field hfield hi]
        exact instOf_of_toInt hi
  have hcopy : ((item.field "copy").toOption.getD (.whole 0)).toInt =
      .ok ((integerAt? item "copy").getD 0) := by
    cases hfield : item.field "copy" with
    | error fault =>
      rw [integerAt?_of_missing hfield]
      rfl
    | ok u =>
      rcases hfields.copy hfield with ⟨i, hi⟩
      rw [integerAt?_of_field hfield hi]
      exact hi
  refine ⟨⟨(integerAt? item "inst").filter (0 ≤ ·), pi, (integerAt? item "copy").getD 0⟩, ?_, ?_⟩
  · unfold ofValue
    rw [hw]
    simp only [hfound, bind, Except.bind, hinst, hpi, hcopy]
    rfl
  · exact ⟨integerAt?_of_field hw hpi, rfl, rfl⟩

/-- An item without an input is refused. -/
theorem ofValue_of_no_input (path : String) (index : Nat) (h : ¬HasInput item) :
    ofValue path index item = .error (.inFile path (.registerEntry index)) := by
  unfold ofValue
  cases hfield : item.field "pi" with
  | error fault => rfl
  | ok w => exact absurd ⟨w, hfield⟩ h

end Items

/-- A copy other than zero is that of a field. -/
theorem GivenBy.copy_of_neg {item : Value} {r : Register} (h : GivenBy item r) (hneg : r.copy < 0) :
    integerAt? item "copy" = some r.copy := by
  rw [h.copy_eq] at hneg ⊢
  cases hcopy : integerAt? item "copy" with
  | none =>
    rw [hcopy] at hneg
    cases hneg
  | some copy => rfl

/-- A register has a negative number exactly if its item gives one. -/
theorem GivenBy.negative_iff {item : Value} {r : Register} (h : GivenBy item r) :
    Negative item ↔ r.pi < 0 ∨ r.copy < 0 := by
  unfold Negative
  rw [h.pi_eq]
  constructor
  · rintro (⟨pi, hneg, hpi⟩ | ⟨copy, hneg, hcopy⟩)
    · cases hpi
      exact Or.inl hneg
    · rw [h.copy_eq, hcopy]
      exact Or.inr hneg
  · rintro (hneg | hneg)
    · exact Or.inl ⟨r.pi, hneg, rfl⟩
    · exact Or.inr ⟨r.copy, hneg, h.copy_of_neg hneg⟩

/-- The instruction of a register is not negative. -/
theorem GivenBy.inst_nonneg {item : Value} {r : Register} (h : GivenBy item r) {inst : Int}
    (hinst : r.inst = some inst) : 0 ≤ inst := by
  rw [h.inst_eq, Option.filter_eq_some_iff] at hinst
  exact of_decide_eq_true hinst.2

/-- The check passes over the instruction, and refuses a negative input before a negative copy. -/
theorem GivenBy.check_eq {item : Value} {r : Register} (h : GivenBy item r) (id : Nat) :
    r.check id =
      if r.pi < 0 then .error (.registerInput id r.pi)
      else if r.copy < 0 then .error (.registerCopy id r.copy)
      else .ok () := by
  unfold check
  cases hinst : r.inst with
  | none => rfl
  | some inst =>
    have hnonneg := h.inst_nonneg hinst
    simp only [if_neg (Int.not_lt.2 hnonneg)]
    rfl

end Register

namespace RegisterTable

open Register

/-! ## The two passes -/

/-- All items give registers, or the first one without an input is reported. -/
theorem ofRows_cases (path : String) (index : Nat) {items : List Value}
    (hfields : ∀ item ∈ items, HasInput item → IntegerFields item) :
    (∃ registers, ofRows path index items = .ok registers ∧
        (∀ item ∈ items, HasInput item) ∧ List.Forall₂ GivenBy items registers) ∨
      ∃ k item, items[k]? = some item ∧ ¬HasInput item ∧
        (∀ earlier ∈ items.take k, HasInput earlier) ∧
        ofRows path index items = .error (.inFile path (.registerEntry (index + k))) := by
  induction items generalizing index with
  | nil => exact Or.inl ⟨[], rfl, by simp, .nil⟩
  | cons item items ih =>
    rcases List.forall_mem_cons.1 hfields with ⟨hitem, hitems⟩
    by_cases hinput : HasInput item
    · rcases ofValue_of_integers path index hinput (hitem hinput) with ⟨r, hr, hgiven⟩
      rcases ih (index + 1) hitems with
        ⟨registers, hrows, hinputs, hrest⟩ | ⟨k, other, hother, hno, hbefore, hfault⟩
      · left
        refine ⟨r :: registers, ?_, List.forall_mem_cons.2 ⟨hinput, hinputs⟩, .cons hgiven hrest⟩
        rw [ofRows, hr, hrows]
        rfl
      · right
        refine ⟨k + 1, other, hother, hno, ?_, ?_⟩
        · rw [List.take_succ_cons]
          exact List.forall_mem_cons.2 ⟨hinput, hbefore⟩
        · rw [ofRows, hr, hfault, Nat.add_right_comm, Nat.add_assoc]
          rfl
    · right
      refine ⟨0, item, rfl, hinput, by simp, ?_⟩
      rw [ofRows, ofValue_of_no_input path index hinput]
      rfl

/-- What the check reports of an item with a negative number: its input if that is negative, and
else its copy. -/
inductive Reports (item : Value) (id : Nat) : Fault → Prop
  | input {pi : Int} (hpi : integerAt? item "pi" = some pi) (hneg : pi < 0) :
      Reports item id (.registerInput id pi)
  | copy {pi copy : Int} (hpi : integerAt? item "pi" = some pi) (hnonneg : 0 ≤ pi)
      (hcopy : integerAt? item "copy" = some copy) (hneg : copy < 0) :
      Reports item id (.registerCopy id copy)

/-- No item gives a negative number, or the first one that does is reported. -/
theorem checkFrom_cases {items : List Value} {registers : List Register}
    (h : List.Forall₂ GivenBy items registers) (id : Nat) :
    (checkFrom id registers = .ok () ∧ ∀ item ∈ items, ¬Negative item) ∨
      ∃ k item fault, items[k]? = some item ∧ (∀ earlier ∈ items.take k, ¬Negative earlier) ∧
        Reports item (id + k) fault ∧ checkFrom id registers = .error fault := by
  induction h generalizing id with
  | nil => exact Or.inl ⟨rfl, by simp⟩
  | @cons item r items registers hgiven hrest ih =>
    have hnegative := hgiven.negative_iff
    have hcheck := hgiven.check_eq id
    by_cases hpi : r.pi < 0
    · rw [if_pos hpi] at hcheck
      right
      refine ⟨0, item, _, rfl, by simp, .input hgiven.pi_eq hpi, ?_⟩
      rw [checkFrom, hcheck]
      rfl
    by_cases hcopy : r.copy < 0
    · rw [if_neg hpi, if_pos hcopy] at hcheck
      right
      have hgives := hgiven.copy_of_neg hcopy
      refine ⟨0, item, _, rfl, by simp, .copy hgiven.pi_eq (Int.not_lt.1 hpi) hgives hcopy, ?_⟩
      rw [checkFrom, hcheck]
      rfl
    · rw [if_neg hpi, if_neg hcopy] at hcheck
      have hnot : ¬Negative item := by
        rw [hnegative]
        omega
      rcases ih (id + 1) with ⟨hrows, hitems⟩ | ⟨k, other, fault, hother, hbefore, hreports, hfault⟩
      · left
        refine ⟨?_, List.forall_mem_cons.2 ⟨hnot, hitems⟩⟩
        rw [checkFrom, hcheck]
        exact hrows
      · right
        refine ⟨k + 1, other, fault, hother, ?_, ?_, ?_⟩
        · rw [List.take_succ_cons]
          exact List.forall_mem_cons.2 ⟨hnot, hbefore⟩
        · rwa [Nat.add_right_comm, Nat.add_assoc] at hreports
        · rw [checkFrom, hcheck]
          exact hfault

/-! ## Tables of items -/

/-- What a list of items is refused for, and the text of it: the first item without an input, also
if numbers of earlier items are negative, and otherwise the first item with a negative number. -/
inductive Complaint (items : List Value) : Fault → String → Prop
  | entry {k : Nat} {item : Value} (hitem : items[k]? = some item) (hno : ¬HasInput item)
      (hbefore : ∀ earlier ∈ items.take k, HasInput earlier) :
      Complaint items (.registerEntry k) s!"register entry {k} must be a mapping with 'pi'"
  | input {k : Nat} {item : Value} {pi : Int} (hinputs : ∀ item ∈ items, HasInput item)
      (hitem : items[k]? = some item) (hbefore : ∀ earlier ∈ items.take k, ¬Negative earlier)
      (hpi : integerAt? item "pi" = some pi) (hneg : pi < 0) :
      Complaint items (.registerInput k pi) s!"register {k}: negative PI id {pi}"
  | copy {k : Nat} {item : Value} {pi copy : Int} (hinputs : ∀ item ∈ items, HasInput item)
      (hitem : items[k]? = some item) (hbefore : ∀ earlier ∈ items.take k, ¬Negative earlier)
      (hpi : integerAt? item "pi" = some pi) (hnonneg : 0 ≤ pi)
      (hcopy : integerAt? item "copy" = some copy) (hneg : copy < 0) :
      Complaint items (.registerCopy k copy) s!"register {k}: negative copy index {copy}"

/-- A complaint about a file is reported with the path and its text, unless that shows an integer
with too many digits; then the limit of digits is reported in its place. -/
theorem Complaint.reported_eq {items : List Value} {cause : Fault} {text : String}
    (h : Complaint items cause text) (path : String) :
    (Fault.inFile path cause).reported.kind = .invalidValue ∧
      (Fault.inFile path cause).reported.message? =
        if cause.shown.all Text.isWritable then some s!"{path}: {text}"
        else Fault.message? (.inFile path .integerSize) := by
  have hmessage : cause.kind = .invalidValue ∧ cause.message? = some text ∧
      cause.unwritten = .integerSize := by
    cases h with
    | entry _ _ _ => exact ⟨rfl, rfl, rfl⟩
    | input _ _ _ _ _ => exact ⟨rfl, rfl, rfl⟩
    | copy _ _ _ _ _ _ _ => exact ⟨rfl, rfl, rfl⟩
  rcases hmessage with ⟨hkind, htext, hunwritten⟩
  have hfile : (Fault.inFile path cause).message? = some s!"{path}: {text}" := by
    rw [Fault.message?, htext]
    rfl
  constructor
  · exact Fault.kind_reported_of_invalidValue hkind
  · rw [Fault.reported, apply_ite Fault.message?, hfile, Fault.unwritten, hunwritten, Fault.shown]

/-- What the check reports of an item is a complaint about the items. -/
theorem Reports.complaint {items : List Value} {k : Nat} {item : Value} {fault : Fault}
    (h : Reports item k fault) (hinputs : ∀ item ∈ items, HasInput item)
    (hitem : items[k]? = some item) (hbefore : ∀ earlier ∈ items.take k, ¬Negative earlier) :
    ∃ text, Complaint items fault text := by
  cases h with
  | input hpi hneg => exact ⟨_, .input hinputs hitem hbefore hpi hneg⟩
  | copy hpi hnonneg hcopy hneg => exact ⟨_, .copy hinputs hitem hbefore hpi hnonneg hcopy hneg⟩

/-- A list with a complaint has an item without an input or with a negative number. -/
theorem Complaint.exists_item {items : List Value} {cause : Fault} {text : String}
    (h : Complaint items cause text) : ∃ item ∈ items, ¬(HasInput item ∧ ¬Negative item) := by
  cases h with
  | entry hitem hno _ => exact ⟨_, List.mem_of_getElem? hitem, fun h => hno h.1⟩
  | input _ hitem _ hpi hneg =>
    exact ⟨_, List.mem_of_getElem? hitem, fun h => h.2 (Or.inl ⟨_, hneg, hpi⟩)⟩
  | copy _ hitem _ _ _ hcopy hneg =>
    exact ⟨_, List.mem_of_getElem? hitem, fun h => h.2 (Or.inr ⟨_, hneg, hcopy⟩)⟩

/-- The items of a document give the registers of a table, or there is a complaint about them. -/
theorem ofDocument_cases (path : String) {doc : Value} {items : List Value}
    (hitems : doc.field "registers" = .ok (.list items))
    (hfields : ∀ item ∈ items, HasInput item → IntegerFields item) :
    (∃ registers, ofDocument path doc = .ok ⟨registers⟩ ∧
        (∀ item ∈ items, HasInput item ∧ ¬Negative item) ∧
        List.Forall₂ GivenBy items registers) ∨
      ∃ cause text, ofDocument path doc = .error (.inFile path cause) ∧
        Complaint items cause text := by
  unfold ofDocument
  rw [hitems]
  rcases ofRows_cases path 0 hfields with
    ⟨registers, hrows, hinputs, hgiven⟩ | ⟨k, item, hitem, hno, hbefore, hrows⟩
  · rcases checkFrom_cases hgiven 0 with
      ⟨hcheck, hnot⟩ | ⟨k, item, fault, hitem, hbefore, hreports, hcheck⟩
    · left
      refine ⟨registers, ?_, fun item hitem => ⟨hinputs item hitem, hnot item hitem⟩, hgiven⟩
      simp only [bind, Except.bind, hrows, ofList, hcheck]
      rfl
    · right
      rw [Nat.zero_add] at hreports
      rcases hreports.complaint hinputs hitem hbefore with ⟨text, hcomplaint⟩
      refine ⟨fault, text, ?_, hcomplaint⟩
      simp only [bind, Except.bind, hrows, ofList, hcheck]
      rfl
  · right
    rw [Nat.zero_add] at hrows
    refine ⟨_, _, ?_, .entry hitem hno hbefore⟩
    simp only [bind, Except.bind, hrows]

/-- The register of an item stands under the number of the item. -/
theorem get_of_forall₂ {items : List Value} {t : RegisterTable} {k : Nat} {item : Value}
    (h : List.Forall₂ GivenBy items t.registers) (hitem : items[k]? = some item) :
    ∃ r, t.get k = .ok r ∧ GivenBy item r := by
  rcases List.forall₂_iff_get.1 h with ⟨hlength, hgiven⟩
  rcases List.getElem?_eq_some_iff.1 hitem with ⟨hk, rfl⟩
  have hr : k < t.registers.length := by omega
  refine ⟨t.registers[k], ?_, hgiven k hk hr⟩
  unfold get
  rw [if_neg (by omega), Int.toNat_natCast, List.getElem?_eq_getElem hr]

/-- When a list of items is loaded as a table of registers, and how it is refused otherwise. -/
structure ReadsExactly (path : String) (items : List Value)
    (answer : Except Fault RegisterTable) : Prop where
  /-- Nothing is asked of the instructions. -/
  loads_iff : (∃ t, answer = .ok t) ↔ ∀ item ∈ items, HasInput item ∧ ¬Negative item
  /-- The registers are those that the items give, in order. -/
  registers_given : ∀ {t}, answer = .ok t → List.Forall₂ GivenBy items t.registers
  /-- A refusal names the file and the item.  Only a number with too many digits is not shown, and
  then the item is not named either. -/
  refused : ∀ {fault}, answer = .error fault → ∃ cause text, fault = .inFile path cause ∧
    Complaint items cause text ∧ fault.reported.kind = .invalidValue ∧
    fault.reported.message? =
      if cause.shown.all Text.isWritable then some s!"{path}: {text}"
      else Fault.message? (.inFile path .integerSize)
  /-- An instruction can address the registers whose items give one that is not negative. -/
  addressable : ∀ {t} {d : Decoder} {k : Nat} {item}, answer = .ok t → d.registers = t →
    items[k]? = some item → ∃ answered,
      d.answer .registerAddressable k = .ok (some (.truth answered)) ∧
        (answered = true ↔ ∃ inst, 0 ≤ inst ∧ integerAt? item "inst" = some inst)

/-- Registers are loaded from the document in their file. -/
theorem load_of_document {files : FileTree} {path : String} {doc : Value}
    (hdoc : files.document (Path.tidy path) = .ok doc) : load files path = ofDocument path doc := by
  unfold load
  rw [FileTree.holds_of_document hdoc, hdoc]
  rfl

/-- A list of items in a file is loaded as the registers that the items give, unless an item has no
input or a negative number; then the first such item is reported. -/
theorem load_reads_exactly {files : FileTree} {path : String} {doc : Value} {items : List Value}
    (hdoc : files.document (Path.tidy path) = .ok doc)
    (hitems : doc.field "registers" = .ok (.list items))
    (hfields : ∀ item ∈ items, HasInput item → IntegerFields item) :
    ReadsExactly path items (load files path) := by
  rw [load_of_document hdoc]
  have hcases := ofDocument_cases path hitems hfields
  have hgiven : ∀ {t}, ofDocument path doc = .ok t →
      List.Forall₂ GivenBy items t.registers := by
    intro t ht
    rcases hcases with ⟨registers, hok, -, hregisters⟩ | ⟨cause, text, hfault, -⟩
    · rw [hok] at ht
      cases ht
      exact hregisters
    · rw [hfault] at ht
      cases ht
  constructor
  case loads_iff =>
    rcases hcases with ⟨registers, hok, hall, -⟩ | ⟨cause, text, hfault, hcomplaint⟩
    · exact ⟨fun _ => hall, fun _ => ⟨_, hok⟩⟩
    · rcases hcomplaint.exists_item with ⟨item, hitem, hbad⟩
      constructor
      · rintro ⟨t, ht⟩
        rw [hfault] at ht
        cases ht
      · intro hall
        exact absurd (hall item hitem) hbad
  case registers_given => exact hgiven
  case refused =>
    intro fault hanswer
    rcases hcases with ⟨registers, hok, -, -⟩ | ⟨cause, text, hfault, hcomplaint⟩
    · rw [hok] at hanswer
      cases hanswer
    · rw [hfault] at hanswer
      cases hanswer
      rcases hcomplaint.reported_eq path with ⟨hkind, htext⟩
      exact ⟨cause, text, rfl, hcomplaint, hkind, htext⟩
  case addressable =>
    intro t d k item ht hregisters hitem
    rcases get_of_forall₂ (hgiven ht) hitem with ⟨r, hr, hitem⟩
    refine ⟨r.inst.isSome, ?_, ?_⟩
    · simp only [Decoder.answer, hregisters, hr, bind, Except.bind]
      rfl
    · rw [hitem.inst_eq, Option.isSome_iff_exists]
      simp only [Option.filter_eq_some_iff, decide_eq_true_eq, and_comm]

/-- Two registers; the first has a negative instruction and no copy. -/
def registerFiles : FileTree where
  here := []
  files := [(["regs.yml"], "registers: [\x7binst: -1, pi: 5\x7d, \x7binst: 0, pi: 7, copy: 1\x7d]")]

/-- The items of the two registers. -/
def registerItems : List Value :=
  [.fields [(.text "inst", .whole (-1)), (.text "pi", .whole 5)],
    .fields [(.text "inst", .whole 0), (.text "pi", .whole 7), (.text "copy", .whole 1)]]

/-- The fields of an item with nothing but integers are integers. -/
theorem integerFields_of_whole {entries : Fields} (h : ∀ entry ∈ entries, ∃ i, entry.2 = .whole i) :
    IntegerFields (.fields entries) := by
  have hfield : ∀ {key v}, (Value.fields entries).field key = .ok v → ∃ i, v.toInt = .ok i := by
    intro key v hv
    cases hfind : List.find? (fun entry => entry.1.same (.text key)) entries with
    | none => simp [Value.field, Fields.find?, hfind] at hv
    | some entry =>
      simp only [Value.field, Fields.find?, hfind, Option.map_some] at hv
      cases hv
      rcases h entry (List.mem_of_find?_eq_some hfind) with ⟨i, hi⟩
      exact ⟨i, by rw [hi]; rfl⟩
  exact ⟨hfield, fun hv => Or.inr (hfield hv), hfield⟩

/-- The two registers are loaded. -/
theorem load_reads_exactly_sample :
    (registerFiles.document (Path.tidy "regs.yml") =
        .ok (.fields [(.text "registers", .list registerItems)]) ∧
      (∀ item ∈ registerItems, HasInput item → IntegerFields item)) ∧
    load registerFiles "regs.yml" = .ok ⟨[⟨none, 5, 0⟩, ⟨some 0, 7, 1⟩]⟩ ∧
    ReadsExactly "regs.yml" registerItems (load registerFiles "regs.yml") := by
  have hdoc : registerFiles.document (Path.tidy "regs.yml") =
      .ok (.fields [(.text "registers", .list registerItems)]) := by
    decide +kernel
  have hfields : ∀ item ∈ registerItems, HasInput item → IntegerFields item := by
    intro item hitem _
    rcases List.mem_cons.1 hitem with rfl | hlast
    · apply integerFields_of_whole
      simp [Value.whole]
    · cases List.mem_singleton.1 hlast
      apply integerFields_of_whole
      simp [Value.whole]
  have hload : load registerFiles "regs.yml" = .ok ⟨[⟨none, 5, 0⟩, ⟨some 0, 7, 1⟩]⟩ := by
    rw [load_of_document hdoc]
    rfl
  exact ⟨⟨hdoc, hfields⟩, hload, load_reads_exactly hdoc rfl hfields⟩

/-- An item without fields is reported, although the input of an earlier one is negative. -/
example : ofDocument "regs.yml" (.fields [(.text "registers",
      .list [.fields [(.text "pi", .whole (-3))], .null])]) =
    .error (.inFile "regs.yml" (.registerEntry 1)) :=
  rfl

/-- A document with one register, which has nothing but an input. -/
def oneInput (pi : Int) : Value :=
  .fields [(.text "registers", .list [.fields [(.text "pi", .whole pi)]])]

theorem ofDocument_oneInput (path : String) {pi : Int} (h : pi < 0) :
    ofDocument path (oneInput pi) = .error (.inFile path (.registerInput 0 pi)) := by
  have hitems : (oneInput pi).field "registers" =
      .ok (.list [.fields [(.text "pi", .whole pi)]]) := rfl
  have hrows : ofRows path 0 [.fields [(.text "pi", .whole pi)]] = .ok [⟨none, pi, 0⟩] := rfl
  have hcheck : checkFrom 0 [⟨none, pi, 0⟩] = .error (.registerInput 0 pi) := by
    simp [checkFrom, check, check.checkRest, h, bind, Except.bind]
  unfold ofDocument
  rw [hitems]
  simp only [bind, Except.bind, hrows, ofList, hcheck]
  rfl

/-- A register with a negative input that has too many digits to be written.  The refusal is about
the register, but what is reported in its place names the file only. -/
theorem unwritable_input_not_named :
    -Text.leastUnwritable < 0 ∧
      ofDocument "regs.yml" (oneInput (-Text.leastUnwritable)) =
        .error (.inFile "regs.yml" (.registerInput 0 (-Text.leastUnwritable))) ∧
      (Fault.inFile "regs.yml" (.registerInput 0 (-Text.leastUnwritable))).reported =
        .inFile "regs.yml" .integerSize := by
  have hneg : -Text.leastUnwritable < 0 := Int.neg_neg_of_pos Text.leastUnwritable_pos
  have hshown : ¬(Fault.inFile "regs.yml" (.registerInput 0 (-Text.leastUnwritable))).shown.all
      Text.isWritable = true := by
    simp [Fault.shown, Text.isWritable_neg, Text.isWritable_leastUnwritable]
  exact ⟨hneg, ofDocument_oneInput "regs.yml" hneg, if_neg hshown⟩

end RegisterTable
end ImemReplay
