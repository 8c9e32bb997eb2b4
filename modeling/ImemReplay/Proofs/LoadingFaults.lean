import ImemReplay.Loading.Chain
import ImemReplay.Loading.Registers
import ImemReplay.Proofs.PlacementFaults

/-!
# Faults of loading

Tables and chains are loaded from documents of any form.  What is missing from a document, or has
another form than the one that is asked for, is a defect, and so is a negative number of a register:
a document with a defect is refused with a fault that names the file.  The other checks do not know
the file: an integer that cannot be read, a placement that is not accepted, and a frame that cannot
be cut are refused with the fault of the check alone.

Main results:

- Theorem `refusal_of_ofDocument`, for registers and chains: the faults of a document, each with
  the place in the document that it comes from.
- Theorem `loading_refusals`: the faults of the documents in files, and their groups.
- Theorem `refused_without_file`: faults that do not name the file.
-/

namespace ImemReplay

/-! ## Registers -/

namespace Register

/-- The fault of an instruction is that of its integer. -/
theorem instOf_eq_error {v : Value} {fault : Fault} (h : instOf v = .error fault) :
    v.toInt = .error fault := by
  unfold instOf at h
  split at h
  · cases h
  · rcases bind_eq_error_iff.1 h with hinst | ⟨inst, -, hrest⟩
    · exact hinst
    · cases hrest

/-- An instruction is not negative. -/
theorem instOf_nonneg {v : Value} {inst : Int} (h : instOf v = .ok (some inst)) : 0 ≤ inst := by
  unfold instOf at h
  split at h
  · cases h
  · rcases bind_eq_ok_iff.1 h with ⟨i, -, hdone⟩
    have hinst : (if i < 0 then none else some i) = some inst := Except.ok.inj hdone
    split at hinst
    · cases hinst
    · cases hinst
      omega

/-- An item that stands for no register has no input, or a field that is no integer. -/
theorem ofValue_eq_error {path : String} {index : Nat} {item : Value} {fault : Fault}
    (h : ofValue path index item = .error fault) :
    (∃ missing, item.field "pi" = .error missing ∧ fault = .inFile path (.registerEntry index)) ∨
      (∃ v, item.field "inst" = .ok v ∧ instOf v = .error fault) ∨
      ∃ key v, (key = "pi" ∨ key = "copy") ∧ item.field key = .ok v ∧ v.toInt = .error fault := by
  unfold ofValue at h
  split at h
  · next missing hmissing => exact Or.inl ⟨missing, hmissing, (Except.error.inj h).symm⟩
  · next pi hpi =>
    right
    rcases bind_eq_error_iff.1 h with hmissing | ⟨v, hv, h⟩
    · exact absurd hmissing (Value.fieldD_ne_error hpi)
    rcases bind_eq_error_iff.1 h with hinst | ⟨inst, -, h⟩
    · rcases Value.fieldD_eq_ok hv with hfield | rfl
      · exact Or.inl ⟨v, hfield, hinst⟩
      · cases hinst
    right
    rcases bind_eq_error_iff.1 h with hint | ⟨i, -, h⟩
    · exact ⟨"pi", pi, Or.inl rfl, hpi, hint⟩
    rcases Value.optional_eq_error hpi h with ⟨v, hfield, hfault | ⟨copy, -, hdone⟩⟩ | hdone
    · exact ⟨"copy", v, Or.inr rfl, hfield, hfault⟩
    · cases hdone
    · cases hdone

/-- An item stands for a register. -/
structure Describes (item : Value) (r : Register) : Prop where
  /-- What is negative addresses no register. -/
  inst_nonneg : ∀ {inst}, r.inst = some inst → 0 ≤ inst
  pi_eq : ∃ v, item.field "pi" = .ok v ∧ v.toInt = .ok r.pi
  copy_eq : (∃ v, item.field "copy" = .ok v ∧ v.toInt = .ok r.copy) ∨ r.copy = 0

/-- An item stands for the register that is read from it. -/
theorem describes_of_ofValue {path : String} {index : Nat} {item : Value} {r : Register}
    (h : ofValue path index item = .ok r) : Describes item r := by
  unfold ofValue at h
  split at h
  · cases h
  · next pi hpi =>
    rcases bind_eq_ok_iff.1 h with ⟨v, -, h⟩
    rcases bind_eq_ok_iff.1 h with ⟨inst, hinst, h⟩
    rcases bind_eq_ok_iff.1 h with ⟨input, hinput, h⟩
    rcases bind_eq_ok_iff.1 h with ⟨w, hw, h⟩
    rcases bind_eq_ok_iff.1 h with ⟨copy, hcopy, hdone⟩
    cases hdone
    refine ⟨?_, ⟨pi, hpi, hinput⟩, ?_⟩
    · rintro i rfl
      exact instOf_nonneg hinst
    · rcases Value.fieldD_eq_ok hw with hfield | rfl
      · exact Or.inl ⟨w, hfield, hcopy⟩
      · exact Or.inr (Except.ok.inj hcopy).symm

/-- A register whose instruction is not negative is refused for its input or its copy. -/
theorem check_eq_error {r : Register} {id : Nat} {fault : Fault}
    (hinst : ∀ {inst}, r.inst = some inst → 0 ≤ inst) (h : r.check id = .error fault) :
    (fault = .registerInput id r.pi ∧ r.pi < 0) ∨
      (fault = .registerCopy id r.copy ∧ r.copy < 0) := by
  have hrest : check.checkRest r id = .error fault := by
    unfold check at h
    split at h
    · next inst hsome =>
      rwa [if_neg (Int.not_lt.2 (hinst hsome))] at h
    · exact h
  unfold check.checkRest at hrest
  split at hrest
  · next hneg =>
    cases hrest
    exact Or.inl ⟨rfl, hneg⟩
  · split at hrest
    · next hneg =>
      cases hrest
      exact Or.inr ⟨rfl, hneg⟩
    · cases hrest

end Register

namespace RegisterTable

/-- What is wrong with the registers of a document beside their integers. -/
inductive Defect (doc : Value) : Fault → Prop
  /-- There is no list of registers. -/
  | noList (hlist : ∀ items, doc.field "registers" ≠ .ok (.list items)) :
      Defect doc .registersMissing
  /-- A register has no input. -/
  | noInput {items : List Value} {item : Value} {index : Nat} {missing : Fault}
      (hitems : doc.field "registers" = .ok (.list items)) (hitem : items[index]? = some item)
      (hinput : item.field "pi" = .error missing) : Defect doc (.registerEntry index)
  /-- The input of a register is negative. -/
  | negativeInput {items : List Value} {item v : Value} {index : Nat} {pi : Int}
      (hitems : doc.field "registers" = .ok (.list items)) (hitem : items[index]? = some item)
      (hfield : item.field "pi" = .ok v) (hint : v.toInt = .ok pi) (hneg : pi < 0) :
      Defect doc (.registerInput index pi)
  /-- The copy of a register is negative. -/
  | negativeCopy {items : List Value} {item v : Value} {index : Nat} {copy : Int}
      (hitems : doc.field "registers" = .ok (.list items)) (hitem : items[index]? = some item)
      (hfield : item.field "copy" = .ok v) (hint : v.toInt = .ok copy) (hneg : copy < 0) :
      Defect doc (.registerCopy index copy)

/-- Why the registers of a document are refused. -/
inductive Refusal (path : String) (doc : Value) : Fault → Prop
  /-- A defect is reported with the file. -/
  | defect {cause : Fault} (hdefect : Defect doc cause)
      (hnames : (Fault.inFile path cause).Names path) : Refusal path doc (.inFile path cause)
  /-- What a register has as its instruction is none. -/
  | inst {items : List Value} {item v : Value} {fault : Fault}
      (hitems : doc.field "registers" = .ok (.list items)) (hitem : item ∈ items)
      (hfield : item.field "inst" = .ok v) (hfault : Register.instOf v = .error fault) :
      Refusal path doc fault
  /-- The input or the copy of a register is no integer. -/
  | field {items : List Value} {item v : Value} {key : String} {fault : Fault}
      (hitems : doc.field "registers" = .ok (.list items)) (hitem : item ∈ items)
      (hkey : key = "pi" ∨ key = "copy") (hfield : item.field key = .ok v)
      (hfault : v.toInt = .error fault) : Refusal path doc fault

/-- A register table with a defect is refused with the file. -/
theorem Refusal.of_defect {path : String} {doc : Value} {cause : Fault} (h : Defect doc cause) :
    Refusal path doc (.inFile path cause) := by
  refine .defect h (Fault.names_inFile path ?_)
  cases h <;> rfl

/-- Registers are read item by item. -/
theorem ofRows_eq_mapM (path : String) (index : Nat) (items : List Value) :
    ofRows path index items =
      (items.zipIdx index).mapM fun row => Register.ofValue path row.2 row.1 := by
  induction items generalizing index with
  | nil => rfl
  | cons item items ih => rw [List.zipIdx_cons, List.mapM_cons, ofRows, ih]

/-- The check of a register table refuses one of its registers. -/
theorem checkFrom_eq_error {id : Nat} {registers : List Register} {fault : Fault}
    (h : checkFrom id registers = .error fault) :
    ∃ (index : Nat) (r : Register), registers[index]? = some r ∧
      r.check (id + index) = .error fault := by
  induction registers generalizing id with
  | nil => cases h
  | cons r registers ih =>
    rcases bind_eq_error_iff.1 h with hcheck | ⟨-, -, hrest⟩
    · exact ⟨0, r, rfl, hcheck⟩
    · rcases ih hrest with ⟨index, later, hlater, hfault⟩
      refine ⟨index + 1, later, hlater, ?_⟩
      rw [← hfault, Nat.add_right_comm, Nat.add_assoc]

/-- Registers that were read from items are refused for a negative field of an item. -/
theorem defect_of_check {path : String} {doc : Value} {items : List Value}
    {registers : List Register} {fault : Fault}
    (hitems : doc.field "registers" = .ok (.list items))
    (hrows : ofRows path 0 items = .ok registers) (h : checkFrom 0 registers = .error fault) :
    Defect doc fault := by
  rcases checkFrom_eq_error h with ⟨index, r, hr, hcheck⟩
  rw [ofRows_eq_mapM] at hrows
  rcases exists_of_getElem?_mapM hrows hr with ⟨⟨item, number⟩, hrow, hread⟩
  rw [Nat.zero_add] at hcheck
  have hitem : items[index]? = some item := by
    rw [List.getElem?_zipIdx, Option.map_eq_some_iff] at hrow
    rcases hrow with ⟨found, hfound, hpair⟩
    cases hpair
    exact hfound
  have hdescribes : Register.Describes item r := Register.describes_of_ofValue hread
  rcases Register.check_eq_error hdescribes.inst_nonneg hcheck with ⟨rfl, hneg⟩ | ⟨rfl, hneg⟩
  · rcases hdescribes.pi_eq with ⟨v, hfield, hint⟩
    exact .negativeInput hitems hitem hfield hint hneg
  · rcases hdescribes.copy_eq with ⟨v, hfield, hint⟩ | hzero
    · exact .negativeCopy hitems hitem hfield hint hneg
    · omega

/-- The faults of the registers in a document. -/
theorem refusal_of_ofDocument {path : String} {doc : Value} {fault : Fault}
    (h : ofDocument path doc = .error fault) : Refusal path doc fault := by
  unfold ofDocument at h
  split at h
  · next items hitems =>
    rcases bind_eq_error_iff.1 h with hrows | ⟨registers, hrows, hlist⟩
    · rw [ofRows_eq_mapM] at hrows
      rcases exists_of_mapM_error hrows with ⟨⟨item, index⟩, hrow, hfault⟩
      have hindex : items[index]? = some item := List.mk_mem_zipIdx_iff_getElem?.1 hrow
      have hitem : item ∈ items := List.mem_of_getElem? hindex
      rcases Register.ofValue_eq_error hfault with
        ⟨missing, hinput, rfl⟩ | ⟨v, hfield, hinst⟩ | ⟨key, v, hkey, hfield, hint⟩
      · exact .of_defect (.noInput hitems hindex hinput)
      · exact .inst hitems hitem hfield hinst
      · exact .field hitems hitem hkey hfield hint
    · cases hcheck : ofList registers with
      | ok table =>
        rw [hcheck] at hlist
        cases hlist
      | error cause =>
        rw [hcheck] at hlist
        cases hlist
        rcases bind_eq_error_iff.1 hcheck with hrefused | ⟨-, -, hdone⟩
        · exact .of_defect (defect_of_check hitems hrows hrefused)
        · cases hdone
  · next hlist =>
    cases h
    exact .of_defect (.noList hlist)

end RegisterTable

/-! ## Chains -/

namespace Chain

/-- What is wrong with the form of a chain in a document. -/
inductive Defect (doc : Value) : Fault → Prop
  /-- There is no list of frames. -/
  | noList (hlist : ∀ items, doc.field "frames" ≠ .ok (.list items)) : Defect doc .framesMissing
  /-- A frame has no fields. -/
  | noFields {items : List Value} {item : Value} {index : Nat}
      (hitems : doc.field "frames" = .ok (.list items)) (hitem : items[index]? = some item)
      (hfields : ∀ entries, item ≠ .fields entries) : Defect doc (.frameKind index)
  /-- A frame has no literals. -/
  | noLiterals {items : List Value} {item : Value} {index : Nat} {missing : Fault}
      (hitems : doc.field "frames" = .ok (.list items)) (hitem : items[index]? = some item)
      (hlits : item.field "lits" = .error missing) : Defect doc (.frameLiterals index)

/-- Why the chain of a document is refused. -/
inductive Refusal (path : String) (doc : Value) : Fault → Prop
  /-- A defect is reported with the file. -/
  | defect {cause : Fault} (hdefect : Defect doc cause)
      (hnames : (Fault.inFile path cause).Names path) : Refusal path doc (.inFile path cause)
  /-- The literals of a frame are no list. -/
  | lits {items : List Value} {item v : Value} {fault : Fault}
      (hitems : doc.field "frames" = .ok (.list items)) (hitem : item ∈ items)
      (hlits : item.field "lits" = .ok v) (hfault : v.items = .error fault) :
      Refusal path doc fault
  /-- A literal of a frame is no integer. -/
  | lit {items lits : List Value} {item v l : Value} {fault : Fault}
      (hitems : doc.field "frames" = .ok (.list items)) (hitem : item ∈ items)
      (hlits : item.field "lits" = .ok v) (hvalues : v.items = .ok lits) (hl : l ∈ lits)
      (hfault : l.toInt = .error fault) : Refusal path doc fault
  /-- The length of the state segment of a frame is no integer. -/
  | count {items : List Value} {item v : Value} {fault : Fault}
      (hitems : doc.field "frames" = .ok (.list items)) (hitem : item ∈ items)
      (hcount : item.field "n_lits" = .ok v) (hfault : v.toInt = .error fault) :
      Refusal path doc fault
  /-- A frame cannot be cut at the length of its state segment. -/
  | split {items lits : List Value} {item v w : Value} {stateCount : Int}
      (hitems : doc.field "frames" = .ok (.list items)) (hitem : item ∈ items)
      (hlits : item.field "lits" = .ok v) (hvalues : v.items = .ok lits)
      (hcount : item.field "n_lits" = .ok w) (hint : w.toInt = .ok stateCount)
      (hsize : stateCount < 0 ∨ lits.length < stateCount) :
      Refusal path doc (.frameSplit stateCount lits.length)

/-- A chain with a defect is refused with the file. -/
theorem Refusal.of_defect {path : String} {doc : Value} {cause : Fault} (h : Defect doc cause) :
    Refusal path doc (.inFile path cause) := by
  refine .defect h (Fault.names_inFile path ?_)
  cases h <;> rfl

end Chain

/-- A frame that is not cut is too short. -/
theorem Frame.ofLits_eq_error {lits : List Int} {stateCount : Int} {fault : Fault}
    (h : ofLits lits stateCount = .error fault) :
    fault = .frameSplit stateCount lits.length ∧
      (stateCount < 0 ∨ lits.length < stateCount) := by
  unfold ofLits at h
  split at h
  · cases h
  · next hrange =>
    cases h
    exact ⟨rfl, by omega⟩

namespace Chain

/-- The fault of a frame in a document. -/
theorem refusal_of_ofValue {path : String} {doc : Value} {items : List Value} {item : Value}
    {index : Nat} {fault : Fault} (hitems : doc.field "frames" = .ok (.list items))
    (hindex : items[index]? = some item) (h : Frame.ofValue path index item = .error fault) :
    Refusal path doc fault := by
  have hitem : item ∈ items := List.mem_of_getElem? hindex
  unfold Frame.ofValue at h
  split at h
  · split at h
    · next missing hmissing =>
      cases h
      exact .of_defect (.noLiterals hitems hindex hmissing)
    · next v hlits =>
      rcases bind_eq_error_iff.1 h with hvalues | ⟨values, hvalues, h⟩
      · exact .lits hitems hitem hlits hvalues
      rcases bind_eq_error_iff.1 h with hmap | ⟨lits, hmap, h⟩
      · rcases exists_of_mapM_error hmap with ⟨l, hl, hfault⟩
        exact .lit hitems hitem hlits hvalues hl hfault
      have hlength : values.length = lits.length := (forall₂_of_mapM_ok hmap).length_eq
      rcases Value.optional_eq_error hlits h with
        ⟨count, hcount, hfault | ⟨stateCount, hint, hcut⟩⟩ | hcut
      · exact .count hitems hitem hcount hfault
      · rcases Frame.ofLits_eq_error hcut with ⟨rfl, hsize⟩
        rw [← hlength] at hsize ⊢
        exact .split hitems hitem hlits hvalues hcount hint hsize
      · -- The empty state segment is a part of every frame.
        rcases Frame.ofLits_eq_error hcut with ⟨-, hsize⟩
        omega
  · next hfields =>
    cases h
    exact .of_defect (.noFields hitems hindex hfields)

/-- Frames are read item by item. -/
theorem ofRows_eq_mapM (path : String) (index : Nat) (items : List Value) :
    ofRows path index items =
      (items.zipIdx index).mapM fun row => Frame.ofValue path row.2 row.1 := by
  induction items generalizing index with
  | nil => rfl
  | cons item items ih => rw [List.zipIdx_cons, List.mapM_cons, ofRows, ih]

/-- The faults of the chain in a document. -/
theorem refusal_of_ofDocument {path : String} {doc : Value} {fault : Fault}
    (h : ofDocument path doc = .error fault) : Refusal path doc fault := by
  unfold ofDocument at h
  split at h
  · next items hitems =>
    rw [ofRows_eq_mapM] at h
    rcases exists_of_mapM_error h with ⟨⟨item, index⟩, hrow, hfault⟩
    exact refusal_of_ofValue hitems (List.mk_mem_zipIdx_iff_getElem?.1 hrow) hfault
  · next hlist =>
    cases h
    exact .of_defect (.noList hlist)

end Chain

/-! ## Files -/

/-- A file that holds a document is there. -/
theorem FileTree.holds_of_document {t : FileTree} {path : String} {doc : Value}
    (h : t.document path = .ok doc) : t.holds path = .ok true := by
  cases hread : t.read path with
  | error fault =>
    rw [document, hread] at h
    cases h
  | ok text =>
    unfold read at hread
    cases hplace : t.placeOf path with
    | error fault =>
      rw [hplace] at hread
      cases hread
    | ok place =>
      simp only [hplace, bind, Except.bind] at hread
      split at hread
      · next hfind => simp [holds, hplace, hfind]
      · cases hread

/-- How loading a document of a file as a table or a chain fails. -/
structure LoadingRefusals [Memory] (t : FileTree) (path : String) (doc : Value)
    (instLen nInsts : Int) : Prop where
  placement : ∀ {fault}, Placement.load t path instLen nInsts = .error fault →
    Placement.Refusal path doc (instLen * nInsts) fault
  registers : ∀ {fault}, RegisterTable.load t path = .error fault →
    RegisterTable.Refusal path doc fault
  chain : ∀ {fault}, Chain.load t path = .error fault → Chain.Refusal (Path.tidy path) doc fault
  /-- No other groups of faults are reported. -/
  ofContent : ∀ {fault}, Placement.load t path instLen nInsts = .error fault ∨
    RegisterTable.load t path = .error fault ∨ Chain.load t path = .error fault →
      fault.reported.OfContent

/-- The groups of the faults that the registers of a document are refused with. -/
theorem RegisterTable.Refusal.ofContent {path : String} {doc : Value} {fault : Fault}
    (h : Refusal path doc fault) : fault.OfContent := by
  cases h with
  | defect _ hnames => exact Or.inl hnames.1
  | inst _ _ _ hfault => exact Value.ofContent_of_toInt (Register.instOf_eq_error hfault)
  | field _ _ _ _ hfault => exact Value.ofContent_of_toInt hfault

/-- The groups of the faults that the chain of a document is refused with. -/
theorem Chain.Refusal.ofContent {path : String} {doc : Value} {fault : Fault}
    (h : Refusal path doc fault) : fault.OfContent := by
  cases h with
  | defect _ hnames => exact Or.inl hnames.1
  | lits _ _ _ hfault =>
    rw [Value.items_eq_error hfault]
    exact Or.inr (Or.inl rfl)
  | lit _ _ _ _ _ hfault => exact Value.ofContent_of_toInt hfault
  | count _ _ _ hfault => exact Value.ofContent_of_toInt hfault
  | split _ _ _ _ _ _ _ => exact Or.inl rfl

/-- The groups of the faults that the placement of a document is refused with. -/
theorem Placement.Refusal.ofContent [Memory] {path : String} {doc : Value} {totalBits : Int}
    {fault : Fault} (h : Refusal path doc totalBits fault) : fault.OfContent := by
  cases h with
  | defect _ hnames => exact Or.inl hnames.1
  | count _ hfault => exact Value.ofContent_of_toInt hfault
  | key _ _ hfault => exact Value.ofContent_of_scalarToInt hfault
  | spelling _ _ _ _ _ _ => exact Or.inl rfl
  | room _ hfault => exact Capacity.ofContent_of_demand hfault
  | foreign _ _ => exact Or.inr (Or.inl rfl)
  | range _ _ => exact Or.inl rfl
  | shared _ _ _ _ => exact Or.inl rfl

/-- A document of a file is refused as a table or a chain in one of the listed ways. -/
theorem loading_refusals [Memory] {t : FileTree} {path : String} {doc : Value}
    {instLen nInsts : Int} (hdoc : t.document (Path.tidy path) = .ok doc) (hlen : 0 < instLen)
    (hinsts : 0 < nInsts) : LoadingRefusals t path doc instLen nInsts := by
  have hholds := FileTree.holds_of_document hdoc
  have hplacement : ∀ {fault}, Placement.load t path instLen nInsts = .error fault →
      Placement.Refusal path doc (instLen * nInsts) fault := by
    intro fault h
    unfold Placement.load at h
    rw [hholds, hdoc] at h
    exact Placement.refusal_of_ofDocument hlen hinsts h
  have hregisters : ∀ {fault}, RegisterTable.load t path = .error fault →
      RegisterTable.Refusal path doc fault := by
    intro fault h
    unfold RegisterTable.load at h
    rw [hholds, hdoc] at h
    exact RegisterTable.refusal_of_ofDocument h
  have hchain : ∀ {fault}, Chain.load t path = .error fault →
      Chain.Refusal (Path.tidy path) doc fault := by
    intro fault h
    unfold Chain.load at h
    rw [hholds, hdoc] at h
    exact Chain.refusal_of_ofDocument h
  refine ⟨hplacement, hregisters, hchain, ?_⟩
  rintro fault (h | h | h)
  · exact (hplacement h).ofContent.reported
  · exact (hregisters h).ofContent.reported
  · exact (hchain h).ofContent.reported

/-- A placement with a bit outside a memory of two bits, and a chain without a list of literals. -/
def unfitFiles : FileTree where
  here := []
  files := [(["imem.yml"], "placement: [5]"), (["cex.yml"], "frames: [{lits: 5}]")]

/-- The document of the placement is refused in one of the listed ways. -/
theorem loading_refusals_sample :
    unfitFiles.document (Path.tidy "imem.yml") =
        .ok (.fields [(.text "placement", .list [.whole 5])]) ∧
      LoadingRefusals unfitFiles "imem.yml" (.fields [(.text "placement", .list [.whole 5])]) 2
        1 := by
  have hdoc : unfitFiles.document (Path.tidy "imem.yml") =
      .ok (.fields [(.text "placement", .list [.whole 5])]) := by
    decide +kernel
  exact ⟨hdoc, loading_refusals hdoc (by decide) (by decide)⟩

/-- Of two files with documents, one is refused with a text that does not show the file, and the
other with a fault that is none of an invalid value. -/
theorem refused_without_file :
    (∃ doc, unfitFiles.document (Path.tidy "imem.yml") = .ok doc) ∧
      (∃ doc, unfitFiles.document (Path.tidy "cex.yml") = .ok doc) ∧
      (∃ fault text, Placement.load unfitFiles "imem.yml" 2 1 = .error fault ∧
        fault.reported.message? = some text ∧ ¬"imem.yml".toList <:+: text.toList) ∧
      ∃ fault, Chain.load unfitFiles "cex.yml" = .error fault ∧
        fault.reported.kind ≠ .invalidValue := by
  refine ⟨⟨.fields [(.text "placement", .list [.whole 5])], by decide +kernel⟩,
    ⟨.fields [(.text "frames", .list [.fields [(.text "lits", .whole 5)]])],
      by decide +kernel⟩, ?_, ?_⟩
  · refine ⟨.slotRange 0 (.whole 5) 2, "placement of PI 0 out of range: 5 (total_bits=2)",
      by decide +kernel, ?_, ?_⟩
    · have hshown : (Fault.slotRange 0 (.whole 5) 2).shown.all Text.isWritable = true := by
        decide +kernel
      rw [Fault.reported_eq_self hshown]
      rfl
    · -- The text has no letter y at all.
      intro hinfix
      have hletter : 'y' ∈ "placement of PI 0 out of range: 5 (total_bits=2)".toList :=
        hinfix.subset (by decide)
      exact absurd hletter (by decide)
  · exact ⟨.wrongType, by decide +kernel, by decide⟩

end ImemReplay
