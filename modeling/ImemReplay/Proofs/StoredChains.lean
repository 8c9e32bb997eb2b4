import ImemReplay.Proofs.LoadingFaults
import ImemReplay.Proofs.WrittenNumbers

/-!
# Stored chains

A chain is stored as a list of items, one for each frame.  An item has the literals of its frame and
the length of the state segment, each number as it is or as a text, and it may leave out the length
of an empty segment.  Loading restores the chain, unless a text has more digits than a numeral may
have.

What an item is loaded as, or refused for, depends on no other item, so that the frames of two lists
are loaded one list after the other.  The number of the item in its list is shown by two of the
refusals and has no effect on the others.

Main results:

- Theorem `ofValue_of_storedAs`: an item of a stored chain gives its frame.
- Theorem `ofValue_cases`: an item gives a frame, or it is refused in one of three ways.
- Theorem `ofRows_cases`: all items give frames, or the first one that gives none is reported.
- Theorem `load_restores`: what is loaded from a list of items.
- Theorem `overlong_text_not_loaded`: a chain that is stored and not restored.
-/

namespace ImemReplay

namespace Value

/-! ## Numbers -/

/-- A value gives an integer, as it is or as its text. -/
inductive Gives : Value → Int → Prop
  | whole (i : Int) : Gives (whole i) i
  | text (i : Int) : Gives (text (toString i)) i

/-- A value that is the text of an integer has no more digits than a numeral may have. -/
def Legible (v : Value) : Prop := ∀ i : Int, v = text (toString i) → Text.isWritable i = true

/-- A value is the text of an integer with too many digits, and the fault tells their number. -/
def Overlong (v : Value) (fault : Fault) : Prop :=
  ∃ i : Int, v = text (toString i) ∧ Text.isWritable i = false ∧
    fault = .numeralSize (toString i.natAbs).length

/-- A value with too many digits is not legible. -/
theorem Overlong.not_legible {v : Value} {fault : Fault} (h : v.Overlong fault) : ¬v.Legible := by
  rcases h with ⟨i, rfl, hi, -⟩
  intro hlegible
  rw [hlegible i rfl] at hi
  cases hi

/-- A value that gives an integer stands for it, unless it has too many digits. -/
theorem toInt_of_gives {v : Value} {i : Int} (h : v.Gives i) :
    (v.toInt = .ok i ∧ v.Legible) ∨ ∃ fault, v.toInt = .error fault ∧ v.Overlong fault := by
  cases h with
  | whole =>
    left
    refine ⟨rfl, ?_⟩
    intro j hj
    cases hj
  | text =>
    by_cases hi : Text.isWritable i = true
    · left
      refine ⟨by rw [toInt_text_toString, if_pos hi], ?_⟩
      intro j hj
      have hsame : toString i = toString j := Scalar.text.inj (Value.scalar.inj hj)
      have hread := congrArg Text.integer? hsame
      rw [Text.integer?_toString, Text.integer?_toString] at hread
      exact Option.some.inj hread ▸ hi
    · right
      refine ⟨_, by rw [toInt_text_toString, if_neg hi], i, rfl, ?_, rfl⟩
      exact Bool.eq_false_iff.2 hi

/-- Values that give integers stand for them, unless one has too many digits. -/
theorem mapM_toInt_of_gives {values : List Value} {lits : List Int}
    (h : List.Forall₂ Gives values lits) :
    (values.mapM toInt = .ok lits ∧ ∀ v ∈ values, v.Legible) ∨
      ∃ v ∈ values, ∃ fault, values.mapM toInt = .error fault ∧ v.Overlong fault := by
  induction h with
  | nil => exact Or.inl ⟨rfl, by simp⟩
  | @cons v i values lits hv hvalues ih =>
    rcases toInt_of_gives hv with ⟨hint, hlegible⟩ | ⟨fault, hint, hoverlong⟩
    · rcases ih with ⟨hmap, hall⟩ | ⟨w, hw, fault, hmap, hoverlong⟩
      · left
        refine ⟨?_, List.forall_mem_cons.2 ⟨hlegible, hall⟩⟩
        rw [List.mapM_cons, hint, hmap]
        rfl
      · right
        refine ⟨w, List.mem_cons_of_mem v hw, fault, ?_, hoverlong⟩
        rw [List.mapM_cons, hint, hmap]
        rfl
    · right
      refine ⟨v, List.mem_cons_self, fault, ?_, hoverlong⟩
      rw [List.mapM_cons, hint]
      rfl

end Value

namespace Frame

/-! ## Items of stored frames -/

/-- An item has the literals of a frame, and the length of its state segment unless that is zero and
left out. -/
structure StoredAs (f : Frame) (item : Value) : Prop where
  lits : ∃ values, item.field "lits" = .ok (.list values) ∧ List.Forall₂ Value.Gives values f.lits
  stateCount : (∃ v, item.field "n_lits" = .ok v ∧ v.Gives f.stateCount) ∨
    f.stateCount = 0 ∧ item.field "n_lits" = .error (.keyMissing "n_lits")

/-- The values that an item has in the places of numbers. -/
def numbersOf (item : Value) : List Value :=
  ((item.field "lits").bind Value.items).toOption.getD [] ++
    (item.field "n_lits").toOption.toList

/-- The length of a state segment is read, unless it has too many digits. -/
theorem toInt_stateCount {f : Frame} {item : Value} (h : f.StoredAs item) :
    (((item.field "n_lits").toOption.getD (.whole 0)).toInt = .ok (f.stateCount : Int) ∧
        ∀ v ∈ (item.field "n_lits").toOption.toList, v.Legible) ∨
      ∃ v ∈ (item.field "n_lits").toOption.toList, ∃ fault,
        ((item.field "n_lits").toOption.getD (.whole 0)).toInt = .error fault ∧
          v.Overlong fault := by
  rcases h.stateCount with ⟨v, hv, hgives⟩ | ⟨hzero, hmissing⟩
  · rw [hv]
    simpa [Except.toOption] using Value.toInt_of_gives hgives
  · left
    rw [hmissing, hzero]
    exact ⟨rfl, by simp [Except.toOption]⟩

/-- An item of a stored chain gives its frame, unless one of its numbers has too many digits. -/
theorem ofValue_of_storedAs (path : String) (index : Nat) {f : Frame} {item : Value}
    (h : f.StoredAs item) :
    (ofValue path index item = .ok f ∧ ∀ v ∈ numbersOf item, v.Legible) ∨
      ∃ v ∈ numbersOf item, ∃ fault, ofValue path index item = .error fault ∧
        v.Overlong fault := by
  rcases h.lits with ⟨values, hlits, hgives⟩
  have hcount := toInt_stateCount h
  cases item with
  | scalar s => cases hlits
  | list items => cases hlits
  | fields entries =>
    have hnumbers : numbersOf (.fields entries) =
        values ++ ((Value.fields entries).field "n_lits").toOption.toList := by
      rw [numbersOf, hlits]
      rfl
    have hitems : (Value.list values).items = .ok values := rfl
    unfold ofValue
    simp only [hlits, hitems, hnumbers, Value.fieldD_fields, bind, Except.bind]
    rcases Value.mapM_toInt_of_gives hgives with
      ⟨hmap, hlegible⟩ | ⟨v, hv, fault, hmap, hoverlong⟩
    · rcases hcount with ⟨hint, hlegibleCount⟩ | ⟨v, hv, fault, hint, hoverlong⟩
      · left
        simp only [hmap, hint]
        exact ⟨ofLits_lits f, List.forall_mem_append.2 ⟨hlegible, hlegibleCount⟩⟩
      · right
        refine ⟨v, List.mem_append_right _ hv, fault, ?_, hoverlong⟩
        simp only [hmap, hint]
    · right
      refine ⟨v, List.mem_append_left _ hv, fault, ?_, hoverlong⟩
      simp only [hmap]

/-! ## Items of any kind -/

/-- An item gives a frame, wherever it stands. -/
def GivenBy (item : Value) (f : Frame) : Prop := ∀ path index, ofValue path index item = .ok f

/-- How an item is refused, and the text of that, by the path of its file and its number.  What has
no fields or no literals is reported with its number; all other faults are the same everywhere. -/
inductive Refused (item : Value) : (String → Nat → Fault) → (String → Nat → Option String) → Prop
  | noFields (h : ∀ entries, item ≠ .fields entries) :
      Refused item (fun path index => .inFile path (.frameKind index))
        fun path index => path ++ ": " ++ s!"frame {index} must be a mapping"
  | noLiterals {entries : Fields} (hitem : item = .fields entries)
      (h : item.field "lits" = .error (.keyMissing "lits")) :
      Refused item (fun path index => .inFile path (.frameLiterals index))
        fun path index => path ++ ": " ++ s!"frame {index} has no 'lits'"
  | content {v : Value} (fault : Fault) (hlits : item.field "lits" = .ok v) :
      Refused item (fun _ _ => fault) fun _ _ => fault.message?

/-- An item gives a frame, or it is refused in one of three ways. -/
theorem ofValue_cases (item : Value) :
    (∃ f, GivenBy item f) ∨ ∃ report text, Refused item report text ∧
      ∀ path index, ofValue path index item = .error (report path index) ∧
        (report path index).message? = text path index := by
  cases item with
  | scalar s => exact Or.inr ⟨_, _, .noFields (by simp), fun path index => ⟨rfl, rfl⟩⟩
  | list items => exact Or.inr ⟨_, _, .noFields (by simp), fun path index => ⟨rfl, rfl⟩⟩
  | fields entries =>
    cases hfind : Fields.find? (.text "lits") entries with
    | none =>
      have hlits : (Value.fields entries).field "lits" = .error (.keyMissing "lits") := by
        simp only [Value.field, hfind]
      refine Or.inr ⟨_, _, .noLiterals rfl hlits, fun path index => ⟨?_, rfl⟩⟩
      simp only [ofValue, hlits]
    | some v =>
      have hlits : (Value.fields entries).field "lits" = .ok v := by
        simp only [Value.field, hfind]
      -- What is read of the literals and of their split shows neither the path nor the number.
      have hread : ∀ path index, ofValue path index (.fields entries) =
          ofValue "" 0 (.fields entries) := by
        intro path index
        simp only [ofValue, hlits]
      cases hvalue : ofValue "" 0 (.fields entries) with
      | ok f => exact Or.inl ⟨f, fun path index => (hread path index).trans hvalue⟩
      | error fault =>
        exact Or.inr ⟨_, _, .content fault hlits,
          fun path index => ⟨(hread path index).trans hvalue, rfl⟩⟩

end Frame

namespace Chain

/-! ## Lists of items -/

/-- The items of a stored chain give its frames, unless one of their numbers has too many digits. -/
theorem ofRows_of_storedAs (path : String) (index : Nat) {chain : Chain} {items : List Value}
    (h : List.Forall₂ Frame.StoredAs chain items) :
    (ofRows path index items = .ok chain ∧
        ∀ item ∈ items, ∀ v ∈ Frame.numbersOf item, v.Legible) ∨
      ∃ item ∈ items, ∃ v ∈ Frame.numbersOf item, ∃ fault,
        ofRows path index items = .error fault ∧ v.Overlong fault := by
  induction h generalizing index with
  | nil => exact Or.inl ⟨rfl, by simp⟩
  | @cons f item chain items hitem hitems ih =>
    rcases Frame.ofValue_of_storedAs path index hitem with
      ⟨hvalue, hlegible⟩ | ⟨v, hv, fault, hvalue, hoverlong⟩
    · rcases ih (index + 1) with
        ⟨hrows, hall⟩ | ⟨other, hother, v, hv, fault, hrows, hoverlong⟩
      · left
        refine ⟨?_, List.forall_mem_cons.2 ⟨hlegible, hall⟩⟩
        rw [ofRows, hvalue, hrows]
        rfl
      · right
        refine ⟨other, List.mem_cons_of_mem item hother, v, hv, fault, ?_, hoverlong⟩
        rw [ofRows, hvalue, hrows]
        rfl
    · right
      refine ⟨item, List.mem_cons_self, v, hv, fault, ?_, hoverlong⟩
      rw [ofRows, hvalue]
      rfl

/-- All items give frames, or the first one that gives none is reported with its number. -/
theorem ofRows_cases (path : String) (index : Nat) (items : List Value) :
    (∃ chain, ofRows path index items = .ok chain ∧ List.Forall₂ Frame.GivenBy items chain) ∨
      ∃ k item report text, items[k]? = some item ∧
        (∀ earlier ∈ items.take k, ∃ f, Frame.GivenBy earlier f) ∧ Frame.Refused item report text ∧
        (∀ path index, Frame.ofValue path index item = .error (report path index) ∧
          (report path index).message? = text path index) ∧
        ofRows path index items = .error (report path (index + k)) := by
  induction items generalizing index with
  | nil => exact Or.inl ⟨[], rfl, .nil⟩
  | cons item items ih =>
    rcases Frame.ofValue_cases item with ⟨f, hf⟩ | ⟨report, text, hrefused, hreport⟩
    · rcases ih (index + 1) with
        ⟨chain, hrows, hgiven⟩ | ⟨k, other, report, text, hother, hbefore, hrefused, hreport, hrows⟩
      · left
        refine ⟨f :: chain, ?_, .cons hf hgiven⟩
        rw [ofRows, hf, hrows]
        rfl
      · right
        refine ⟨k + 1, other, report, text, hother, ?_, hrefused, hreport, ?_⟩
        · rw [List.take_succ_cons]
          exact List.forall_mem_cons.2 ⟨⟨f, hf⟩, hbefore⟩
        · rw [ofRows, hf, hrows, Nat.add_right_comm, Nat.add_assoc]
          rfl
    · right
      refine ⟨0, item, report, text, rfl, by simp, hrefused, hreport, ?_⟩
      rw [ofRows, (hreport path index).1]
      rfl

/-- The frames of a list of items are those that the items give. -/
theorem ofRows_eq_ok_iff {path : String} {index : Nat} {items : List Value} {chain : Chain} :
    ofRows path index items = .ok chain ↔ List.Forall₂ Frame.GivenBy items chain := by
  constructor
  · intro h
    rcases ofRows_cases path index items with
      ⟨found, hrows, hgiven⟩ | ⟨k, item, report, text, -, -, -, -, hrows⟩
    · rw [hrows] at h
      cases h
      exact hgiven
    · rw [hrows] at h
      cases h
  · intro h
    induction h generalizing index with
    | nil => rfl
    | @cons item f items chain hitem hitems ih =>
      rw [ofRows, hitem, ih]
      rfl

/-! ## Files -/

/-- The file under a path has a list of items for frames. -/
def HasFrames (files : FileTree) (path : String) (items : List Value) : Prop :=
  ∃ doc, files.document (Path.tidy path) = .ok doc ∧ doc.field "frames" = .ok (.list items)

/-- The frames of a file are loaded item by item. -/
theorem load_of_hasFrames {files : FileTree} {path : String} {items : List Value}
    (h : HasFrames files path items) : load files path = ofRows (Path.tidy path) 0 items := by
  rcases h with ⟨doc, hdoc, hframes⟩
  unfold load
  rw [FileTree.holds_of_document hdoc, hdoc]
  simp only [bind, Except.bind, ofDocument, hframes, if_true]

/-- What is loaded from a list of items for frames. -/
structure Restores (files : FileTree) (path : String) (items : List Value) : Prop where
  /-- A stored chain is restored exactly if no text has too many digits. -/
  restored_iff : ∀ {chain}, List.Forall₂ Frame.StoredAs chain items →
    (load files path = .ok chain ↔ ∀ item ∈ items, ∀ v ∈ Frame.numbersOf item, v.Legible)
  /-- A stored chain that is not restored is refused for the digits of a text. -/
  overlong : ∀ {chain fault}, List.Forall₂ Frame.StoredAs chain items →
    load files path = .error fault → ∃ item ∈ items, ∃ v ∈ Frame.numbersOf item, v.Overlong fault
  /-- Two lists of items are loaded if each of them is, one chain after the other. -/
  append_iff : ∀ {front back}, items = front ++ back →
    ∀ {files₁ path₁}, HasFrames files₁ path₁ front →
    ∀ {files₂ path₂}, HasFrames files₂ path₂ back →
    ∀ {chain}, load files path = .ok chain ↔
      ∃ first second, load files₁ path₁ = .ok first ∧ load files₂ path₂ = .ok second ∧
        chain = first ++ second
  /-- A fault is that of the first item that gives no frame, with the number of the item in the
  list where the fault shows a number. -/
  first_refused : ∀ {fault}, load files path = .error fault →
    ∃ k item report text, items[k]? = some item ∧
      (∀ earlier ∈ items.take k, ∃ f, Frame.GivenBy earlier f) ∧ Frame.Refused item report text ∧
      (∀ path index, Frame.ofValue path index item = .error (report path index) ∧
        (report path index).message? = text path index) ∧
      fault = report (Path.tidy path) k

/-- Items for frames are loaded as the chain that they store, and two lists of items as one chain
after the other. -/
theorem load_restores {files : FileTree} {path : String} {items : List Value}
    (h : HasFrames files path items) : Restores files path items := by
  have hload := load_of_hasFrames h
  constructor
  case restored_iff =>
    intro chain hstored
    rw [hload]
    rcases ofRows_of_storedAs (Path.tidy path) 0 hstored with
      ⟨hrows, hlegible⟩ | ⟨item, hitem, v, hv, fault, hrows, hoverlong⟩
    · exact ⟨fun _ => hlegible, fun _ => hrows⟩
    · constructor
      · intro hok
        rw [hrows] at hok
        cases hok
      · intro hlegible
        exact absurd (hlegible item hitem v hv) hoverlong.not_legible
  case overlong =>
    intro chain fault hstored hfault
    rw [hload] at hfault
    rcases ofRows_of_storedAs (Path.tidy path) 0 hstored with
      ⟨hrows, -⟩ | ⟨item, hitem, v, hv, other, hrows, hoverlong⟩
    · rw [hrows] at hfault
      cases hfault
    · rw [hrows] at hfault
      cases hfault
      exact ⟨item, hitem, v, hv, hoverlong⟩
  case append_iff =>
    rintro front back rfl files₁ path₁ hfront files₂ path₂ hback chain
    rw [hload, load_of_hasFrames hfront, load_of_hasFrames hback, ofRows_append]
    -- What the items give depends neither on the path nor on their numbers.
    simp only [bind_eq_ok_iff, ofRows_eq_ok_iff]
    constructor
    · rintro ⟨first, hfirst, second, hsecond, hchain⟩
      exact ⟨first, second, hfirst, hsecond, (Except.ok.inj hchain).symm⟩
    · rintro ⟨first, second, hfirst, hsecond, rfl⟩
      exact ⟨first, hfirst, second, hsecond, rfl⟩
  case first_refused =>
    intro fault hfault
    rw [hload] at hfault
    rcases ofRows_cases (Path.tidy path) 0 items with
      ⟨chain, hrows, -⟩ | ⟨k, item, report, text, hitem, hbefore, hrefused, hreport, hrows⟩
    · rw [hrows] at hfault
      cases hfault
    · rw [hrows, Nat.zero_add] at hfault
      cases hfault
      exact ⟨k, item, report, text, hitem, hbefore, hrefused, hreport, rfl⟩

/-- Two frames; numbers of both are texts, and the second item has no length of a state segment. -/
def storedFiles : FileTree where
  here := []
  files := [(["cex.yml"], "frames: [\x7bn_lits: '1', lits: [4, '-7']\x7d, \x7blits: ['10']\x7d]")]

/-- The items of the two frames. -/
def storedItems : List Value :=
  [.fields [(.text "n_lits", .text "1"), (.text "lits", .list [.whole 4, .text "-7"])],
    .fields [(.text "lits", .list [.text "10"])]]

/-- The two frames are restored. -/
theorem load_restores_sample :
    HasFrames storedFiles "cex.yml" storedItems ∧
      List.Forall₂ Frame.StoredAs [⟨[4], [-7]⟩, ⟨[], [10]⟩] storedItems ∧
      Restores storedFiles "cex.yml" storedItems ∧
      load storedFiles "cex.yml" = .ok [⟨[4], [-7]⟩, ⟨[], [10]⟩] := by
  have hframes : HasFrames storedFiles "cex.yml" storedItems :=
    ⟨.fields [(.text "frames", .list storedItems)], by decide +kernel, rfl⟩
  have hseven : (Value.text "-7").Gives (-7) :=
    (by decide : toString (-7 : Int) = "-7") ▸ .text (-7)
  have hfirst : Frame.StoredAs ⟨[4], [-7]⟩
      (.fields [(.text "n_lits", .text "1"), (.text "lits", .list [.whole 4, .text "-7"])]) :=
    ⟨⟨_, rfl, .cons (.whole 4) (.cons hseven .nil)⟩, Or.inl ⟨_, rfl, .text 1⟩⟩
  have hsecond : Frame.StoredAs ⟨[], [10]⟩ (.fields [(.text "lits", .list [.text "10"])]) :=
    ⟨⟨_, rfl, .cons (.text 10) .nil⟩, Or.inr ⟨rfl, rfl⟩⟩
  exact ⟨hframes, .cons hfirst (.cons hsecond .nil), load_restores hframes, by
    rw [load_of_hasFrames hframes]; rfl⟩

/-- An item with one literal. -/
def oneLiteral (v : Value) : Value := .fields [(.text "lits", .list [v])]

theorem ofDocument_oneLiteral (path : String) {v : Value} {fault : Fault}
    (h : v.toInt = .error fault) :
    ofDocument path (.fields [(.text "frames", .list [oneLiteral v])]) = .error fault := by
  have hframes : (Value.fields [(.text "frames", .list [oneLiteral v])]).field "frames" =
      .ok (.list [oneLiteral v]) := rfl
  have hlits : (oneLiteral v).field "lits" = .ok (.list [v]) := rfl
  have hitems : (Value.list [v]).items = .ok [v] := rfl
  unfold ofDocument
  rw [hframes]
  simp only [ofRows, oneLiteral, Frame.ofValue, bind, Except.bind] at hlits ⊢
  simp only [hlits, hitems, List.mapM_cons, h, bind, Except.bind]

/-- A chain with one literal that has too many digits for a numeral.  The item that stores it with
the text of the literal is refused. -/
theorem overlong_text_not_loaded :
    List.Forall₂ Frame.StoredAs [⟨[], [Text.leastUnwritable]⟩]
        [oneLiteral (.text (toString Text.leastUnwritable))] ∧
      ofDocument "cex.yml" (.fields [(.text "frames",
          .list [oneLiteral (.text (toString Text.leastUnwritable))])]) =
        .error (.numeralSize (toString Text.leastUnwritable.natAbs).length) := by
  have hstored : Frame.StoredAs ⟨[], [Text.leastUnwritable]⟩
      (oneLiteral (.text (toString Text.leastUnwritable))) :=
    ⟨⟨_, rfl, .cons (.text _) .nil⟩, Or.inr ⟨rfl, rfl⟩⟩
  refine ⟨.cons hstored .nil, ofDocument_oneLiteral "cex.yml" ?_⟩
  rw [Value.toInt_text_toString, Text.isWritable_leastUnwritable]
  rfl

end Chain
end ImemReplay
