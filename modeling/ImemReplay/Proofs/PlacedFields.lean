import ImemReplay.Loading.Placement
import ImemReplay.Proofs.LoadingFaults
import ImemReplay.Proofs.Placements

/-!
# Placements from fields

The keys of fields are told apart as scalars, but a table is filled by the integers that they stand
for.  Two fields can therefore be fields of one input, as those under `2` and under `'2'` are, and
then the later one is written over the earlier.  What a table has for an input is the value of the
last field of the input; no other value of a field is looked at, be it even one that no table would
accept.  Fields of different inputs are all in the table.

Main results:

- Theorem `placeFields_eq_ok_iff`: when fields can be written into a table, and what they leave.
- Theorem `ofFields_eq_ok_iff`: the table that fields stand for.
- Theorem `load_keeps_last_fields`: what a placement that was loaded has of the fields.
- Theorem `overruled_field_is_lost`: a placement of two fields that has one of them only.
-/

namespace ImemReplay
namespace Placement

open PlacementEntry

/-! ## The last field of an input -/

/-- The value that the last field of an input has. -/
def lastValue? (entries : Fields) (input : Nat) : Option Value :=
  ((entries.filter fun entry => Value.scalarToInt entry.1 = .ok (input : Int)).getLast?).map (·.2)

/-- All keys of fields stand for inputs below a number. -/
def KeysBelow (entries : Fields) (count : Nat) : Prop :=
  ∀ entry ∈ entries, ∃ input < count, Value.scalarToInt entry.1 = .ok (input : Int)

/-- A key stands for one input. -/
theorem input_unique {key : Scalar} {input other : Nat}
    (h : Value.scalarToInt key = .ok (input : Int))
    (hother : Value.scalarToInt key = .ok (other : Int)) : input = other := by
  have hcast : (input : Int) = other := Except.ok.inj (h.symm.trans hother)
  omega

section LastValue

variable {entry : Scalar × Value} {entries : Fields} {input : Nat} {v : Value}

@[simp]
theorem lastValue?_nil (input : Nat) : lastValue? [] input = none :=
  rfl

/-- A field in front is the last one of its input only if none follows. -/
theorem lastValue?_cons :
    lastValue? (entry :: entries) input =
      (lastValue? entries input).or
        (if Value.scalarToInt entry.1 = .ok (input : Int) then some entry.2 else none) := by
  unfold lastValue?
  by_cases h : Value.scalarToInt entry.1 = .ok (input : Int)
  · rw [List.filter_cons_of_pos (by simpa using h), if_pos h, List.getLast?_cons]
    cases (entries.filter fun entry => Value.scalarToInt entry.1 = .ok (input : Int)).getLast? <;>
      rfl
  · rw [List.filter_cons_of_neg (by simpa using h), if_neg h, Option.or_none]

/-- Of the last values a field in front can change only that of its own input. -/
theorem lastValue?_cons_of_key (hkey : Value.scalarToInt entry.1 = .ok (input : Int))
    (other : Nat) :
    lastValue? (entry :: entries) other =
      (lastValue? entries other).or (if input = other then some entry.2 else none) := by
  have hother : Value.scalarToInt entry.1 = .ok (other : Int) ↔ input = other := by
    constructor
    · exact input_unique hkey
    · rintro rfl
      exact hkey
  rw [lastValue?_cons]
  simp only [hother]

/-- The last value of an input is that of a field of it. -/
theorem exists_of_lastValue? (h : lastValue? entries input = some v) :
    ∃ key, (key, v) ∈ entries ∧ Value.scalarToInt key = .ok (input : Int) := by
  rcases Option.map_eq_some_iff.1 h with ⟨⟨key, w⟩, hlast, rfl⟩
  have hmem := List.mem_filter.1 (List.mem_of_getLast? hlast)
  exact ⟨key, hmem.1, of_decide_eq_true hmem.2⟩

/-- An input has no last value exactly if there is no field of it. -/
theorem lastValue?_eq_none_iff :
    lastValue? entries input = none ↔
      ∀ entry ∈ entries, Value.scalarToInt entry.1 ≠ .ok (input : Int) := by
  unfold lastValue?
  rw [Option.map_eq_none_iff, List.getLast?_eq_none_iff, List.filter_eq_nil_iff]
  simp only [decide_eq_true_eq, ne_eq]

/-- The input of a key has no last value among fields of other inputs. -/
theorem lastValue?_of_apart {key : Scalar}
    (hapart : ∀ later ∈ entries, Value.scalarToInt key ≠ Value.scalarToInt later.1)
    (hkey : Value.scalarToInt key = .ok (input : Int)) : lastValue? entries input = none := by
  apply lastValue?_eq_none_iff.2
  intro later hlater hsame
  exact hapart later hlater (hkey.trans hsame.symm)

/-- An input with a field has a last value. -/
theorem exists_lastValue? (hentry : entry ∈ entries)
    (hkey : Value.scalarToInt entry.1 = .ok (input : Int)) :
    ∃ v, lastValue? entries input = some v := by
  cases hlast : lastValue? entries input with
  | none => exact absurd hkey (lastValue?_eq_none_iff.1 hlast entry hentry)
  | some v => exact ⟨v, rfl⟩

end LastValue

/-! ## Fields written into a table -/

section Writing

variable {path : String} {entry : Scalar × Value} {entries : Fields}
  {table written : List PlacementEntry}

/-- A field is written into a table if its key stands for an input of the table. -/
theorem placeField_eq_ok_iff :
    placeField path table entry = .ok written ↔
      ∃ input : Nat, input < table.length ∧ Value.scalarToInt entry.1 = .ok (input : Int) ∧
        written = table.set input (ofValue entry.2) := by
  unfold placeField
  rw [bind_eq_ok_iff]
  constructor
  · rintro ⟨input, hkey, h⟩
    split at h
    · next hrange =>
      cases h
      refine ⟨input.toNat, by omega, ?_, rfl⟩
      rw [hkey, Int.toNat_of_nonneg hrange.1]
    · split at h <;> cases h
  · rintro ⟨input, hrange, hkey, rfl⟩
    refine ⟨input, hkey, ?_⟩
    rw [if_pos (by omega), Int.toNat_natCast]
    rfl

/-- The table that fields leave of another: an input with a field has the last value, and every
other one what it had. -/
def overwritten (entries : Fields) (table : List PlacementEntry) : List PlacementEntry :=
  table.mapIdx fun input old => ((lastValue? entries input).map ofValue).getD old

theorem overwritten_nil (table : List PlacementEntry) : overwritten [] table = table := by
  apply List.ext_getElem?
  intro input
  rw [overwritten, List.getElem?_mapIdx]
  cases table[input]? <;> rfl

/-- Fields behind a field are written over it. -/
theorem overwritten_cons {input : Nat} (hkey : Value.scalarToInt entry.1 = .ok (input : Int)) :
    overwritten (entry :: entries) table =
      overwritten entries (table.set input (ofValue entry.2)) := by
  apply List.ext_getElem?
  intro other
  rw [overwritten, overwritten, List.getElem?_mapIdx, List.getElem?_mapIdx,
    lastValue?_cons_of_key hkey]
  by_cases hother : input = other
  · subst hother
    rw [if_pos rfl, List.getElem?_set_self']
    cases table[input]? with
    | none => rfl
    | some old => cases lastValue? entries input <;> rfl
  · rw [if_neg hother, Option.or_none, List.getElem?_set_ne hother]

/-- Fields can be written into a table if their keys stand for its inputs. -/
theorem placeFields_eq_ok_iff :
    entries.foldlM (placeField path) table = .ok written ↔
      KeysBelow entries table.length ∧ written = overwritten entries table := by
  induction entries generalizing table with
  | nil =>
    rw [List.foldlM_nil, overwritten_nil]
    constructor
    · intro h
      exact ⟨by simp [KeysBelow], (Except.ok.inj h).symm⟩
    · rintro ⟨-, rfl⟩
      rfl
  | cons entry entries ih =>
    rw [List.foldlM_cons, bind_eq_ok_iff, KeysBelow, List.forall_mem_cons]
    constructor
    · rintro ⟨next, hfield, hrest⟩
      rcases placeField_eq_ok_iff.1 hfield with ⟨input, hrange, hkey, rfl⟩
      rcases ih.1 hrest with ⟨hkeys, rfl⟩
      rw [List.length_set] at hkeys
      exact ⟨⟨⟨input, hrange, hkey⟩, hkeys⟩, (overwritten_cons hkey).symm⟩
    · rintro ⟨⟨⟨input, hrange, hkey⟩, hkeys⟩, rfl⟩
      refine ⟨_, placeField_eq_ok_iff.2 ⟨input, hrange, hkey, rfl⟩, ih.2 ⟨?_, ?_⟩⟩
      · rw [List.length_set]
        exact hkeys
      · exact overwritten_cons hkey

end Writing

/-! ## The table of fields -/

/-- A list of something for each input below a number. -/
theorem getElem?_map_range {α : Type} (f : Nat → α) (count input : Nat) :
    ((List.range count).map f)[input]? = if input < count then some (f input) else none := by
  rw [List.getElem?_map]
  split
  · next h => rw [List.getElem?_range h, Option.map_some]
  · rw [List.getElem?_eq_none (by rw [List.length_range]; omega), Option.map_none]

/-- The entry that fields give an input. -/
def entryAt (entries : Fields) (input : Nat) : PlacementEntry :=
  ((lastValue? entries input).map ofValue).getD .unmapped

/-- The table that fields stand for, if it has a number of inputs. -/
def tableOf (entries : Fields) (count : Nat) : List PlacementEntry :=
  (List.range count).map (entryAt entries)

@[simp]
theorem length_tableOf (entries : Fields) (count : Nat) :
    (tableOf entries count).length = count := by
  rw [tableOf, List.length_map, List.length_range]

theorem getElem?_tableOf (entries : Fields) (count input : Nat) :
    (tableOf entries count)[input]? =
      if input < count then some (entryAt entries input) else none :=
  getElem?_map_range (entryAt entries) count input

theorem overwritten_replicate (entries : Fields) (count : Nat) :
    overwritten entries (List.replicate count .unmapped) = tableOf entries count := by
  apply List.ext_getElem?
  intro input
  rw [overwritten, List.getElem?_mapIdx, List.getElem?_replicate, getElem?_tableOf]
  split <;> rfl

/-- Fields stand for a table if there is room for it and their keys stand for its inputs. -/
theorem ofFields_eq_ok_iff [Memory] {path : String} {doc : Value} {entries : Fields}
    {table : List PlacementEntry} :
    ofFields path doc entries = .ok table ↔
      ∃ count, inputCount doc entries = .ok count ∧ Capacity.demand [count] = .ok () ∧
        KeysBelow entries count.toNat ∧ table = tableOf entries count.toNat := by
  unfold ofFields unmappedEntries
  rw [bind_eq_ok_iff]
  constructor
  · rintro ⟨count, hcount, h⟩
    rcases bind_eq_ok_iff.1 h with ⟨blank, hblank, hfields⟩
    rcases bind_eq_ok_iff.1 hblank with ⟨_, hroom, hblank⟩
    cases hblank
    rcases placeFields_eq_ok_iff.1 hfields with ⟨hkeys, rfl⟩
    rw [List.length_replicate] at hkeys
    exact ⟨count, hcount, hroom, hkeys, overwritten_replicate entries count.toNat⟩
  · rintro ⟨count, hcount, hroom, hkeys, rfl⟩
    refine ⟨count, hcount, ?_⟩
    rw [hroom]
    apply placeFields_eq_ok_iff.2
    rw [List.length_replicate, overwritten_replicate]
    exact ⟨hkeys, rfl⟩

/-! ## Placements that are loaded -/

/-- A value without a null. -/
def nonNull : Value → Bool
  | .scalar .null => false
  | _ => true

/-- A table has the value of a field of an input: no bit for a null, and else the number itself. -/
inductive Keeps (t : Placement) (input : Nat) : Value → Prop
  | unmapped (h : t.get input = .ok none) : Keeps t input .null
  | slot {place : Number} (h : t.get input = .ok (some place)) :
      Keeps t input (.scalar (.number place))

/-- A table has at most one value for an input. -/
theorem Keeps.unique {t : Placement} {input : Nat} {v w : Value} (hv : t.Keeps input v)
    (hw : t.Keeps input w) : v = w := by
  cases hv with
  | unmapped hnone =>
    cases hw with
    | unmapped _ => rfl
    | slot hsome =>
      rw [hnone] at hsome
      cases hsome
  | slot hsome =>
    cases hw with
    | unmapped hnone =>
      rw [hnone] at hsome
      cases hsome
    | slot hother =>
      rw [hsome] at hother
      cases hother
      rfl

/-- An entry that is accepted is a null or a number. -/
theorem ofValue_cases {v : Value} (h : ofValue v ≠ .foreign) :
    v = .null ∨ ∃ place, v = .scalar (.number place) := by
  unfold ofValue at h
  split at h
  · exact Or.inl rfl
  · exact Or.inr ⟨_, rfl⟩
  · exact absurd rfl h

/-- The last values of the inputs below a number. -/
def lastValues (entries : Fields) (count : Nat) : List (Option Value) :=
  (List.range count).map (lastValue? entries)

theorem getElem?_lastValues (entries : Fields) (count input : Nat) :
    (lastValues entries count)[input]? =
      if input < count then some (lastValue? entries input) else none :=
  getElem?_map_range (lastValue? entries) count input

section Accepted

variable {entries : Fields} {count : Nat} {instLen nInsts : Int} {t : Placement}

/-- What the table of fields has for an input. -/
theorem get_of_tableOf (h : ofEntries (tableOf entries count) instLen nInsts = .ok t) {input : Nat}
    (hinput : input < count) : t.get input = .ok (entryAt entries input).place? := by
  have hlength : t.length = count := by rw [length_of_ofEntries h, length_tableOf]
  rw [get_of_mem ⟨by omega, by omega⟩, lookup, if_neg (by omega), slots_of_ofEntries h,
    List.getElem?_map, Int.toNat_natCast, getElem?_tableOf, if_pos hinput]
  rfl

/-- An accepted table has the last value of every input with a field. -/
theorem keeps_lastValue? (h : ofEntries (tableOf entries count) instLen nInsts = .ok t)
    {input : Nat} {v : Value} (hinput : input < count)
    (hlast : lastValue? entries input = some v) : t.Keeps input v := by
  have hentry : entryAt entries input = ofValue v := by
    rw [entryAt, hlast]
    rfl
  have hforeign : ofValue v ≠ .foreign := by
    rcases checkFrom_of_ofEntries h with ⟨-, -, hcheck, -⟩
    intro hv
    apply (checkFrom_eq_ok_iff.1 hcheck).1
    rw [← hv, ← hentry]
    apply List.mem_of_getElem?
    rw [getElem?_tableOf, if_pos hinput]
  have hget := get_of_tableOf h hinput
  rw [hentry] at hget
  rcases ofValue_cases hforeign with rfl | ⟨place, rfl⟩
  · exact .unmapped hget
  · exact .slot hget

/-- The inputs with a bit are those whose last field has no null. -/
theorem numMapped_of_tableOf (h : ofEntries (tableOf entries count) instLen nInsts = .ok t) :
    t.numMapped = (lastValues entries count).countP (·.any nonNull) := by
  rw [numMapped, slots_of_ofEntries h, tableOf, lastValues, List.map_map, List.countP_map,
    List.countP_map]
  apply List.countP_congr
  intro input hinput
  have hmem : input < count := List.mem_range.1 hinput
  cases hlast : lastValue? entries input with
  | none => simp [entryAt, hlast, place?]
  | some v =>
    cases keeps_lastValue? h hmem hlast with
    | unmapped _ => simp [entryAt, hlast, ofValue, Value.null, place?, nonNull]
    | slot _ => simp [entryAt, hlast, ofValue, place?, nonNull]

end Accepted

/-- Fields of pairwise different inputs are all last ones. -/
theorem lastValue?_of_distinct {entries : Fields}
    (h : entries.Pairwise fun a b => Value.scalarToInt a.1 ≠ Value.scalarToInt b.1) {input : Nat}
    {key : Scalar} {v : Value} (hentry : (key, v) ∈ entries)
    (hkey : Value.scalarToInt key = .ok (input : Int)) : lastValue? entries input = some v := by
  induction entries with
  | nil => cases hentry
  | cons entry entries ih =>
    rcases List.pairwise_cons.1 h with ⟨hfirst, hrest⟩
    rw [lastValue?_cons]
    rcases List.mem_cons.1 hentry with rfl | hlater
    · rw [lastValue?_of_apart hfirst hkey, if_pos hkey]
      rfl
    · rw [ih hrest hlater]
      rfl

/-- A field in front of fields of other inputs gives its own input a value. -/
theorem lastValues_cons {entry : Scalar × Value} {entries : Fields} {count input : Nat}
    (hkey : Value.scalarToInt entry.1 = .ok (input : Int))
    (hnone : lastValue? entries input = none) :
    lastValues (entry :: entries) count = (lastValues entries count).set input (some entry.2) := by
  apply List.ext_getElem?
  intro other
  rw [List.getElem?_set, getElem?_lastValues, getElem?_lastValues, lastValue?_cons_of_key hkey]
  by_cases hother : input = other
  · subst hother
    rw [if_pos rfl, if_pos rfl, hnone, lastValues, List.length_map, List.length_range]
    rfl
  · rw [if_neg hother, if_neg hother, Option.or_none]

/-- Of fields of pairwise different inputs every field without a null gives a value to an input of
its own. -/
theorem countP_lastValues_of_distinct {entries : Fields} {count : Nat}
    (h : entries.Pairwise fun a b => Value.scalarToInt a.1 ≠ Value.scalarToInt b.1)
    (hkeys : KeysBelow entries count) :
    (lastValues entries count).countP (·.any nonNull) =
      entries.countP fun entry => nonNull entry.2 := by
  induction entries with
  | nil =>
    rw [List.countP_nil, List.countP_eq_zero]
    intro last hlast
    rcases List.mem_map.1 hlast with ⟨input, -, rfl⟩
    simp
  | cons entry entries ih =>
    rcases List.pairwise_cons.1 h with ⟨hfirst, hrest⟩
    rcases List.forall_mem_cons.1 hkeys with ⟨⟨input, hinput, hkey⟩, hkeys⟩
    have hnone := lastValue?_of_apart hfirst hkey
    have hbound : input < (lastValues entries count).length := by
      rwa [lastValues, List.length_map, List.length_range]
    have hold : (lastValues entries count)[input] = none := by
      apply Option.some.inj
      rw [← List.getElem?_eq_getElem hbound, getElem?_lastValues, if_pos hinput, hnone]
    rw [lastValues_cons hkey hnone, List.countP_set hbound, hold, ih hrest hkeys, List.countP_cons]
    rfl

/-- What a placement has of the fields that it was loaded from. -/
structure KeepsLast (entries : Fields) (t : Placement) : Prop where
  /-- The keys stand for inputs of the table. -/
  keysBelow : KeysBelow entries t.length
  /-- The table has the last value of every input with a field. -/
  last_kept : ∀ {input v}, lastValue? entries input = some v → t.Keeps input v
  others_unmapped : ∀ {input}, input < t.length → lastValue? entries input = none →
    t.get input = .ok none
  /-- The inputs with a bit are those whose last field has no null. -/
  numMapped_eq : t.numMapped = (lastValues entries t.length).countP (·.any nonNull)
  /-- No field is lost exactly if the fields of one input have one value. -/
  keeps_all_iff : (∀ {key v} {input : Nat}, (key, v) ∈ entries →
      Value.scalarToInt key = .ok (input : Int) → t.Keeps input v) ↔
    ∀ {key other v w} {input : Nat}, (key, v) ∈ entries → (other, w) ∈ entries →
      Value.scalarToInt key = .ok (input : Int) → Value.scalarToInt other = .ok (input : Int) →
        v = w
  /-- That is so for fields of different inputs; as many inputs have a bit as fields no null. -/
  of_distinct : (entries.Pairwise fun a b => Value.scalarToInt a.1 ≠ Value.scalarToInt b.1) →
    (∀ {key v}, (key, v) ∈ entries → ∃ input : Nat,
        Value.scalarToInt key = .ok (input : Int) ∧ t.Keeps input v) ∧
      t.numMapped = entries.countP fun entry => nonNull entry.2

/-- A table of accepted fields has the last field of every input and no other. -/
theorem keepsLast_of_tableOf {entries : Fields} {count : Nat} {instLen nInsts : Int}
    {t : Placement} (h : ofEntries (tableOf entries count) instLen nInsts = .ok t)
    (hkeys : KeysBelow entries count) : KeepsLast entries t := by
  have hlength : t.length = count := by rw [length_of_ofEntries h, length_tableOf]
  have hinput : ∀ {key v} {input : Nat}, (key, v) ∈ entries →
      Value.scalarToInt key = .ok (input : Int) → input < count := by
    intro key v input hentry hkey
    rcases hkeys _ hentry with ⟨other, hother, hsame⟩
    rwa [input_unique hkey hsame]
  have hlast : ∀ {input v}, lastValue? entries input = some v → t.Keeps input v := by
    intro input v hv
    rcases exists_of_lastValue? hv with ⟨key, hentry, hkey⟩
    exact keeps_lastValue? h (hinput hentry hkey) hv
  have hmapped : t.numMapped = (lastValues entries t.length).countP (·.any nonNull) := by
    rw [numMapped_of_tableOf h, hlength]
  constructor
  case keysBelow => rwa [hlength]
  case last_kept => exact hlast
  case others_unmapped =>
    intro input hbelow hnone
    rw [get_of_tableOf h (hlength ▸ hbelow), entryAt, hnone]
    rfl
  case numMapped_eq => exact hmapped
  case keeps_all_iff =>
    constructor
    · intro hall key other v w input hv hw hkey hother
      exact (hall hv hkey).unique (hall hw hother)
    · intro hone key v input hentry hkey
      rcases exists_lastValue? hentry hkey with ⟨w, hw⟩
      rcases exists_of_lastValue? hw with ⟨other, hother, heq⟩
      rw [hone hentry hother hkey heq]
      exact hlast hw
  case of_distinct =>
    intro hdistinct
    constructor
    · intro key v hentry
      rcases hkeys _ hentry with ⟨input, -, hkey⟩
      exact ⟨input, hkey, hlast (lastValue?_of_distinct hdistinct hentry hkey)⟩
    · rw [hmapped, countP_lastValues_of_distinct hdistinct (hlength ▸ hkeys)]

/-- A placement is loaded from the document in its file. -/
theorem load_of_document [Memory] {files : FileTree} {path : String} {doc : Value}
    (hdoc : files.document (Path.tidy path) = .ok doc) (instLen nInsts : Int) :
    load files path instLen nInsts = ofDocument path doc instLen nInsts := by
  unfold load
  rw [FileTree.holds_of_document hdoc, hdoc]
  rfl

/-- Fields stand for the placement of their table. -/
theorem ofDocument_fields [Memory] {path : String} {doc : Value} {entries : Fields}
    (hentries : doc.field "placement" = .ok (.fields entries)) (instLen nInsts : Int) :
    ofDocument path doc instLen nInsts =
      (ofFields path doc entries).bind fun table => ofEntries table instLen nInsts := by
  unfold ofDocument
  rw [hentries]
  rfl

/-- A placement that was loaded from fields has the last field of every input and no other. -/
theorem load_keeps_last_fields [Memory] {files : FileTree} {path : String} {doc : Value}
    {entries : Fields} {instLen nInsts : Int} {t : Placement}
    (hdoc : files.document (Path.tidy path) = .ok doc)
    (hentries : doc.field "placement" = .ok (.fields entries))
    (hload : load files path instLen nInsts = .ok t) : KeepsLast entries t := by
  rw [load_of_document hdoc, ofDocument_fields hentries] at hload
  rcases bind_eq_ok_iff.1 hload with ⟨table, htable, haccepted⟩
  rcases ofFields_eq_ok_iff.1 htable with ⟨count, -, -, hkeys, rfl⟩
  exact keepsLast_of_tableOf haccepted hkeys

/-- Two fields of one input, under keys of different kinds. -/
def collidingFiles : FileTree where
  here := []
  files := [(["imem.yml"], "placement: \x7b2: 0, '2': 1\x7d")]

/-- The two fields as they are read. -/
def collidingFields : Fields := [(.number (.whole 2), .whole 0), (.text "2", .whole 1)]

theorem document_collidingFiles :
    collidingFiles.document (Path.tidy "imem.yml") =
      .ok (.fields [(.text "placement", .fields collidingFields)]) := by
  decide +kernel

/-- The placement of the two fields is accepted. -/
theorem load_collidingFiles :
    load collidingFiles "imem.yml" 2 1 = .ok ⟨2, 1, [none, none, some (.whole 1)]⟩ := by
  rw [load_of_document document_collidingFiles]
  decide +kernel

/-- The table has the second of the two fields. -/
theorem load_keeps_last_fields_sample :
    (collidingFiles.document (Path.tidy "imem.yml") =
        .ok (.fields [(.text "placement", .fields collidingFields)]) ∧
      (Value.fields [(.text "placement", .fields collidingFields)]).field "placement" =
        .ok (.fields collidingFields) ∧
      load collidingFiles "imem.yml" 2 1 = .ok ⟨2, 1, [none, none, some (.whole 1)]⟩) ∧
    KeepsLast collidingFields ⟨2, 1, [none, none, some (.whole 1)]⟩ := by
  have hentries : (Value.fields [(.text "placement", .fields collidingFields)]).field "placement" =
      .ok (.fields collidingFields) := rfl
  exact ⟨⟨document_collidingFiles, hentries, load_collidingFiles⟩,
    load_keeps_last_fields document_collidingFiles hentries load_collidingFiles⟩

/-- The first of the two fields is lost, though the keys differ and both numbers are bits of the
memory: the placement is loaded, and one input has a bit. -/
theorem overruled_field_is_lost :
    ∃ t, collidingFiles.document (Path.tidy "imem.yml") =
        .ok (.fields [(.text "placement", .fields collidingFields)]) ∧
      collidingFields = [(.number (.whole 2), .whole 0), (.text "2", .whole 1)] ∧
      (Scalar.number (.whole 2)).same (.text "2") = false ∧
      Value.scalarToInt (.number (.whole 2)) = .ok 2 ∧ Value.scalarToInt (.text "2") = .ok 2 ∧
      load collidingFiles "imem.yml" 2 1 = .ok t ∧ t.get 2 = .ok (some (.whole 1)) ∧
      ¬t.Keeps 2 (.whole 0) ∧
      t.numMapped ≠ collidingFields.countP fun entry => nonNull entry.2 := by
  refine ⟨⟨2, 1, [none, none, some (.whole 1)]⟩, document_collidingFiles, rfl, rfl, rfl,
    by decide +kernel, load_collidingFiles, rfl, ?_, by decide⟩
  intro hkeeps
  cases hkeeps with
  | slot hget =>
    have hsecond : Placement.get ⟨2, 1, [none, none, some (.whole 1)]⟩ 2 =
        .ok (some (.whole 1)) := rfl
    have hbits := hsecond.symm.trans hget
    simp at hbits

end Placement
end ImemReplay
