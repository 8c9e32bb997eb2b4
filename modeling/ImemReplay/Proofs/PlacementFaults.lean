import ImemReplay.Loading.Placement
import ImemReplay.Proofs.ContentFaults

/-!
# Faults of a placement

A placement is a list of entries or fields with entries.  A document without one of these, or with
a key out of range, has a defect, and it is refused with a fault that names the file.  The check of
the entries does not know the file, and neither does the reading of integers: they refuse a
placement with a fault of their own.

Main results:

- Theorem `flaw_of_checkFrom`: a table that is refused has an entry that does not fit.
- Theorem `ofFields_cases`: fields are refused, or they stand for a table of their entries.
- Theorem `refusal_of_ofDocument`: the faults of the placement in a document, each with the place
  that it comes from.
-/

namespace ImemReplay
namespace Placement

open PlacementEntry

/-- The document gives the value for the input: as the item of a list at its index, or under a key
that stands for it. -/
def Lists (doc : Value) (input : Nat) (v : Value) : Prop :=
  (∃ items, doc.field "placement" = .ok (.list items) ∧ items[input]? = some v) ∨
    ∃ entries key, doc.field "placement" = .ok (.fields entries) ∧ (key, v) ∈ entries ∧
      Value.scalarToInt key = .ok (input : Int)

/-- The number of inputs in the table of a document: that of the items, or the one that is declared
or inferred for fields. -/
inductive TableSize (doc : Value) : Int → Prop
  | items {items : List Value} (hitems : doc.field "placement" = .ok (.list items)) :
      TableSize doc items.length
  | fields {entries : Fields} {count : Int}
      (hentries : doc.field "placement" = .ok (.fields entries))
      (hcount : inputCount doc entries = .ok count) : TableSize doc count

/-- What is wrong with the form of a placement in a document, or with one of its keys. -/
inductive Defect (doc : Value) : Fault → Prop
  /-- There is no placement. -/
  | noPlacement {missing : Fault} (hmissing : doc.field "placement" = .error missing) :
      Defect doc .placementMissing
  /-- The placement is neither a list nor fields. -/
  | scalar {s : Scalar} (hscalar : doc.field "placement" = .ok (.scalar s)) :
      Defect doc .placementKind
  /-- A key is out of range. -/
  | keyRange {entries : Fields} {entry : Scalar × Value} {count input : Int} {key : String}
      (hentries : doc.field "placement" = .ok (.fields entries)) (hentry : entry ∈ entries)
      (hcount : inputCount doc entries = .ok count)
      (hkey : Value.scalarToInt entry.1 = .ok input) (hrange : ¬(0 ≤ input ∧ input < count))
      (hspelling : entry.1.spelling? = some key) : Defect doc (.placementKey key count.toNat)

/-- Why the placement of a document is refused. -/
inductive Refusal [Memory] (path : String) (doc : Value) (totalBits : Int) : Fault → Prop
  /-- A defect is reported with the file. -/
  | defect {cause : Fault} (hdefect : Defect doc cause)
      (hnames : (Fault.inFile path cause).Names path) :
      Refusal path doc totalBits (.inFile path cause)
  /-- The number of inputs is no integer. -/
  | count {v : Value} {fault : Fault} (hcount : doc.field "n_pis" = .ok v)
      (hfault : v.toInt = .error fault) : Refusal path doc totalBits fault
  /-- A key is no integer. -/
  | key {entries : Fields} {entry : Scalar × Value} {fault : Fault}
      (hentries : doc.field "placement" = .ok (.fields entries)) (hentry : entry ∈ entries)
      (hfault : Value.scalarToInt entry.1 = .error fault) : Refusal path doc totalBits fault
  /-- A key is out of range, and too long to be written. -/
  | spelling {entries : Fields} {entry : Scalar × Value} {count input : Int}
      (hentries : doc.field "placement" = .ok (.fields entries)) (hentry : entry ∈ entries)
      (hcount : inputCount doc entries = .ok count)
      (hkey : Value.scalarToInt entry.1 = .ok input) (hrange : ¬(0 ≤ input ∧ input < count))
      (hspelling : entry.1.spelling? = none) : Refusal path doc totalBits .integerSize
  /-- There is no room for the table of as many inputs. -/
  | room {size : Int} {fault : Fault} (hsize : TableSize doc size)
      (hfault : Capacity.demand [size] = .error fault) : Refusal path doc totalBits fault
  /-- What is given for an input is no number. -/
  | foreign {input : Nat} {v : Value} (hv : Lists doc input v) (hforeign : ofValue v = .foreign) :
      Refusal path doc totalBits .wrongType
  /-- The number of an input lies outside the memory. -/
  | range {input : Nat} {place : Number} (hv : Lists doc input (.scalar (.number place)))
      (hrange : place.within totalBits = false) :
      Refusal path doc totalBits (.slotRange input place totalBits)
  /-- An input has the number of an earlier one. -/
  | shared {input owner : Nat} {place other : Number} (howner : owner < input)
      (hv : Lists doc input (.scalar (.number place)))
      (hother : Lists doc owner (.scalar (.number other))) (hsame : other.same place = true) :
      Refusal path doc totalBits (.slotShared input owner place)

/-- A placement with a defect is refused with the file. -/
theorem Refusal.of_defect [Memory] {path : String} {doc : Value} {totalBits : Int} {cause : Fault}
    (h : Defect doc cause) : Refusal path doc totalBits (.inFile path cause) := by
  refine .defect h (Fault.names_inFile path ?_)
  cases h <;> rfl

/-- Why the check of a table refuses it. -/
inductive Flaw (totalBits : Int) (table : List PlacementEntry) : Fault → Prop
  /-- An entry is no number. -/
  | foreign {input : Nat} (hentry : table[input]? = some .foreign) :
      Flaw totalBits table .wrongType
  /-- A number lies outside the memory. -/
  | range {input : Nat} {place : Number} (hentry : table[input]? = some (.slot place))
      (hrange : place.within totalBits = false) :
      Flaw totalBits table (.slotRange input place totalBits)
  /-- A number is that of an earlier entry. -/
  | shared {input owner : Nat} {place other : Number} (howner : owner < input)
      (hentry : table[input]? = some (.slot place)) (hother : table[owner]? = some (.slot other))
      (hsame : other.same place = true) :
      Flaw totalBits table (.slotShared input owner place)

/-- A table that the check refuses has a flaw. The induction is on the entries that are left;
those that were checked stand in front, and what is taken belongs to them. -/
theorem flaw_of_checkFrom {totalBits : Int} {front entries : List PlacementEntry}
    {taken : List (Nat × Number)} {fault : Fault}
    (htaken : ∀ owner ∈ taken, front[owner.1]? = some (slot owner.2))
    (h : checkFrom totalBits front.length taken entries = .error fault) :
    Flaw totalBits (front ++ entries) fault := by
  induction entries generalizing front taken with
  | nil => cases h
  | cons entry entries ih =>
    have hentry : (front ++ entry :: entries)[front.length]? = some entry := by simp
    have hfront : ∀ {i : Nat} {e}, front[i]? = some e → (front ++ [entry])[i]? = some e := by
      intro i e hi
      rw [List.getElem?_append_left (List.getElem?_eq_some_iff.1 hi).1]
      exact hi
    have hlater : ∀ {seen}, (∀ owner ∈ seen, (front ++ [entry])[owner.1]? = some (slot owner.2)) →
        checkFrom totalBits (front.length + 1) seen entries = .error fault →
        Flaw totalBits (front ++ entry :: entries) fault := by
      intro seen hseen hrest
      have hlength : (front ++ [entry]).length = front.length + 1 := by simp
      rw [← hlength] at hrest
      simpa using ih hseen hrest
    cases entry with
    | unmapped => exact hlater (fun owner howner => hfront (htaken owner howner)) h
    | foreign =>
      cases h
      exact .foreign hentry
    | slot place =>
      rw [checkFrom] at h
      split at h
      · split at h
        · next owner hfind =>
          cases h
          have hplaced := htaken owner (List.mem_of_find?_eq_some hfind)
          have hbefore : owner.1 < front.length := (List.getElem?_eq_some_iff.1 hplaced).1
          have hsame := List.find?_some hfind
          refine .shared hbefore hentry ?_ hsame
          rw [List.getElem?_append_left hbefore]
          exact hplaced
        · refine hlater ?_ h
          intro owner howner
          rcases List.mem_cons.1 howner with rfl | hold
          · simp
          · exact hfront (htaken owner hold)
      · next hrange =>
        cases h
        exact .range hentry (by simpa using hrange)

/-- Every entry of a table is unmapped, or the document gives it for its input. -/
def Describes (doc : Value) (table : List PlacementEntry) : Prop :=
  ∀ {input : Nat} {entry}, table[input]? = some entry →
    entry = .unmapped ∨ ∃ v, Lists doc input v ∧ entry = ofValue v

/-- The numbers of a table are those of the document. -/
theorem Describes.lists {doc : Value} {table : List PlacementEntry} (htable : Describes doc table)
    {input : Nat} {place : Number} (h : table[input]? = some (slot place)) :
    Lists doc input (.scalar (.number place)) := by
  rcases htable h with hunmapped | ⟨v, hv, hentry⟩
  · cases hunmapped
  · unfold ofValue at hentry
    split at hentry <;> cases hentry
    exact hv

/-- The refusal of a table by its check. -/
theorem refusal_of_ofEntries [Memory] {path : String} {doc : Value} {instLen nInsts : Int}
    {table : List PlacementEntry} {fault : Fault} (hlen : 0 < instLen) (hinsts : 0 < nInsts)
    (htable : Describes doc table) (h : ofEntries table instLen nInsts = .error fault) :
    Refusal path doc (instLen * nInsts) fault := by
  unfold ofEntries at h
  rw [if_neg (by omega)] at h
  rcases bind_eq_error_iff.1 h with hcheck | ⟨-, -, hdone⟩
  · have hnone : ∀ owner ∈ ([] : List (Nat × Number)),
        ([] : List PlacementEntry)[owner.1]? = some (slot owner.2) := by
      simp
    have hflaw : Flaw (instLen * nInsts) table fault := flaw_of_checkFrom hnone hcheck
    cases hflaw with
    | foreign hentry =>
      rcases htable hentry with hunmapped | ⟨v, hv, hforeign⟩
      · cases hunmapped
      · exact .foreign hv hforeign.symm
    | range hentry hrange => exact .range (htable.lists hentry) hrange
    | shared howner hentry hother hsame =>
      exact .shared howner (htable.lists hentry) (htable.lists hother) hsame
  · cases hdone

/-- A number of inputs that is not known is no integer, or a key is none. -/
theorem refusal_of_inputCount [Memory] {path : String} {doc : Value} {entries : Fields}
    {totalBits : Int} {fault : Fault} (hentries : doc.field "placement" = .ok (.fields entries))
    (h : inputCount doc entries = .error fault) : Refusal path doc totalBits fault := by
  rcases bind_eq_error_iff.1 h with hmissing | ⟨v, hv, h⟩
  · exact absurd hmissing (Value.fieldD_ne_error hentries)
  split at h
  · rcases bind_eq_error_iff.1 h with hkeys | ⟨_, -, hdone⟩
    · rcases exists_of_mapM_error hkeys with ⟨entry, hentry, hfault⟩
      exact .key hentries hentry hfault
    · cases hdone
  · next hpresent =>
    rcases Value.fieldD_eq_ok hv with hfield | hnull
    · exact .count hfield h
    · exact absurd hnull hpresent

/-- A field that cannot be written into a table has a key that is no integer or out of range. -/
theorem refusal_of_placeField [Memory] {path : String} {doc : Value} {entries : Fields}
    {totalBits count : Int} {table : List PlacementEntry} {entry : Scalar × Value} {fault : Fault}
    (hentries : doc.field "placement" = .ok (.fields entries)) (hentry : entry ∈ entries)
    (hcount : inputCount doc entries = .ok count) (hlength : table.length = count.toNat)
    (h : placeField path table entry = .error fault) : Refusal path doc totalBits fault := by
  rcases bind_eq_error_iff.1 h with hkey | ⟨input, hkey, h⟩
  · exact .key hentries hentry hkey
  split at h
  · cases h
  · next hoff =>
    have hrange : ¬(0 ≤ input ∧ input < count) := by omega
    split at h
    · next key hspelling =>
      cases h
      rw [hlength]
      exact .of_defect (.keyRange hentries hentry hcount hkey hrange hspelling)
    · next hspelling =>
      cases h
      exact .spelling hentries hentry hcount hkey hrange hspelling

/-- A field is written into a table at its input. -/
theorem placeField_eq_ok {path : String} {table written : List PlacementEntry}
    {entry : Scalar × Value} (h : placeField path table entry = .ok written) :
    ∃ input : Nat, Value.scalarToInt entry.1 = .ok (input : Int) ∧
      written = table.set input (ofValue entry.2) := by
  rcases bind_eq_ok_iff.1 h with ⟨input, hkey, h⟩
  split at h
  · next hrange =>
    cases h
    refine ⟨input.toNat, ?_, rfl⟩
    rw [hkey, Int.toNat_of_nonneg hrange.1]
  · split at h <;> cases h

/-- A field that is written into a table stands for one of its entries. -/
theorem describes_of_placeField {path : String} {doc : Value} {entries : Fields}
    {table written : List PlacementEntry} {entry : Scalar × Value}
    (hentries : doc.field "placement" = .ok (.fields entries)) (hentry : entry ∈ entries)
    (htable : Describes doc table) (h : placeField path table entry = .ok written) :
    Describes doc written := by
  rcases placeField_eq_ok h with ⟨input, hkey, rfl⟩
  intro place other hother
  rw [List.getElem?_set] at hother
  split at hother
  · next hplace =>
    subst hplace
    split at hother
    · cases hother
      exact Or.inr ⟨entry.2, Or.inr ⟨entries, entry.1, hentries, hentry, hkey⟩, rfl⟩
    · cases hother
  · exact htable hother

/-- Fields are refused, or they are written into a table of values of the document. -/
theorem placeFields_cases [Memory] {path : String} {doc : Value} {entries rest : Fields}
    {totalBits count : Int} {table : List PlacementEntry}
    (hentries : doc.field "placement" = .ok (.fields entries))
    (hcount : inputCount doc entries = .ok count) (hrest : ∀ entry ∈ rest, entry ∈ entries)
    (hlength : table.length = count.toNat) (htable : Describes doc table) :
    (∃ fault, rest.foldlM (placeField path) table = .error fault ∧
        Refusal path doc totalBits fault) ∨
      ∃ written, rest.foldlM (placeField path) table = .ok written ∧ Describes doc written := by
  induction rest generalizing table with
  | nil => exact Or.inr ⟨table, rfl, htable⟩
  | cons entry rest ih =>
    rcases List.forall_mem_cons.1 hrest with ⟨hentry, hlater⟩
    rw [List.foldlM_cons]
    cases hplace : placeField path table entry with
    | error fault =>
      exact Or.inl ⟨fault, rfl, refusal_of_placeField hentries hentry hcount hlength hplace⟩
    | ok written =>
      have hkept : written.length = count.toNat := by
        rcases placeField_eq_ok hplace with ⟨input, -, rfl⟩
        rw [List.length_set, hlength]
      exact ih hlater hkept (describes_of_placeField hentries hentry htable hplace)

/-- The table without any mapped input is made unless there is no room for it. -/
theorem unmappedEntries_cases [Memory] (doc : Value) (count : Int) :
    (∃ fault, unmappedEntries count = .error fault ∧ Capacity.demand [count] = .error fault) ∨
      ∃ table, unmappedEntries count = .ok table ∧ table.length = count.toNat ∧
        Describes doc table := by
  unfold unmappedEntries
  cases hroom : Capacity.demand [count] with
  | error fault => exact Or.inl ⟨fault, rfl, rfl⟩
  | ok _ =>
    refine Or.inr ⟨_, rfl, List.length_replicate, ?_⟩
    · intro input entry hentry
      exact Or.inl (List.eq_of_mem_replicate (List.mem_of_getElem? hentry))

/-- Fields are refused, or they stand for a table of values of the document. -/
theorem ofFields_cases [Memory] (path : String) {doc : Value} {entries : Fields} (totalBits : Int)
    (hentries : doc.field "placement" = .ok (.fields entries)) :
    (∃ fault, ofFields path doc entries = .error fault ∧ Refusal path doc totalBits fault) ∨
      ∃ table, ofFields path doc entries = .ok table ∧ Describes doc table := by
  unfold ofFields
  cases hcount : inputCount doc entries with
  | error fault => exact Or.inl ⟨fault, rfl, refusal_of_inputCount hentries hcount⟩
  | ok count =>
    rcases unmappedEntries_cases doc count with
      ⟨fault, hfails, hroom⟩ | ⟨table, hmade, hlength, htable⟩
    · simp only [bind, Except.bind, hfails]
      exact Or.inl ⟨fault, rfl, .room (.fields hentries hcount) hroom⟩
    · simp only [bind, Except.bind, hmade]
      exact placeFields_cases hentries hcount (fun _ hentry => hentry) hlength htable

/-- The faults of the placement in a document. -/
theorem refusal_of_ofDocument [Memory] {path : String} {doc : Value} {instLen nInsts : Int}
    {fault : Fault} (hlen : 0 < instLen) (hinsts : 0 < nInsts)
    (h : ofDocument path doc instLen nInsts = .error fault) :
    Refusal path doc (instLen * nInsts) fault := by
  unfold ofDocument at h
  split at h
  · next missing hmissing =>
    cases h
    exact .of_defect (.noPlacement hmissing)
  · next items hitems =>
    rcases bind_eq_error_iff.1 h with hroom | ⟨table, htable, h⟩
    · rcases bind_eq_error_iff.1 hroom with hfault | ⟨_, -, hmade⟩
      · exact .room (.items hitems) hfault
      · cases hmade
    rcases bind_eq_ok_iff.1 htable with ⟨_, -, hmade⟩
    cases hmade
    refine refusal_of_ofEntries hlen hinsts ?_ h
    intro input entry hentry
    rw [List.getElem?_map, Option.map_eq_some_iff] at hentry
    rcases hentry with ⟨v, hv, rfl⟩
    exact Or.inr ⟨v, Or.inl ⟨items, hitems, hv⟩, rfl⟩
  · next entries hentries =>
    rcases ofFields_cases path (instLen * nInsts) hentries with
      ⟨other, hfails, hrefused⟩ | ⟨table, hmade, htable⟩
    · rw [hfails] at h
      cases h
      exact hrefused
    · rw [hmade] at h
      exact refusal_of_ofEntries hlen hinsts htable h
  · next s hscalar =>
    cases h
    exact .of_defect (.scalar hscalar)

end Placement
end ImemReplay
