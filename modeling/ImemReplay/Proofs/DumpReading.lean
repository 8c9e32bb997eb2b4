import ImemReplay.Proofs.CutTexts
import ImemReplay.Proofs.Decoding
import ImemReplay.Proofs.JsonReading
import ImemReplay.Session

/-!
# Dumps read back

The dump of the entries is an object of JSON with all entries under one key, and the table of the
rows has a heading and a line for every row.  A reader of JSON, and a reader who cuts the table into
lines and the lines at commas, find what the ledger holds: all numbers as they are, and a list
without literals as an empty list.  A ledger with a number that cannot be written is not dumped.

Main results:

- Theorem `readsAs_entryJson`: an entry reads as its document.
- Theorem `read?_toJson`: the dump reads as the entries of the ledger.
- Theorem `readTable?_toTable`: the table reads as its heading and the rows of the ledger.
- Theorem `writable_json` and theorem `writable_table`: when the dumps can be written.
- Theorem `dump_readBack`: what is dumped in any state is read back, and in which states there is a
  dump.
- Theorem `unwritable_startFrame_not_dumped`: a state without one.
-/

namespace ImemReplay

/-! ## The dump of the entries -/

/-- The members of an entry. -/
def LedgerEntry.members (entry : LedgerEntry) : List (String × Value) :=
  [("seq", .whole entry.seq), ("start_frame", .whole entry.startFrame),
    ("lits", .list (entry.lits.map .whole)),
    ("blocking_clause", .list (entry.blockingClause.map .whole))]

/-- The document of an entry. -/
def LedgerEntry.document (entry : LedgerEntry) : Value := Json.object entry.members

/-- The document of a ledger: all entries under one key. -/
def Ledger.document (ledger : Ledger) : Value :=
  Json.object [("programs", .list (ledger.entries.map LedgerEntry.document))]

namespace Ledger

/-- A number reads as it is. -/
theorem readsAs_numberJson (number : Int) :
    Json.ReadsAs (Passage.textOf (numberJson number)) (.whole number) := by
  have htext : Passage.textOf (numberJson number) = toString number := Passage.textOf_singleton _
  rw [htext]
  exact Json.readsAs_toString number

/-- Numbers between brackets read as their list. -/
theorem readsAs_numbersJson (depth : Nat) (numbers : List Int) :
    Json.ReadsAs (Passage.textOf (numbersJson depth numbers)) (.list (numbers.map .whole)) :=
  Json.readsAs_list depth readsAs_numberJson numbers

/-- An entry reads as its document. -/
theorem readsAs_entryJson (entry : LedgerEntry) :
    Json.ReadsAs (Passage.textOf (entryJson entry)) entry.document := by
  have hseq := readsAs_numberJson entry.seq
  have hstart := readsAs_numberJson entry.startFrame
  have hlits := readsAs_numbersJson 3 entry.lits
  have hclause := readsAs_numbersJson 3 entry.blockingClause
  apply Json.readsAs_object 2
  intro levels
  exact .cons (Json.readsItem_member levels rfl hseq)
    (.cons (Json.readsItem_member levels rfl hstart)
      (.cons (Json.readsItem_member levels rfl hlits)
        (.cons (Json.readsItem_member levels rfl hclause) .nil)))

/-- The dump reads as the document of the ledger. -/
theorem read?_toJson (ledger : Ledger) : Json.read? ledger.toJson = some ledger.document := by
  have hentries : Json.ReadsAs
      (Passage.textOf (nested "[" "]" 1 (ledger.entries.map entryJson)))
      (.list (ledger.entries.map LedgerEntry.document)) :=
    Json.readsAs_list 1 readsAs_entryJson ledger.entries
  apply Json.read?_object
  exact .cons (Json.readsItem_member [] rfl hentries) .nil

end Ledger

/-! ## Lines of a table -/

namespace Text

/-- The pieces of a text between the line ends of a table. -/
def pieces : List Char → List (List Char)
  | [] => [[]]
  | '\r' :: '\n' :: cs => [] :: pieces cs
  | c :: cs => (pieces cs).modifyHead (c :: ·)

/-- The lines of a table, each in front of its line end, with nothing behind the last one. -/
def tableLines? (text : String) : Option (List String) :=
  if (pieces text.toList).getLast? = some [] then
    some ((pieces text.toList).dropLast.map String.ofList)
  else none

/-- The first line end ends the first piece. -/
theorem pieces_append {line : List Char} (h : '\r' ∉ line) (cs : List Char) :
    pieces (line ++ '\r' :: '\n' :: cs) = line :: pieces cs := by
  induction line with
  | nil => rfl
  | cons c line ih =>
    rw [List.mem_cons, not_or] at h
    rw [List.cons_append, pieces, ih h.2, List.modifyHead_cons]
    rintro rest rfl
    exact absurd rfl h.1

/-- Lines with a line end behind each of them are found again. -/
theorem tableLines?_join {lines : List String} (h : ∀ line ∈ lines, '\r' ∉ line.toList) :
    tableLines? (String.join (lines.map (· ++ "\r\n"))) = some lines := by
  have hpieces : pieces (String.join (lines.map (· ++ "\r\n"))).toList =
      lines.map String.toList ++ [[]] := by
    induction lines with
    | nil => rfl
    | cons line lines ih =>
      rcases List.forall_mem_cons.1 h with ⟨hline, hlines⟩
      have hend : "\r\n".toList = ['\r', '\n'] := rfl
      rw [List.map_cons, String.join_cons, String.toList_append, String.toList_append, hend,
        List.append_assoc, List.cons_append, List.singleton_append, pieces_append hline, ih hlines,
        List.map_cons, List.cons_append]
  rw [tableLines?, hpieces, List.getLast?_concat, if_pos rfl, List.dropLast_concat,
    map_ofList_toList]

end Text

/-! ## The table of the rows -/

namespace LedgerRow

/-- The row with six numbers. -/
def ofNumbers? : List Int → Option LedgerRow
  | [seq, literal, input, value, inst, bit] =>
    if 0 ≤ seq ∧ (value = 0 ∨ value = 1) then
      some ⟨seq.toNat, literal, input, value = 1, inst, bit⟩
    else none
  | _ => none

/-- The row in the fields of a line. -/
def ofFields? (fields : List String) : Option LedgerRow :=
  (fields.mapM Text.integer?).bind ofNumbers?

/-- The fields of a row give the row. -/
theorem ofFields?_rowFields (row : LedgerRow) : ofFields? (Ledger.rowFields row) = some row := by
  rcases row with ⟨seq, literal, input, value, inst, bit⟩
  have hseq : Text.integer? (toString seq) = some (seq : Int) := Text.integer?_toString seq
  have hvalue : Text.integer? (if value then "1" else "0") = some value.toInt := by
    cases value <;> decide
  have hnumbers : ofNumbers? [seq, literal, input, value.toInt, inst, bit] =
      some ⟨seq, literal, input, value, inst, bit⟩ := by
    cases value <;> simp [ofNumbers?]
  simp only [ofFields?, Ledger.rowFields, List.mapM_cons, List.mapM_nil, hseq, hvalue,
    Text.integer?_toString]
  exact hnumbers

end LedgerRow

namespace Ledger

/-- The heading and the rows of a table. -/
def readTable? (table : String) : Option (List String × List LedgerRow) := do
  match ← Text.tableLines? table with
  | [] => none
  | heading :: lines =>
    let rows ← lines.mapM fun line => LedgerRow.ofFields? (Text.words ',' line)
    return (Text.words ',' heading, rows)

/-- The fields of a row hold digits and signs. -/
theorem not_mem_rowFields {c : Char} (h : Text.isIntegerChar c = false) (row : LedgerRow) :
    ∀ field ∈ rowFields row, c ∉ field.toList := by
  have hvalue : (if row.assignment.value then "1" else "0") =
      toString row.assignment.value.toInt := by
    cases row.assignment.value <;> decide
  intro field hfield
  simp only [rowFields, hvalue, List.mem_cons, List.not_mem_nil, or_false] at hfield
  rcases hfield with rfl | rfl | rfl | rfl | rfl | rfl
  · exact Text.not_mem_toString h row.seq
  all_goals exact Text.not_mem_toString h _

/-- The fields of the heading. -/
def heading : List String := ["seq", "lit", "pi", "value", "inst", "bit"]

/-- The line of a row gives the row. -/
theorem ofFields?_words (row : LedgerRow) :
    LedgerRow.ofFields? (Text.words ',' (",".intercalate (rowFields row))) = some row := by
  have hwords : Text.words ',' (",".intercalate (rowFields row)) = rowFields row :=
    Text.words_intercalate (List.cons_ne_nil _ _) (not_mem_rowFields rfl row)
  rw [hwords, LedgerRow.ofFields?_rowFields]

/-- The table reads as its heading and the rows of the ledger. -/
theorem readTable?_toTable (ledger : Ledger) :
    readTable? ledger.toTable = some (heading, ledger.rows) := by
  have htable : ledger.toTable = String.join
      ((",".intercalate heading ::
        ledger.rows.map fun row => ",".intercalate (rowFields row)).map (· ++ "\r\n")) := by
    rw [toTable, table, Passage.textOf, List.map_cons, List.map_cons, List.map_map, List.map_map]
    rfl
  have hreturn : ∀ line ∈ ",".intercalate heading ::
      ledger.rows.map fun row => ",".intercalate (rowFields row), '\r' ∉ line.toList := by
    rw [List.forall_mem_cons]
    refine ⟨Text.not_mem_intercalate (by decide) (by decide), ?_⟩
    intro line hline
    rcases List.mem_map.1 hline with ⟨row, -, rfl⟩
    exact Text.not_mem_intercalate (by decide) (not_mem_rowFields rfl row)
  have hheading : Text.words ',' (",".intercalate heading) = heading :=
    Text.words_intercalate (by decide) (by decide)
  have hrows : (ledger.rows.map fun row => ",".intercalate (rowFields row)).mapM
      (fun line => LedgerRow.ofFields? (Text.words ',' line)) = some ledger.rows :=
    Text.mapM_map_of_read fun row _ => ofFields?_words row
  rw [htable, readTable?, Text.tableLines?_join hreturn]
  simp only [Option.bind_eq_bind, Option.bind_some, hrows, hheading]
  rfl

end Ledger

/-! ## Numbers that can be written -/

/-- The numbers of an assignment can be written. -/
structure Assignment.Writable (row : Assignment) : Prop where
  literal : Text.isWritable row.literal = true
  input : Text.isWritable row.input = true
  inst : Text.isWritable row.inst = true
  bit : Text.isWritable row.bit = true

/-- The numbers of an entry can be written.  Its own number counts reports. -/
structure LedgerEntry.Writable (entry : LedgerEntry) : Prop where
  startFrame : Text.isWritable entry.startFrame = true
  lits : ∀ l ∈ entry.lits, Text.isWritable l = true
  blockingClause : ∀ l ∈ entry.blockingClause, Text.isWritable l = true

/-- The numbers of a ledger can be written. -/
structure Ledger.Writable (ledger : Ledger) : Prop where
  entries : ∀ entry ∈ ledger.entries, entry.Writable
  rows : ∀ row ∈ ledger.rows, row.assignment.Writable

namespace Ledger

theorem writable_behind {text : String} {passages : List Passage} :
    Passage.Writable (behind text passages) ↔ Passage.Writable passages := by
  cases passages with
  | nil => simp [behind, Passage.isWritable]
  | cons p passages => simp only [behind, Passage.writable_cons, Passage.isWritable]

/-- Items between brackets can be written if each of them can. -/
theorem writable_nested {opening closing : String} {depth : Nat} {items : List (List Passage)} :
    Passage.Writable (nested opening closing depth items) ↔
      ∀ item ∈ items, Passage.Writable item := by
  have hrest (separator : String) (rest : List (List Passage)) :
      Passage.Writable (rest.flatMap (behind separator)) ↔
        ∀ item ∈ rest, Passage.Writable item := by
    induction rest with
    | nil => simp
    | cons item rest ih =>
      rw [List.flatMap_cons, Passage.writable_append, writable_behind, ih, List.forall_mem_cons]
  cases items with
  | nil => simp [nested, Passage.isWritable]
  | cons item items =>
    have hclosing : Passage.isWritable { text := "\n" ++ indent depth ++ closing } = true := rfl
    rw [nested, Passage.writable_append, Passage.writable_append, writable_behind, hrest,
      Passage.writable_singleton, List.forall_mem_cons, and_iff_left hclosing]

theorem writable_numberJson {number : Int} :
    Passage.Writable (numberJson number) ↔ Text.isWritable number = true := by
  simp [numberJson, Passage.isWritable]

theorem writable_numbersJson {depth : Nat} {numbers : List Int} :
    Passage.Writable (numbersJson depth numbers) ↔ ∀ i ∈ numbers, Text.isWritable i = true := by
  simp only [numbersJson, writable_nested, List.forall_mem_map, writable_numberJson]

theorem writable_memberJson {key : String} {value : List Passage} :
    Passage.Writable (memberJson key value) ↔ Passage.Writable value := by
  rw [memberJson, Passage.writable_cons, and_iff_right]
  rfl

theorem writable_entryJson {entry : LedgerEntry} :
    Passage.Writable (entryJson entry) ↔ entry.Writable := by
  have hseq : Passage.Writable [{ text := toString entry.seq }] :=
    Passage.writable_singleton.2 rfl
  simp only [entryJson, writable_nested, List.forall_mem_cons, List.not_mem_nil, false_implies,
    implies_true, and_true, writable_memberJson, writable_numberJson, writable_numbersJson, hseq,
    true_and]
  exact ⟨fun h => ⟨h.1, h.2.1, h.2.2⟩, fun h => ⟨h.startFrame, h.lits, h.blockingClause⟩⟩

/-- The entries can be dumped if the numbers of each of them can be written. -/
theorem writable_json {ledger : Ledger} :
    Passage.Writable ledger.json ↔ ∀ entry ∈ ledger.entries, entry.Writable := by
  simp only [json, writable_nested, List.forall_mem_cons, List.not_mem_nil, false_implies,
    implies_true, and_true, writable_memberJson, List.forall_mem_map, writable_entryJson]

/-- The rows can be dumped if the numbers of each of them can be written. -/
theorem writable_table {ledger : Ledger} :
    Passage.Writable ledger.table ↔ ∀ row ∈ ledger.rows, row.assignment.Writable := by
  have hline (row : LedgerRow) : (rowLine row).isWritable = true ↔ row.assignment.Writable := by
    simp only [rowLine, Passage.isWritable, List.all_cons, List.all_nil, Bool.and_true,
      Bool.and_eq_true]
    exact ⟨fun h => ⟨h.1, h.2.1, h.2.2.1, h.2.2.2⟩,
      fun h => ⟨h.literal, h.input, h.inst, h.bit⟩⟩
  have hheading : Passage.isWritable
      { text := tableLine ["seq", "lit", "pi", "value", "inst", "bit"] } = true := rfl
  rw [table, Passage.writable_cons, and_iff_right hheading]
  simp only [Passage.Writable, List.forall_mem_map, hline]

/-- A ledger is dumped if its numbers can be written. -/
theorem dumps_of_writable {ledger : Ledger} (h : ledger.Writable) :
    ledger.dumps =
      .ok (ledger.toJson, if ledger.rows.isEmpty then none else some ledger.toTable) := by
  have hjson := Passage.ended_eq_ok_iff.2 (writable_json.2 h.entries)
  have htable := Passage.ended_eq_ok_iff.2 (writable_table.2 h.rows)
  rw [dumps, hjson, htable]
  split <;> rfl

theorem dumps_of_not_writable {ledger : Ledger} (h : ¬ledger.Writable) :
    ledger.dumps = .error .integerSize := by
  unfold dumps
  cases hjson : Passage.ended ledger.json with
  | error fault => rw [Passage.ended_eq_error hjson]; rfl
  | ok _ =>
    have hentries := writable_json.1 (Passage.ended_eq_ok_iff.1 hjson)
    have hrows : ledger.rows ≠ [] := by
      intro hnil
      refine h ⟨hentries, ?_⟩
      rw [hnil]
      exact fun row hrow => absurd hrow List.not_mem_nil
    cases htable : Passage.ended ledger.table with
    | error fault =>
      rw [Passage.ended_eq_error htable]
      simp [hrows, bind, Except.bind]
    | ok _ => exact absurd ⟨hentries, writable_table.1 (Passage.ended_eq_ok_iff.1 htable)⟩ h

end Ledger

namespace Decoder

/-- What is dumped in a state, dump by dump and in one step. -/
structure DumpsReadBack [Memory] (d : Decoder) (s : DecoderState) : Prop where
  /-- The object is written to its end exactly if the numbers of the entries can be. -/
  json_ended_iff : Passage.ended s.ledger.json = .ok () ↔
    ∀ entry ∈ s.ledger.entries, entry.Writable
  /-- It reads as the entries of the ledger then, whatever becomes of the table. -/
  json_readBack : Passage.ended s.ledger.json = .ok () →
    Json.read? (Passage.written s.ledger.json) = some s.ledger.document
  /-- The table is written to its end exactly if the numbers of the rows can be. -/
  table_ended_iff : Passage.ended s.ledger.table = .ok () ↔
    ∀ row ∈ s.ledger.rows, row.assignment.Writable
  /-- It reads as the rows of the ledger then, whatever becomes of the object. -/
  table_readBack : Passage.ended s.ledger.table = .ok () →
    Ledger.readTable? (Passage.written s.ledger.table) = some (Ledger.heading, s.ledger.rows)
  /-- If the numbers of the ledger can be written, one step has both dumps; there is a table exactly
  if the ledger has a row. -/
  of_writable : s.ledger.Writable → ∃ json table?,
    (d.step s .dump).result = .ok (.dumps json table?) ∧
      Json.read? json = some s.ledger.document ∧
      (table? = none ↔ s.ledger.rows = []) ∧
      ∀ table, table? = some table →
        Ledger.readTable? table = some (Ledger.heading, s.ledger.rows)
  /-- Otherwise it fails, and the fault is that of a number that cannot be written. -/
  of_not_writable : ¬s.ledger.Writable →
    (d.step s .dump).result = .error .integerSize

/-- What is dumped is read back, whatever steps led to the state. -/
theorem dump_readBack [Memory] (d : Decoder) (s : DecoderState) : d.DumpsReadBack s := by
  constructor
  case json_ended_iff => exact Passage.ended_eq_ok_iff.trans Ledger.writable_json
  case json_readBack =>
    intro hended
    rw [Passage.written_of_ended hended]
    exact s.ledger.read?_toJson
  case table_ended_iff => exact Passage.ended_eq_ok_iff.trans Ledger.writable_table
  case table_readBack =>
    intro hended
    rw [Passage.written_of_ended hended]
    exact s.ledger.readTable?_toTable
  case of_writable =>
    intro hwritable
    refine ⟨s.ledger.toJson, if s.ledger.rows.isEmpty then none else some s.ledger.toTable, ?_,
      s.ledger.read?_toJson, ?_, ?_⟩
    · simp only [step, stepFrom, Ledger.dumps_of_writable hwritable, Except.map]
    · cases hrows : s.ledger.rows <;> simp
    · intro table htable
      split at htable
      · cases htable
      · cases htable
        exact s.ledger.readTable?_toTable
  case of_not_writable =>
    intro hnot
    simp only [step, stepFrom, Ledger.dumps_of_not_writable hnot, Except.map]

/-- The state in which a program was entered whose start frame cannot be written. -/
def unwritableState : DecoderState :=
  (sample.step sample.start (.log {} ⟨Text.leastUnwritable, []⟩ true)).state

/-- The program was entered, and its entry is not dumped. -/
theorem unwritable_startFrame_not_dumped :
    Placement.ofIndexes [none, none, some 0, some 3, some 1] 2 2 = .ok sample.placement ∧
      unwritableState.ledger.entries = [⟨1, Text.leastUnwritable, [], []⟩] ∧
      (sample.step unwritableState .dump).result = .error .integerSize ∧
      Fault.integerSize.kind = .invalidValue := by
  have hentries : unwritableState.ledger.entries = [⟨1, Text.leastUnwritable, [], []⟩] := rfl
  refine ⟨rfl, hentries, ?_, rfl⟩
  apply (dump_readBack sample unwritableState).of_not_writable
  intro hwritable
  have hstart := (hwritable.entries ⟨1, Text.leastUnwritable, [], []⟩
    (hentries ▸ List.mem_singleton_self _)).startFrame
  rw [Text.isWritable_leastUnwritable] at hstart
  contradiction

end Decoder
end ImemReplay
