import ImemReplay.Assignment

/-!
# Ledger of decoded programs

The ledger counts the reports that were written, and keeps an entry per program and a row per
assignment, each with the number of its report. It can be dumped as a JSON object with one
member `programs`, and as a table of comma separated values. A dump with an integer that cannot be
written ends in front of it: in the object, what leads to the integer in a list goes out together
with it, and a key goes out before; in the table a row goes out as a whole.

Main results:

- Theorem `count_numbered`: taking a number advances the counter by one.
- Theorem `entries_numbered` and theorem `rows_numbered`: it touches nothing else.
- Definitions `json` and `table`: the passages of the dumps.
-/

namespace ImemReplay

/-- A program in the ledger. -/
structure LedgerEntry where
  /-- The number of the report. -/
  seq : Nat
  startFrame : Int
  lits : List Int
  blockingClause : List Int
deriving DecidableEq, Repr

/-- An assignment in the ledger. -/
structure LedgerRow where
  /-- The number of the report. -/
  seq : Nat
  assignment : Assignment
deriving DecidableEq, Repr

/-- What was reported so far. -/
structure Ledger where
  /-- The number of the last report. -/
  count : Nat := 0
  entries : List LedgerEntry := []
  rows : List LedgerRow := []
deriving DecidableEq, Repr

namespace Ledger

/-- Takes the next number. -/
def numbered (ledger : Ledger) : Ledger :=
  { ledger with count := ledger.count + 1 }

@[simp]
theorem count_numbered (ledger : Ledger) : ledger.numbered.count = ledger.count + 1 :=
  rfl

@[simp]
theorem entries_numbered (ledger : Ledger) : ledger.numbered.entries = ledger.entries :=
  rfl

@[simp]
theorem rows_numbered (ledger : Ledger) : ledger.numbered.rows = ledger.rows :=
  rfl

/-- Adds a program and its clause under the number of the last report. -/
def addEntry (ledger : Ledger) (p : Program) (clause : List Int) : Ledger :=
  { ledger with
    entries := ledger.entries ++ [⟨ledger.count, p.startFrame, p.lits, clause⟩] }

/-- Adds assignments under the number of the last report. -/
def addRows (ledger : Ledger) (assignments : List Assignment) : Ledger :=
  { ledger with rows := ledger.rows ++ assignments.map fun a => ⟨ledger.count, a⟩ }

/-! ## The JSON dump -/

/-- The blanks in front of a line at a depth of nesting. -/
def indent (depth : Nat) : String := String.ofList (List.replicate (2 * depth) ' ')

/-- Puts a text in front of passages, to go out together with the first one. -/
def behind (text : String) : List Passage → List Passage
  | [] => [{ text }]
  | p :: passages => { p with text := text ++ p.text } :: passages

/-- Items between brackets, one a line and one level deeper; without items the brackets touch. -/
def nested (opening closing : String) (depth : Nat) : List (List Passage) → List Passage
  | [] => [{ text := opening ++ closing }]
  | item :: items =>
    behind (opening ++ "\n" ++ indent (depth + 1)) item ++
      items.flatMap (behind (",\n" ++ indent (depth + 1))) ++
      [{ text := "\n" ++ indent depth ++ closing }]

/-- A number. -/
def numberJson (number : Int) : List Passage := [{ shown := [number], text := toString number }]

/-- A list of numbers at a depth of nesting. -/
def numbersJson (depth : Nat) (numbers : List Int) : List Passage :=
  nested "[" "]" depth (numbers.map numberJson)

/-- A member of an object. -/
def memberJson (key : String) (value : List Passage) : List Passage :=
  { text := "\"" ++ key ++ "\": " } :: value

/-- A program of the ledger. -/
def entryJson (entry : LedgerEntry) : List Passage :=
  nested "\x7b" "\x7d" 2
    [memberJson "seq" [{ text := toString entry.seq }],
      memberJson "start_frame" (numberJson entry.startFrame),
      memberJson "lits" (numbersJson 3 entry.lits),
      memberJson "blocking_clause" (numbersJson 3 entry.blockingClause)]

/-- The programs of the ledger as a JSON object. -/
def json (ledger : Ledger) : List Passage :=
  nested "\x7b" "\x7d" 0
    [memberJson "programs" (nested "[" "]" 1 (ledger.entries.map entryJson))]

/-- The text of the JSON object. -/
def toJson (ledger : Ledger) : String := Passage.textOf ledger.json

/-! ## The table dump -/

/-- The fields of a row. -/
def rowFields (row : LedgerRow) : List String :=
  [toString row.seq, toString row.assignment.literal, toString row.assignment.input,
    if row.assignment.value then "1" else "0", toString row.assignment.inst,
    toString row.assignment.bit]

/-- A line of the table. -/
def tableLine (fields : List String) : String := ",".intercalate fields ++ "\r\n"

/-- The line of a row. -/
def rowLine (row : LedgerRow) : Passage where
  shown := [row.assignment.literal, row.assignment.input, row.assignment.inst, row.assignment.bit]
  text := tableLine (rowFields row)

/-- The assignments of the ledger as a table with a heading. -/
def table (ledger : Ledger) : List Passage :=
  { text := tableLine ["seq", "lit", "pi", "value", "inst", "bit"] } :: ledger.rows.map rowLine

/-- The text of the table. -/
def toTable (ledger : Ledger) : String := Passage.textOf ledger.table

/-- The texts of both dumps, if all their integers can be written. There is no table if there is
nothing to put into it. -/
def dumps (ledger : Ledger) : Except Fault (String × Option String) := do
  Passage.ended ledger.json
  if ledger.rows.isEmpty then
    return (ledger.toJson, none)
  else
    Passage.ended ledger.table
    return (ledger.toJson, some ledger.toTable)

end Ledger
end ImemReplay
