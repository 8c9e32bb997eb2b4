import ImemReplay.Passage
import ImemReplay.Program
import ImemReplay.Registers
import ImemReplay.Rendering

/-!
# Assignments and addresses

A bit of the instruction memory has an address: the instruction it belongs to and its position in
the instruction. An assignment is a literal on a declared and placed input together with the
address of its bit. Assignments of a program can be listed by instruction.

Main results:

- Theorem `ofLits_append`: the assignments of two lists are those of each.
-/

namespace ImemReplay

namespace Placement

/-- The instruction of an input's bit. -/
def instructionOf (t : Placement) (input : Int) : Except Fault Number := do
  let place ← t.slotOf input
  match place.quotient? t.instLen with
  | some inst => return inst
  | none => throw .unbounded

/-- The position of an input's bit in its instruction. -/
def bitOf (t : Placement) (input : Int) : Except Fault Number := do
  let place ← t.slotOf input
  match place.remainder? t.instLen with
  | some bit => return bit
  | none => throw .unbounded

end Placement

/-- A literal with the value it gives and the address of the bit it gives it to. -/
structure Assignment where
  literal : Int
  input : Int
  /-- Whether the bit is set. -/
  value : Bool
  inst : Int
  bit : Int
deriving DecidableEq, Repr

namespace Assignment

/-- A coordinate of an address. -/
def coordinate (n : Number) : Except Fault Int :=
  match n.index? with
  | some index => .ok index
  | none => .error .wrongType

/-- The assignment of a literal, if its variable is a declared input and placed. -/
def ofLit? (t : Placement) (nPis : Int) (l : Int) : Except Fault (Option Assignment) := do
  if (← t.slotOfLiteral? nPis l).isNone then
    return none
  else
    let input ← Literal.var l
    let complement ← Literal.isComplement l
    let inst ← coordinate (← t.instructionOf input)
    let bit ← coordinate (← t.bitOf input)
    return some ⟨l, input, !complement, inst, bit⟩

/-- The assignments of the literals on declared and placed inputs, in order. -/
def ofLits (t : Placement) (nPis : Int) : List Int → Except Fault (List Assignment)
  | [] => .ok []
  | l :: lits => do
    let row ← ofLit? t nPis l
    let rows ← ofLits t nPis lits
    return row.toList ++ rows

theorem ofLits_append {t : Placement} {nPis : Int} {front back : List Int} :
    ofLits t nPis (front ++ back) = (do
      let first ← ofLits t nPis front
      let second ← ofLits t nPis back
      return first ++ second) := by
  induction front with
  | nil =>
    cases h : ofLits t nPis back <;> simp [ofLits, h, bind, Except.bind, pure, Except.pure]
  | cons l front ih =>
    simp only [List.cons_append, ofLits, ih, bind, Except.bind, pure, Except.pure]
    cases ofLit? t nPis l with
    | error fault => rfl
    | ok row =>
      cases ofLits t nPis front with
      | error fault => rfl
      | ok first =>
        cases ofLits t nPis back with
        | error fault => rfl
        | ok second => simp only [List.append_assoc]

/-- The instructions of assignments, each once, ascending. -/
def instructions (rows : List Assignment) : List Int :=
  (rows.map (·.inst)).eraseDups.mergeSort fun a b => a ≤ b

/-- The assignments of one instruction, higher bits first; those of one bit keep their order. -/
def ofInstruction (rows : List Assignment) (inst : Int) : List Assignment :=
  (rows.filter (·.inst = inst)).mergeSort fun a b => b.bit ≤ a.bit

/-- A number filled up with blanks on the left to four characters. -/
def padded (n : Int) : String :=
  let digits := toString n
  String.ofList (List.replicate (4 - digits.length) ' ') ++ digits

/-- The text of a bit with its value. -/
def bitText (row : Assignment) : String := s!"b{row.bit}=" ++ (if row.value then "1" else "0")

/-- The line of one instruction. -/
def line (rows : List Assignment) (inst : Int) : Passage where
  shown := inst :: (ofInstruction rows inst).map (·.bit)
  text := s!"  inst {padded inst}  " ++
    " ".intercalate ((ofInstruction rows inst).map bitText) ++ "\n"

/-- The first line of the listing of assignments. -/
def heading (startFrame : Int) (rows : List Assignment) : Passage where
  shown := [startFrame]
  text := s!"[EXTRACT] start_frame={startFrame} lits={rows.length}\n"

/-- The listing of a program's assignments by instruction. -/
def listing (startFrame : Int) (rows : List Assignment) : List Passage :=
  if rows.isEmpty then [{ text := "[EXTRACT] Empty program.\n" }]
  else heading startFrame rows :: (instructions rows).map (line rows)

end Assignment
end ImemReplay
