import ImemReplay.Fault

/-!
# Registers

A register table gives, for each register by its number, the instruction it belongs to, the
primary input it follows, and the number of its copy in the unrolled design. A register that no
instruction can address has no instruction.

Main results:

- Definition `ofColumns`: the table of three columns, checked register by register.
-/

namespace ImemReplay

/-- What is known of one register. -/
structure Register where
  /-- The instruction, if one can address the register. -/
  inst : Option Int
  /-- The primary input. -/
  pi : Int
  /-- The copy. -/
  copy : Int
deriving DecidableEq, Repr

/-- The registers by number. -/
structure RegisterTable where
  registers : List Register := []
deriving DecidableEq, Repr

namespace Register

/-- Refuses a register with a negative number; the instruction is looked at first, then the
input, then the copy. -/
def check (r : Register) (id : Nat) : Except Fault Unit :=
  match r.inst with
  | some inst => if inst < 0 then .error (.registerInstruction id inst) else checkRest
  | none => checkRest
where
  checkRest : Except Fault Unit :=
    if r.pi < 0 then .error (.registerInput id r.pi)
    else if r.copy < 0 then .error (.registerCopy id r.copy)
    else .ok ()

end Register

namespace RegisterTable

/-- Checks the registers from number `id` on. -/
def checkFrom (id : Nat) : List Register → Except Fault Unit
  | [] => .ok ()
  | r :: registers => do
    r.check id
    checkFrom (id + 1) registers

/-- The table of a list of registers. -/
def ofList (registers : List Register) : Except Fault RegisterTable := do
  checkFrom 0 registers
  return { registers }

/-- The table of three columns. -/
def ofColumns (inst : List (Option Int)) (pi copy : List Int) : Except Fault RegisterTable :=
  if inst.length = pi.length ∧ pi.length = copy.length then
    ofList ((inst.zip (pi.zip copy)).map fun row => ⟨row.1, row.2.1, row.2.2⟩)
  else
    .error (.registerSizes inst.length pi.length copy.length)

/-- The number of registers. -/
def length (t : RegisterTable) : Nat := t.registers.length

/-- A register of the table. -/
def get (t : RegisterTable) (id : Int) : Except Fault Register :=
  match (if id < 0 then none else t.registers[id.toNat]?) with
  | some r => .ok r
  | none => .error (.registerRange id)

end RegisterTable
end ImemReplay
