import ImemReplay.Number.Basic
import ImemReplay.Fault

/-!
# Placement of inputs in instruction memory

The instruction memory is a vector of `nInsts` words of `instLen` bits. A placement gives, for
each primary input by its number, the bit of the memory that the input drives, or nothing for a
control input. It is built from the entries of a table, which are checked in the order of the
inputs: each bit lies in the memory and no two inputs drive one bit.

Main results:

- Theorem `slots_of_ofEntries`: a placement has the bits of its entries.
- Theorem `length_of_ofEntries`: a placement has one slot per entry.
- Theorem `get_of_mem`: inside the table, `get` and `lookup` agree.
-/

namespace ImemReplay

/-- An entry of a placement table. -/
inductive PlacementEntry where
  /-- An input that drives no bit. -/
  | unmapped
  /-- An input with its bit. -/
  | slot (place : Number)
  /-- What is neither a number nor the mark of an unmapped input. -/
  | foreign
deriving DecidableEq, Repr

/-- The bit that an entry gives its input. -/
def PlacementEntry.place? : PlacementEntry → Option Number
  | slot place => some place
  | _ => none

/-- The entry of an integer table. -/
def PlacementEntry.ofIndex? : Option Int → PlacementEntry
  | none => unmapped
  | some index => slot (.whole index)

/-- A placement of primary inputs. -/
structure Placement where
  /-- The number of bits of an instruction. -/
  instLen : Int
  /-- The number of instructions. -/
  nInsts : Int
  /-- The bit of each input, by input number. -/
  slots : List (Option Number)
deriving DecidableEq, Repr

namespace Placement

/-- The number of bits of the instruction memory. -/
def totalBits (t : Placement) : Int := t.instLen * t.nInsts

/-- The number of inputs in the table. -/
def length (t : Placement) : Nat := t.slots.length

/-- The number of inputs that drive a bit. -/
def numMapped (t : Placement) : Nat := t.slots.countP Option.isSome

/-- Checks the entries from input number `input` on; `taken` holds the bits of the inputs before,
each with its input. -/
def checkFrom (totalBits : Int) (input : Nat) (taken : List (Nat × Number)) :
    List PlacementEntry → Except Fault Unit
  | [] => .ok ()
  | .unmapped :: entries => checkFrom totalBits (input + 1) taken entries
  | .foreign :: _ => .error .wrongType
  | .slot place :: entries =>
    if place.within totalBits then
      match taken.find? fun owner => owner.2.same place with
      | some owner => .error (.slotShared input owner.1 place)
      | none => checkFrom totalBits (input + 1) ((input, place) :: taken) entries
    else
      .error (.slotRange input place totalBits)

/-- The placement of a table of entries. -/
def ofEntries (entries : List PlacementEntry) (instLen nInsts : Int) : Except Fault Placement :=
  if instLen ≤ 0 ∨ nInsts ≤ 0 then
    .error (.memoryShape instLen nInsts)
  else do
    checkFrom (instLen * nInsts) 0 [] entries
    return { instLen, nInsts, slots := entries.map PlacementEntry.place? }

/-- The placement of a table of integers and unmapped inputs. -/
def ofIndexes (entries : List (Option Int)) (instLen nInsts : Int) : Except Fault Placement :=
  ofEntries (entries.map .ofIndex?) instLen nInsts

/-- The bit of an input; an input outside the table drives none. -/
def lookup (t : Placement) (input : Int) : Option Number :=
  if input < 0 then none else t.slots[input.toNat]?.join

/-- The bit of an input of the table. -/
def get (t : Placement) (input : Int) : Except Fault (Option Number) :=
  if 0 ≤ input ∧ input < t.length then .ok (t.lookup input) else .error (.inputRange input)

/-- The bit of an input that must drive one. -/
def slotOf (t : Placement) (input : Int) : Except Fault Number := do
  match ← t.get input with
  | some place => return place
  | none => throw (.inputUnmapped input)

theorem get_of_mem {t : Placement} {input : Int} (h : 0 ≤ input ∧ input < t.length) :
    t.get input = .ok (t.lookup input) :=
  if_pos h

theorem get_of_not_mem {t : Placement} {input : Int} (h : ¬(0 ≤ input ∧ input < t.length)) :
    t.get input = .error (.inputRange input) :=
  if_neg h

theorem slots_of_ofEntries {entries : List PlacementEntry} {instLen nInsts : Int}
    {t : Placement} (h : ofEntries entries instLen nInsts = .ok t) :
    t.slots = entries.map PlacementEntry.place? := by
  simp only [ofEntries] at h
  split at h
  · cases h
  · cases hcheck : checkFrom (instLen * nInsts) 0 [] entries with
    | error fault => simp [hcheck, bind, Except.bind] at h
    | ok done =>
      simp only [hcheck, bind, Except.bind, pure, Except.pure, Except.ok.injEq] at h
      rw [← h]

theorem length_of_ofEntries {entries : List PlacementEntry} {instLen nInsts : Int}
    {t : Placement} (h : ofEntries entries instLen nInsts = .ok t) :
    t.length = entries.length := by
  simp [length, slots_of_ofEntries h]

end Placement
end ImemReplay
