import ImemReplay.Capacity
import ImemReplay.Frame

/-!
# The toy chain

A built-in chain for trying out a design without a counterexample: in its middle frame reset is
asserted, the first input other than reset is set, and the second one is clear. The two inputs are
taken from the list of all declared ones, for which there must be room.

Main results:

- Definition `toyInputs`: the inputs other than reset.
- Definition `toyChain`: the toy chain of a design.
-/

namespace ImemReplay

/-- The declared inputs other than reset. -/
def toyInputs (nPis resetVar : Int) : List Int :=
  ((List.range nPis.toNat).map Int.ofNat).filter (· ≠ resetVar)

/-- The size of their list. -/
def toyCount (nPis resetVar : Int) : Int :=
  if 0 ≤ resetVar ∧ resetVar < nPis then nPis - 1 else nPis

/-- The toy chain of a design. -/
def toyChain [Memory] (nPis resetVar : Int) : Except Fault Chain :=
  if Memory.holds [toyCount nPis resetVar] then
    match toyInputs nPis resetVar with
    | first :: second :: _ =>
      .ok
        [{ stateLits := [0], inputLits := [2 * first] },
          { stateLits := [2], inputLits := [2 * resetVar, 2 * first, 2 * second + 1] },
          { stateLits := [4], inputLits := [2 * resetVar + 1] }]
    | _ => .error (.toyInputs nPis)
  else
    .error .memory

end ImemReplay
