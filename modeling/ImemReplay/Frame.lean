import ImemReplay.Capacity
import ImemReplay.Literal

/-!
# Frames and chains

A frame holds the literals of one time step: first those of the state, then those of the inputs.
A chain lists the frames of a counterexample in the order in which they were found.

Main results:

- Theorem `ofLits_lits`: cutting the literals of a frame at its state segment gives the frame.
- Theorem `lits_of_ofLits`: a frame made by cutting holds the literals it was cut from.
-/

namespace ImemReplay

/-- The literals of one time step. -/
structure Frame where
  /-- The literals of the state. -/
  stateLits : List Int := []
  /-- The literals of the inputs. -/
  inputLits : List Int := []
deriving DecidableEq, Repr

namespace Frame

/-- All literals of a frame, state first. -/
def lits (f : Frame) : List Int := f.stateLits ++ f.inputLits

/-- The length of the state segment. -/
def stateCount (f : Frame) : Nat := f.stateLits.length

/-- Cuts a list of literals into a state segment of the given length and the inputs. -/
def ofLits (lits : List Int) (stateCount : Int) : Except Fault Frame :=
  if 0 ≤ stateCount ∧ stateCount ≤ lits.length then
    .ok ⟨lits.take stateCount.toNat, lits.drop stateCount.toNat⟩
  else
    .error (.frameSplit stateCount lits.length)

theorem ofLits_lits (f : Frame) : ofLits f.lits f.stateCount = .ok f := by
  have h : 0 ≤ (f.stateCount : Int) ∧ (f.stateCount : Int) ≤ f.lits.length := by
    simp only [stateCount, lits, List.length_append]
    omega
  rw [ofLits, if_pos h]
  simp [stateCount, lits]

theorem lits_of_ofLits {lits : List Int} {stateCount : Int} {f : Frame}
    (h : ofLits lits stateCount = .ok f) : f.lits = lits ∧ f.stateCount = stateCount := by
  by_cases hcount : 0 ≤ stateCount ∧ stateCount ≤ lits.length
  · rw [ofLits, if_pos hcount] at h
    cases h
    simp only [Frame.lits, Frame.stateCount, List.take_append_drop, List.length_take, true_and]
    omega
  · rw [ofLits, if_neg hcount] at h
    cases h

end Frame

/-- The frames of a counterexample. -/
abbrev Chain := List Frame

namespace Chain

/-- The frame at an index; a negative index counts from the end. -/
def frameAt (chain : Chain) (index : Int) : Except Fault Frame :=
  if Capacity.isIndex index then
    let place := if index < 0 then index + chain.length else index
    match (if place < 0 then none else chain[place.toNat]?) with
    | some f => .ok f
    | none => .error .frameIndex
  else
    .error .indexSize

end Chain
end ImemReplay
