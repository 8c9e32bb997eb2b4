import ImemReplay.Frame

/-!
# Start frame of a chain

A counterexample takes effect from the last frame in which reset is asserted. A chain without
such a frame is one program from its first frame on.

Main results:

- Theorem `startFrame_nil`: a chain without frames has no start frame.
-/

namespace ImemReplay

/-- A frame of a chain together with its index. -/
structure StartFrame where
  index : Nat
  frame : Frame
deriving DecidableEq, Repr

/-- Whether the literals assert the reset variable. The search ends at the first literal that
does, so what follows it is not looked at. -/
def assertsReset (resetVar : Int) : List Int → Except Fault Bool
  | [] => .ok false
  | l :: lits => do
    let id ← Literal.var l
    let complement ← Literal.isComplement l
    if id = resetVar ∧ complement = false then return true
    assertsReset resetVar lits

namespace Chain

/-- The last frame that asserts reset, `found` being the last one so far. -/
def lastReset (resetVar : Int) (index : Nat) (found : Option StartFrame) :
    Chain → Except Fault (Option StartFrame)
  | [] => .ok found
  | f :: frames => do
    let asserted ← assertsReset resetVar f.inputLits
    lastReset resetVar (index + 1) (if asserted then some ⟨index, f⟩ else found) frames

/-- The frame from which a chain takes effect. -/
def startFrame (resetVar : Int) : Chain → Except Fault StartFrame
  | [] => .error .emptyChain
  | f :: frames => do
    let found ← lastReset resetVar 0 none (f :: frames)
    return found.getD ⟨0, f⟩

@[simp]
theorem startFrame_nil (resetVar : Int) : startFrame resetVar [] = .error .emptyChain :=
  rfl

end Chain
end ImemReplay
