import ImemReplay.Program
import ImemReplay.Rendering
import ImemReplay.StartFrame

/-!
# Extraction of a program

The program of a start frame consists of the input literals on declared and placed inputs. A
frame that was chosen because it asserts reset cannot also deny it, so a program with the denied
reset literal is refused.

Main results:

- Theorem `keptLits_append`: what is kept of two lists is kept of each.
-/

namespace ImemReplay

namespace Placement

/-- The literals on declared and placed inputs, in order. -/
def keptLits (t : Placement) (nPis : Int) : List Int → Except Fault (List Int)
  | [] => .ok []
  | l :: lits => do
    let place ← t.slotOfLiteral? nPis l
    let rest ← t.keptLits nPis lits
    return if place.isSome then l :: rest else rest

theorem keptLits_append {t : Placement} {nPis : Int} {front back : List Int} :
    t.keptLits nPis (front ++ back) = (do
      let first ← t.keptLits nPis front
      let second ← t.keptLits nPis back
      return first ++ second) := by
  induction front with
  | nil =>
    cases h : t.keptLits nPis back <;> simp [keptLits, h, bind, Except.bind, pure, Except.pure]
  | cons l front ih =>
    simp only [List.cons_append, keptLits, ih, bind, Except.bind, pure, Except.pure]
    cases t.slotOfLiteral? nPis l with
    | error fault => rfl
    | ok place =>
      cases t.keptLits nPis front with
      | error fault => rfl
      | ok first =>
        cases t.keptLits nPis back with
        | error fault => rfl
        | ok second => cases hplace : place.isSome <;> simp [hplace]

end Placement

/-- The literal that denies a variable. -/
def Literal.denying (id : Int) : Int := 2 * id + 1

/-- The program of a start frame. -/
def Program.ofStartFrame (t : Placement) (nPis resetVar : Int) (start : StartFrame) :
    Except Fault Program := do
  let lits ← t.keptLits nPis start.frame.inputLits
  if Literal.denying resetVar ∈ lits then
    throw (.resetDenied (Literal.denying resetVar) start.index)
  return { startFrame := start.index, lits }

end ImemReplay
