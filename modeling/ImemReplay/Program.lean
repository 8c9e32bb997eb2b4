import ImemReplay.Frame

/-!
# Programs

A program is what a chain boils down to: the literals of its start frame that set or clear bits
of the instruction memory. Its blocking clause denies it.

Main results:

- Theorem `length_blockingClause`: the blocking clause has one literal per literal of the program.
-/

namespace ImemReplay

/-- A program that a chain replays. -/
structure Program where
  /-- The frame that the program was taken from. -/
  startFrame : Int
  /-- The literals of the program. -/
  lits : List Int
deriving DecidableEq, Repr

namespace Program

/-- The program as a frame of inputs only. -/
def toFrame (p : Program) : Frame := { inputLits := p.lits }

/-- Negates the literals one by one. -/
def negateAll : List Int → Except Fault (List Int)
  | [] => .ok []
  | l :: lits => do
    let negated ← Literal.negate l
    let rest ← negateAll lits
    return negated :: rest

/-- The clause that denies the program. -/
def blockingClause (p : Program) : Except Fault (List Int) := negateAll p.lits

theorem length_negateAll {lits clause : List Int} (h : negateAll lits = .ok clause) :
    clause.length = lits.length := by
  induction lits generalizing clause with
  | nil =>
    simp only [negateAll, Except.ok.injEq] at h
    rw [← h]
  | cons l lits ih =>
    simp only [negateAll, bind, Except.bind] at h
    split at h
    · cases h
    · split at h
      · cases h
      · next hrest =>
        simp only [pure, Except.pure, Except.ok.injEq] at h
        simp [← h, ih hrest]

theorem length_blockingClause {p : Program} {clause : List Int}
    (h : p.blockingClause = .ok clause) : clause.length = p.lits.length :=
  length_negateAll h

end Program
end ImemReplay
