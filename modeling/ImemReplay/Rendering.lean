import ImemReplay.Capacity
import ImemReplay.Frame
import ImemReplay.Placement

/-!
# Rendering of a frame

A frame is shown as a picture of the instruction memory, one row per word with the most
significant bit first. Each input literal on a declared and placed input sets or clears its bit;
a later literal on the same input overrules an earlier one, and a bit that no literal reaches
stays free. The generalized picture shows free bits as `x`, the concrete one as `0`.

Main results:

- Theorem `size_paint`: painting literals keeps the size of the memory.
- Theorem `length_wordsOf`: a rendering has one row per word.
-/

namespace ImemReplay

namespace Placement

/-- The bit of a literal's variable, if the variable is a declared input and placed. -/
def slotOfLiteral? (t : Placement) (nPis : Int) (l : Int) : Except Fault (Option Number) := do
  let input ← Literal.var l
  return if nPis ≤ input then none else t.lookup input

end Placement

/-- The word length and the number of words of a picture. -/
structure Shape where
  instLen : Int
  nInsts : Int
deriving DecidableEq, Repr

/-- The number of bits of a picture. -/
def Shape.totalBits (s : Shape) : Int := s.instLen * s.nInsts

/-- The number of bits in the rows of a picture: there are none if the shape is of two negative
numbers. -/
def Shape.rowBits (s : Shape) : Int := s.instLen.toNat * s.nInsts.toNat

/-- There is room for the memory of each view of a picture. -/
def Shape.HasBuffers [Memory] (s : Shape) : Prop := Memory.holds [s.totalBits, s.totalBits] = true

/-- There is room for a picture: for the memory of each of its views, and then for their rows. -/
def Shape.HasRoom [Memory] (s : Shape) : Prop :=
  Memory.holds [s.totalBits, s.totalBits, s.rowBits, s.rowBits] = true

/-- The shape of the instruction memory itself. -/
def Placement.shape (t : Placement) : Shape := ⟨t.instLen, t.nInsts⟩

/-- A bit of a picture: clear, set, or free. -/
abbrev Cell := Option Bool

namespace Cell

/-- A cell with free bits marked. -/
def generalized : Cell → Char
  | none => 'x'
  | some false => '0'
  | some true => '1'

/-- A cell with free bits clear. -/
def concrete : Cell → Char
  | some true => '1'
  | _ => '0'

end Cell

/-- A picture: its words, each with the most significant bit first. -/
structure Rendering where
  words : List (List Cell)
deriving DecidableEq, Repr

namespace Rendering

/-- The rows with free bits clear. -/
def concrete (r : Rendering) : List String :=
  r.words.map fun word => String.ofList (word.map Cell.concrete)

/-- The rows with free bits marked. -/
def generalized (r : Rendering) : List String :=
  r.words.map fun word => String.ofList (word.map Cell.generalized)

/-- Gives a value to the bit at a place. -/
def assign (cells : Array Cell) (place : Number) (value : Bool) : Except Fault (Array Cell) :=
  match place.index? with
  | none => .error .wrongType
  | some index =>
    if 0 ≤ index ∧ index < cells.size then .ok (cells.setIfInBounds index.toNat (some value))
    else .error (if Capacity.isIndex index then .bitBeyondRendering else .indexSize)

/-- Lets the literals have their effect on the memory, one after the other. -/
def paint (t : Placement) (nPis : Int) : List Int → Array Cell → Except Fault (Array Cell)
  | [], cells => .ok cells
  | l :: lits, cells => do
    match ← t.slotOfLiteral? nPis l with
    | none => paint t nPis lits cells
    | some place =>
      let complement ← Literal.isComplement l
      let cells ← assign cells place (!complement)
      paint t nPis lits cells

/-- The words of a memory. -/
def wordsOf (shape : Shape) (cells : Array Cell) : List (List Cell) :=
  (List.range shape.nInsts.toNat).map fun word =>
    (cells.extract (word * shape.instLen.toNat) ((word + 1) * shape.instLen.toNat)).toList.reverse

/-- The memory of a shape with every bit free. -/
def blank (shape : Shape) : Array Cell := Array.replicate shape.totalBits.toNat none

/-- The picture of a frame in the given shape. Each view has a memory of its own, which is made
before the literals are looked at, and rows that are made behind them. -/
def ofFrame [Memory] (t : Placement) (nPis : Int) (shape : Shape) (f : Frame) :
    Except Fault Rendering :=
  if shape.totalBits ≤ 0 then
    .error (.emptyRendering shape.totalBits)
  else do
    Capacity.demand [shape.totalBits, shape.totalBits]
    let cells ← paint t nPis f.inputLits (blank shape)
    Capacity.demand [shape.totalBits, shape.totalBits, shape.rowBits, shape.rowBits]
    return ⟨wordsOf shape cells⟩

/-- The report of a picture under its number: both views, row by row. -/
def report (r : Rendering) (seq : Int) : String :=
  s!"{seq}-th Unsafe Program\n" ++ "Concrete one:\n" ++ lines r.concrete ++
    "Generalized one:\n" ++ lines r.generalized
where
  lines (rows : List String) : String := String.join (rows.map (· ++ "\n"))

theorem size_assign {cells painted : Array Cell} {place : Number} {value : Bool}
    (h : assign cells place value = .ok painted) : painted.size = cells.size := by
  simp only [assign] at h
  split at h
  · cases h
  · split at h
    · cases h
      simp
    · cases h

theorem size_paint {t : Placement} {nPis : Int} {lits : List Int} {cells painted : Array Cell}
    (h : paint t nPis lits cells = .ok painted) : painted.size = cells.size := by
  induction lits generalizing cells with
  | nil =>
    simp only [paint, Except.ok.injEq] at h
    rw [h]
  | cons l lits ih =>
    simp only [paint, bind, Except.bind] at h
    split at h
    · cases h
    · split at h
      · exact ih h
      · split at h
        · cases h
        · split at h
          · cases h
          · next hassign => rw [ih h, size_assign hassign]

@[simp]
theorem length_wordsOf (shape : Shape) (cells : Array Cell) :
    (wordsOf shape cells).length = shape.nInsts.toNat := by
  simp [wordsOf]

end Rendering
end ImemReplay
