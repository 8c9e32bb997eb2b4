import ImemReplay.Number.Shortest

/-!
# Numbers of a table

A table may spell a number as an integer, as a truth value, which counts as zero or one, or as a
double precision number. The spelling is kept, since it shows when the number is written, but two
spellings of one value are the same number.

Main results:

- Theorem `same_of_index?`: numbers with integer indexes are the same exactly when the indexes are.
- Theorem `within_iff`: a number with an integer index lies in a range exactly when the index does.
-/

namespace ImemReplay

/-- A number as a table spells it. -/
inductive Number where
  | whole (value : Int)
  | truth (value : Bool)
  | real (value : Binary64)
deriving DecidableEq, Repr

namespace Number

/-- The position that a number can stand for: integers and truth values have one. -/
def index? : Number → Option Int
  | whole value => some value
  | truth value => some value.toInt
  | real _ => none

/-- The exact value, if the number is finite. -/
def toRat? : Number → Option Rat
  | whole value => some value
  | truth value => some value.toInt
  | real value => value.toRat?

@[simp]
theorem index?_whole (value : Int) : (whole value).index? = some value :=
  rfl

@[simp]
theorem index?_truth (value : Bool) : (truth value).index? = some value.toInt :=
  rfl

@[simp]
theorem index?_real (value : Binary64) : (real value).index? = none :=
  rfl

/-- Two spellings of one value are the same number; what is no number differs from everything. -/
def same (a b : Number) : Bool :=
  match a.index?, b.index? with
  | some i, some j => i = j
  | _, _ =>
    match a.toRat?, b.toRat? with
    | some p, some q => p = q
    | none, none => a = b ∧ a ≠ real .nan
    | _, _ => false

theorem same_of_index? {a b : Number} {i j : Int} (ha : a.index? = some i)
    (hb : b.index? = some j) : a.same b = true ↔ i = j := by
  simp [same, ha, hb]

/-- A number is within a size when it is at least zero and below the size. -/
def within (a : Number) (size : Int) : Bool :=
  match a.index? with
  | some i => 0 ≤ i ∧ i < size
  | none =>
    match a.toRat? with
    | some q => 0 ≤ q ∧ q < size
    | none => false

theorem within_iff {a : Number} {i size : Int} (ha : a.index? = some i) :
    a.within size = true ↔ 0 ≤ i ∧ i < size := by
  simp [within, ha]

/-- What is left of a rational beyond the whole multiples of `step`. -/
def restOf (q step : Rat) : Rat := q - step * (q / step).floor

/-- The whole number below a rational, unless the one above is nearer. -/
def wholeNear (q : Rat) : Int :=
  if 1 < 2 * (q - q.floor) then q.floor + 1 else q.floor

/-- How often a positive `step` is contained in a number. For a real number the multiple of the
step and its quotient are both rounded, and there is no answer when the step exceeds the real
numbers. -/
def quotient? (a : Number) (step : Int) : Option Number :=
  match a with
  | whole value => some (whole (value / step))
  | truth value => some (whole (value.toInt / step))
  | real value => do
    let q ← value.toRat?
    let w ← Binary64.nearest? step
    let multiple ← Binary64.nearest? (q - restOf q w)
    let count ← Binary64.nearest? (multiple / w)
    return real (Binary64.ofRat value.isNegative (wholeNear count))

/-- What is left of a number beyond the whole multiples of a positive `step`. -/
def remainder? (a : Number) (step : Int) : Option Number :=
  match a with
  | whole value => some (whole (value % step))
  | truth value => some (whole (value.toInt % step))
  | real value => do
    let q ← value.toRat?
    let w ← Binary64.nearest? step
    return real (Binary64.ofRat false (restOf q w))

/-- The integers in the written form of a number. -/
def shown : Number → List Int
  | whole value => [value]
  | truth _ | real _ => []

/-- The written form of a number. -/
def text : Number → String
  | whole value => toString value
  | truth value => if value then "True" else "False"
  | real value => value.text

end Number
end ImemReplay
