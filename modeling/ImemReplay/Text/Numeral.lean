import ImemReplay.Text.Blank
import ImemReplay.Text.DecimalDigit

/-!
# Integer numerals

A numeral is an optional sign and decimal digits, with single underscores allowed between digits
and blanks around the whole. Digits beyond a limit are not read at all, whatever follows them, and
an integer with more digits than that is not written either.

Main results:

- Definition `integer?`: the integer that a text spells, if it spells one.
- Definition `overlong?`: the number of digits of a text that begins with too many.
- Theorem `overlong?_gt`: that number exceeds the limit.
- Theorem `isWritable_iff`: an integer can be written exactly when its digits are within the limit.
-/

namespace ImemReplay
namespace Text

/-- Continues a numeral whose digits so far have the value `acc`. -/
def digitsFrom (acc : Nat) : List Char → Option Nat
  | [] => some acc
  | '_' :: c :: cs => (digitValue? c).bind fun d => digitsFrom (10 * acc + d) cs
  | c :: cs => (digitValue? c).bind fun d => digitsFrom (10 * acc + d) cs

/-- The value of a sequence of digits, which may be parted by single underscores. -/
def natural? : List Char → Option Nat
  | [] => none
  | c :: cs => (digitValue? c).bind fun d => digitsFrom d cs

/-- Whether a numeral is negative, and what follows its sign. -/
def splitSign : List Char → Bool × List Char
  | '-' :: cs => (true, cs)
  | '+' :: cs => (false, cs)
  | cs => (false, cs)

/-- A magnitude with a sign. -/
def withSign (negative : Bool) (n : Nat) : Int := if negative then -(n : Int) else n

/-- The value of digits with an optional sign in front. -/
def signed? (cs : List Char) : Option Int :=
  (natural? (splitSign cs).2).map (withSign (splitSign cs).1)

/-- The integer that a text spells. -/
def integer? (s : String) : Option Int :=
  signed? (trimBlanks s.toList)

/-- The number of digits that a numeral may have. -/
def digitLimit : Nat := 4300

/-- Digits and the underscores between them. -/
def isNumeralChar (c : Char) : Bool := c = '_' || (digitValue? c).isSome

/-- The number of digits in front of all else, if they are more than a numeral may have. -/
def excess? (cs : List Char) : Option Nat :=
  let run := cs.takeWhile isNumeralChar
  let size := run.countP (· ≠ '_')
  if digitLimit < size ∧ (natural? run).isSome = true then some size else none

theorem excess?_gt {cs : List Char} {size : Nat} (h : excess? cs = some size) :
    digitLimit < size := by
  simp only [excess?, Option.ite_none_right_eq_some, Option.some.injEq] at h
  omega

/-- The number of digits that a text begins with, if they are more than a numeral may have. -/
def overlong? (s : String) : Option Nat :=
  excess? (splitSign (trimBlanks s.toList)).2

theorem overlong?_gt {s : String} {size : Nat} (h : overlong? s = some size) :
    digitLimit < size :=
  excess?_gt h

/-- Whether an integer has no more digits than a numeral may have. -/
def isWritable (i : Int) : Bool := i.natAbs.repr.length ≤ digitLimit

theorem isWritable_iff {i : Int} :
    isWritable i = true ↔ i.natAbs.repr.length ≤ digitLimit := by
  simp only [isWritable, decide_eq_true_eq]

theorem lt_pow_ten_iff {n limit : Nat} (h : 0 < limit) :
    n < Nat.pow 10 limit ↔ n.repr.length ≤ limit :=
  (Nat.length_repr_le_iff h).symm

/-- An integer that is small enough can be written. -/
theorem isWritable_of_lt {i : Int} {digits : Nat} (hdigits : 0 < digits)
    (hle : digits ≤ digitLimit) (h : i.natAbs < Nat.pow 10 digits) : isWritable i = true :=
  isWritable_iff.2 (Nat.le_trans ((lt_pow_ten_iff hdigits).1 h) hle)

/-- The smallest integer that cannot be written. -/
@[irreducible]
def leastUnwritable : Int := (Nat.pow 10 digitLimit : Nat)

theorem isWritable_leastUnwritable : isWritable leastUnwritable = false := by
  rw [Bool.eq_false_iff, ne_eq, isWritable_iff, ← lt_pow_ten_iff (by decide)]
  simp only [leastUnwritable, Int.natAbs_natCast, Nat.lt_irrefl, not_false_eq_true]

theorem leastUnwritable_pos : 0 < leastUnwritable := by
  have hpow : 0 < Nat.pow 10 digitLimit := (lt_pow_ten_iff (by decide)).2 (by decide)
  unfold leastUnwritable
  omega

theorem isWritable_neg {i : Int} : isWritable (-i) = isWritable i := by
  simp only [isWritable, Int.natAbs_neg]

example : integer? " -1_000 " = some (-1000) := by decide

example : integer? "1__0" = none := by decide

example : integer? "٣" = some 3 := by decide

end Text
end ImemReplay
