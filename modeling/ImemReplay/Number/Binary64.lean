/-!
# Double precision numbers

A number of the binary64 format is finite, infinite or no number at all. A finite one is
`± significand * 2 ^ exponent`. The significand has 53 bits unless the exponent is the least
one, so each finite number has one form and equality of forms is equality of numbers, zeros of
both signs apart.

Main results:

- Definition `ofFraction`: the number nearest to a fraction, ties to the even significand.
- Definition `ofDecimal`: the number nearest to a decimal.
- Theorem `roundQuotient_near`: a rounded quotient is within half a unit of the exact one.
-/

namespace ImemReplay

/-- A number of the binary64 format. -/
inductive Binary64 where
  | finite (negative : Bool) (significand : Nat) (exponent : Int)
  | infinite (negative : Bool)
  | nan
deriving DecidableEq, Repr, Inhabited

namespace Binary64

/-- A power of two. -/
def twoTo (exponent : Nat) : Nat := Nat.pow 2 exponent

/-- The exponent of the least positive number. -/
def leastExponent : Int := -1074

/-- The exponent of the greatest finite number. -/
def greatestExponent : Int := 971

/-- The zero of a sign. -/
def zero (negative : Bool) : Binary64 := finite negative 0 leastExponent

/-- The exact value of a finite number. -/
def toRat? : Binary64 → Option Rat
  | finite negative significand exponent =>
    let magnitude : Rat :=
      if 0 ≤ exponent then mkRat (significand * twoTo exponent.toNat) 1
      else mkRat significand (twoTo (-exponent).toNat)
    some (if negative then -magnitude else magnitude)
  | infinite _ => none
  | nan => none

/-- The integer nearest to `num / den`, a tie going to the even one. -/
def roundQuotient (num den : Nat) : Nat :=
  let quotient := num / den
  let rest := num % den
  if 2 * rest < den then quotient
  else if den < 2 * rest then quotient + 1
  else if quotient % 2 = 0 then quotient
  else quotient + 1

theorem roundQuotient_near {num den : Nat} (h : 0 < den) :
    2 * (roundQuotient num den * den) ≤ 2 * num + den ∧
      2 * num ≤ 2 * (roundQuotient num den * den) + den := by
  have hsplit : den * (num / den) + num % den = num := Nat.div_add_mod num den
  have hrest : num % den < den := Nat.mod_lt _ h
  have hcomm : num / den * den = den * (num / den) := Nat.mul_comm ..
  have hsucc : (num / den + 1) * den = den * (num / den) + den := by
    rw [Nat.add_mul, Nat.one_mul, hcomm]
  simp only [roundQuotient]
  split
  · omega
  · split
    · omega
    · split <;> omega

/-- The fraction in units of `2 ^ exponent`, rounded. -/
def significandAt (num den : Nat) (exponent : Int) : Nat :=
  if 0 ≤ exponent then roundQuotient num (den * twoTo exponent.toNat)
  else roundQuotient (num * twoTo (-exponent).toNat) den

/-- A rounded significand of at most `2 ^ 53` as a number; beyond the greatest one it is
infinite. -/
def settle (negative : Bool) (significand : Nat) (exponent : Int) : Binary64 :=
  let carried := significand = twoTo 53
  let top := if carried then exponent + 1 else exponent
  if greatestExponent < top then infinite negative
  else if carried then finite negative (twoTo 52) top
  else finite negative significand exponent

/-- The number nearest to `num / den`. The first exponent leaves 53 or 54 bits; with 54, the
next exponent leaves 53. -/
def ofFraction (negative : Bool) (num den : Nat) : Binary64 :=
  if num = 0 then zero negative
  else
    let exponent := max ((num.log2 : Int) - den.log2 - 53) leastExponent
    let significand := significandAt num den exponent
    if significand < twoTo 53 then settle negative significand exponent
    else settle negative (significandAt num den (exponent + 1)) (exponent + 1)

/-- The number nearest to a rational; the sign is the given one when the rational is zero. -/
def ofRat (negative : Bool) (q : Rat) : Binary64 :=
  if q = 0 then zero negative else ofFraction (q < 0) q.num.natAbs q.den

/-- The value of the finite number nearest to a rational. -/
def nearest? (q : Rat) : Option Rat := (ofRat false q).toRat?

/-- The number of decimal digits. -/
def decimalSize (n : Nat) : Nat := (Nat.toDigits 10 n).length

/-- The number nearest to `digits * 10 ^ exponent`. Exponents far outside the format's range are
answered without the power of ten. -/
def ofDecimal (negative : Bool) (digits : Nat) (exponent : Int) : Binary64 :=
  if digits = 0 then zero negative
  else if 400 < exponent then infinite negative
  else if exponent < -400 - decimalSize digits then zero negative
  else
    ofFraction negative (digits * Nat.pow 10 exponent.toNat) (Nat.pow 10 (-exponent).toNat)

example : ofDecimal false 15 (-1) = finite false (3 * twoTo 51) (-52) := by decide +kernel

example : ofDecimal false 1 309 = infinite false := by decide +kernel

/-- The integer part, the digits after the point dropped. -/
def truncate? (x : Binary64) : Option Int :=
  x.toRat?.map fun q => if q < 0 then -(-q).floor else q.floor

/-- Whether the sign is set. -/
def isNegative : Binary64 → Bool
  | finite negative _ _ => negative
  | infinite negative => negative
  | nan => false

end Binary64
end ImemReplay
