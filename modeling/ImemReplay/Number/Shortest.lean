import ImemReplay.Number.Binary64

/-!
# Shortest decimal text of a double precision number

A number is written with the fewest significant digits that read back to it. Of two such decimals
on one grid the nearer is taken, and on a tie the even one. The text is positional when the
leading digit stands for `10 ^ e` with `-4 ≤ e < 16`, and otherwise has a signed exponent of at
least two digits.

Main results:

- Theorem `readsBack_of_onGrid?`: a decimal found on a grid reads back to the number.
- Definition `text`: the written form.
-/

namespace ImemReplay
namespace Binary64

/-- A decimal `digits * 10 ^ exponent`. -/
structure Decimal where
  digits : Nat
  exponent : Int
deriving DecidableEq, Repr

/-- A decimal stands for a positive number when reading it gives the number. -/
def readsBack (x : Binary64) (d : Decimal) : Bool :=
  ofDecimal false d.digits d.exponent = x

/-- Ten to an integer power. -/
def tenTo (e : Int) : Rat :=
  if 0 ≤ e then mkRat (Nat.pow 10 e.toNat) 1 else mkRat 1 (Nat.pow 10 (-e).toNat)

/-- Of the two neighbours of `value` on the grid of step `10 ^ exponent`, the one that reads back,
the nearer if both do, and on a tie the even one. -/
def onGrid? (x : Binary64) (value : Rat) (exponent : Int) : Option Decimal :=
  let scaled := value / tenTo exponent
  let below : Decimal := ⟨scaled.floor.toNat, exponent⟩
  let above : Decimal := ⟨scaled.floor.toNat + 1, exponent⟩
  match x.readsBack below, x.readsBack above with
  | true, false => some below
  | false, true => some above
  | false, false => none
  | true, true =>
    let doubled := 2 * scaled
    let middle : Rat := mkRat (below.digits + above.digits) 1
    if doubled < middle then some below
    else if middle < doubled then some above
    else if below.digits % 2 = 0 then some below
    else some above

theorem readsBack_of_onGrid? {x : Binary64} {value : Rat} {exponent : Int} {d : Decimal}
    (h : onGrid? x value exponent = some d) : x.readsBack d = true := by
  simp only [onGrid?] at h
  split at h
  · simp_all
  · simp_all
  · cases h
  · split at h
    · simp_all
    · split at h
      · simp_all
      · split at h <;> simp_all

/-- The exponent of the leading decimal digit of a positive rational. -/
def leadingExponent (value : Rat) : Int :=
  let guess : Int := (decimalSize value.num.natAbs : Int) - decimalSize value.den
  if tenTo guess ≤ value then guess else guess - 1

/-- Drops the zeros at the end of the digits. -/
def stripZeros (d : Decimal) : Decimal :=
  let kept := (toString d.digits).toList.reverse.dropWhile (· == '0')
  let dropped := (toString d.digits).length - kept.length
  ⟨d.digits / Nat.pow 10 dropped, d.exponent + dropped⟩

/-- The fewest digits that read back, of at most seventeen. -/
def shortest (x : Binary64) (value : Rat) : Decimal :=
  let top := leadingExponent value
  let found := (List.range 17).findSome? fun (n : Nat) => onGrid? x value (top - n)
  stripZeros (found.getD ⟨(value / tenTo (top - 16)).floor.toNat, top - 16⟩)

/-- The layout of the digits of a positive decimal. -/
def layout (d : Decimal) : String :=
  let digits := (toString d.digits).toList
  let lead := d.exponent + digits.length - 1
  if -4 ≤ lead ∧ lead < 0 then
    "0." ++ String.ofList (List.replicate (-lead - 1).toNat '0' ++ digits)
  else if 0 ≤ lead ∧ lead < 16 then
    let whole := digits.take (lead.toNat + 1)
    let fraction := digits.drop (lead.toNat + 1)
    let padded := whole ++ List.replicate (lead.toNat + 1 - whole.length) '0'
    String.ofList padded ++ "." ++ (if fraction.isEmpty then "0" else String.ofList fraction)
  else
    let mark := if lead < 0 then "e-" else "e+"
    let power := toString lead.natAbs
    let width := if power.length < 2 then "0" ++ power else power
    let fraction := digits.drop 1
    String.ofList (digits.take 1) ++
      (if fraction.isEmpty then "" else "." ++ String.ofList fraction) ++ mark ++ width

/-- The written form of a number. -/
def text : Binary64 → String
  | nan => "nan"
  | infinite negative => if negative then "-inf" else "inf"
  | finite negative significand exponent =>
    let sign := if negative then "-" else ""
    if significand = 0 then sign ++ "0.0"
    else
      let positive := finite false significand exponent
      sign ++ layout (shortest positive (positive.toRat?.getD 0))

end Binary64
end ImemReplay
