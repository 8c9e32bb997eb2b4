import ImemReplay.Document.Value
import ImemReplay.Text.Parts

/-!
# Plain scalars

A scalar without quotes is typed by its spelling: nothing, truth values, integers in bases two,
eight, ten, sixteen and sixty, reals with a point, timestamps, and text for everything else.
Underscores in numbers are passed over. A day without a time of day has two digits for its month
and two for its day.

Main results:

- Definition `Scalar.ofPlain`: the scalar that a spelling stands for.
-/

namespace ImemReplay
namespace PlainScalar

/-- The spellings of nothing. -/
def nulls : List String := ["", "~", "null", "Null", "NULL"]

/-- The spellings of true. -/
def trues : List String := ["yes", "Yes", "YES", "true", "True", "TRUE", "on", "On", "ON"]

/-- The spellings of false. -/
def falses : List String := ["no", "No", "NO", "false", "False", "FALSE", "off", "Off", "OFF"]

/-- The value of a digit in bases up to sixteen. -/
def digitValue (c : Char) : Nat :=
  if c.isDigit then c.toNat - '0'.toNat
  else if 'a' ≤ c ∧ c ≤ 'f' then c.toNat - 'a'.toNat + 10
  else c.toNat - 'A'.toNat + 10

/-- The value of digits in a base, underscores passed over. -/
def valueIn (base : Nat) (digits : List Char) : Nat :=
  digits.foldl (fun acc c => if c = '_' then acc else acc * base + digitValue c) 0

/-- Decimal digits and underscores. -/
def isDigitOrUnderscore (c : Char) : Bool := c.isDigit || c = '_'

/-- Digits that start with a digit, underscores allowed after it, and what follows them. -/
def splitDigits (cs : List Char) : Option (List Char × List Char) :=
  match cs with
  | c :: _ =>
    if c.isDigit then
      some (cs.takeWhile isDigitOrUnderscore, cs.dropWhile isDigitOrUnderscore)
    else none
  | [] => none

/-- A part of a number in base sixty after its first: one digit, or two with the first below six. -/
def isSixtieth : List Char → Bool
  | [c] => c.isDigit
  | [c, d] => '0' ≤ c ∧ c ≤ '5' ∧ d.isDigit
  | _ => false

/-- Digits without a leading zero. -/
def isLeading : List Char → Bool
  | c :: cs => '1' ≤ c ∧ c ≤ '9' ∧ cs.all isDigitOrUnderscore
  | [] => false

/-- A digit of base sixteen. -/
def isHexDigit (c : Char) : Bool :=
  c.isDigit || ('a' ≤ c ∧ c ≤ 'f') || ('A' ≤ c ∧ c ≤ 'F')

/-- The value of decimal digits, unless they are too many. -/
def decimalValue (digits : List Char) : Except Fault Nat :=
  let size := digits.countP Char.isDigit
  if Text.digitLimit < size then .error (.numeralSize size) else .ok (valueIn 10 digits)

/-- An integer without its sign. Binary and hexadecimal digits may all be underscores, which
leaves no integer. -/
def natural? (cs : List Char) : Option (Except Fault Nat) :=
  let based (base : Nat) (digits : List Char) : Except Fault Nat :=
    if digits.all (· = '_') then .error (.numeral base "") else .ok (valueIn base digits)
  match cs with
  | '0' :: 'b' :: digits =>
    if !digits.isEmpty && digits.all (fun c => c = '0' || c = '1' || c = '_') then
      some (based 2 digits)
    else none
  | '0' :: 'x' :: digits =>
    if !digits.isEmpty && digits.all (fun c => isHexDigit c || c = '_') then
      some (based 16 digits)
    else none
  | '0' :: digits =>
    if digits.all (fun c => ('0' ≤ c ∧ c ≤ '7') || c = '_') then some (.ok (valueIn 8 digits))
    else none
  | cs =>
    match Text.parts ':' cs with
    | first :: rest =>
      if isLeading first && rest.all isSixtieth then
        some ((decimalValue first).map fun n =>
          rest.foldl (fun acc part => acc * 60 + valueIn 10 part) n)
      else none
    | [] => none

/-- The exponent of a real: nothing, or a mark, a sign and digits. -/
def exponent? : List Char → Option Int
  | [] => some 0
  | mark :: sign :: digits =>
    if (mark = 'e' ∨ mark = 'E') ∧ (sign = '-' ∨ sign = '+') ∧ digits ≠ [] ∧
        digits.all Char.isDigit = true then
      let size : Int := valueIn 10 digits
      some (if sign = '-' then -size else size)
    else none
  | _ => none

/-- The real of digits on both sides of the point and an exponent. -/
def decimal (negative : Bool) (whole fraction : List Char) (exponent : Int) : Binary64 :=
  .ofDecimal negative (valueIn 10 (whole ++ fraction))
    (exponent - (fraction.filter Char.isDigit).length)

/-- Adds a part to a sum under a weight; the product and the sum are rounded. -/
def addWeighted (weight : Rat) (sum part : Binary64) : Binary64 :=
  match sum.toRat?, part.toRat?.bind fun q => Binary64.nearest? (q * weight) with
  | some a, some b => .ofRat false (a + b)
  | _, _ => .infinite false

/-- A real in base sixty: the sum of its parts under the rounded powers of sixty. A power may
exceed the real numbers. -/
def sexagesimal (negative : Bool) (parts : List Binary64) : Except Fault Binary64 := do
  let total ← parts.reverse.zipIdx.foldlM (fun sum part =>
    match Binary64.nearest? (mkRat (Nat.pow 60 part.2) 1) with
    | some weight => Except.ok (addWeighted weight sum part.1)
    | none => Except.error Fault.unbounded) (Binary64.zero false)
  match total with
  | .finite _ significand exponent => return .finite negative significand exponent
  | .infinite _ => return .infinite negative
  | .nan => return .nan

/-- A real: digits around a point, a base sixty numeral with a point, an infinity or no number. -/
def real? (cs : List Char) : Option (Except Fault Binary64) :=
  let (negative, rest) := Text.splitSign cs
  match splitDigits rest with
  | some (whole, '.' :: after) =>
    let fraction := after.takeWhile isDigitOrUnderscore
    (exponent? (after.dropWhile isDigitOrUnderscore)).map fun exponent =>
      .ok (decimal negative whole fraction exponent)
  | some (_, ':' :: _) =>
    let upToPoint := rest.takeWhile (· ≠ '.')
    let fromPoint := rest.dropWhile (· ≠ '.')
    match Text.parts ':' upToPoint, fromPoint with
    | first :: middle, '.' :: fraction =>
      if middle.all isSixtieth && fraction.all isDigitOrUnderscore then
        let last := decimal false (middle.getLast?.getD []) fraction 0
        some (sexagesimal negative
          ((first :: middle.dropLast).map (fun part => decimal false part [] 0) ++ [last]))
      else none
    | _, _ => none
  | some _ => none
  | none =>
    match cs, rest with
    | '.' :: _, '.' :: c :: after =>
      if c.isDigit then
        let fraction := c :: after.takeWhile isDigitOrUnderscore
        (exponent? (after.dropWhile isDigitOrUnderscore)).map fun exponent =>
          .ok (decimal false [] fraction exponent)
      else (special negative (c :: after) true).map .ok
    | _, '.' :: after => (special negative after false).map .ok
    | _, _ => none
where
  special (negative : Bool) (name : List Char) (unsigned : Bool) : Option Binary64 :=
    let name := String.ofList name
    if name ∈ ["inf", "Inf", "INF"] then some (.infinite negative)
    else if unsigned ∧ name ∈ ["nan", "NaN", "NAN"] then some .nan
    else none

/-- An integer with an optional sign. -/
def integer? (cs : List Char) : Option (Except Fault Int) :=
  let (negative, rest) := Text.splitSign cs
  (natural? rest).map fun result => result.map (Text.withSign negative)

/-- The number of characters of a day without a time of day. -/
def daySize : Nat := 10

/-- A timestamp. -/
def timestamp? (cs : List Char) : Option (Except Fault Timestamp) :=
  if cs.length < daySize then none else (Timestamp.read? cs).map (·.mapError .timePart)

end PlainScalar

/-- The scalar that a spelling stands for. -/
def Scalar.ofPlain (s : String) : Except Fault Scalar :=
  if s ∈ PlainScalar.trues then .ok (.number (.truth true))
  else if s ∈ PlainScalar.falses then .ok (.number (.truth false))
  else
    match PlainScalar.real? s.toList with
    | some result => result.map fun x => .number (.real x)
    | none =>
      match PlainScalar.integer? s.toList with
      | some result => result.map fun i => .number (.whole i)
      | none =>
        match PlainScalar.timestamp? s.toList with
        | some result => result.map .timestamp
        | none => .ok (if s ∈ PlainScalar.nulls then .null else .text s)

end ImemReplay
