import ImemReplay.Document.PlainScalar
import ImemReplay.Document.Tag

/-!
# Tagged scalars

A scalar with a tag is read as the tag says, whatever its spelling looks like. Underscores in
numbers are passed over, and the first characters of an integer choose its base.

Main results:

- Definition `Scalar.ofTagged`: the scalar of a spelling under a tag.
- Theorem `Scalar.ofTagged_text`: as a text every spelling stands for itself.
-/

namespace ImemReplay
namespace TaggedScalar

/-- A spelling without underscores. -/
def stripped (s : String) : List Char := s.toList.filter (· ≠ '_')

/-- The value of a digit of a base. -/
def digitIn? (base : Nat) (c : Char) : Option Nat :=
  (Text.digitValue? c <|> Document.hexValue? c).filter (· < base)

/-- The letters behind a zero that announce a base. -/
def baseLetters (base : Nat) : List Char :=
  if base = 2 then ['b', 'B'] else if base = 8 then ['o', 'O']
  else if base = 16 then ['x', 'X'] else []

/-- Digits without the announcement of their base. -/
def unannounced (base : Nat) : List Char → List Char
  | '0' :: c :: digits => if c ∈ baseLetters base then digits else '0' :: c :: digits
  | digits => digits

/-- The integer of a base that a text spells, with an optional sign and blanks around it. -/
def integerIn (base : Nat) (cs : List Char) : Except Fault Int :=
  let (negative, rest) := Text.splitSign (Text.trimBlanks cs)
  let digits := unannounced base rest
  match digits.mapM (digitIn? base) with
  | some values =>
    if digits.isEmpty then .error (.numeral base (String.ofList cs))
    else .ok (Text.withSign negative (values.foldl (fun n d => n * base + d) 0))
  | none => .error (.numeral base (String.ofList cs))

/-- The decimal integer that a text spells. -/
def decimalInteger (cs : List Char) : Except Fault Int :=
  Value.scalarToInt (.text (String.ofList cs))

/-- An integer behind its sign. -/
def magnitude : List Char → Except Fault Int
  | [] => .error .textIndex
  | ['0'] => .ok 0
  | '0' :: 'b' :: digits => integerIn 2 digits
  | '0' :: 'x' :: digits => integerIn 16 digits
  | '0' :: digits => integerIn 8 ('0' :: digits)
  | cs =>
    if ':' ∈ cs then do
      let parts ← (Text.parts ':' cs).mapM decimalInteger
      return parts.foldl (fun n part => n * 60 + part) 0
    else decimalInteger cs

/-- An integer. -/
def integer (s : String) : Except Fault Int :=
  let cs := stripped s
  if cs.isEmpty then .error .textIndex
  else
    let (negative, rest) := Text.splitSign cs
    (magnitude rest).map fun n => if negative then -n else n

/-- Gives a number a sign. -/
def signed (negative : Bool) : Binary64 → Binary64
  | .finite sign significand exponent => .finite (sign != negative) significand exponent
  | .infinite sign => .infinite (sign != negative)
  | .nan => .nan

/-- Decimal digits of any script as those of core. -/
def plainDigit (c : Char) : Char :=
  match Text.digitValue? c with
  | some d => Char.ofNat ('0'.toNat + d)
  | none => c

/-- The exponent of a real: nothing, or a mark, an optional sign and digits. -/
def exponent? : List Char → Option Int
  | [] => some 0
  | mark :: cs =>
    let (negative, digits) := Text.splitSign cs
    if (mark = 'e' ∨ mark = 'E') ∧ digits ≠ [] ∧ digits.all Char.isDigit = true then
      some (Text.withSign negative (PlainScalar.valueIn 10 digits))
    else none

/-- The real of digits around an optional point, and an optional exponent. -/
def decimal? (cs : List Char) : Option Binary64 :=
  let whole := cs.takeWhile Char.isDigit
  let rest := cs.dropWhile Char.isDigit
  let fraction := if rest.head? = some '.' then (rest.drop 1).takeWhile Char.isDigit else []
  let rest := if rest.head? = some '.' then (rest.drop 1).dropWhile Char.isDigit else rest
  if whole.isEmpty && fraction.isEmpty then none
  else (exponent? rest).map fun exponent => PlainScalar.decimal false whole fraction exponent

/-- The real that a text spells, with an optional sign and blanks around it. -/
def realOf (cs : List Char) : Except Fault Binary64 :=
  let (negative, rest) := Text.splitSign (Text.trimBlanks cs)
  let name := String.ofList (rest.map Char.toLower)
  if name = "inf" ∨ name = "infinity" then .ok (.infinite negative)
  else if name = "nan" then .ok .nan
  else
    match decimal? (rest.map plainDigit) with
    | some x => .ok (signed negative x)
    | none => .error (.realNumeral (String.ofList cs))

/-- A real. -/
def real (s : String) : Except Fault Binary64 :=
  let cs := (stripped s).map Char.toLower
  if cs.isEmpty then .error .textIndex
  else
    let (negative, rest) := Text.splitSign cs
    if rest = ".inf".toList then .ok (.infinite negative)
    else if rest = ".nan".toList then .ok .nan
    else if ':' ∈ rest then do
      let x ← PlainScalar.sexagesimal false (← (Text.parts ':' rest).mapM realOf)
      return signed negative x
    else (realOf rest).map (signed negative)

/-- A truth value. -/
def truth (s : String) : Except Fault Bool :=
  let word := String.ofList (s.toList.map Char.toLower)
  if word ∈ PlainScalar.trues then .ok true
  else if word ∈ PlainScalar.falses then .ok false
  else .error (.keyMissing word)

/-- A timestamp. -/
def timestamp (s : String) : Except Fault Timestamp :=
  match Timestamp.read? s.toList with
  | some result => result.mapError .timePart
  | none => .error .noFields

end TaggedScalar

/-- The scalar of a spelling under a tag. -/
def Scalar.ofTagged (tag : Document.Tag) (s : String) : Except Fault Scalar :=
  match tag with
  | .text => .ok (.text s)
  | .nothing => .ok .null
  | .truth => (TaggedScalar.truth s).map fun b => .number (.truth b)
  | .whole => (TaggedScalar.integer s).map fun i => .number (.whole i)
  | .real => (TaggedScalar.real s).map fun x => .number (.real x)
  | .timestamp => (TaggedScalar.timestamp s).map .timestamp
  | .list | .fields | .merge | .equals | .other => .error .malformed

theorem Scalar.ofTagged_text {s : String} : ofTagged .text s = .ok (.text s) :=
  rfl

end ImemReplay
