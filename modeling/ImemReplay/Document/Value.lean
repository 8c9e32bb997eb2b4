import ImemReplay.Fault
import ImemReplay.Text.Numeral
import ImemReplay.Text.Surrogate

/-!
# Values of a document

A document is a scalar, a list of documents, or fields that lead from scalars to documents. Keys
are scalars, and two keys of one value are the same key, so a field under `1` is also the field
under `true` and under `1.0`, and one under a moment is also the field under the same moment by
another clock. This file also says how tables read a document: by key, item by item, and as an
integer.

Not covered are bytes, sets, ordered fields and lists of pairs, which the texts of documents can
also spell by the tags `!!binary`, `!!set`, `!!omap` and `!!pairs`, and lists and fields that hold
themselves through their names. There is no value for any of these: a text that spells one is
refused as malformed (`Value.ofText`), and what is said of all documents is not said of them.

Main results:

- Theorem `toInt_whole`: a whole number is its own integer.
- Definition `insertField`: of two fields under one key the later value stays, in the place and
  under the spelling of the earlier.
-/

namespace ImemReplay

/-- A value without parts. -/
inductive Scalar where
  | null
  | number (value : Number)
  | text (value : String)
  | timestamp (value : Timestamp)
deriving DecidableEq, Repr

namespace Scalar

/-- Two scalars are the same key. -/
def same : Scalar → Scalar → Bool
  | null, null => true
  | number a, number b => a.same b
  | text a, text b => a = b
  | timestamp a, timestamp b => a.same b
  | _, _ => false

/-- The written form of a scalar in a message, unless it has too many digits. -/
def spelling? : Scalar → Option String
  | null => some "None"
  | number value => if value.shown.all Text.isWritable then some value.text else none
  | text value => some value
  | timestamp value => some value.text

end Scalar

/-- A document. -/
inductive Value where
  | scalar (value : Scalar)
  | list (items : List Value)
  | fields (entries : List (Scalar × Value))
deriving Repr, Inhabited

namespace Value

mutual

/-- Whether two documents are equal. -/
def decEq : (a b : Value) → Decidable (a = b)
  | .scalar x, .scalar y =>
    if h : x = y then isTrue (congrArg _ h) else isFalse fun heq => h (scalar.inj heq)
  | .list xs, .list ys =>
    match decEqItems xs ys with
    | isTrue h => isTrue (congrArg _ h)
    | isFalse h => isFalse fun heq => h (list.inj heq)
  | .fields xs, .fields ys =>
    match decEqFields xs ys with
    | isTrue h => isTrue (congrArg _ h)
    | isFalse h => isFalse fun heq => h (fields.inj heq)
  | .scalar _, .list _ | .scalar _, .fields _ | .list _, .scalar _ | .list _, .fields _
  | .fields _, .scalar _ | .fields _, .list _ => isFalse nofun

/-- Whether two lists of documents are equal. -/
def decEqItems : (xs ys : List Value) → Decidable (xs = ys)
  | [], [] => isTrue rfl
  | x :: xs, y :: ys =>
    match decEq x y, decEqItems xs ys with
    | isTrue hitem, isTrue hrest => isTrue (by rw [hitem, hrest])
    | isFalse hitem, _ => isFalse fun heq => hitem (List.cons.inj heq).1
    | _, isFalse hrest => isFalse fun heq => hrest (List.cons.inj heq).2
  | [], _ :: _ | _ :: _, [] => isFalse nofun

/-- Whether the fields of two documents are equal. -/
def decEqFields : (xs ys : List (Scalar × Value)) → Decidable (xs = ys)
  | [], [] => isTrue rfl
  | (k, x) :: xs, (l, y) :: ys =>
    if hkey : k = l then
      match decEq x y, decEqFields xs ys with
      | isTrue hvalue, isTrue hrest => isTrue (by rw [hkey, hvalue, hrest])
      | isFalse hvalue, _ => isFalse fun heq => hvalue (Prod.mk.inj (List.cons.inj heq).1).2
      | _, isFalse hrest => isFalse fun heq => hrest (List.cons.inj heq).2
    else
      isFalse fun heq => hkey (Prod.mk.inj (List.cons.inj heq).1).1
  | [], _ :: _ | _ :: _, [] => isFalse nofun

end

/-- Documents can be compared, so that what a text reads as can be decided. -/
instance : DecidableEq Value := decEq

end Value

/-- The fields of a document, in order. -/
abbrev Fields := List (Scalar × Value)

namespace Fields

/-- The value under a key. -/
def find? (key : Scalar) (entries : Fields) : Option Value :=
  (List.find? (fun entry => entry.1.same key) entries).map (·.2)

/-- Adds a field at the end, or changes the value of a field with the same key. -/
def insertField (entries : Fields) (key : Scalar) (value : Value) : Fields :=
  match entries with
  | [] => [(key, value)]
  | entry :: rest =>
    if entry.1.same key then (entry.1, value) :: rest else entry :: insertField rest key value

end Fields

namespace Value

/-- The document of an integer. -/
def whole (i : Int) : Value := scalar (.number (.whole i))

/-- The document of a text. -/
def text (s : String) : Value := scalar (.text s)

/-- The document without a value. -/
def null : Value := scalar .null

/-- The value under a text key of fields that must have it. -/
def field (v : Value) (key : String) : Except Fault Value :=
  match v with
  | fields entries =>
    match Fields.find? (.text key) entries with
    | some value => .ok value
    | none => .error (.keyMissing key)
  | _ => .error .wrongType

/-- The value under a text key of fields, or a given value if there is none. -/
def fieldD (v : Value) (key : String) (default : Value) : Except Fault Value :=
  match v with
  | fields entries => .ok ((Fields.find? (.text key) entries).getD default)
  | _ => .error .noFields

/-- The parts that a document can be taken into: the items of a list, the code points of a text,
the keys of fields. -/
def items : Value → Except Fault (List Value)
  | list items => .ok items
  | scalar (.text s) =>
    .ok ((Text.codePoints s.toList).map fun n => text (String.ofList (Text.spell n)))
  | fields entries => .ok (entries.map fun entry => scalar entry.1)
  | scalar _ => .error .wrongType

/-- The integer that a scalar stands for: a real loses its fraction, a truth value is zero or
one, and a text must spell an integer. -/
def scalarToInt : Scalar → Except Fault Int
  | .number (.whole i) => .ok i
  | .number (.truth b) => .ok b.toInt
  | .number (.real x) =>
    match x.truncate? with
    | some i => .ok i
    | none => .error (if x = .nan then .notANumber else .unbounded)
  | .text s =>
    match Text.overlong? s, Text.integer? s with
    | some digits, _ => .error (.numeralSize digits)
    | none, some i => .ok i
    | none, none => .error (.numeral 10 s)
  | .null | .timestamp _ => .error .wrongType

/-- The integer that a document stands for. -/
def toInt : Value → Except Fault Int
  | scalar s => scalarToInt s
  | _ => .error .wrongType

@[simp]
theorem toInt_whole (i : Int) : (whole i).toInt = .ok i :=
  rfl

end Value
end ImemReplay
