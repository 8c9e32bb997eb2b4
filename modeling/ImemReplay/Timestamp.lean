/-!
# Timestamps

A timestamp is a day of the calendar, or a moment of a day by a clock. A clock may tell by how many
minutes it is ahead of the universal time; two moments by such clocks are the same if they are the
same moment of universal time.

Main results:

- Definition `Timestamp.read?`: the timestamp that a text spells, or its part that does not exist.
- Theorem `Day.check_eq_ok_iff`: the days that exist.
- Theorem `Timestamp.same_self`: every timestamp is the same as itself.
-/

namespace ImemReplay

/-- A part of a timestamp whose value does not exist. -/
inductive TimePart where
  | year (value : Nat)
  | month
  | day
  | hour
  | minute
  | second
  /-- A clock that is a day or more away from the universal time. -/
  | offset (minutes : Int)
deriving DecidableEq, Repr

/-- A day of the calendar. -/
structure Day where
  year : Nat
  month : Nat
  day : Nat
deriving DecidableEq, Repr

namespace Day

/-- Whether a year has a day more than others. -/
def isLeap (year : Nat) : Bool := year % 4 = 0 && (year % 100 ≠ 0 || year % 400 = 0)

/-- The number of days of a month. -/
def daysIn (year month : Nat) : Nat :=
  if month = 2 then (if isLeap year then 29 else 28)
  else if month = 4 ∨ month = 6 ∨ month = 9 ∨ month = 11 then 30
  else 31

/-- The first part of a day that does not exist, from the year on. -/
def check (d : Day) : Except TimePart Unit :=
  if d.year = 0 then .error (.year d.year)
  else if d.month = 0 ∨ 12 < d.month then .error .month
  else if d.day = 0 ∨ daysIn d.year d.month < d.day then .error .day
  else .ok ()

theorem check_eq_ok_iff {d : Day} :
    d.check = .ok () ↔ 0 < d.year ∧ 0 < d.month ∧ d.month ≤ 12 ∧ 0 < d.day ∧
      d.day ≤ daysIn d.year d.month := by
  simp only [check]
  split
  · simp
    omega
  · split
    · simp
      omega
    · split <;> simp <;> omega

/-- The number of days in front of a day. -/
def ordinal (d : Day) : Nat :=
  let years := d.year - 1
  years * 365 + years / 4 - years / 100 + years / 400 +
    (List.range (d.month - 1)).foldl (fun sum month => sum + daysIn d.year (month + 1)) 0 +
    (d.day - 1)

end Day

/-- A time of day by a clock. -/
structure Clock where
  hour : Nat
  minute : Nat
  second : Nat
  microsecond : Nat := 0
  /-- The minutes by which the clock is ahead of the universal time, if it tells. -/
  offset? : Option Int := none
deriving DecidableEq, Repr

namespace Clock

/-- The first part of a time of day that does not exist, from the hour on. -/
def check (c : Clock) : Except TimePart Unit :=
  if 23 < c.hour then .error .hour
  else if 59 < c.minute then .error .minute
  else if 59 < c.second then .error .second
  else .ok ()

/-- The minutes between a clock and the universal time must be less than those of a day. -/
def checkOffset (c : Clock) : Except TimePart Unit :=
  match c.offset? with
  | some minutes => if minutes.natAbs < 1440 then .ok () else .error (.offset minutes)
  | none => .ok ()

end Clock

/-- A day, or a moment of it. -/
structure Timestamp where
  day : Day
  clock? : Option Clock := none
deriving DecidableEq, Repr

namespace Timestamp

/-- The microseconds of universal time up to a moment by a clock that is some minutes ahead. -/
def instant (d : Day) (c : Clock) (minutes : Int) : Int :=
  ((((d.ordinal : Int) * 24 + c.hour) * 60 + c.minute - minutes) * 60 + c.second) * 1000000 +
    c.microsecond

/-- Two spellings of one timestamp. A day is no moment, and a moment by a clock that does not tell
its offset is no moment of universal time. -/
def same (a b : Timestamp) : Bool :=
  match a.clock?, b.clock? with
  | some c, some d =>
    match c.offset?, d.offset? with
    | some m, some n => instant a.day c m = instant b.day d n
    | none, none => a = b
    | _, _ => false
  | _, _ => a = b

theorem same_self (a : Timestamp) : a.same a = true := by
  simp only [same]
  split
  · next c d hc hd =>
    obtain rfl : c = d := Option.some.inj (hc.symm.trans hd)
    cases c.offset? <;> simp
  · simp

/-! ### Writing -/

/-- A number with at least so many digits. -/
def padded (size n : Nat) : String :=
  String.ofList (List.replicate (size - n.repr.length) '0') ++ n.repr

/-- The written form of an offset. -/
def offsetText (minutes : Int) : String :=
  (if minutes < 0 then "-" else "+") ++ padded 2 (minutes.natAbs / 60) ++ ":" ++
    padded 2 (minutes.natAbs % 60)

/-- The written form of a time of day. -/
def clockText (c : Clock) : String :=
  padded 2 c.hour ++ ":" ++ padded 2 c.minute ++ ":" ++ padded 2 c.second ++
    (if c.microsecond = 0 then "" else "." ++ padded 6 c.microsecond) ++
    (c.offset?.map offsetText).getD ""

/-- The written form of a timestamp. -/
def text (t : Timestamp) : String :=
  padded 4 t.day.year ++ "-" ++ padded 2 t.day.month ++ "-" ++ padded 2 t.day.day ++
    (t.clock?.map fun c => " " ++ clockText c).getD ""

/-! ### Reading -/

/-- The value of decimal digits. -/
def valueOf (digits : List Char) : Nat :=
  digits.foldl (fun n c => 10 * n + (c.toNat - '0'.toNat)) 0

/-- A number of so many digits, and what follows it. -/
def readDigits? (least most : Nat) (cs : List Char) : Option (Nat × List Char) :=
  let digits := (cs.take most).takeWhile Char.isDigit
  if digits.length < least then none else some (valueOf digits, cs.drop digits.length)

/-- What follows a character. -/
def after? (c : Char) : List Char → Option (List Char)
  | d :: cs => if d = c then some cs else none
  | [] => none

/-- A day, and what follows it. -/
def readDay? (cs : List Char) : Option (Day × List Char) := do
  let (year, cs) ← readDigits? 4 4 cs
  let (month, cs) ← readDigits? 1 2 (← after? '-' cs)
  let (day, cs) ← readDigits? 1 2 (← after? '-' cs)
  return (⟨year, month, day⟩, cs)

/-- The microseconds of the digits behind a point. -/
def microseconds (digits : List Char) : Nat :=
  let kept := digits.take 6
  valueOf kept * Nat.pow 10 (6 - kept.length)

/-- The blanks between the parts of a timestamp. -/
def isBlank (c : Char) : Bool := c = ' ' || c = '\t'

/-- The offset at the end of a timestamp: nothing, the letter of the universal time, or a sign with
hours and perhaps minutes. -/
def readOffset? : List Char → Option (Option Int)
  | [] => some none
  | cs =>
    match cs.dropWhile isBlank with
    | ['Z'] => some (some 0)
    | sign :: cs => do
      guard (sign = '+' ∨ sign = '-')
      let (hours, cs) ← readDigits? 1 2 cs
      let (minutes, cs) ← if cs.isEmpty then some (0, cs) else after? ':' cs >>= readDigits? 2 2
      guard cs.isEmpty
      let ahead : Int := (hours * 60 + minutes : Nat)
      return some (if sign = '-' then -ahead else ahead)
    | [] => none

/-- A time of day up to the end of a timestamp. -/
def readClock? (cs : List Char) : Option Clock := do
  let (hour, cs) ← readDigits? 1 2 cs
  let (minute, cs) ← readDigits? 2 2 (← after? ':' cs)
  let (second, cs) ← readDigits? 2 2 (← after? ':' cs)
  let fraction := if cs.head? = some '.' then (cs.drop 1).takeWhile Char.isDigit else []
  let cs := if cs.head? = some '.' then (cs.drop 1).dropWhile Char.isDigit else cs
  return { hour, minute, second, microsecond := microseconds fraction, offset? := ← readOffset? cs }

/-- What stands between a day and the time of day: one letter, or blanks. -/
def behindDay? : List Char → Option (List Char)
  | c :: cs =>
    if c = 'T' ∨ c = 't' then some cs else if isBlank c then some (cs.dropWhile isBlank) else none
  | [] => none

/-- The parts of a timestamp, whether they exist or not. -/
def parts? (cs : List Char) : Option Timestamp := do
  let (day, cs) ← readDay? cs
  if cs.isEmpty then return { day }
  return { day, clock? := some (← readClock? (← behindDay? cs)) }

/-- A timestamp whose parts exist. -/
def checked (t : Timestamp) : Except TimePart Timestamp := do
  if let some c := t.clock? then c.checkOffset
  t.day.check
  if let some c := t.clock? then c.check
  return t

/-- The timestamp that a text spells. -/
def read? (cs : List Char) : Option (Except TimePart Timestamp) :=
  (parts? cs).map checked

example : (read? "2001-02-29".toList).map Except.toOption = some none := by decide

example : (read? "2001-12-14t21:59:43.10 -5".toList).bind Except.toOption =
    some { day := ⟨2001, 12, 14⟩, clock? := some ⟨21, 59, 43, 100000, some (-300)⟩ } := by
  decide +kernel

end Timestamp
end ImemReplay
