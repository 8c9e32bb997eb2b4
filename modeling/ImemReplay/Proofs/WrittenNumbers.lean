import ImemReplay.Document.Value
import Mathlib.Data.List.TakeWhile

/-!
# Written numbers

An integer is written with its digits and, if it is negative, a sign in front of them.  The text
spells the integer that was written and no other.  A numeral has a limit of digits, so the integers
that can be written are also those whose text can be read as a value of a document.

Main results:

- Theorem `isIntegerChar_of_mem_toString`: a written integer consists of digits and the sign.
- Theorem `integer?_toString`: a written integer is read back.
- Theorem `toInt_text_toString`: the text of an integer stands for it, if it can be written.
-/

namespace ImemReplay
namespace Text

/-! ## Digits -/

theorem toNat_of_isDigit {c : Char} (h : c.isDigit = true) : 48 ≤ c.toNat ∧ c.toNat < 58 := by
  simp only [Char.isDigit, Bool.and_eq_true, decide_eq_true_eq, ge_iff_le,
    UInt32.le_iff_toNat_le] at h
  exact ⟨h.1, Nat.lt_succ_of_le h.2⟩

/-- The ten digits have their distance from zero as values. -/
theorem digitValue?_of_isDigit {c : Char} (h : c.isDigit = true) :
    digitValue? c = some (c.toNat - '0'.toNat) := by
  have hfind : digitZeros.find? (fun start => start ≤ c.toNat && c.toNat < start + 10) =
      some 48 := by
    apply List.find?_cons_of_pos
    simpa using toNat_of_isDigit h
  rw [digitValue?, hfind]
  rfl

/-- A digit is no blank. -/
theorem isBlank_of_isDigit {c : Char} (h : c.isDigit = true) : isBlank c = false := by
  have hrange := toNat_of_isDigit h
  simp only [isBlank, blankRanges, List.any_cons, List.any_nil, Bool.or_false, Bool.or_eq_false_iff,
    Bool.and_eq_false_iff, decide_eq_false_iff_not]
  omega

/-- Digits continue a numeral by their value. -/
theorem digitsFrom_of_isDigit {cs : List Char} (h : ∀ c ∈ cs, c.isDigit = true) (acc : Nat) :
    digitsFrom acc cs = some (Nat.ofDigitChars 10 cs acc) := by
  induction cs generalizing acc with
  | nil => rfl
  | cons c cs ih =>
    rcases List.forall_mem_cons.1 h with ⟨hc, hcs⟩
    have hplain : c ≠ '_' := by
      rintro rfl
      cases hc
    rw [Nat.ofDigitChars_cons, ← ih hcs, digitsFrom, digitValue?_of_isDigit hc, Option.bind_some]
    rintro d ds rfl
    exact absurd rfl hplain

theorem isDigit_of_mem_digits {n : Nat} {c : Char} (h : c ∈ Nat.toDigits 10 n) :
    c.isDigit = true :=
  Nat.isDigit_of_mem_toDigits (by decide) (by decide) h

/-- The digits of a number are a first one and others behind it, and they have its value. -/
theorem toDigits_eq_cons (n : Nat) :
    ∃ c cs, Nat.toDigits 10 n = c :: cs ∧ c.isDigit = true ∧ (∀ d ∈ cs, d.isDigit = true) ∧
      Nat.ofDigitChars 10 cs (c.toNat - '0'.toNat) = n := by
  have hdigits : ∀ c ∈ Nat.toDigits 10 n, c.isDigit = true := fun c hc => isDigit_of_mem_digits hc
  have hvalue : Nat.ofDigitChars 10 (Nat.toDigits 10 n) 0 = n := Nat.ofDigitChars_ten_toDigits
  cases hcs : Nat.toDigits 10 n with
  | nil => exact absurd hcs Nat.toDigits_ne_nil
  | cons c cs =>
    rw [hcs] at hdigits hvalue
    rcases List.forall_mem_cons.1 hdigits with ⟨hc, hrest⟩
    rw [Nat.ofDigitChars_cons, Nat.mul_zero, Nat.zero_add] at hvalue
    exact ⟨c, cs, rfl, hc, hrest, hvalue⟩

/-- The digits of a number have its value. -/
theorem natural?_toDigits (n : Nat) : natural? (Nat.toDigits 10 n) = some n := by
  rcases toDigits_eq_cons n with ⟨c, cs, hcs, hc, hrest, hvalue⟩
  rw [hcs, natural?, digitValue?_of_isDigit hc, Option.bind_some, digitsFrom_of_isDigit hrest,
    hvalue]

/-! ## Integers -/

/-- An integer is written with the digits of its magnitude, behind a sign if it is negative. -/
theorem toList_toString (i : Int) :
    (toString i).toList =
      if 0 ≤ i then Nat.toDigits 10 i.natAbs else '-' :: Nat.toDigits 10 i.natAbs := by
  rw [Int.toString_eq_repr, Int.repr_eq_if]
  split
  · next h => rw [Nat.toList_repr, show i.toNat = i.natAbs by omega]
  · next h => rw [String.toList_append, Nat.toList_repr, show (-i).toNat = i.natAbs by omega]; rfl

/-- A character that integers are written with. -/
def isIntegerChar (c : Char) : Bool := c.isDigit || c = '-'

theorem isIntegerChar_of_isDigit {c : Char} (h : c.isDigit = true) : isIntegerChar c = true := by
  rw [isIntegerChar, h, Bool.true_or]

/-- The characters of a written integer are digits and the sign. -/
theorem isIntegerChar_of_mem_toString {i : Int} {c : Char} (h : c ∈ (toString i).toList) :
    isIntegerChar c = true := by
  rw [toList_toString] at h
  split at h
  · exact isIntegerChar_of_isDigit (isDigit_of_mem_digits h)
  · rcases List.mem_cons.1 h with rfl | hc
    · rfl
    · exact isIntegerChar_of_isDigit (isDigit_of_mem_digits hc)

/-- Any other character is in no written integer. -/
theorem not_mem_toString {c : Char} (h : isIntegerChar c = false) (i : Int) :
    c ∉ (toString i).toList := by
  intro hc
  rw [isIntegerChar_of_mem_toString hc] at h
  cases h

theorem toString_ne_nil (i : Int) : (toString i).toList ≠ [] := by
  rw [toList_toString]
  split
  · exact Nat.toDigits_ne_nil
  · simp

/-- Texts without blanks are not trimmed. -/
theorem trimBlanks_eq_self {cs : List Char} (h : ∀ c ∈ cs, isBlank c = false) :
    trimBlanks cs = cs := by
  have hkept : ∀ {ds : List Char}, (∀ c ∈ ds, isBlank c = false) → ds.dropWhile isBlank = ds := by
    intro ds hds
    cases ds with
    | nil => rfl
    | cons d ds => exact List.dropWhile_cons_of_neg (by simp [hds d List.mem_cons_self])
  rw [trimBlanks, hkept h, hkept (fun c hc => h c (List.mem_reverse.1 hc)), List.reverse_reverse]

theorem trimBlanks_toString (i : Int) : trimBlanks (toString i).toList = (toString i).toList := by
  apply trimBlanks_eq_self
  intro c hc
  have hchar := isIntegerChar_of_mem_toString hc
  simp only [isIntegerChar, Bool.or_eq_true, decide_eq_true_eq] at hchar
  rcases hchar with hdigit | rfl
  · exact isBlank_of_isDigit hdigit
  · decide

/-- The sign of a written integer and its digits. -/
theorem splitSign_toString (i : Int) :
    splitSign (toString i).toList = (decide (i < 0), Nat.toDigits 10 i.natAbs) := by
  rw [toList_toString]
  split
  · next h =>
    have hsign : decide (i < 0) = false := decide_eq_false (Int.not_lt.2 h)
    rw [hsign]
    cases hcs : Nat.toDigits 10 i.natAbs with
    | nil => rfl
    | cons c cs =>
      have hc : c.isDigit = true := isDigit_of_mem_digits (by rw [hcs]; exact List.mem_cons_self)
      unfold splitSign
      split
      · next heq => cases heq; cases hc
      · next heq => cases heq; cases hc
      · rfl
  · next h =>
    have hsign : decide (i < 0) = true := decide_eq_true (Int.not_le.1 h)
    rw [hsign]
    rfl

/-- A written integer is read back. -/
theorem integer?_toString (i : Int) : integer? (toString i) = some i := by
  rw [integer?, trimBlanks_toString, signed?, splitSign_toString, natural?_toDigits,
    Option.map_some]
  simp only [withSign, decide_eq_true_eq, Option.some.injEq]
  split <;> omega

/-- Digits alone are as many as there are characters. -/
theorem excess?_of_isDigit {cs : List Char} (h : ∀ c ∈ cs, c.isDigit = true) {n : Nat}
    (hvalue : natural? cs = some n) :
    excess? cs = if digitLimit < cs.length then some cs.length else none := by
  have hrun : cs.takeWhile isNumeralChar = cs := by
    rw [List.takeWhile_eq_self_iff]
    intro c hc
    simp [isNumeralChar, digitValue?_of_isDigit (h c hc)]
  have hsize : cs.countP (fun c => decide (c ≠ '_')) = cs.length := by
    rw [List.countP_eq_length]
    intro c hc
    have hdigit := h c hc
    simp only [decide_eq_true_eq]
    rintro rfl
    cases hdigit
  simp only [excess?, hrun, hsize, hvalue, Option.isSome_some, and_true]

/-- A written integer has too many digits to be read exactly if it cannot be written. -/
theorem overlong?_toString (i : Int) :
    overlong? (toString i) =
      if isWritable i then none else some (toString i.natAbs).length := by
  have hdigits : (toString i.natAbs).length = (Nat.toDigits 10 i.natAbs).length := by
    rw [Nat.toString_eq_repr, ← String.length_toList, Nat.toList_repr]
  have hwritable : isWritable i = true ↔ (Nat.toDigits 10 i.natAbs).length ≤ digitLimit := by
    rw [isWritable_iff, ← hdigits, Nat.toString_eq_repr]
  rw [overlong?, trimBlanks_toString, splitSign_toString,
    excess?_of_isDigit (fun c hc => isDigit_of_mem_digits hc) (natural?_toDigits _), hdigits]
  by_cases h : isWritable i = true
  · rw [if_pos h, if_neg (Nat.not_lt.2 (hwritable.1 h))]
  · rw [if_neg h, if_pos (Nat.not_le.1 (mt hwritable.2 h))]

end Text

/-- The text of an integer stands for the integer, unless it has too many digits. -/
theorem Value.toInt_text_toString (i : Int) :
    (Value.text (toString i)).toInt =
      if Text.isWritable i then .ok i else .error (.numeralSize (toString i.natAbs).length) := by
  simp only [Value.toInt, Value.text, Value.scalarToInt, Text.overlong?_toString,
    Text.integer?_toString]
  by_cases h : Text.isWritable i = true
  · simp only [if_pos h]
  · simp only [if_neg h]

end ImemReplay
