/-!
# Characters and lines of a document

Which characters a document may hold, and which of them end a line, part words, or are digits of a
byte or code point; and how a line ends on which nothing but a comment follows.

Main results:

- Theorem `dropLine_suffix`: what follows a line is the end of the text.
- Theorem `isPrintable_of_isBreak`: every character that ends a line may stand in a document.
- Theorem `hexValue?_lt`: the value of a hexadecimal digit is less than sixteen.
-/

namespace ImemReplay
namespace Document

/-- The characters that end a line. -/
def isBreak (c : Char) : Bool :=
  c = '\n' || c = '\r' || c = '\u0085' || c = '\u2028' || c = '\u2029'

/-- The characters that part words. -/
def isSpaceOrBreak (c : Char) : Bool := c = ' ' || c = '\t' || isBreak c

/-- Whether a word can end here: at the end of the text, a space, or the end of a line. -/
def atBoundary : List Char → Bool
  | [] => true
  | c :: _ => isSpaceOrBreak c

/-- A line end inside a scalar: the two separators of Unicode stay, all others are a line feed. -/
def normalBreak (c : Char) : Char :=
  if c = '\u2028' || c = '\u2029' then c else '\n'

/-- The characters that a text file may hold. -/
def isPrintable (c : Char) : Bool :=
  let n := c.toNat
  n = 0x09 || n = 0x0A || n = 0x0D || (0x20 ≤ n && n ≤ 0x7E) || n = 0x85 ||
    (0xA0 ≤ n && n ≤ 0xD7FF) || (0xE000 ≤ n && n ≤ 0xFFFD) ||
    (0x10000 ≤ n && n ≤ 0x10FFFF)

/-- The value of a hexadecimal digit. -/
def hexValue? (c : Char) : Option Nat :=
  if c.isDigit then some (c.toNat - '0'.toNat)
  else if 'a' ≤ c ∧ c ≤ 'f' then some (c.toNat - 'a'.toNat + 10)
  else if 'A' ≤ c ∧ c ≤ 'F' then some (c.toNat - 'A'.toNat + 10)
  else none

/-- What follows a line of which only blanks and a comment are left. -/
def dropLine (cs : List Char) : Option (List Char) :=
  let rest := cs.dropWhile (· = ' ')
  let rest := if rest.head? = some '#' then rest.dropWhile fun c => !isBreak c else rest
  match rest with
  | [] => some []
  | c :: rest => if isBreak c then some rest else none

theorem isPrintable_of_isBreak {c : Char} (h : isBreak c = true) : isPrintable c = true := by
  simp only [isBreak, Bool.or_eq_true, decide_eq_true_eq] at h
  rcases h with (((rfl | rfl) | rfl) | rfl) | rfl <;> decide

theorem hexValue?_lt {c : Char} {n : Nat} (h : hexValue? c = some n) : n < 16 := by
  have hle {a b : Char} : a ≤ b ↔ a.toNat ≤ b.toNat := Char.le_def.trans UInt32.le_iff_toNat_le
  have hnine : '9'.val.toNat = 57 := rfl
  have hzero : '0'.toNat = 48 := rfl
  have ha : 'a'.toNat = 97 := rfl
  have hf : 'f'.toNat = 102 := rfl
  have hA : 'A'.toNat = 65 := rfl
  have hF : 'F'.toNat = 70 := rfl
  simp only [hexValue?] at h
  split at h
  · next hdigit =>
    simp only [Char.isDigit, Bool.and_eq_true, decide_eq_true_eq] at hdigit
    have := UInt32.le_iff_toNat_le.1 hdigit.2
    have hval : c.val.toNat = c.toNat := rfl
    simp only [Option.some.injEq] at h
    omega
  · split at h
    · next hletter =>
      have := hle.1 hletter.2
      simp only [Option.some.injEq] at h
      omega
    · split at h
      · next hletter =>
        have := hle.1 hletter.2
        simp only [Option.some.injEq] at h
        omega
      · simp at h

theorem dropLine_suffix {cs rest : List Char} (h : dropLine cs = some rest) : rest <:+ cs := by
  have hblank : cs.dropWhile (· = ' ') <:+ cs := List.dropWhile_suffix _
  simp only [dropLine] at h
  generalize cs.dropWhile (· = ' ') = tail at h hblank
  have hline : (if tail.head? = some '#' then tail.dropWhile fun c => !isBreak c else tail)
      <:+ tail := by
    split
    · exact List.dropWhile_suffix _
    · exact List.suffix_rfl
  generalize (if tail.head? = some '#' then tail.dropWhile fun c => !isBreak c else tail) = line
    at h hline
  split at h
  · simp only [Option.some.injEq] at h
    exact h ▸ hline.trans hblank
  · split at h
    · simp only [Option.some.injEq] at h
      exact h ▸ ((List.suffix_cons _ _).trans hline).trans hblank
    · simp at h

end Document
end ImemReplay
