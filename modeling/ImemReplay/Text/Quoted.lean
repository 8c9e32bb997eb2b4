import ImemReplay.Text.Surrogate
import ImemReplay.Text.Visible

/-!
# Quoted texts

A text is shown between two quotation marks, so that its ends can be seen. The marks are single
ones unless the text holds a single one and no double one. A backslash stands in front of a
backslash and of the mark itself. Tabs and line ends are written by a letter, and everything else
that is not visible by its code point, surrogates among it.

Main results:

- Theorem `escape_of_visible`: all other characters are written as they are.
- Theorem `le_length_hexadecimal`: a code point is written with no fewer digits than its size.
-/

namespace ImemReplay
namespace Text

/-- The mark that a text is put between. -/
def quotationMark (cs : List Char) : Char :=
  if '\'' ∈ cs ∧ '"' ∉ cs then '"' else '\''

/-- A number in base sixteen, filled up with zeros to a size. -/
def hexadecimal (size n : Nat) : List Char :=
  let digits := Nat.toDigits 16 n
  List.replicate (size - digits.length) '0' ++ digits

theorem le_length_hexadecimal (size n : Nat) : size ≤ (hexadecimal size n).length := by
  simp only [hexadecimal, List.length_append, List.length_replicate]
  omega

/-- A code point by its number, with two, four or eight digits. -/
def numbered (n : Nat) : List Char :=
  if n < 0x100 then '\\' :: 'x' :: hexadecimal 2 n
  else if n < 0x10000 then '\\' :: 'u' :: hexadecimal 4 n
  else '\\' :: 'U' :: hexadecimal 8 n

/-- The written form of a character between two marks. -/
def escape (mark c : Char) : List Char :=
  if c = mark ∨ c = '\\' then ['\\', c]
  else if isVisible c then [c]
  else if c = '\n' then ['\\', 'n']
  else if c = '\r' then ['\\', 'r']
  else if c = '\t' then ['\\', 't']
  else numbered c.toNat

theorem escape_of_visible {mark c : Char} (hmark : c ≠ mark) (hslash : c ≠ '\\')
    (h : isVisible c = true) : escape mark c = [c] := by
  simp [escape, hmark, hslash, h]

/-- The written form of a code point between two marks. -/
def escapeCodePoint (mark : Char) (n : Nat) : List Char :=
  if isSurrogate n then numbered n else escape mark (Char.ofNat n)

/-- A text between quotation marks. -/
def quoted (cs : List Char) : List Char :=
  let mark := quotationMark cs
  mark :: (codePoints cs).flatMap (escapeCodePoint mark) ++ [mark]

example : quoted ['a', '\''] = ['"', 'a', '\'', '"'] := by decide +kernel

example : quoted (spell 0xD83D) = ['\'', '\\', 'u', 'd', '8', '3', 'd', '\''] := by decide +kernel

example : quoted ['\x1B'] = ['\'', '\\', 'x', '1', 'b', '\''] := by decide +kernel

end Text
end ImemReplay
