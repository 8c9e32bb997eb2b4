/-!
# Surrogates in texts

A document may name every code point, the surrogates included, which are no characters. So a text
spells a surrogate by two characters: a mark, which no document holds as such, and the private
character as far behind the private ones' first as the surrogate is behind its own first. The mark
itself is spelled twice, and every other character spells itself.

Main results:

- Definition `spell`: the characters that spell a code point.
- Theorem `codePoints_spell`: a text has exactly the code points that were spelled.
- Theorem `codePoints_of_not_mem`: without a mark the code points are those of the characters.
- Theorem `codePoints_spelled`: a string without surrogates is spelled by its characters.
-/

namespace ImemReplay
namespace Text

/-- The character in front of the second one that spells a surrogate. -/
def surrogateMark : Char := '\uFFFF'

/-- The code points that are no characters. -/
def isSurrogate (n : Nat) : Bool := 0xD800 ≤ n ∧ n < 0xE000

/-- The distance from the surrogates to the characters that stand for them. -/
def surrogateShift : Nat := 0x800

/-- The characters that spell a code point. -/
def spell (n : Nat) : List Char :=
  if isSurrogate n then [surrogateMark, Char.ofNat (n + surrogateShift)]
  else if n = surrogateMark.toNat then [surrogateMark, surrogateMark]
  else [Char.ofNat n]

/-- The code point of a character behind a mark. -/
def ofMarked (c : Char) : Nat :=
  if c = surrogateMark then surrogateMark.toNat else c.toNat - surrogateShift

/-- The code points that are spelled. -/
def codePoints : List Char → List Nat
  | [] => []
  | [c] => [c.toNat]
  | c :: d :: cs =>
    if c = surrogateMark then ofMarked d :: codePoints cs else c.toNat :: codePoints (d :: cs)

/-- The code points are below this number. -/
def codePointBound : Nat := 0x110000

theorem toNat_ofNat_of_valid {n : Nat} (h : n.isValidChar) : (Char.ofNat n).toNat = n := by
  rw [Char.ofNat, dif_pos h]
  rfl

theorem codePoints_cons {c : Char} {cs : List Char} (h : c ≠ surrogateMark) :
    codePoints (c :: cs) = c.toNat :: codePoints cs := by
  cases cs <;> simp [codePoints, h]

theorem codePoints_spell_append {n : Nat} {cs : List Char} (h : n < codePointBound) :
    codePoints (spell n ++ cs) = n :: codePoints cs := by
  by_cases hsurrogate : isSurrogate n = true
  · have hrange : 0xD800 ≤ n ∧ n < 0xE000 := by simpa [isSurrogate] using hsurrogate
    have hvalid : (n + surrogateShift).isValidChar := by
      simp only [surrogateShift, Nat.isValidChar]
      omega
    have hnat := toNat_ofNat_of_valid hvalid
    have hmark : Char.ofNat (n + surrogateShift) ≠ surrogateMark := by
      intro heq
      rw [heq] at hnat
      simp only [surrogateMark, surrogateShift] at hnat
      have : '\uFFFF'.toNat = 0xFFFF := rfl
      omega
    simp [spell, hsurrogate, codePoints, ofMarked, hmark, hnat]
  · have hrange : ¬(0xD800 ≤ n ∧ n < 0xE000) := by simpa [isSurrogate] using hsurrogate
    by_cases hmark : n = surrogateMark.toNat
    · subst hmark
      simp [spell, hsurrogate, codePoints, ofMarked]
    · have hvalid : n.isValidChar := by
        simp only [codePointBound, Nat.isValidChar] at *
        omega
      have hnat := toNat_ofNat_of_valid hvalid
      have hchar : Char.ofNat n ≠ surrogateMark := fun heq => hmark (by rw [← heq, hnat])
      simp only [spell, hsurrogate, Bool.false_eq_true, ↓reduceIte, hmark, List.cons_append,
        List.nil_append]
      rw [codePoints_cons hchar, hnat]

theorem codePoints_spell {ns : List Nat} (h : ∀ n ∈ ns, n < codePointBound) :
    codePoints (ns.flatMap spell) = ns := by
  induction ns with
  | nil => rfl
  | cons n ns ih =>
    rw [List.flatMap_cons, codePoints_spell_append (h n List.mem_cons_self),
      ih fun m hm => h m (List.mem_cons_of_mem n hm)]

theorem codePoints_of_not_mem {cs : List Char} (h : surrogateMark ∉ cs) :
    codePoints cs = cs.map Char.toNat := by
  induction cs with
  | nil => rfl
  | cons c cs ih =>
    rw [List.mem_cons, not_or] at h
    rw [codePoints_cons (Ne.symm h.1), ih h.2, List.map_cons]

/-- The text of a string, whose characters all stand for themselves. -/
def spelled (s : String) : String :=
  String.ofList ((s.toList.map Char.toNat).flatMap spell)

theorem codePoints_spelled {s : String} :
    codePoints (spelled s).toList = s.toList.map Char.toNat := by
  rw [spelled, String.toList_ofList]
  refine codePoints_spell fun n hn => ?_
  obtain ⟨c, -, rfl⟩ := List.mem_map.1 hn
  have hvalid : c.toNat.isValidChar := c.valid
  simp only [codePointBound, Nat.isValidChar] at *
  omega

/-- The string of a text that has no surrogate. -/
def shown (s : String) : String := String.ofList ((codePoints s.toList).map Char.ofNat)

example : codePoints (spell 0xD800 ++ ['a']) = [0xD800, 0x61] := by decide +kernel

end Text
end ImemReplay
