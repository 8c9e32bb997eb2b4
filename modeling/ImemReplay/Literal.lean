import ImemReplay.Fault

/-!
# Literals

A literal is a number that names a variable together with a polarity: `2 * v` asserts variable
`v` and `2 * v + 1` denies it. Frames may carry any integer where a literal is expected, so every
operation refuses a negative one.

Main results:

- Theorem `var_ofVar` and theorem `isComplement_ofVar`: a literal gives back what it was made of.
- Theorem `negate_negate`: negation is its own inverse.
-/

namespace ImemReplay

namespace Literal

/-- The literal of a variable, denied if `complement` is set. -/
def ofVar (id : Int) (complement : Bool) : Except Fault Int :=
  if id < 0 then .error (.negativeVariable id) else .ok (2 * id + complement.toInt)

/-- The variable of a literal. -/
def var (l : Int) : Except Fault Int :=
  if l < 0 then .error (.negativeLiteral l) else .ok (l / 2)

/-- Whether a literal denies its variable. -/
def isComplement (l : Int) : Except Fault Bool :=
  if l < 0 then .error (.negativeLiteral l) else .ok (l % 2 = 1)

/-- The literal of the same variable and the other polarity. -/
def negate (l : Int) : Except Fault Int :=
  if l < 0 then .error (.negativeLiteral l) else .ok (if l % 2 = 1 then l - 1 else l + 1)

theorem var_of_nonneg {l : Int} (h : 0 ≤ l) : var l = .ok (l / 2) :=
  if_neg (by omega)

theorem var_of_neg {l : Int} (h : l < 0) : var l = .error (.negativeLiteral l) :=
  if_pos h

theorem isComplement_of_nonneg {l : Int} (h : 0 ≤ l) :
    isComplement l = .ok (decide (l % 2 = 1)) :=
  if_neg (by omega)

theorem negate_of_nonneg {l : Int} (h : 0 ≤ l) :
    negate l = .ok (if l % 2 = 1 then l - 1 else l + 1) :=
  if_neg (by omega)

theorem var_ofVar {id : Int} {complement : Bool} {l : Int}
    (h : ofVar id complement = .ok l) : var l = .ok id := by
  by_cases hid : id < 0
  · simp [ofVar, hid] at h
  · simp only [ofVar, hid, ↓reduceIte, Except.ok.injEq] at h
    subst h
    cases complement <;> simp only [Bool.toInt, cond_true, cond_false] <;>
      rw [var_of_nonneg (by omega)] <;> congr 1 <;> omega

theorem isComplement_ofVar {id : Int} {complement : Bool} {l : Int}
    (h : ofVar id complement = .ok l) : isComplement l = .ok complement := by
  by_cases hid : id < 0
  · simp [ofVar, hid] at h
  · simp only [ofVar, hid, ↓reduceIte, Except.ok.injEq] at h
    subst h
    cases complement <;> simp only [Bool.toInt, cond_true, cond_false] <;>
      rw [isComplement_of_nonneg (by omega)] <;> congr 1 <;> simp

theorem negate_negate {l m : Int} (h : negate l = .ok m) : negate m = .ok l := by
  by_cases hl : l < 0
  · simp [negate, hl] at h
  · simp only [negate, hl, ↓reduceIte, Except.ok.injEq] at h
    subst h
    split
    · rw [negate_of_nonneg (by omega), if_neg (by omega)]
      congr 1
      omega
    · rw [negate_of_nonneg (by omega), if_pos (by omega)]
      congr 1
      omega

end Literal
end ImemReplay
