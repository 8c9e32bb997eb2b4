import ImemReplay.Program

/-!
# Passes over literals

Every operation on a literal refuses a negative one.  A pass over a list of literals therefore
ends at the first negative literal of the list, whatever the pass computes.  `Literal.checked`
says this once, so that each pass is described by its value on lists without negative literals.

Main results:

- Theorem `checked_eq_ok_iff`: a checked value is given exactly for lists without negative
  literals.
- Theorem `checked_eq_error_iff`: a list with negative literals fails at the first of them.
- Theorem `namesLiteral_negativeLiteral`: how the fault of a negative literal is reported.
- Theorem `assertsVariable_opposite`: the opposite literal asserts what the literal denies.
- Theorem `negateAll_eq_checked`: negating a list maps `opposite` over a checked list.
-/

namespace ImemReplay

namespace Fault

/-- The fault that is reported shows a literal, or is about its size if it cannot be written. -/
structure NamesLiteral (fault : Fault) (l : Int) : Prop where
  message_eq : Text.isWritable l = true →
    fault.reported.message? = s!"negative literal: {l}"
  of_unwritable : Text.isWritable l = false → fault.reported = .integerSize

theorem namesLiteral_negativeLiteral (l : Int) : (negativeLiteral l).NamesLiteral l := by
  constructor
  case message_eq =>
    intro hwritable
    rw [reported_eq_self (by simp [shown, hwritable])]
    rfl
  case of_unwritable =>
    intro hnot
    exact if_neg (by simp [shown, hnot])

/-- A negative literal that cannot be written is not shown. -/
theorem reported_negativeLiteral_unwritable :
    (negativeLiteral (-Text.leastUnwritable)).reported = .integerSize :=
  (namesLiteral_negativeLiteral _).of_unwritable
    (Text.isWritable_neg.trans Text.isWritable_leastUnwritable)

end Fault

namespace Literal

/-! ## Checked lists -/

/-- A value that depends on a list of literals; the first negative literal is its fault. -/
def checked {α : Type} (lits : List Int) (value : α) : Except Fault α :=
  match lits.find? (· < 0) with
  | some l => .error (.negativeLiteral l)
  | none => .ok value

@[simp]
theorem checked_nil {α : Type} (value : α) : checked [] value = .ok value :=
  rfl

/-- A literal that is not negative does not matter to the check. -/
theorem checked_cons_of_nonneg {α : Type} {l : Int} (lits : List Int) (value : α) (h : 0 ≤ l) :
    checked (l :: lits) value = checked lits value := by
  unfold checked
  rw [List.find?_cons_of_neg (by simpa using h)]

/-- A negative literal in front is the fault. -/
theorem checked_cons_of_neg {α : Type} {l : Int} (lits : List Int) (value : α) (h : l < 0) :
    checked (l :: lits) value = .error (.negativeLiteral l) := by
  unfold checked
  rw [List.find?_cons_of_pos (by simpa using h)]

/-- A list without negative literals passes the check. -/
theorem checked_of_nonneg {α : Type} {lits : List Int} (value : α) (h : ∀ l ∈ lits, 0 ≤ l) :
    checked lits value = .ok value := by
  induction lits with
  | nil => rfl
  | cons l lits ih =>
    rw [checked_cons_of_nonneg lits value (h l List.mem_cons_self)]
    exact ih fun m hm => h m (List.mem_cons_of_mem l hm)

/-- A checked value is given exactly for the lists without negative literals. -/
theorem checked_eq_ok_iff {α : Type} {lits : List Int} {value result : α} :
    checked lits value = .ok result ↔ (∀ l ∈ lits, 0 ≤ l) ∧ value = result := by
  constructor
  · intro h
    cases hfind : lits.find? (· < 0) with
    | some l => simp [checked, hfind] at h
    | none =>
      have hnonneg : ∀ l ∈ lits, 0 ≤ l := by simpa [List.find?_eq_none] using hfind
      rw [checked_of_nonneg value hnonneg] at h
      exact ⟨hnonneg, Except.ok.inj h⟩
  · rintro ⟨hnonneg, rfl⟩
    exact checked_of_nonneg value hnonneg

/-- A list fails the check at its first negative literal, which the fault names. -/
theorem checked_eq_error_iff {α : Type} {lits : List Int} {value : α} {fault : Fault} :
    checked lits value = .error fault ↔
      ∃ front l back, lits = front ++ l :: back ∧ l < 0 ∧ (∀ m ∈ front, 0 ≤ m) ∧
        fault = .negativeLiteral l := by
  constructor
  · intro h
    cases hfind : lits.find? (· < 0) with
    | none => simp [checked, hfind] at h
    | some l =>
      rcases List.find?_eq_some_iff_append.1 hfind with ⟨hneg, front, back, hsplit, hfront⟩
      have hfault : Fault.negativeLiteral l = fault := by simpa [checked, hfind] using h
      exact ⟨front, l, back, hsplit, by simpa using hneg, by simpa using hfront, hfault.symm⟩
  · rintro ⟨front, l, back, rfl, hneg, hfront, rfl⟩
    have hfind : (front ++ l :: back).find? (· < 0) = some l := by
      apply List.find?_eq_some_iff_append.2
      exact ⟨by simpa using hneg, front, back, rfl, by simpa using hfront⟩
    rw [checked, hfind]

/-- A list that fails the check has a negative literal, the one that the fault names. -/
theorem exists_neg_of_checked_error {α : Type} {lits : List Int} {value : α} {fault : Fault}
    (h : checked lits value = .error fault) :
    ∃ l ∈ lits, l < 0 ∧ fault = .negativeLiteral l := by
  rcases checked_eq_error_iff.1 h with ⟨front, l, back, rfl, hneg, -, hfault⟩
  exact ⟨l, List.mem_append_right front List.mem_cons_self, hneg, hfault⟩

/-- What is computed from a checked value is checked by the same list. -/
@[simp]
theorem map_checked {α β : Type} (lits : List Int) (value : α) (f : α → β) :
    (checked lits value).map f = checked lits (f value) := by
  unfold checked
  split <;> rfl

/-! ## Polarity -/

/-- Whether a literal asserts its variable. -/
def assertsVariable (l : Int) : Bool := l % 2 = 0

/-- The literal of the same variable with the other polarity. -/
def opposite (l : Int) : Int := if l % 2 = 1 then l - 1 else l + 1

/-- Denial is the opposite of assertion. -/
theorem isComplement_eq {l : Int} (h : 0 ≤ l) : isComplement l = .ok (!assertsVariable l) := by
  have hparity : decide (l % 2 = 1) = !decide (l % 2 = 0) := by
    rw [← decide_not, decide_eq_decide]
    omega
  rw [isComplement_of_nonneg h, hparity, assertsVariable]

/-- A literal is recovered from its variable and its polarity. -/
theorem eq_of_polarity (l : Int) : l = 2 * (l / 2) + (1 - (assertsVariable l).toInt) := by
  unfold assertsVariable
  by_cases h : l % 2 = 0
  · simp only [h, decide_true, Bool.toInt, cond_true]
    omega
  · simp only [h, decide_false, Bool.toInt, cond_false]
    omega

/-- The variable and the polarity of a literal are the ones that it is made of. -/
theorem polarity_unique {l input : Int} {value : Bool} (h : l = 2 * input + (1 - value.toInt)) :
    l / 2 = input ∧ assertsVariable l = value := by
  unfold assertsVariable
  cases value with
  | false =>
    simp only [Bool.toInt, cond_false] at h
    exact ⟨by omega, decide_eq_false (by omega)⟩
  | true =>
    simp only [Bool.toInt, cond_true] at h
    exact ⟨by omega, decide_eq_true (by omega)⟩

theorem opposite_ediv (l : Int) : opposite l / 2 = l / 2 := by
  unfold opposite
  split <;> omega

/-- The opposite literal asserts its variable exactly when the literal denies it. -/
theorem assertsVariable_opposite (l : Int) : assertsVariable (opposite l) = !assertsVariable l := by
  unfold assertsVariable opposite
  rw [← decide_not, decide_eq_decide]
  split <;> omega

end Literal

namespace Program

/-- Negating a list of literals maps `Literal.opposite` over it. -/
theorem negateAll_eq_checked (lits : List Int) :
    negateAll lits = Literal.checked lits (lits.map Literal.opposite) := by
  induction lits with
  | nil => rfl
  | cons l lits ih =>
    by_cases hl : l < 0
    · rw [Literal.checked_cons_of_neg lits _ hl, negateAll, Literal.negate, if_pos hl]
      rfl
    · have hnonneg : 0 ≤ l := by omega
      rw [Literal.checked_cons_of_nonneg lits _ hnonneg, negateAll,
        Literal.negate_of_nonneg hnonneg, ih]
      exact Literal.map_checked lits _ (Literal.opposite l :: ·)

end Program
end ImemReplay
