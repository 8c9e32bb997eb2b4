import ImemReplay.Fault

/-!
# Passages

A text that is printed or written to a file goes out in passages, each of which goes out as a whole.
An integer with too many digits cannot be written, so a passage that shows one ends the text: what
stands in front of it has gone out already, and what stands behind it never does.  Counts of what is
kept in memory, such as the length of a list, never have too many digits.

Main results:

- Theorem `ended_eq_ok_iff`: passages are all written if every integer that they show can be.
- Theorem `written_of_ended`: then their whole text is written.
- Theorem `exists_cut` and theorem `written_of_cut`: otherwise the text is cut in front of the first
  passage that cannot be written.
-/

namespace ImemReplay

/-- A part of a text that is written as a whole. -/
structure Passage where
  /-- The integers in the text that come from outside. -/
  shown : List Int := []
  text : String
deriving DecidableEq, Repr

namespace Passage

/-- Whether all integers of a passage can be written. -/
def isWritable (p : Passage) : Bool := p.shown.all Text.isWritable

/-- The whole text of passages. -/
def textOf (passages : List Passage) : String := String.join (passages.map (·.text))

/-- How the writing of passages ends. -/
def ended (passages : List Passage) : Except Fault Unit :=
  if passages.all isWritable then .ok () else .error .integerSize

/-- What is written of passages. -/
def written (passages : List Passage) : String := textOf (passages.takeWhile isWritable)

@[simp]
theorem textOf_cons (p : Passage) (passages : List Passage) :
    textOf (p :: passages) = p.text ++ textOf passages :=
  String.join_cons

@[simp]
theorem textOf_singleton (p : Passage) : textOf [p] = p.text := by
  rw [textOf_cons]
  exact String.append_empty

@[simp]
theorem textOf_append (front back : List Passage) :
    textOf (front ++ back) = textOf front ++ textOf back := by
  rw [textOf, List.map_append, String.join_append]
  rfl

/-- Every passage can be written. -/
def Writable (passages : List Passage) : Prop := ∀ p ∈ passages, p.isWritable = true

@[simp]
theorem writable_nil : Writable [] := fun _ hp => absurd hp List.not_mem_nil

@[simp]
theorem writable_singleton {p : Passage} : Writable [p] ↔ p.isWritable = true := by
  simp [Writable]

@[simp]
theorem writable_cons {p : Passage} {passages : List Passage} :
    Writable (p :: passages) ↔ p.isWritable = true ∧ Writable passages :=
  List.forall_mem_cons

@[simp]
theorem writable_append {front back : List Passage} :
    Writable (front ++ back) ↔ Writable front ∧ Writable back :=
  List.forall_mem_append

theorem ended_eq_ok_iff {passages : List Passage} :
    ended passages = .ok () ↔ Writable passages := by
  unfold ended Writable
  rw [← List.all_eq_true]
  cases passages.all isWritable <;> simp

theorem ended_eq_error {passages : List Passage} {fault : Fault}
    (h : ended passages = .error fault) : fault = .integerSize := by
  unfold ended at h
  split at h
  · cases h
  · exact (Except.error.inj h).symm

theorem written_of_ended {passages : List Passage} (h : ended passages = .ok ()) :
    written passages = textOf passages := by
  rw [ended_eq_ok_iff] at h
  induction passages with
  | nil => rfl
  | cons p passages ih =>
    rcases List.forall_mem_cons.1 h with ⟨hp, hpassages⟩
    rw [written, List.takeWhile_cons_of_pos hp, textOf_cons, textOf_cons]
    exact congrArg (p.text ++ ·) (ih hpassages)

/-- What stands behind a passage that cannot be written does not matter, and neither does the
passage itself. -/
theorem ended_of_cut {front : List Passage} {last : Passage} (back : List Passage)
    (hlast : last.isWritable = false) : ended (front ++ last :: back) = .error .integerSize := by
  have hnot : (front ++ last :: back).all isWritable = false := by
    simp [hlast]
  rw [ended, hnot]
  rfl

theorem written_of_cut {front : List Passage} {last : Passage} (back : List Passage)
    (hfront : Writable front) (hlast : last.isWritable = false) :
    written (front ++ last :: back) = textOf front := by
  rw [written, List.takeWhile_append_of_pos hfront,
    List.takeWhile_cons_of_neg (Bool.not_eq_true _ ▸ hlast), List.append_nil]

/-- Passages of which not all can be written have a first one that cannot. -/
theorem exists_cut {passages : List Passage} (h : ¬Writable passages) :
    ∃ front last back, passages = front ++ last :: back ∧ Writable front ∧
      last.isWritable = false := by
  induction passages with
  | nil => exact absurd writable_nil h
  | cons p passages ih =>
    by_cases hp : p.isWritable = true
    · have hrest : ¬Writable passages := fun hall => h (writable_cons.2 ⟨hp, hall⟩)
      rcases ih hrest with ⟨front, last, back, rfl, hfront, hlast⟩
      exact ⟨p :: front, last, back, rfl, writable_cons.2 ⟨hp, hfront⟩, hlast⟩
    · exact ⟨[], p, passages, rfl, writable_nil, Bool.eq_false_iff.2 hp⟩

end Passage
end ImemReplay
