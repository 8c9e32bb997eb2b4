import ImemReplay.Proofs.Placements

/-!
# Start frames and extracted programs

The search for an asserted reset ends at the literal that asserts it, so what stands behind that
literal is not checked.  The program of a start frame consists of its kept literals, all of which
are checked.

Main results:

- Theorem `assertsReset_eq_checked`: a frame asserts reset exactly when it has the literal, and
  only the literals in front of it are checked.
- Theorem `getElem?_of_startFrame`: a start frame is a frame of the chain at its index.
- Theorem `ofStartFrame_eq_ok_iff`: when a start frame has a program, and which.
- Theorem `ofStartFrame_eq_error_iff`: when it has none, and why.
-/

namespace ImemReplay

/-! ## The search for reset -/

/-- A literal that is not negative asserts reset exactly when it is the literal of reset. -/
theorem assertsReset_cons_of_nonneg {resetVar l : Int} (lits : List Int) (hl : 0 ≤ l) :
    assertsReset resetVar (l :: lits) =
      if l = 2 * resetVar then .ok true else assertsReset resetVar lits := by
  have hreset : (l / 2 = resetVar ∧ (!Literal.assertsVariable l) = false) ↔ l = 2 * resetVar := by
    simp only [Literal.assertsVariable, Bool.not_eq_false', decide_eq_true_eq]
    omega
  rw [assertsReset, Literal.var_of_nonneg hl, Literal.isComplement_eq hl]
  simp only [bind, Except.bind, hreset]
  split <;> rfl

/-- A frame asserts reset exactly when it has the literal of reset, and only the literals in
front of the first one are checked. -/
theorem assertsReset_eq_checked {resetVar : Int} (hreset : 0 ≤ resetVar) (lits : List Int) :
    assertsReset resetVar lits =
      Literal.checked (lits.takeWhile (· ≠ 2 * resetVar)) (decide (2 * resetVar ∈ lits)) := by
  induction lits with
  | nil => rfl
  | cons l lits ih =>
    by_cases hl : l < 0
    · have hne : l ≠ 2 * resetVar := by omega
      rw [List.takeWhile_cons_of_pos (by simpa using hne), Literal.checked_cons_of_neg _ _ hl,
        assertsReset, Literal.var_of_neg hl]
      rfl
    · have hnonneg : 0 ≤ l := by omega
      rw [assertsReset_cons_of_nonneg lits hnonneg]
      by_cases heq : l = 2 * resetVar
      · rw [if_pos heq, List.takeWhile_cons_of_neg (by simpa using heq)]
        simp [heq]
      · rw [if_neg heq, List.takeWhile_cons_of_pos (by simpa using heq),
          Literal.checked_cons_of_nonneg _ _ hnonneg, ih]
        have hne : 2 * resetVar ≠ l := fun h => heq h.symm
        simp [hne]

namespace Chain

/-! ## The start frame of a chain -/

/-- The last frame with reset is the one that was found before or one of the chain. -/
theorem lastReset_eq_ok {resetVar : Int} {index : Nat} {found result : Option StartFrame}
    {frames : Chain} (h : lastReset resetVar index found frames = .ok result) :
    result = found ∨
      ∃ k f, frames[k]? = some f ∧ result = some ⟨index + k, f⟩ := by
  induction frames generalizing index found with
  | nil => exact Or.inl (Except.ok.inj h).symm
  | cons f frames ih =>
    rw [lastReset] at h
    cases hasserts : assertsReset resetVar f.inputLits with
    | error fault => simp [hasserts, bind, Except.bind] at h
    | ok asserted =>
      simp only [hasserts, bind, Except.bind] at h
      rcases ih h with hfound | ⟨k, g, hg, hresult⟩
      · cases asserted with
        | false => exact Or.inl hfound
        | true => exact Or.inr ⟨0, f, rfl, hfound⟩
      · refine Or.inr ⟨k + 1, g, hg, ?_⟩
        rw [hresult, Nat.add_assoc, Nat.add_comm 1 k]

/-- A start frame is a frame of the chain at its index. -/
theorem getElem?_of_startFrame {resetVar : Int} {chain : Chain} {start : StartFrame}
    (h : chain.startFrame resetVar = .ok start) : chain[start.index]? = some start.frame := by
  cases chain with
  | nil => contradiction
  | cons f frames =>
    rw [startFrame] at h
    cases hlast : lastReset resetVar 0 none (f :: frames) with
    | error fault => simp [hlast, bind, Except.bind] at h
    | ok found =>
      simp only [hlast, bind, Except.bind, pure, Except.pure, Except.ok.injEq] at h
      subst h
      rcases lastReset_eq_ok hlast with rfl | ⟨k, g, hg, rfl⟩
      · rfl
      · simpa using hg

/-- A chain of one frame without negative input literals takes effect from that frame. -/
theorem startFrame_singleton {resetVar : Int} (hreset : 0 ≤ resetVar) {f : Frame}
    (hnonneg : ∀ l ∈ f.inputLits, 0 ≤ l) : startFrame resetVar [f] = .ok ⟨0, f⟩ := by
  have hscanned : ∀ l ∈ f.inputLits.takeWhile (· ≠ 2 * resetVar), 0 ≤ l := fun l hl =>
    hnonneg l ((List.takeWhile_prefix _).subset hl)
  rw [startFrame, lastReset, assertsReset_eq_checked hreset,
    Literal.checked_of_nonneg _ hscanned]
  simp only [bind, Except.bind, lastReset]
  split <;> rfl

end Chain

namespace Program

/-! ## The program of a start frame -/

/-- A start frame has a program when none of its input literals is negative and the denied reset
literal is not kept; the program consists of the kept literals. -/
theorem ofStartFrame_eq_ok_iff {t : Placement} {nPis resetVar : Int} {start : StartFrame}
    {p : Program} :
    ofStartFrame t nPis resetVar start = .ok p ↔
      (∀ l ∈ start.frame.inputLits, 0 ≤ l) ∧
        Literal.denying resetVar ∉ start.frame.inputLits.filter (t.keeps nPis) ∧
        p = ⟨start.index, start.frame.inputLits.filter (t.keeps nPis)⟩ := by
  unfold ofStartFrame
  rw [t.keptLits_eq_checked]
  constructor
  · intro h
    cases hchecked : Literal.checked start.frame.inputLits
        (start.frame.inputLits.filter (t.keeps nPis)) with
    | error fault => simp [hchecked, bind, Except.bind] at h
    | ok lits =>
      rcases Literal.checked_eq_ok_iff.1 hchecked with ⟨hnonneg, rfl⟩
      simp only [hchecked, bind, Except.bind] at h
      split at h
      · contradiction
      · next hdenied => exact ⟨hnonneg, hdenied, (Except.ok.inj h).symm⟩
  · rintro ⟨hnonneg, hdenied, rfl⟩
    rw [Literal.checked_of_nonneg _ hnonneg]
    simp only [bind, Except.bind, if_neg hdenied]
    rfl

/-- A start frame has no program when an input literal is negative, and then the first such literal
is the fault, or when the denied reset literal is kept. -/
theorem ofStartFrame_eq_error_iff {t : Placement} {nPis resetVar : Int} {start : StartFrame}
    {fault : Fault} :
    ofStartFrame t nPis resetVar start = .error fault ↔
      (∃ front l back, start.frame.inputLits = front ++ l :: back ∧ l < 0 ∧
        (∀ m ∈ front, 0 ≤ m) ∧ fault = .negativeLiteral l) ∨
      ((∀ l ∈ start.frame.inputLits, 0 ≤ l) ∧
        Literal.denying resetVar ∈ start.frame.inputLits.filter (t.keeps nPis) ∧
        fault = .resetDenied (Literal.denying resetVar) start.index) := by
  unfold ofStartFrame
  rw [t.keptLits_eq_checked, ← Literal.checked_eq_error_iff]
  cases hchecked : Literal.checked start.frame.inputLits
      (start.frame.inputLits.filter (t.keeps nPis)) with
  | error other =>
    have hnot : ¬∀ l ∈ start.frame.inputLits, 0 ≤ l := by
      intro hnonneg
      rw [Literal.checked_of_nonneg _ hnonneg] at hchecked
      contradiction
    simp only [bind, Except.bind, Except.error.injEq, hnot, false_and, or_false]
  | ok lits =>
    rcases Literal.checked_eq_ok_iff.1 hchecked with ⟨hnonneg, rfl⟩
    simp only [bind, Except.bind, reduceCtorEq, false_or]
    by_cases hdenied : Literal.denying resetVar ∈ start.frame.inputLits.filter (t.keeps nPis)
    · rw [if_pos hdenied]
      constructor
      · intro h
        exact ⟨hnonneg, hdenied, (Except.error.inj h).symm⟩
      · rintro ⟨-, -, rfl⟩
        rfl
    · rw [if_neg hdenied]
      constructor
      · intro h
        cases h
      · rintro ⟨-, hkept, -⟩
        contradiction

/-- A start frame without a program has a negative literal, or it denies reset. -/
theorem ofStartFrame_eq_error {t : Placement} {nPis resetVar : Int} {start : StartFrame}
    {fault : Fault} (h : ofStartFrame t nPis resetVar start = .error fault) :
    (∃ l ∈ start.frame.inputLits, l < 0 ∧ fault = .negativeLiteral l) ∨
      ((∀ l ∈ start.frame.inputLits, 0 ≤ l) ∧
        Literal.denying resetVar ∈ start.frame.inputLits.filter (t.keeps nPis) ∧
        fault = .resetDenied (Literal.denying resetVar) start.index) := by
  rcases ofStartFrame_eq_error_iff.1 h with ⟨front, l, back, hsplit, hneg, -, hfault⟩ | hdenied
  · have hmem : l ∈ start.frame.inputLits := by
      rw [hsplit]
      exact List.mem_append_right front List.mem_cons_self
    exact Or.inl ⟨l, hmem, hneg, hfault⟩
  · exact Or.inr hdenied

/-- The start frame of a program is the index that it was extracted under. -/
theorem startFrame_ofStartFrame {t : Placement} {nPis resetVar : Int} {start : StartFrame}
    {p : Program} (h : ofStartFrame t nPis resetVar start = .ok p) :
    p.startFrame = start.index := by
  rcases ofStartFrame_eq_ok_iff.1 h with ⟨-, -, rfl⟩
  rfl

/-- The literals of the program of a start frame are not negative. -/
theorem lits_nonneg {t : Placement} {nPis resetVar : Int} {start : StartFrame} {p : Program}
    (h : ofStartFrame t nPis resetVar start = .ok p) : ∀ l ∈ p.lits, 0 ≤ l := by
  rcases ofStartFrame_eq_ok_iff.1 h with ⟨hnonneg, -, rfl⟩
  intro l hl
  exact hnonneg l (List.mem_filter.1 hl).1

end Program
end ImemReplay
