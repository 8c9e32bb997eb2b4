import ImemReplay.Proofs.StartFrames
import Mathlib.Data.List.TakeWhile

/-!
# The frame that a chain takes effect from

The search for reset goes through all frames of a chain, but in a frame it stops at the literal
that asserts reset.  So a negative literal is noticed only if it is not guarded, which means that
reset is not asserted in front of it in its frame; and of the frames that assert reset the last one
is found.  Both are said here without the search.

Main results:

- Theorem `guarded_iff`: what the search for reset asks of a frame.
- Theorem `firstUnguarded_iff`: no literal in front of the first unguarded one is negative.
- Theorem `startFrame_eq_ok_iff`: which frame a chain takes effect from, and when it is found.
- Theorem `startFrame_eq_error_iff`: which literal the search fails at.
- Theorem `index_startFrame_eq`: the literals that do not count for the search.
- Theorem `startFrame_resolves_exactly`: the result of the search for every chain.
- Theorem `unwritable_literal_not_shown`: a chain whose first unguarded literal is not named.
-/

namespace ImemReplay

namespace Frame

/-! ## What the search asks of a frame -/

/-- Whether an input literal of a frame asserts reset. -/
def AssertsReset (resetVar : Int) (f : Frame) : Prop := 2 * resetVar ∈ f.inputLits

/-- Every negative input literal has the literal that asserts reset in front of it. -/
def Guarded (resetVar : Int) (f : Frame) : Prop :=
  ∀ {front back : List Int} {l : Int}, f.inputLits = front ++ l :: back → l < 0 →
    2 * resetVar ∈ front

/-- The literals up to the one that asserts reset are not negative exactly in a guarded frame. -/
theorem guarded_iff {resetVar : Int} (hreset : 0 ≤ resetVar) {f : Frame} :
    f.Guarded resetVar ↔ ∀ l ∈ f.inputLits.takeWhile (· ≠ 2 * resetVar), 0 ≤ l := by
  constructor
  · intro hguarded l hl
    rcases List.append_of_mem hl with ⟨front, middle, hscanned⟩
    by_cases hneg : l < 0
    · -- The literal of reset would be among those that were scanned, all of which differ from it.
      have hsplit : f.inputLits =
          front ++ l :: (middle ++ f.inputLits.dropWhile (· ≠ 2 * resetVar)) := by
        rw [← List.cons_append, ← List.append_assoc, ← hscanned, List.takeWhile_append_dropWhile]
      have hmem : 2 * resetVar ∈ f.inputLits.takeWhile (· ≠ 2 * resetVar) := by
        rw [hscanned]
        exact List.mem_append_left _ (hguarded hsplit hneg)
      simpa using List.mem_takeWhile_imp hmem
    · omega
  · intro hscanned front back l hsplit hneg
    by_cases hmem : 2 * resetVar ∈ front
    · exact hmem
    · have hfront : ∀ m ∈ front, decide (m ≠ 2 * resetVar) = true := by
        intro m hm
        have hne : m ≠ 2 * resetVar := fun heq => hmem (heq ▸ hm)
        simpa using hne
      have hne : l ≠ 2 * resetVar := by omega
      have hl : l ∈ f.inputLits.takeWhile (· ≠ 2 * resetVar) := by
        rw [hsplit, List.takeWhile_append_of_pos hfront,
          List.takeWhile_cons_of_pos (by simpa using hne)]
        exact List.mem_append_right _ List.mem_cons_self
      exact absurd (hscanned l hl) (Int.not_le.2 hneg)

/-- The search for reset in a frame ends without a fault exactly in a guarded frame. -/
theorem assertsReset_eq_ok_iff {resetVar : Int} (hreset : 0 ≤ resetVar) {f : Frame}
    {asserted : Bool} :
    assertsReset resetVar f.inputLits = .ok asserted ↔
      f.Guarded resetVar ∧ (f.AssertsReset resetVar ↔ asserted = true) := by
  rw [assertsReset_eq_checked hreset, Literal.checked_eq_ok_iff, guarded_iff hreset]
  unfold AssertsReset
  cases asserted <;> simp

/-- The search in a guarded frame ends without a fault. -/
theorem assertsReset_of_guarded {resetVar : Int} (hreset : 0 ≤ resetVar) {f : Frame}
    (h : f.Guarded resetVar) :
    assertsReset resetVar f.inputLits = .ok (decide (2 * resetVar ∈ f.inputLits)) := by
  apply (assertsReset_eq_ok_iff hreset).2
  exact ⟨h, by simp [AssertsReset]⟩

/-! ## Unguarded literals -/

/-- Behind the literals `front` of a frame stands a negative input literal `l`, and the literal
that asserts reset is not in front of it. -/
def UnguardedBehind (resetVar : Int) (f : Frame) (front : List Int) (l : Int) : Prop :=
  (∃ back, f.inputLits = front ++ l :: back) ∧ l < 0 ∧ 2 * resetVar ∉ front

/-- The first such literal of a frame. -/
def FirstUnguarded (resetVar : Int) (f : Frame) (l : Int) : Prop :=
  ∃ front, f.UnguardedBehind resetVar front l ∧
    ∀ {other : List Int} {m : Int}, f.UnguardedBehind resetVar other m →
      front.length ≤ other.length

/-- In front of the first unguarded literal no literal is negative at all. -/
theorem firstUnguarded_iff {resetVar l : Int} {f : Frame} :
    f.FirstUnguarded resetVar l ↔
      ∃ front back, f.inputLits = front ++ l :: back ∧ l < 0 ∧ 2 * resetVar ∉ front ∧
        ∀ m ∈ front, 0 ≤ m := by
  constructor
  · rintro ⟨front, ⟨⟨back, hsplit⟩, hneg, hnot⟩, hfirst⟩
    refine ⟨front, back, hsplit, hneg, hnot, ?_⟩
    intro m hm
    apply Int.not_lt.1
    intro hmneg
    -- A negative literal in front would be unguarded as well.
    rcases List.append_of_mem hm with ⟨before, between, rfl⟩
    have hearlier : f.UnguardedBehind resetVar before m := by
      refine ⟨⟨between ++ l :: back, ?_⟩, hmneg, fun hmem => hnot (List.mem_append_left _ hmem)⟩
      rw [hsplit, List.append_assoc, List.cons_append]
    have hlength := hfirst hearlier
    rw [List.length_append, List.length_cons] at hlength
    omega
  · rintro ⟨front, back, hsplit, hneg, hnot, hnonneg⟩
    refine ⟨front, ⟨⟨back, hsplit⟩, hneg, hnot⟩, ?_⟩
    rintro other m ⟨⟨rest, hother⟩, hmneg, -⟩
    apply Nat.not_lt.1
    intro hlt
    have hm : (front ++ l :: back)[other.length]? = some m := by
      rw [← hsplit, hother, List.getElem?_append_right (Nat.le_refl _), Nat.sub_self]
      rfl
    rw [List.getElem?_append_left hlt] at hm
    have hmnonneg := hnonneg m (List.mem_of_getElem? hm)
    omega

/-- The search in a frame fails exactly at the first unguarded literal. -/
theorem assertsReset_eq_error_iff {resetVar : Int} (hreset : 0 ≤ resetVar) {f : Frame}
    {fault : Fault} :
    assertsReset resetVar f.inputLits = .error fault ↔
      ∃ l, f.FirstUnguarded resetVar l ∧ fault = .negativeLiteral l := by
  rw [assertsReset_eq_checked hreset, Literal.checked_eq_error_iff]
  constructor
  · rintro ⟨front, l, back, hscanned, hneg, hnonneg, hfault⟩
    refine ⟨l, firstUnguarded_iff.2 ⟨front, back ++ f.inputLits.dropWhile (· ≠ 2 * resetVar), ?_,
      hneg, ?_, hnonneg⟩, hfault⟩
    · rw [← List.cons_append, ← List.append_assoc, ← hscanned, List.takeWhile_append_dropWhile]
    · intro hmem
      have hreached : 2 * resetVar ∈ f.inputLits.takeWhile (· ≠ 2 * resetVar) := by
        rw [hscanned]
        exact List.mem_append_left _ hmem
      simpa using List.mem_takeWhile_imp hreached
  · rintro ⟨l, hfirst, hfault⟩
    rcases firstUnguarded_iff.1 hfirst with ⟨front, back, hsplit, hneg, hnot, hnonneg⟩
    refine ⟨front, l, back.takeWhile (· ≠ 2 * resetVar), ?_, hneg, hnonneg, hfault⟩
    have hfront : ∀ m ∈ front, decide (m ≠ 2 * resetVar) = true := by
      intro m hm
      have hne : m ≠ 2 * resetVar := fun heq => hnot (heq ▸ hm)
      simpa using hne
    have hl : l ≠ 2 * resetVar := by omega
    rw [hsplit, List.takeWhile_append_of_pos hfront, List.takeWhile_cons_of_pos (by simpa using hl)]

/-- The frames with an unguarded literal are those that are not guarded. -/
theorem exists_firstUnguarded_iff {resetVar : Int} (hreset : 0 ≤ resetVar) {f : Frame} :
    (∃ l, f.FirstUnguarded resetVar l) ↔ ¬f.Guarded resetVar := by
  constructor
  · rintro ⟨l, hfirst⟩ hguarded
    have hfails := (assertsReset_eq_error_iff hreset).2 ⟨l, hfirst, rfl⟩
    rw [assertsReset_of_guarded hreset hguarded] at hfails
    contradiction
  · intro hnot
    cases hasserts : assertsReset resetVar f.inputLits with
    | ok asserted =>
      have hguarded : f.Guarded resetVar := ((assertsReset_eq_ok_iff hreset).1 hasserts).1
      contradiction
    | error fault =>
      rcases (assertsReset_eq_error_iff hreset).1 hasserts with ⟨l, hfirst, -⟩
      exact ⟨l, hfirst⟩

/-! ## Literals that do not count -/

/-- The literals of a frame that the search for reset depends on: input literals other than the
one that denies reset. -/
def scanned (resetVar : Int) (f : Frame) : List Int :=
  f.inputLits.filter (· ≠ 2 * resetVar + 1)

/-- Denying reset does not count for the search. -/
theorem assertsReset_scanned {resetVar : Int} (hreset : 0 ≤ resetVar) (f : Frame) :
    assertsReset resetVar (f.scanned resetVar) = assertsReset resetVar f.inputLits := by
  unfold scanned
  induction f.inputLits with
  | nil => rfl
  | cons l lits ih =>
    by_cases hdenies : l = 2 * resetVar + 1
    · have hne : l ≠ 2 * resetVar := by omega
      rw [List.filter_cons_of_neg (by simpa using hdenies), ih,
        assertsReset_cons_of_nonneg lits (by omega), if_neg hne]
    · rw [List.filter_cons_of_pos (by simpa using hdenies)]
      by_cases hl : l < 0
      · rw [assertsReset, assertsReset, Literal.var_of_neg hl]
        rfl
      · have hnonneg : 0 ≤ l := by omega
        rw [assertsReset_cons_of_nonneg _ hnonneg, assertsReset_cons_of_nonneg _ hnonneg, ih]

end Frame

namespace Chain

/-! ## The frame that a chain takes effect from -/

/-- A chain takes effect from a frame that asserts reset, or from its first frame, if no later
frame asserts reset. -/
structure TakesEffect (resetVar : Int) (chain : Chain) (start : StartFrame) : Prop where
  frame_eq : chain[start.index]? = some start.frame
  /-- Reset is not asserted again. -/
  last : ∀ f ∈ chain.drop (start.index + 1), ¬f.AssertsReset resetVar
  /-- Reset is asserted, or never was. -/
  asserts_or_first : start.frame.AssertsReset resetVar ∨ start.index = 0

/-- No frame behind the one that a chain takes effect from asserts reset. -/
theorem TakesEffect.index_le {resetVar : Int} {chain : Chain} {start : StartFrame}
    (h : chain.TakesEffect resetVar start) {index : Nat} {f : Frame}
    (hf : chain[index]? = some f) (hasserts : f.AssertsReset resetVar) : index ≤ start.index := by
  apply Nat.not_lt.1
  intro hlt
  have hdrop : (chain.drop (start.index + 1))[index - (start.index + 1)]? = some f := by
    rw [List.getElem?_drop, Nat.add_sub_cancel' hlt]
    exact hf
  exact h.last f (List.mem_of_getElem? hdrop) hasserts

/-- A chain takes effect from one frame. -/
theorem TakesEffect.unique {resetVar : Int} {c : Chain} {a b : StartFrame}
    (ha : c.TakesEffect resetVar a) (hb : c.TakesEffect resetVar b) : a = b := by
  have hle : ∀ {a b : StartFrame}, c.TakesEffect resetVar a → c.TakesEffect resetVar b →
      b.index ≤ a.index := by
    intro a b ha hb
    rcases hb.asserts_or_first with hasserts | hfirst
    · exact ha.index_le hb.frame_eq hasserts
    · omega
  have hindex : a.index = b.index := Nat.le_antisymm (hle hb ha) (hle ha hb)
  have hframe : a.frame = b.frame := by
    have heq := ha.frame_eq
    rw [hindex, hb.frame_eq] at heq
    exact (Option.some.inj heq).symm
  cases a
  cases b
  simp_all

/-- What the search over some frames has found: nothing new if none of them asserts reset, and
otherwise the last one that does. -/
theorem lastReset_sound {resetVar : Int} (hreset : 0 ≤ resetVar) {index : Nat}
    {found result : Option StartFrame} {frames : Chain}
    (h : lastReset resetVar index found frames = .ok result) :
    (∀ f ∈ frames, f.Guarded resetVar) ∧
      (((∀ f ∈ frames, ¬f.AssertsReset resetVar) ∧ result = found) ∨
        ∃ k f, frames[k]? = some f ∧ f.AssertsReset resetVar ∧
          (∀ g ∈ frames.drop (k + 1), ¬g.AssertsReset resetVar) ∧
          result = some ⟨index + k, f⟩) := by
  induction frames generalizing index found with
  | nil => exact ⟨by simp, Or.inl ⟨by simp, (Except.ok.inj h).symm⟩⟩
  | cons f frames ih =>
    rw [lastReset] at h
    cases hasserts : assertsReset resetVar f.inputLits with
    | error fault => simp [hasserts, bind, Except.bind] at h
    | ok asserted =>
      simp only [hasserts, bind, Except.bind] at h
      rcases (Frame.assertsReset_eq_ok_iff hreset).1 hasserts with ⟨hguarded, hf⟩
      rcases ih h with ⟨hframes, hfound⟩
      refine ⟨List.forall_mem_cons.2 ⟨hguarded, hframes⟩, ?_⟩
      rcases hfound with ⟨hnone, hresult⟩ | ⟨k, g, hg, hgasserts, hlast, hresult⟩
      · cases asserted with
        | false =>
          have hnot : ¬f.AssertsReset resetVar := fun hpos => by simpa using hf.1 hpos
          exact Or.inl ⟨List.forall_mem_cons.2 ⟨hnot, hnone⟩, hresult⟩
        | true => exact Or.inr ⟨0, f, rfl, hf.2 rfl, hnone, hresult⟩
      · refine Or.inr ⟨k + 1, g, hg, hgasserts, hlast, ?_⟩
        rw [hresult, Nat.add_assoc, Nat.add_comm 1 k]

/-- The search over guarded frames ends without a fault. -/
theorem exists_lastReset {resetVar : Int} (hreset : 0 ≤ resetVar) (index : Nat)
    (found : Option StartFrame) {frames : Chain} (h : ∀ f ∈ frames, f.Guarded resetVar) :
    ∃ result, lastReset resetVar index found frames = .ok result := by
  induction frames generalizing index found with
  | nil => exact ⟨found, rfl⟩
  | cons f frames ih =>
    rcases List.forall_mem_cons.1 h with ⟨hf, hframes⟩
    rw [lastReset, Frame.assertsReset_of_guarded hreset hf]
    exact ih _ _ hframes

/-- The first unguarded literal of the earliest frame that has one. -/
def FirstUnguarded (resetVar : Int) (chain : Chain) (l : Int) : Prop :=
  ∃ front f back, chain = front ++ f :: back ∧ (∀ g ∈ front, g.Guarded resetVar) ∧
    f.FirstUnguarded resetVar l

/-- A guarded frame in front does not matter. -/
theorem firstUnguarded_cons_of_guarded {resetVar l : Int} (hreset : 0 ≤ resetVar) {f : Frame}
    {frames : Chain} (h : f.Guarded resetVar) :
    FirstUnguarded resetVar (f :: frames) l ↔ FirstUnguarded resetVar frames l := by
  constructor
  · rintro ⟨front, g, back, hsplit, hfront, hfirst⟩
    cases front with
    | nil =>
      cases hsplit
      have hnot : ¬f.Guarded resetVar := (Frame.exists_firstUnguarded_iff hreset).1 ⟨l, hfirst⟩
      contradiction
    | cons e front =>
      cases hsplit
      exact ⟨front, g, back, rfl, fun g hg => hfront g (List.mem_cons_of_mem f hg), hfirst⟩
  · rintro ⟨front, g, back, rfl, hfront, hfirst⟩
    exact ⟨f :: front, g, back, rfl, List.forall_mem_cons.2 ⟨h, hfront⟩, hfirst⟩

/-- A frame in front that is not guarded has the first unguarded literal. -/
theorem firstUnguarded_cons_of_not_guarded {resetVar l : Int} {f : Frame} {frames : Chain}
    (h : ¬f.Guarded resetVar) :
    FirstUnguarded resetVar (f :: frames) l ↔ f.FirstUnguarded resetVar l := by
  constructor
  · rintro ⟨front, g, back, hsplit, hfront, hfirst⟩
    cases front with
    | nil =>
      cases hsplit
      exact hfirst
    | cons e front =>
      cases hsplit
      have hguarded : f.Guarded resetVar := hfront f List.mem_cons_self
      contradiction
  · intro hfirst
    refine ⟨[], f, frames, rfl, ?_, hfirst⟩
    intro g hg
    cases hg

/-- The search over frames fails exactly at the first unguarded literal of the earliest frame that
has one. -/
theorem lastReset_eq_error_iff {resetVar : Int} (hreset : 0 ≤ resetVar) {index : Nat}
    {found : Option StartFrame} {frames : Chain} {fault : Fault} :
    lastReset resetVar index found frames = .error fault ↔
      ∃ l, FirstUnguarded resetVar frames l ∧ fault = .negativeLiteral l := by
  induction frames generalizing index found with
  | nil =>
    constructor
    · intro h
      cases h
    · rintro ⟨l, ⟨front, f, back, hsplit, -⟩, -⟩
      exact absurd hsplit (by simp)
  | cons f frames ih =>
    rw [lastReset]
    by_cases hguarded : f.Guarded resetVar
    · simp only [firstUnguarded_cons_of_guarded hreset hguarded]
      rw [Frame.assertsReset_of_guarded hreset hguarded]
      exact ih
    · simp only [firstUnguarded_cons_of_not_guarded hguarded]
      rw [← Frame.assertsReset_eq_error_iff hreset]
      cases hasserts : assertsReset resetVar f.inputLits with
      | ok asserted =>
        have hf : f.Guarded resetVar := ((Frame.assertsReset_eq_ok_iff hreset).1 hasserts).1
        contradiction
      | error other => simp only [bind, Except.bind, Except.error.injEq]

/-- A start frame that is found is the frame that the chain takes effect from, and then all frames
are guarded. -/
theorem startFrame_sound {resetVar : Int} (hreset : 0 ≤ resetVar) {c : Chain} {start : StartFrame}
    (h : c.startFrame resetVar = .ok start) :
    (∀ f ∈ c, f.Guarded resetVar) ∧ c.TakesEffect resetVar start := by
  have hframe := getElem?_of_startFrame h
  cases c with
  | nil => contradiction
  | cons f frames =>
    rw [startFrame] at h
    cases hlast : lastReset resetVar 0 none (f :: frames) with
    | error fault => simp [hlast, bind, Except.bind] at h
    | ok found =>
      simp only [hlast, bind, Except.bind, pure, Except.pure, Except.ok.injEq] at h
      rcases lastReset_sound hreset hlast with
        ⟨hguarded, ⟨hnone, rfl⟩ | ⟨k, g, -, hasserts, hlater, rfl⟩⟩
      · subst h
        exact ⟨hguarded, hframe, fun g hg => hnone g (List.mem_of_mem_drop hg), Or.inr rfl⟩
      · subst h
        refine ⟨hguarded, hframe, ?_, Or.inl hasserts⟩
        simpa using hlater

/-- A start frame is found in a chain of guarded frames. -/
theorem exists_startFrame {resetVar : Int} (hreset : 0 ≤ resetVar) {c : Chain} (hne : c ≠ [])
    (hguarded : ∀ f ∈ c, f.Guarded resetVar) : ∃ start, c.startFrame resetVar = .ok start := by
  cases c with
  | nil => contradiction
  | cons f frames =>
    rcases exists_lastReset hreset 0 none hguarded with ⟨found, hfound⟩
    refine ⟨found.getD ⟨0, f⟩, ?_⟩
    rw [startFrame, hfound]
    rfl

/-- The start frame of a chain is found exactly if all frames are guarded, and it is the frame
that the chain takes effect from. -/
theorem startFrame_eq_ok_iff {resetVar : Int} (hreset : 0 ≤ resetVar) {c : Chain}
    {start : StartFrame} :
    c.startFrame resetVar = .ok start ↔
      (∀ f ∈ c, f.Guarded resetVar) ∧ c.TakesEffect resetVar start := by
  constructor
  · exact startFrame_sound hreset
  · rintro ⟨hguarded, heffect⟩
    have hne : c ≠ [] := by
      rintro rfl
      simpa using heffect.frame_eq
    rcases exists_startFrame hreset hne hguarded with ⟨found, hfound⟩
    rw [hfound, heffect.unique (startFrame_sound hreset hfound).2]

/-- The search for the start frame fails exactly for a chain without frames and at the first
unguarded literal of a chain. -/
theorem startFrame_eq_error_iff {resetVar : Int} (hreset : 0 ≤ resetVar) {c : Chain}
    {fault : Fault} :
    c.startFrame resetVar = .error fault ↔
      (c = [] ∧ fault = .emptyChain) ∨
        ∃ l, c.FirstUnguarded resetVar l ∧ fault = .negativeLiteral l := by
  cases c with
  | nil =>
    rw [startFrame_nil, Except.error.injEq]
    constructor
    · intro h
      exact Or.inl ⟨rfl, h.symm⟩
    · rintro (⟨-, rfl⟩ | ⟨l, ⟨front, f, back, hsplit, -⟩, -⟩)
      · rfl
      · exact absurd hsplit (by simp)
  | cons f frames =>
    rw [startFrame, ← lastReset_eq_error_iff hreset]
    cases lastReset resetVar 0 none (f :: frames) with
    | error other => simp [bind, Except.bind]
    | ok found => simp [bind, Except.bind, pure, Except.pure]

/-- The chains with an unguarded literal are those with a frame that is not guarded. -/
theorem exists_firstUnguarded_iff {resetVar : Int} (hreset : 0 ≤ resetVar) {c : Chain} :
    (∃ l, c.FirstUnguarded resetVar l) ↔ ∃ f ∈ c, ¬f.Guarded resetVar := by
  induction c with
  | nil =>
    constructor
    · rintro ⟨l, front, f, back, hsplit, -⟩
      exact absurd hsplit (by simp)
    · rintro ⟨f, hf, -⟩
      cases hf
  | cons f frames ih =>
    simp only [List.mem_cons, exists_eq_or_imp]
    by_cases hguarded : f.Guarded resetVar
    · simp only [firstUnguarded_cons_of_guarded hreset hguarded, ih, hguarded, not_true_eq_false,
        false_or]
    · simp only [firstUnguarded_cons_of_not_guarded hguarded,
        Frame.exists_firstUnguarded_iff hreset, hguarded, not_false_eq_true, true_or]

/-- A search for the start frame that fails was given a chain without frames, or one with a frame
that is not guarded. -/
theorem startFrame_eq_error {resetVar : Int} (hreset : 0 ≤ resetVar) {c : Chain} {fault : Fault}
    (h : c.startFrame resetVar = .error fault) :
    (c = [] ∧ fault = .emptyChain) ∨
      (c ≠ [] ∧ (¬∀ f ∈ c, f.Guarded resetVar) ∧ ∃ l, fault = .negativeLiteral l) := by
  rcases (startFrame_eq_error_iff hreset).1 h with hnil | ⟨l, hfirst, hfault⟩
  · exact Or.inl hnil
  · right
    rcases (exists_firstUnguarded_iff hreset).1 ⟨l, hfirst⟩ with ⟨f, hf, hnot⟩
    exact ⟨List.ne_nil_of_mem hf, fun hguarded => hnot (hguarded f hf), l, hfault⟩

/-! ## The index of the start frame -/

/-- The frame that a chain takes effect from is the last one that asserts reset, or the first one
if none does. -/
theorem TakesEffect.greatest {resetVar : Int} {chain : Chain} {start : StartFrame}
    (h : chain.TakesEffect resetVar start) :
    (start.frame.AssertsReset resetVar ∧
        ∀ {index : Nat} {f : Frame}, chain[index]? = some f → f.AssertsReset resetVar →
          index ≤ start.index) ∨
      (start.index = 0 ∧ ∀ f ∈ chain, ¬f.AssertsReset resetVar) := by
  by_cases hasserts : start.frame.AssertsReset resetVar
  · exact Or.inl ⟨hasserts, h.index_le⟩
  · right
    have hfirst : start.index = 0 := h.asserts_or_first.resolve_left hasserts
    refine ⟨hfirst, ?_⟩
    intro f hf hfasserts
    rcases List.getElem?_of_mem hf with ⟨index, hindex⟩
    have hle := h.index_le hindex hfasserts
    have hzero : index = start.index := by omega
    rw [hzero, h.frame_eq] at hindex
    exact hasserts (Option.some.inj hindex ▸ hfasserts)

/-- The index that a search over frames finds, or its fault, depends on the scanned literals
only. -/
theorem index_lastReset_eq {resetVar : Int} (hreset : 0 ≤ resetVar) {a b : Chain}
    (h : a.map (Frame.scanned resetVar) = b.map (Frame.scanned resetVar)) (index : Nat)
    {found found' : Option StartFrame} (hfound : found.map (·.index) = found'.map (·.index)) :
    (lastReset resetVar index found a).map (Option.map (·.index)) =
      (lastReset resetVar index found' b).map (Option.map (·.index)) := by
  induction a generalizing b index found found' with
  | nil =>
    have hb : b = [] := List.map_eq_nil_iff.1 h.symm
    rw [hb]
    exact congrArg Except.ok hfound
  | cons f a ih =>
    cases b with
    | nil => cases h
    | cons g b =>
      rw [List.map_cons, List.map_cons, List.cons.injEq] at h
      rw [lastReset, lastReset, ← Frame.assertsReset_scanned hreset f,
        ← Frame.assertsReset_scanned hreset g, h.1]
      cases assertsReset resetVar (g.scanned resetVar) with
      | error fault => rfl
      | ok asserted =>
        apply ih h.2
        cases asserted with
        | false => exact hfound
        | true => rfl

/-- The index of the start frame, or the fault of the search, depends on the scanned literals
only. -/
theorem index_startFrame_eq {resetVar : Int} (hreset : 0 ≤ resetVar) {a b : Chain}
    (h : a.map (Frame.scanned resetVar) = b.map (Frame.scanned resetVar)) :
    (a.startFrame resetVar).map (·.index) = (b.startFrame resetVar).map (·.index) := by
  have hlast := index_lastReset_eq hreset h 0 (rfl : (none : Option StartFrame).map (·.index) =
    (none : Option StartFrame).map (·.index))
  have hindex : ∀ {f : Frame} {frames : Chain}, (startFrame resetVar (f :: frames)).map (·.index) =
      ((lastReset resetVar 0 none (f :: frames)).map (Option.map (·.index))).map (·.getD 0) := by
    intro f frames
    rw [startFrame]
    cases lastReset resetVar 0 none (f :: frames) with
    | error fault => rfl
    | ok found => cases found <;> rfl
  cases a with
  | nil =>
    have hb : b = [] := List.map_eq_nil_iff.1 h.symm
    rw [hb]
  | cons f a =>
    cases b with
    | nil => cases h
    | cons g b => rw [hindex, hindex, hlast]

/-- When the start frame of a chain is found, which one it is, and what the fault is otherwise. -/
structure ResolvesExactly (resetVar : Int) (chain : Chain) : Prop where
  /-- The search fails exactly for a chain without frames or with an unguarded literal. -/
  fails_iff : (∃ fault, chain.startFrame resetVar = .error fault) ↔
    chain = [] ∨ ∃ f ∈ chain, ¬f.Guarded resetVar
  /-- The fault is reported as one of invalid values. -/
  kind_of_error : ∀ {fault}, chain.startFrame resetVar = .error fault →
    fault.reported.kind = .invalidValue
  /-- It is that of the first unguarded literal of the earliest frame that has one. -/
  names_first : (∃ f ∈ chain, ¬f.Guarded resetVar) →
    ∃ l, chain.FirstUnguarded resetVar l ∧ chain.startFrame resetVar = .error (.negativeLiteral l)
  /-- The text that is reported shows that literal, unless it has too many digits to be written: the
  fault that is reported is about its size then. -/
  text_of_error : ∀ {fault}, chain ≠ [] → chain.startFrame resetVar = .error fault →
    ∃ l, chain.FirstUnguarded resetVar l ∧ fault.NamesLiteral l
  /-- Otherwise the frame at the greatest index with reset is found, or the one at index 0. -/
  finds_greatest : chain ≠ [] → (∀ f ∈ chain, f.Guarded resetVar) →
    ∃ (k : Nat) (f : Frame), chain.startFrame resetVar = .ok ⟨k, f⟩ ∧ chain[k]? = some f ∧
      ((f.AssertsReset resetVar ∧ ∀ {j : Nat} {g : Frame}, chain[j]? = some g →
          g.AssertsReset resetVar → j ≤ k) ∨
        (k = 0 ∧ ∀ g ∈ chain, ¬g.AssertsReset resetVar))
  /-- The literals of the states and those that deny reset never count. -/
  index_eq_of_scanned_eq : ∀ {other : Chain},
    other.map (Frame.scanned resetVar) = chain.map (Frame.scanned resetVar) →
      (other.startFrame resetVar).map (·.index) = (chain.startFrame resetVar).map (·.index)

/-- The search for the start frame fails exactly for a chain without frames and at the first
negative input literal that has no asserted reset in front of it in its frame; otherwise it finds
the frame with the greatest index that asserts reset, or else the first frame. -/
theorem startFrame_resolves_exactly {resetVar : Int} (hreset : 0 ≤ resetVar) (chain : Chain) :
    ResolvesExactly resetVar chain := by
  have hnamed : (∃ f ∈ chain, ¬f.Guarded resetVar) → ∃ l, chain.FirstUnguarded resetVar l ∧
      chain.startFrame resetVar = .error (.negativeLiteral l) := by
    intro hunguarded
    rcases (exists_firstUnguarded_iff hreset).2 hunguarded with ⟨l, hfirst⟩
    exact ⟨l, hfirst, (startFrame_eq_error_iff hreset).2 (Or.inr ⟨l, hfirst, rfl⟩)⟩
  constructor
  case fails_iff =>
    constructor
    · rintro ⟨fault, hfails⟩
      rcases (startFrame_eq_error_iff hreset).1 hfails with ⟨hnil, -⟩ | ⟨l, hfirst, -⟩
      · exact Or.inl hnil
      · exact Or.inr ((exists_firstUnguarded_iff hreset).1 ⟨l, hfirst⟩)
    · rintro (rfl | hunguarded)
      · exact ⟨.emptyChain, rfl⟩
      · rcases hnamed hunguarded with ⟨l, -, hfails⟩
        exact ⟨.negativeLiteral l, hfails⟩
  case kind_of_error =>
    intro fault hfails
    rcases (startFrame_eq_error_iff hreset).1 hfails with ⟨-, rfl⟩ | ⟨l, -, rfl⟩
    · exact Fault.kind_reported_of_invalidValue rfl
    · exact Fault.kind_reported_of_invalidValue rfl
  case names_first => exact hnamed
  case text_of_error =>
    intro fault hne hfails
    rcases (startFrame_eq_error_iff hreset).1 hfails with ⟨hnil, -⟩ | ⟨l, hfirst, rfl⟩
    · contradiction
    · exact ⟨l, hfirst, Fault.namesLiteral_negativeLiteral l⟩
  case finds_greatest =>
    intro hne hguarded
    rcases exists_startFrame hreset hne hguarded with ⟨⟨k, f⟩, hstart⟩
    have heffect := (startFrame_sound hreset hstart).2
    exact ⟨k, f, hstart, heffect.frame_eq, heffect.greatest⟩
  case index_eq_of_scanned_eq => exact fun h => index_startFrame_eq hreset h

/-- A chain with a negative literal behind the asserted reset of its first frame is searched
further; the literal of its second frame that is named stands in front of the reset there. -/
theorem startFrame_resolves_exactly_sample :
    (0 : Int) ≤ 1 ∧
      startFrame 1 [{ inputLits := [2, -3] }, { inputLits := [3, -7, 2, -9] },
        { inputLits := [-1] }] = .error (.negativeLiteral (-7)) ∧
      ResolvesExactly 1 [{ inputLits := [2, -3] }, { inputLits := [3, -7, 2, -9] },
        { inputLits := [-1] }] ∧
      startFrame 1 [{ inputLits := [4] }, { stateLits := [-9], inputLits := [2, 4] },
        { stateLits := [2], inputLits := [3] }] =
          .ok ⟨1, { stateLits := [-9], inputLits := [2, 4] }⟩ ∧
      ResolvesExactly 1 [{ inputLits := [4] }, { stateLits := [-9], inputLits := [2, 4] },
        { stateLits := [2], inputLits := [3] }] :=
  ⟨by decide, rfl, startFrame_resolves_exactly (by decide) _, rfl,
    startFrame_resolves_exactly (by decide) _⟩

/-- A chain of one frame with one negative literal, which cannot be written. -/
def unwritableChain : Chain := [{ inputLits := [-Text.leastUnwritable] }]

/-- The literal is the first one that is not guarded, and the fault that is reported for the chain
does not show it. -/
theorem unwritable_literal_not_shown :
    (0 : Int) ≤ 1 ∧ unwritableChain.FirstUnguarded 1 (-Text.leastUnwritable) ∧
      ∃ fault, unwritableChain.startFrame 1 = .error fault ∧ fault.reported = .integerSize ∧
        Fault.integerSize.message? = "Exceeds the limit (4300 digits) for integer string " ++
          "conversion; use sys.set_int_max_str_digits() to increase the limit" := by
  have hneg : -Text.leastUnwritable < 0 := Int.neg_neg_of_pos Text.leastUnwritable_pos
  have hfirst : unwritableChain.FirstUnguarded 1 (-Text.leastUnwritable) :=
    ⟨[], _, [], rfl, List.forall_mem_nil _,
      Frame.firstUnguarded_iff.2 ⟨[], [], rfl, hneg, List.not_mem_nil, List.forall_mem_nil _⟩⟩
  have hfails := (startFrame_eq_error_iff (by decide)).2 (Or.inr ⟨_, hfirst, rfl⟩)
  exact ⟨by decide, hfirst, _, hfails, Fault.reported_negativeLiteral_unwritable, rfl⟩

end Chain
end ImemReplay
