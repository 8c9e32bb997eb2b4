import Mathlib.Data.List.Forall2
import ImemReplay.Proofs.Decoding
import ImemReplay.Session

/-!
# The ledger over sessions

Every step of a session may fail, and entering a program may fail after its report was written:
the number of the report is then taken, and no entry has it.  Nothing else can come between an
entry and its rows, so the ledger stays consistent over every session, and the numbers without an
entry are those of the reports whose programs had a negative literal.

Main results:

- Theorem `step_cases`: what one step of a session does to the ledger.
- Theorem `consistent_stateAfter`: the ledger stays consistent.
- Theorem `count_stateAfter`: the counter runs ahead of the entries by the skipped numbers.
- Theorem `ledger_after_session`: the invariant of the ledger over sessions.
-/

namespace ImemReplay

/-! ## Consistent ledgers -/

namespace Literal

/-- Two literals are of one variable and differ in polarity. -/
def AreOpposite (l m : Int) : Prop := l / 2 = m / 2 ∧ l % 2 + m % 2 = 1

theorem areOpposite_opposite (l : Int) : AreOpposite l (opposite l) := by
  unfold AreOpposite opposite
  split <;> omega

/-- Negated literals stand where the literals stood. -/
theorem forall₂_map_opposite (lits : List Int) :
    List.Forall₂ AreOpposite lits (lits.map opposite) := by
  induction lits with
  | nil => exact .nil
  | cons l lits ih => exact .cons (areOpposite_opposite l) ih

end Literal

/-- The rows of an entry: the assignments of its literals, under its number. -/
def LedgerEntry.rows (t : Placement) (nPis : Int) (entry : LedgerEntry) :
    Except Fault (List LedgerRow) :=
  (Assignment.ofLits t nPis entry.lits).map fun rows => rows.map (⟨entry.seq, ·⟩)

namespace Ledger

/-- The ledger has increasing numbers, the rows of its entries, and their blocking clauses. -/
structure Consistent (t : Placement) (nPis : Int) (ledger : Ledger) : Prop where
  /-- The entries are in the order of their numbers. -/
  seq_increasing : ledger.entries.Pairwise fun a b => a.seq < b.seq
  /-- The numbers of the entries were taken. -/
  seq_range : ∀ entry ∈ ledger.entries, 1 ≤ entry.seq ∧ entry.seq ≤ ledger.count
  /-- The rows are those of the entries, one entry after the other. -/
  rows_eq : (ledger.entries.mapM (LedgerEntry.rows t nPis)).map List.flatten = .ok ledger.rows
  /-- The clause of an entry has the negated literals of the entry. -/
  clause_eq : ∀ entry ∈ ledger.entries,
    entry.lits.mapM Literal.negate = .ok entry.blockingClause
  /-- Place by place these are of the same variable and of the other polarity. -/
  clause_opposite : ∀ entry ∈ ledger.entries,
    List.Forall₂ Literal.AreOpposite entry.lits entry.blockingClause

/-- The ledger without entries is consistent. -/
theorem consistent_empty (t : Placement) (nPis : Int) : Consistent t nPis {} := by
  constructor
  · exact List.Pairwise.nil
  · intro entry hentry
    cases hentry
  · rfl
  · intro entry hentry
    cases hentry
  · intro entry hentry
    cases hentry

/-- Taking a number without an entry keeps the ledger consistent. -/
theorem Consistent.numbered {t : Placement} {nPis : Int} {ledger : Ledger}
    (h : ledger.Consistent t nPis) : ledger.numbered.Consistent t nPis := by
  refine ⟨h.seq_increasing, ?_, h.rows_eq, h.clause_eq, h.clause_opposite⟩
  intro entry hentry
  rcases h.seq_range entry hentry with ⟨hlow, hhigh⟩
  rw [count_numbered]
  exact ⟨hlow, Nat.le_succ_of_le hhigh⟩

/-- Literals that are not negative can be negated one by one. -/
theorem mapM_negate_of_nonneg {lits : List Int} (hnonneg : ∀ l ∈ lits, 0 ≤ l) :
    lits.mapM Literal.negate = .ok (lits.map Literal.opposite) := by
  induction lits with
  | nil => rfl
  | cons l lits ih =>
    rcases List.forall_mem_cons.1 hnonneg with ⟨hl, hlits⟩
    rw [List.mapM_cons, Literal.negate_of_nonneg hl, ih hlits]
    rfl

/-- The rows of entries with one more entry at the end. -/
theorem mapM_rows_append {t : Placement} {nPis : Int} {entries : List LedgerEntry}
    {entry : LedgerEntry} {rows more : List LedgerRow}
    (hrows : (entries.mapM (LedgerEntry.rows t nPis)).map List.flatten = .ok rows)
    (hmore : entry.rows t nPis = .ok more) :
    ((entries ++ [entry]).mapM (LedgerEntry.rows t nPis)).map List.flatten =
      .ok (rows ++ more) := by
  cases hparts : entries.mapM (LedgerEntry.rows t nPis) with
  | error fault => simp [hparts, Except.map] at hrows
  | ok parts =>
    have hflatten : parts.flatten = rows := by
      rw [hparts] at hrows
      exact Except.ok.inj hrows
    have hlast : [entry].mapM (LedgerEntry.rows t nPis) = .ok [more] := by
      rw [List.mapM_cons, hmore]
      rfl
    rw [List.mapM_append, hparts, hlast]
    simp only [bind, Except.bind, pure, Except.pure, Except.map, List.flatten_append,
      List.flatten_singleton, hflatten]

/-- Entering a program without negative literals keeps the ledger consistent. -/
theorem Consistent.recorded {t : Placement} (hindexed : t.Indexed) {nPis : Int} {ledger : Ledger}
    (h : ledger.Consistent t nPis) {p : Program} (hnonneg : ∀ l ∈ p.lits, 0 ≤ l) :
    (ledger.recorded t nPis p).Consistent t nPis := by
  constructor
  case seq_increasing =>
    rw [entries_recorded, List.pairwise_append]
    refine ⟨h.seq_increasing, List.pairwise_singleton _ _, ?_⟩
    intro a ha b hb
    rw [List.mem_singleton.1 hb]
    exact Nat.lt_succ_of_le (h.seq_range a ha).2
  case seq_range =>
    intro entry hentry
    rw [entries_recorded, List.mem_append, List.mem_singleton] at hentry
    rw [count_recorded]
    rcases hentry with hold | rfl
    · rcases h.seq_range entry hold with ⟨hlow, hhigh⟩
      exact ⟨hlow, Nat.le_succ_of_le hhigh⟩
    · exact ⟨Nat.le_add_left 1 _, Nat.le_refl _⟩
  case rows_eq =>
    rw [entries_recorded, rows_recorded]
    apply mapM_rows_append h.rows_eq
    rw [LedgerEntry.rows, hindexed.ofLits_of_nonneg nPis hnonneg]
    rfl
  case clause_eq =>
    intro entry hentry
    rw [entries_recorded, List.mem_append, List.mem_singleton] at hentry
    rcases hentry with hold | rfl
    · exact h.clause_eq entry hold
    · exact mapM_negate_of_nonneg hnonneg
  case clause_opposite =>
    intro entry hentry
    rw [entries_recorded, List.mem_append, List.mem_singleton] at hentry
    rcases hentry with hold | rfl
    · exact h.clause_opposite entry hold
    · exact Literal.forall₂_map_opposite p.lits

end Ledger

/-! ## Steps -/

/-- A report is never empty. -/
theorem Rendering.report_ne_empty (r : Rendering) (seq : Int) : r.report seq ≠ "" := by
  intro hempty
  have hlength := congrArg String.length hempty
  simp only [report, String.length_append, String.length_empty] at hlength
  have hheading : "Concrete one:\n".length = 14 := by decide
  omega

/-- Whether a step that enters a program wrote its report and then failed. -/
def Step.failedAfterReport (first : Step) (outcome : StepResult) : Bool :=
  match first, outcome.result with
  | .log _ _ _, .error _ => outcome.state.sink ≠ ""
  | _, _ => false

namespace Decoder

section Sessions

variable [Memory]

/-- What a step does to the ledger. -/
inductive LedgerEffect (d : Decoder) (ledger : Ledger) (first : Step) (outcome : StepResult) : Prop
  /-- The step leaves the ledger as it is. -/
  | unchanged (hledger : outcome.state.ledger = ledger)
      (hfailed : first.failedAfterReport outcome = false)
  /-- The step enters a program. -/
  | recorded (p : Program) (hnonneg : ∀ l ∈ p.lits, 0 ≤ l)
      (hledger : outcome.state.ledger = ledger.recorded d.placement d.nPis p)
      (hfailed : first.failedAfterReport outcome = false)
  /-- The step takes a number for a program that it cannot enter. -/
  | skipped (f : Frame) (p : Program) (hasSink : Bool) (hfirst : first = .log f p hasSink)
      (hneg : ∃ l ∈ p.lits, l < 0) (hledger : outcome.state.ledger = ledger.numbered)
      (hfailed : first.failedAfterReport outcome = true)

/-- A step that enters a program changes nothing, skips a number, or enters the program. -/
theorem effect_log (d : Decoder) (hindexed : d.placement.Indexed) (s : DecoderState) (f : Frame)
    (p : Program) (hasSink : Bool) :
    LedgerEffect d s.ledger (.log f p hasSink) (d.step s (.log f p hasSink)) := by
  rcases log_cases d hindexed f p hasSink { s with console := "", sink := "" } with
    ⟨fault, hlog⟩ | ⟨r, fault, hlog, hneg⟩ | ⟨r, -, hnonneg, hlog⟩
  · apply LedgerEffect.unchanged
    · simp only [step, stepFrom, Outcome.answered, hlog]
    · simp only [step, stepFrom, Outcome.answered, hlog]
      rfl
  · apply LedgerEffect.skipped f p hasSink rfl hneg
    · simp only [step, stepFrom, Outcome.answered, hlog]
      rfl
    · have hsink := r.report_ne_empty (s.ledger.count + 1)
      simpa [step, stepFrom, Outcome.answered, hlog, Step.failedAfterReport, Except.map,
        DecoderState.reported] using hsink
  · apply LedgerEffect.recorded p hnonneg
    · simp only [step, stepFrom, Outcome.answered, hlog]
      rfl
    · simp only [step, stepFrom, Outcome.answered, hlog]
      rfl

/-- Decoding a chain changes nothing or enters the program of its start frame. -/
theorem effect_decode (d : Decoder) (hindexed : d.placement.Indexed) (s : DecoderState)
    (c : Chain) (hasSink : Bool) :
    LedgerEffect d s.ledger (.decode c hasSink) (d.step s (.decode c hasSink)) := by
  rcases decode_cases d hindexed c hasSink { s with console := "", sink := "" } with
    ⟨fault, index, hdecode⟩ | ⟨start, p, r, -, hprogram, -, hdecode⟩
  · apply LedgerEffect.unchanged
    · simp only [step, stepFrom, Outcome.answered, hdecode]
    · rfl
  · apply LedgerEffect.recorded p (Program.lits_nonneg hprogram)
    · simp only [step, stepFrom, Outcome.answered, hdecode]
      rfl
    · rfl

/-- A step leaves the ledger as it is, enters a program, or skips a number. -/
theorem step_cases (d : Decoder) (hindexed : d.placement.Indexed) (s : DecoderState)
    (first : Step) : LedgerEffect d s.ledger first (d.step s first) := by
  cases first with
  | decode c hasSink => exact effect_decode d hindexed s c hasSink
  | log f p hasSink => exact effect_log d hindexed s f p hasSink
  | extract c => exact .unchanged (ledger_extract d c _) rfl
  | list p nPis => exact .unchanged (ledger_list d p nPis _) rfl
  | write f seq hasSink =>
    apply LedgerEffect.unchanged
    · rcases write_cases d f seq hasSink { s with console := "", sink := "" } with
        ⟨fault, hwrite⟩ | ⟨r, -, -, -, hwrite⟩
      · simp only [step, stepFrom, Outcome.answered, hwrite]
      · simp only [step, stepFrom, Outcome.answered, hwrite]
        rfl
    · rfl
  | resolve c => exact .unchanged rfl rfl
  | render f => exact .unchanged rfl rfl
  | describe lits nPis => exact .unchanged rfl rfl
  | block p => exact .unchanged rfl rfl
  | query query id => exact .unchanged rfl rfl
  | toy => exact .unchanged rfl rfl
  | reshape shape => exact .unchanged rfl rfl
  | dump => exact .unchanged rfl rfl

/-! ## Sessions -/

/-- The steps of a session with their outcomes. -/
def journal (d : Decoder) (s : DecoderState) (steps : List Step) : List (Step × StepResult) :=
  steps.zip (d.perform s steps)

@[simp]
theorem journal_cons (d : Decoder) (s : DecoderState) (first : Step) (steps : List Step) :
    d.journal s (first :: steps) =
      (first, d.step s first) :: d.journal (d.step s first).state steps :=
  rfl

@[simp]
theorem stateAfter_cons (d : Decoder) (s : DecoderState) (first : Step) (steps : List Step) :
    d.stateAfter s (first :: steps) = d.stateAfter (d.step s first).state steps :=
  rfl

/-- The number of steps of a session that wrote their report and then failed. -/
def failures (d : Decoder) (s : DecoderState) (steps : List Step) : Nat :=
  (d.journal s steps).countP fun done => done.1.failedAfterReport done.2

@[simp]
theorem failures_cons (d : Decoder) (s : DecoderState) (first : Step) (steps : List Step) :
    d.failures s (first :: steps) =
      d.failures (d.step s first).state steps +
        if first.failedAfterReport (d.step s first) then 1 else 0 := by
  rw [failures, journal_cons, List.countP_cons]
  rfl

/-- A step keeps the ledger consistent. -/
theorem consistent_step {d : Decoder} (hindexed : d.placement.Indexed) {s : DecoderState}
    (h : s.ledger.Consistent d.placement d.nPis) (first : Step) :
    (d.step s first).state.ledger.Consistent d.placement d.nPis := by
  cases step_cases d hindexed s first with
  | unchanged hledger => rwa [hledger]
  | recorded p hnonneg hledger =>
    rw [hledger]
    exact h.recorded hindexed hnonneg
  | skipped f p hasSink hfirst hneg hledger =>
    rw [hledger]
    exact h.numbered

/-- The ledger stays consistent over a session. -/
theorem consistent_stateAfter {d : Decoder} (hindexed : d.placement.Indexed) {s : DecoderState}
    (h : s.ledger.Consistent d.placement d.nPis) (steps : List Step) :
    (d.stateAfter s steps).ledger.Consistent d.placement d.nPis := by
  induction steps generalizing s with
  | nil => exact h
  | cons first steps ih => exact ih (consistent_step hindexed h first)

/-- The counter of a ledger and the number of its entries grow alike in a step, unless the step
fails after its report. -/
theorem count_step {d : Decoder} (hindexed : d.placement.Indexed) (s : DecoderState)
    (first : Step) :
    (d.step s first).state.ledger.count + s.ledger.entries.length =
      (d.step s first).state.ledger.entries.length + s.ledger.count +
        if first.failedAfterReport (d.step s first) then 1 else 0 := by
  cases step_cases d hindexed s first with
  | unchanged hledger hfailed =>
    rw [hledger, hfailed, Nat.add_comm]
    rfl
  | recorded p hnonneg hledger hfailed =>
    rw [hledger, hfailed, Ledger.count_recorded, Ledger.entries_recorded, List.length_append,
      List.length_singleton]
    simp only [Bool.false_eq_true, if_false]
    omega
  | skipped f p hasSink hfirst hneg hledger hfailed =>
    rw [hledger, hfailed, Ledger.count_numbered, Ledger.entries_numbered, if_pos rfl]
    omega

/-- The counter runs ahead of the entries by the steps that failed after their report. -/
theorem count_stateAfter {d : Decoder} (hindexed : d.placement.Indexed) (s : DecoderState)
    (steps : List Step) :
    (d.stateAfter s steps).ledger.count + s.ledger.entries.length =
      (d.stateAfter s steps).ledger.entries.length + s.ledger.count + d.failures s steps := by
  induction steps generalizing s with
  | nil => exact Nat.add_comm _ _
  | cons first steps ih =>
    have hstep := count_step hindexed s first
    have hrest := ih (d.step s first).state
    rw [stateAfter_cons, failures_cons]
    omega

/-- A step that failed after its report was given a program with a negative literal. -/
theorem negative_of_failedAfterReport {d : Decoder} (hindexed : d.placement.Indexed)
    {s : DecoderState} {steps : List Step} {first : Step} {outcome : StepResult}
    (hdone : (first, outcome) ∈ d.journal s steps)
    (hfailed : first.failedAfterReport outcome = true) :
    ∃ f p hasSink, first = .log f p hasSink ∧ ∃ l ∈ p.lits, l < 0 := by
  induction steps generalizing s with
  | nil => cases hdone
  | cons next steps ih =>
    rw [journal_cons, List.mem_cons] at hdone
    rcases hdone with hnext | hlater
    · cases hnext
      cases step_cases d hindexed s first with
      | unchanged hledger hnot =>
        rw [hnot] at hfailed
        contradiction
      | recorded p hnonneg hledger hnot =>
        rw [hnot] at hfailed
        contradiction
      | skipped f p hasSink hfirst hneg => exact ⟨f, p, hasSink, hfirst, hneg⟩
    · exact ih hlater

/-- As long as no program with a negative literal is entered, the entries have all numbers. -/
theorem seqs_stateAfter {d : Decoder} (hindexed : d.placement.Indexed) {s : DecoderState}
    (h : s.ledger.entries.map (·.seq) = List.range' 1 s.ledger.count) {steps : List Step}
    (hnonneg : ∀ {f p hasSink}, Step.log f p hasSink ∈ steps → ∀ l ∈ p.lits, 0 ≤ l) :
    (d.stateAfter s steps).ledger.entries.map (·.seq) =
      List.range' 1 (d.stateAfter s steps).ledger.count := by
  induction steps generalizing s with
  | nil => exact h
  | cons first steps ih =>
    rw [stateAfter_cons]
    apply ih
    · cases step_cases d hindexed s first with
      | unchanged hledger => rwa [hledger]
      | recorded p _ hledger =>
        rw [hledger, Ledger.entries_recorded, Ledger.count_recorded, List.map_append, h,
          List.range'_1_concat, Nat.add_comm 1]
        rfl
      | skipped f p hasSink hfirst hneg =>
        rcases hneg with ⟨l, hl, hneg⟩
        have hlog : Step.log f p hasSink ∈ first :: steps := by
          rw [hfirst]
          exact List.mem_cons_self
        exact absurd (hnonneg hlog l hl) (Int.not_le.2 hneg)
    · exact fun hlog => hnonneg (List.mem_cons_of_mem first hlog)

/-- What holds of the ledger after the steps of a session. -/
structure SessionInvariant (d : Decoder) (steps : List Step) : Prop where
  /-- The ledger is consistent. -/
  consistent : (d.stateAfter d.start steps).ledger.Consistent d.placement d.nPis
  /-- The counter is ahead of the entries by the steps that wrote their report and failed. -/
  count_eq : (d.stateAfter d.start steps).ledger.count =
    (d.stateAfter d.start steps).ledger.entries.length + d.failures d.start steps
  /-- Each of these steps was given a program with a negative literal. -/
  negative_of_failed : ∀ {first outcome}, (first, outcome) ∈ d.journal d.start steps →
    first.failedAfterReport outcome = true →
      ∃ f p hasSink, first = .log f p hasSink ∧ ∃ l ∈ p.lits, l < 0
  /-- Without such programs the entries have exactly the numbers up to the counter. -/
  seqs_eq : (∀ {f p hasSink}, Step.log f p hasSink ∈ steps → ∀ l ∈ p.lits, 0 ≤ l) →
    (d.stateAfter d.start steps).ledger.entries.map (·.seq) =
      List.range' 1 (d.stateAfter d.start steps).ledger.count

/-- The invariant of the ledger holds after every sequence of steps, so it holds after each step
of a session. -/
theorem ledger_after_session {entries : List (Option Int)} {instLen nInsts : Int} {t : Placement}
    {registers : RegisterTable} {nPis resetVar : Int} {d : Decoder}
    (hplacement : Placement.ofIndexes entries instLen nInsts = .ok t)
    (hdecoder : ofTables t registers nPis resetVar = .ok d) (steps : List Step) :
    SessionInvariant d steps := by
  have hindexed : d.placement.Indexed := by
    rw [(ofTables_eq_ok hdecoder).2]
    exact Placement.indexed_of_ofIndexes hplacement
  constructor
  case consistent =>
    exact consistent_stateAfter hindexed (Ledger.consistent_empty d.placement d.nPis) steps
  case count_eq => exact count_stateAfter hindexed d.start steps
  case negative_of_failed =>
    intro first outcome hdone hfailed
    exact negative_of_failedAfterReport hindexed hdone hfailed
  case seqs_eq =>
    intro hnonneg
    exact seqs_stateAfter hindexed rfl hnonneg

end Sessions

/-- A session on the small design that decodes its chain, changes the shape, fails to enter a
program with a negative literal after its report, and enters another program. -/
def sampleSession : List Step :=
  [.decode .sample true, .reshape ⟨4, 1⟩, .log { inputLits := [6] } ⟨0, [4, -1]⟩ true,
    .render { inputLits := [-2] }, .log { inputLits := [6] } ⟨7, [6]⟩ true, .dump]

/-- The small session skips the number of the program with the negative literal. -/
theorem ledger_after_session_sample :
    (Decoder.sample.stateAfter Decoder.sample.start sampleSession).ledger.entries.map (·.seq) =
      [1, 3] ∧
    Decoder.sample.failures Decoder.sample.start sampleSession = 1 ∧
    SessionInvariant Decoder.sample sampleSession := by
  refine ⟨rfl, rfl, ?_⟩
  exact ledger_after_session Placement.ofIndexes_sample ofTables_sample sampleSession

end Decoder
end ImemReplay
