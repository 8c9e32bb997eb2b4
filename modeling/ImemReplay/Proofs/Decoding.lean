import ImemReplay.Decoder
import ImemReplay.Proofs.Painting
import ImemReplay.Proofs.StartFrames

/-!
# Transitions of a decoder

Entering a program in the ledger takes several steps, and decoding a chain takes several more;
each of them can fail.  This module states once which states they can leave behind: nothing has
happened, the report is written and its number taken but the program is not entered, or the
program is entered with all its rows.

Main results:

- Theorem `log_cases`: the three ways in which entering a program ends.
- Theorem `decode_cases`: decoding either enters the program of the start frame or leaves the
  ledger and the sink as they were.
- Theorem `extract_eq_ok`: what an extraction that succeeds has found.

The definitions at the end are a small design with a chain for it, on which the results about
decoders are tried out.
-/

namespace ImemReplay

namespace Ledger

/-- The ledger after a program was entered under the next number. -/
def recorded (ledger : Ledger) (t : Placement) (nPis : Int) (p : Program) : Ledger :=
  (ledger.numbered.addEntry p (p.lits.map Literal.opposite)).addRows
    ((p.lits.filter (t.keeps nPis)).map t.assignmentOf)

@[simp]
theorem count_recorded (ledger : Ledger) (t : Placement) (nPis : Int) (p : Program) :
    (ledger.recorded t nPis p).count = ledger.count + 1 :=
  rfl

@[simp]
theorem entries_recorded (ledger : Ledger) (t : Placement) (nPis : Int) (p : Program) :
    (ledger.recorded t nPis p).entries = ledger.entries ++
      [⟨ledger.count + 1, p.startFrame, p.lits, p.lits.map Literal.opposite⟩] :=
  rfl

@[simp]
theorem rows_recorded (ledger : Ledger) (t : Placement) (nPis : Int) (p : Program) :
    (ledger.recorded t nPis p).rows = ledger.rows ++
      ((p.lits.filter (t.keeps nPis)).map t.assignmentOf).map (⟨ledger.count + 1, ·⟩) :=
  rfl

end Ledger

namespace DecoderState

/-- The state after a report was written and its number taken. -/
def reported (s : DecoderState) (r : Rendering) : DecoderState :=
  { s with sink := s.sink ++ r.report (s.ledger.count + 1), ledger := s.ledger.numbered }

/-- The state after a program was reported and entered. -/
def recorded (s : DecoderState) (d : Decoder) (r : Rendering) (p : Program) : DecoderState :=
  { s with
    sink := s.sink ++ r.report (s.ledger.count + 1)
    ledger := s.ledger.recorded d.placement d.nPis p }

end DecoderState

namespace Decoder

/-- The decoder of given tables has them. -/
theorem ofTables_eq_ok {placement : Placement} {registers : RegisterTable} {nPis resetVar : Int}
    {d : Decoder} (h : ofTables placement registers nPis resetVar = .ok d) :
    0 ≤ resetVar ∧ d = ⟨placement, registers, nPis, resetVar⟩ := by
  unfold ofTables at h
  split at h
  · contradiction
  · next hreset => exact ⟨by omega, (Except.ok.inj h).symm⟩

/-! ## Writing and entering -/

section Writing

variable [Memory]

/-- A report is written when there is a sink and the frame has a picture. -/
theorem writeUnder_cases (d : Decoder) (f : Frame) (seq : Int) (hasSink : Bool)
    (s : DecoderState) :
    (∃ fault, d.writeUnder f seq hasSink s = (.error fault, s)) ∨
      ∃ r, hasSink = true ∧ d.render f s = .ok r ∧
        d.writeUnder f seq hasSink s = (.ok r, s.append (r.report seq)) := by
  cases hasSink with
  | false => exact Or.inl ⟨_, rfl⟩
  | true =>
    cases hrender : d.render f s with
    | error fault => exact Or.inl ⟨fault, by simp [writeUnder, hrender]⟩
    | ok r => exact Or.inr ⟨r, rfl, rfl, by simp [writeUnder, hrender]⟩

/-- The number of a report makes no difference if it can be written. -/
theorem write_of_isWritable {d : Decoder} {f : Frame} {seq : Int} {hasSink : Bool}
    {s : DecoderState} (hseq : Text.isWritable seq = true) :
    d.write f seq hasSink s = d.writeUnder f seq hasSink s := by
  unfold write
  rcases writeUnder_cases d f seq hasSink s with ⟨fault, hwrite⟩ | ⟨r, -, -, hwrite⟩
  · rw [hwrite]
  · rw [hwrite]
    exact if_pos hseq

/-- A report under any number is written if the number can be written too. -/
theorem write_cases (d : Decoder) (f : Frame) (seq : Int) (hasSink : Bool) (s : DecoderState) :
    (∃ fault, d.write f seq hasSink s = (.error fault, s)) ∨
      ∃ r, hasSink = true ∧ d.render f s = .ok r ∧ Text.isWritable seq = true ∧
        d.write f seq hasSink s = (.ok r, s.append (r.report seq)) := by
  rcases writeUnder_cases d f seq hasSink s with ⟨fault, hwrite⟩ | ⟨r, hsink, hrender, hwrite⟩
  · exact Or.inl ⟨fault, by rw [write, hwrite]⟩
  · by_cases hseq : Text.isWritable seq = true
    · exact Or.inr ⟨r, hsink, hrender, hseq, (write_of_isWritable hseq).trans hwrite⟩
    · exact Or.inl ⟨.integerSize, by simp only [write, hwrite, if_neg hseq]⟩

/-- A program without negative literals is entered once its frame has a picture. -/
theorem log_of_render {d : Decoder} (hindexed : d.placement.Indexed) {f : Frame} {p : Program}
    {s : DecoderState} {r : Rendering} (hnonneg : ∀ l ∈ p.lits, 0 ≤ l)
    (hrender : d.render f s = .ok r) : d.log f p true s = (.ok r, s.recorded d r p) := by
  have hclause : p.blockingClause = .ok (p.lits.map Literal.opposite) := by
    rw [Program.blockingClause, Program.negateAll_eq_checked]
    exact Literal.checked_of_nonneg _ hnonneg
  have hrows := hindexed.ofLits_of_nonneg d.nPis hnonneg
  simp only [log, writeUnder, hrender, hclause, hrows, if_true]
  rfl

/-- Entering a program changes nothing, or takes a number for a program with a negative literal
and fails, or enters the program with its blocking clause and its rows. -/
theorem log_cases (d : Decoder) (hindexed : d.placement.Indexed) (f : Frame) (p : Program)
    (hasSink : Bool) (s : DecoderState) :
    (∃ fault, d.log f p hasSink s = (.error fault, s)) ∨
      (∃ r fault, d.log f p hasSink s = (.error fault, s.reported r) ∧ ∃ l ∈ p.lits, l < 0) ∨
      ∃ r, d.render f s = .ok r ∧ (∀ l ∈ p.lits, 0 ≤ l) ∧
        d.log f p hasSink s = (.ok r, s.recorded d r p) := by
  rcases writeUnder_cases d f (s.ledger.count + 1) hasSink s with
    ⟨fault, hwrite⟩ | ⟨r, rfl, hrender, hwrite⟩
  · exact Or.inl ⟨fault, by simp only [log, hwrite]⟩
  · right
    cases hclause : p.blockingClause with
    | error fault =>
      left
      have hchecked := hclause
      rw [Program.blockingClause, Program.negateAll_eq_checked] at hchecked
      rcases Literal.exists_neg_of_checked_error hchecked with ⟨l, hl, hneg, -⟩
      exact ⟨r, fault, by simp only [log, hwrite, hclause]; rfl, l, hl, hneg⟩
    | ok clause =>
      right
      rw [Program.blockingClause, Program.negateAll_eq_checked] at hclause
      have hnonneg := (Literal.checked_eq_ok_iff.1 hclause).1
      exact ⟨r, hrender, hnonneg, log_of_render hindexed hnonneg hrender⟩

end Writing

/-! ## Extracting and decoding -/

/-- An extraction that succeeds has found the program of the chain's start frame. -/
theorem extract_eq_ok {d : Decoder} {c : Chain} {s s' : DecoderState} {p : Program}
    (h : d.extract c s = (.ok p, s')) :
    ∃ start, c.startFrame d.resetVar = .ok start ∧
      Program.ofStartFrame d.placement d.nPis d.resetVar start = .ok p ∧
      s' = { s with startFrame := start.index } := by
  unfold extract extractFrom at h
  cases hstart : c.startFrame d.resetVar with
  | error fault => simp [hstart] at h
  | ok start =>
    cases hprogram : Program.ofStartFrame d.placement d.nPis d.resetVar start with
    | error fault => simp [hstart, hprogram] at h
    | ok q =>
      simp only [hstart, hprogram, Prod.mk.injEq, Except.ok.injEq] at h
      rcases h with ⟨rfl, rfl⟩
      exact ⟨start, rfl, hprogram, rfl⟩

/-- An extraction leaves the ledger as it is. -/
theorem ledger_extract (d : Decoder) (c : Chain) (s : DecoderState) :
    (d.extract c s).2.ledger = s.ledger := by
  unfold extract extractFrom
  cases c.startFrame d.resetVar with
  | error fault => rfl
  | ok start =>
    cases hprogram : Program.ofStartFrame d.placement d.nPis d.resetVar start with
    | error fault => simp only [hprogram]
    | ok p => simp only [hprogram]

/-- Listing a program leaves the ledger as it is. -/
theorem ledger_list (d : Decoder) (p : Program) (nPis : Int) (s : DecoderState) :
    (d.list p nPis s).2.ledger = s.ledger := by
  unfold list
  cases Assignment.ofLits d.placement nPis p.lits with
  | error fault => rfl
  | ok rows => rfl

/-- Decoding fails without a trace in the ledger and the sink, or it enters the program of the
chain's start frame. -/
theorem decode_cases [Memory] (d : Decoder) (hindexed : d.placement.Indexed) (c : Chain)
    (hasSink : Bool) (s : DecoderState) :
    (∃ fault index, d.decode c hasSink s = (.error fault, { s with startFrame := index })) ∨
      ∃ start p r, c.startFrame d.resetVar = .ok start ∧
        Program.ofStartFrame d.placement d.nPis d.resetVar start = .ok p ∧
        d.render start.frame s = .ok r ∧
        d.decode c hasSink s =
          (.ok p, (({ s with startFrame := start.index } : DecoderState).recorded d r p).print
            (decodedLine (s.ledger.count + 1) c.length p)) := by
  unfold decode extractFrom
  cases hstart : c.startFrame d.resetVar with
  | error fault => exact Or.inl ⟨fault, s.startFrame, rfl⟩
  | ok start =>
    cases hprogram : Program.ofStartFrame d.placement d.nPis d.resetVar start with
    | error fault => exact Or.inl ⟨fault, s.startFrame, by simp only [hprogram]⟩
    | ok p =>
      rcases log_cases d hindexed start.frame p hasSink { s with startFrame := start.index } with
        ⟨fault, hlog⟩ | ⟨r, fault, -, l, hl, hneg⟩ | ⟨r, hrender, -, hlog⟩
      · exact Or.inl ⟨fault, start.index, by simp only [hprogram, hlog]⟩
      · -- The literals of an extracted program were checked before they were kept.
        exact absurd (Program.lits_nonneg hprogram l hl) (Int.not_le.2 hneg)
      · refine Or.inr ⟨start, p, r, rfl, hprogram, hrender, ?_⟩
        simp only [hprogram, hlog]
        rfl

end Decoder

/-! ## A small design -/

/-- Two instructions of two bits; inputs 2, 3 and 4 have the bits 0, 3 and 1. -/
def Placement.sample : Placement := ⟨2, 2, [none, none, some (.whole 0), some (.whole 3),
  some (.whole 1)]⟩

theorem Placement.ofIndexes_sample :
    ofIndexes [none, none, some 0, some 3, some 1] 2 2 = .ok .sample :=
  rfl

/-- The decoder of the small placement, where input 1 is reset. -/
def Decoder.sample : Decoder := ⟨.sample, {}, 5, 1⟩

theorem Decoder.ofTables_sample : ofTables .sample {} 5 1 = .ok .sample :=
  rfl

/-- A chain that asserts reset in its middle frame.  The frame sets and clears input 2, and has
literals on inputs without bits. -/
def Chain.sample : Chain :=
  [{ inputLits := [4] }, { stateLits := [9], inputLits := [2, 4, 7, 5, 8, 40, 4] },
    { inputLits := [3] }]

/-- The program of the chain has the literals on inputs 2, 3 and 4, in order. -/
theorem Decoder.extract_sample :
    Decoder.sample.extract .sample Decoder.sample.start =
      (.ok ⟨1, [4, 7, 5, 8, 4]⟩, { Decoder.sample.start with startFrame := 1 }) :=
  rfl

end ImemReplay
