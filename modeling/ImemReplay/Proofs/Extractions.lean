import ImemReplay.Proofs.Decodability

/-!
# The start frame that a decoder shows

A decoder shows the start frame of its last extraction.  A decoding notes the frame before it
writes the report, so a decoding that fails for want of a sink has changed it all the same, and one
that fails earlier has changed nothing.  Over any sequence of calls the decoder therefore shows the
start frame of the last program that was extracted, whatever became of the program.

Main results:

- Theorem `extractFrom_exactly`: when a program is extracted from a start frame, and which.
- Theorem `unwritable_index_not_named`: a denied reset that is not reported as one.
- Theorem `call_of_extracted_error` and theorem `startFrame_call`: what one call changes.
- Theorem `startFrame_afterCalls`: the start frame that is shown after a sequence of calls.
- Theorem `tracks_extractions`: all of this for every decoder and every sequence of calls.
-/

namespace ImemReplay

/-- A call of a decoder that extracts a program. -/
inductive ExtractionCall where
  | extract (chain : Chain)
  /-- The extraction from a frame that was found before. -/
  | extractFrom (start : StartFrame)
  | decode (chain : Chain) (hasSink : Bool)
deriving DecidableEq, Repr

namespace Decoder

/-! ## Extraction from a start frame -/

/-- The denied reset literal and the index of the frame can be written. -/
def NamesDenied (d : Decoder) (start : StartFrame) : Prop :=
  Text.isWritable (2 * d.resetVar + 1) = true ∧ Text.isWritable start.index = true

/-- When a program is extracted from a start frame, which one it is, and how the fault is reported
otherwise. -/
structure ExtractsExactly (d : Decoder) (start : StartFrame) (s : DecoderState) : Prop where
  /-- A value is invalid exactly for a frame with a negative input literal, and where a denied reset
  cannot be named. -/
  invalidValue_iff : (∃ fault, (d.extractFrom start s).1 = .error fault ∧
    fault.reported.kind = .invalidValue) ↔
      (∃ l ∈ start.frame.inputLits, l < 0) ∨
        ((∀ l ∈ start.frame.inputLits, 0 ≤ l) ∧ d.DeniesReset start.frame ∧
          ¬d.NamesDenied start)
  /-- A contradiction is reported exactly for a frame without such literals that denies reset, if
  the literal and the index can be written. -/
  contradiction_iff : (∃ fault, (d.extractFrom start s).1 = .error fault ∧
    fault.reported.kind = .contradiction) ↔
      (∀ l ∈ start.frame.inputLits, 0 ≤ l) ∧ d.DeniesReset start.frame ∧ d.NamesDenied start
  /-- Its text names the literal and the index of the frame. -/
  text_of_denied : ∀ {fault}, (d.extractFrom start s).1 = .error fault →
    fault.reported.kind = .contradiction →
      fault.reported.message? =
        s!"complemented reset literal {2 * d.resetVar + 1} kept in frame {start.index}"
  /-- The two can be written if the table and the chain of the frame are no longer than lists can
  be. -/
  namesDenied : d.DeniesReset start.frame → d.placement.length < Capacity.wordBound →
    start.index < Capacity.wordBound → d.NamesDenied start
  /-- Otherwise the program has the kept literals, none of them in the state segment. -/
  succeeds_otherwise : (∀ l ∈ start.frame.inputLits, 0 ≤ l) → ¬d.DeniesReset start.frame →
    ∃ p, (d.extractFrom start s).1 = .ok p ∧ p.startFrame = start.index ∧
      p.toFrame.lits = start.frame.inputLits.filter (d.placement.keeps d.nPis) ∧
      p.toFrame.stateCount = 0

/-- The answer of an extraction does not depend on the state. -/
theorem fst_extractFrom (d : Decoder) (start : StartFrame) (s : DecoderState) :
    (d.extractFrom start s).1 =
      Program.ofStartFrame d.placement d.nPis d.resetVar start := by
  unfold extractFrom
  cases Program.ofStartFrame d.placement d.nPis d.resetVar start with
  | error fault => rfl
  | ok p => rfl

/-- The fault of an extraction is a negative literal, or, if there is none, the denied reset. -/
theorem extractFrom_fault_cases {d : Decoder} {start : StartFrame} {s : DecoderState}
    {fault : Fault} (h : (d.extractFrom start s).1 = .error fault) :
    (fault.kind = .invalidValue ∧ ∃ l ∈ start.frame.inputLits, l < 0) ∨
      (fault = .resetDenied (2 * d.resetVar + 1) start.index ∧
        (∀ l ∈ start.frame.inputLits, 0 ≤ l) ∧ d.DeniesReset start.frame) := by
  rw [fst_extractFrom] at h
  rcases Program.ofStartFrame_eq_error h with ⟨l, hl, hneg, rfl⟩ | ⟨hnonneg, hdenied, rfl⟩
  · exact Or.inl ⟨rfl, l, hl, hneg⟩
  · exact Or.inr ⟨rfl, hnonneg, denying_mem_kept_iff.1 hdenied⟩

/-- An extraction from a frame without negative input literals that does not deny reset. -/
theorem extractFrom_of_nonneg {d : Decoder} {start : StartFrame} (s : DecoderState)
    (hnonneg : ∀ l ∈ start.frame.inputLits, 0 ≤ l) (hnot : ¬d.DeniesReset start.frame) :
    (d.extractFrom start s).1 =
      .ok ⟨start.index, start.frame.inputLits.filter (d.placement.keeps d.nPis)⟩ := by
  rw [fst_extractFrom]
  apply Program.ofStartFrame_eq_ok_iff.2
  exact ⟨hnonneg, fun hdenied => hnot (denying_mem_kept_iff.1 hdenied), rfl⟩

/-- The fault of a denied reset shows what names it. -/
theorem shown_resetDenied_iff {d : Decoder} {start : StartFrame} :
    (Fault.resetDenied (2 * d.resetVar + 1) start.index).shown.all Text.isWritable = true ↔
      d.NamesDenied start := by
  simp only [Fault.shown, List.all_cons, List.all_nil, Bool.and_true, Bool.and_eq_true, NamesDenied]

/-- The fault of an extraction is reported as a negative literal is, or as a denied reset, which
needs to be named. -/
theorem extractFrom_reported_cases {d : Decoder} {start : StartFrame} {s : DecoderState}
    {fault : Fault} (h : (d.extractFrom start s).1 = .error fault) :
    (fault.reported.kind = .invalidValue ∧ ∃ l ∈ start.frame.inputLits, l < 0) ∨
      ((∀ l ∈ start.frame.inputLits, 0 ≤ l) ∧ d.DeniesReset start.frame ∧
        (d.NamesDenied start ∧ fault.reported = .resetDenied (2 * d.resetVar + 1) start.index ∨
          ¬d.NamesDenied start ∧ fault.reported.kind = .invalidValue)) := by
  rcases extractFrom_fault_cases h with ⟨hkind, hneg⟩ | ⟨rfl, hnonneg, hdenies⟩
  · exact Or.inl ⟨Fault.kind_reported_of_invalidValue hkind, hneg⟩
  · refine Or.inr ⟨hnonneg, hdenies, ?_⟩
    by_cases hnames : d.NamesDenied start
    · exact Or.inl ⟨hnames, Fault.reported_eq_self (shown_resetDenied_iff.2 hnames)⟩
    · refine Or.inr ⟨hnames, ?_⟩
      rw [Fault.kind_reported, if_neg fun hshown => hnames (shown_resetDenied_iff.1 hshown)]

/-- A negative literal comes before a denied reset, wherever the two stand in the frame. -/
theorem extractFrom_exactly (d : Decoder) (start : StartFrame) (s : DecoderState) :
    d.ExtractsExactly start s := by
  -- An extraction that succeeds rules out both grounds; one that fails has one of them.
  have haccepted : ∀ {p}, (d.extractFrom start s).1 = .ok p →
      (∀ l ∈ start.frame.inputLits, 0 ≤ l) ∧ ¬d.DeniesReset start.frame := by
    intro p hp
    rw [fst_extractFrom] at hp
    rcases Program.ofStartFrame_eq_ok_iff.1 hp with ⟨hnonneg, hdenied, -⟩
    exact ⟨hnonneg, fun h => hdenied (denying_mem_kept_iff.2 h)⟩
  constructor
  case invalidValue_iff =>
    constructor
    · rintro ⟨fault, hfault, hkind⟩
      rcases extractFrom_reported_cases hfault with ⟨-, hneg⟩ |
        ⟨hnonneg, hdenies, ⟨-, hreported⟩ | ⟨hnot, -⟩⟩
      · exact Or.inl hneg
      · rw [hreported] at hkind
        contradiction
      · exact Or.inr ⟨hnonneg, hdenies, hnot⟩
    · intro hgrounds
      cases hanswer : (d.extractFrom start s).1 with
      | ok p =>
        rcases haccepted hanswer with ⟨hnonneg, hnot⟩
        rcases hgrounds with ⟨l, hl, hneg⟩ | ⟨-, hdenies, -⟩
        · exact absurd (hnonneg l hl) (Int.not_le.2 hneg)
        · exact absurd hdenies hnot
      | error fault =>
        refine ⟨fault, rfl, ?_⟩
        rcases extractFrom_reported_cases hanswer with ⟨hkind, -⟩ |
          ⟨hnonneg, -, ⟨hnames, -⟩ | ⟨-, hkind⟩⟩
        · exact hkind
        · rcases hgrounds with ⟨l, hl, hneg⟩ | ⟨-, -, hnot⟩
          · exact absurd (hnonneg l hl) (Int.not_le.2 hneg)
          · exact absurd hnames hnot
        · exact hkind
  case contradiction_iff =>
    constructor
    · rintro ⟨fault, hfault, hkind⟩
      rcases extractFrom_reported_cases hfault with ⟨hinvalid, -⟩ |
        ⟨hnonneg, hdenies, ⟨hnames, -⟩ | ⟨-, hinvalid⟩⟩
      · rw [hinvalid] at hkind
        contradiction
      · exact ⟨hnonneg, hdenies, hnames⟩
      · rw [hinvalid] at hkind
        contradiction
    · rintro ⟨hnonneg, hdenies, hnames⟩
      cases hanswer : (d.extractFrom start s).1 with
      | ok p => exact absurd hdenies (haccepted hanswer).2
      | error fault =>
        rcases extractFrom_reported_cases hanswer with ⟨-, l, hl, hneg⟩ |
          ⟨-, -, ⟨-, hreported⟩ | ⟨hnot, -⟩⟩
        · exact absurd (hnonneg l hl) (Int.not_le.2 hneg)
        · exact ⟨fault, rfl, by rw [hreported]; rfl⟩
        · exact absurd hnames hnot
  case text_of_denied =>
    intro fault hfault hkind
    rcases extractFrom_reported_cases hfault with ⟨hinvalid, -⟩ |
      ⟨-, -, ⟨-, hreported⟩ | ⟨-, hinvalid⟩⟩
    · rw [hinvalid] at hkind
      contradiction
    · rw [hreported]
      rfl
    · rw [hinvalid] at hkind
      contradiction
  case namesDenied =>
    intro hdenies htable hindex
    exact shown_resetDenied_iff.1 (hdenies.shown_isWritable htable hindex)
  case succeeds_otherwise =>
    intro hnonneg hnot
    exact ⟨_, extractFrom_of_nonneg s hnonneg hnot, rfl, rfl, rfl⟩

/-- The small design with reset on input 2, which has a bit. -/
def resetPlaced : Decoder := { sample with resetVar := 2 }

/-- A frame that denies reset is refused, and what is reported is no contradiction: the index of the
frame cannot be written. -/
theorem unwritable_index_not_named :
    Placement.ofIndexes [none, none, some 0, some 3, some 1] 2 2 = .ok resetPlaced.placement ∧
      ofTables resetPlaced.placement {} 5 2 = .ok resetPlaced ∧
      (∀ l ∈ [5], (0 : Int) ≤ l) ∧ resetPlaced.DeniesReset { inputLits := [5] } ∧
      ∃ fault, (resetPlaced.extractFrom ⟨Text.leastUnwritable.toNat, { inputLits := [5] }⟩
          resetPlaced.start).1 = .error fault ∧
        fault.reported = .integerSize ∧ fault.reported.kind = .invalidValue := by
  have hdenies : resetPlaced.DeniesReset { inputLits := [5] } :=
    ⟨by decide, ⟨.whole 0, rfl⟩, List.mem_singleton_self _⟩
  have hindex : Text.isWritable (Text.leastUnwritable.toNat : Int) = false := by
    rw [Int.toNat_of_nonneg (Int.le_of_lt Text.leastUnwritable_pos)]
    exact Text.isWritable_leastUnwritable
  have hreported : (Fault.resetDenied 5 Text.leastUnwritable.toNat).reported = .integerSize := by
    apply if_neg
    simp only [Fault.shown, List.all_cons, hindex, Bool.and_false, Bool.false_and,
      Bool.false_eq_true, not_false_eq_true]
  exact ⟨rfl, rfl, by decide, hdenies, _, rfl, hreported, congrArg Fault.kind hreported⟩

/-! ## One call -/

/-- The program that a chain has. -/
def programOf (d : Decoder) (c : Chain) : Except Fault Program := do
  let start ← c.startFrame d.resetVar
  Program.ofStartFrame d.placement d.nPis d.resetVar start

/-- The program that a call extracts, whatever becomes of it later in the call. -/
def extracted (d : Decoder) : ExtractionCall → Except Fault Program
  | .extract c => d.programOf c
  | .extractFrom start => Program.ofStartFrame d.placement d.nPis d.resetVar start
  | .decode c _ => d.programOf c

/-- The program of a chain is what its extraction answers, in whatever state. -/
theorem fst_extract (d : Decoder) (c : Chain) (s : DecoderState) :
    (d.extract c s).1 = d.programOf c := by
  unfold extract programOf
  cases c.startFrame d.resetVar with
  | error fault => rfl
  | ok start => exact fst_extractFrom d start s

section Calls

variable [Memory]

/-- Makes a call. -/
def call (d : Decoder) (s : DecoderState) : ExtractionCall → Outcome Program
  | .extract c => d.extract c s
  | .extractFrom start => d.extractFrom start s
  | .decode c hasSink => d.decode c hasSink s

/-- Entering a program leaves the start frame as it is. -/
theorem startFrame_log (d : Decoder) (f : Frame) (p : Program) (hasSink : Bool)
    (s : DecoderState) : (d.log f p hasSink s).2.startFrame = s.startFrame := by
  rcases writeUnder_cases d f (s.ledger.count + 1) hasSink s with
    ⟨fault, hwrite⟩ | ⟨r, -, -, hwrite⟩
  · simp only [log, hwrite]
  · cases hclause : p.blockingClause with
    | error fault => simp only [log, hwrite, hclause, DecoderState.append]
    | ok clause =>
      cases hrows : Assignment.ofLits d.placement d.nPis p.lits with
      | error fault => simp only [log, hwrite, hclause, hrows, DecoderState.append]
      | ok rows => simp only [log, hwrite, hclause, hrows, DecoderState.append]

/-- The start frame of a decoding is noted, however the decoding goes on. -/
theorem startFrame_decode {d : Decoder} {c : Chain} {start : StartFrame} {p : Program}
    (hstart : c.startFrame d.resetVar = .ok start)
    (hprogram : Program.ofStartFrame d.placement d.nPis d.resetVar start = .ok p) (hasSink : Bool)
    (s : DecoderState) : (d.decode c hasSink s).2.startFrame = start.index := by
  have hlogged := startFrame_log d start.frame p hasSink { s with startFrame := start.index }
  simp only [decode, hstart, extractFrom, hprogram]
  rcases hlog : d.log start.frame p hasSink { s with startFrame := start.index } with ⟨answer, s'⟩
  rw [hlog] at hlogged
  cases answer with
  | error fault => exact hlogged
  | ok r => exact hlogged

/-- A call that extracts no program fails with that fault, and changes nothing at all. -/
theorem call_of_extracted_error {d : Decoder} {next : ExtractionCall} {fault : Fault}
    (h : d.extracted next = .error fault) (s : DecoderState) :
    d.call s next = (.error fault, s) := by
  cases next with
  | extractFrom start =>
    simp only [extracted] at h
    simp only [call, extractFrom, h]
  | extract c =>
    rcases bind_eq_error_iff.1 h with hstart | ⟨start, hstart, hprogram⟩
    · simp only [call, extract, hstart]
    · simp only [call, extract, extractFrom, hstart, hprogram]
  | decode c hasSink =>
    rcases bind_eq_error_iff.1 h with hstart | ⟨start, hstart, hprogram⟩
    · exact decode_of_startFrame_error hstart
    · exact decode_of_program_error hstart hprogram

/-- A call that extracts a program notes its start frame, whether or not the call fails later. -/
theorem startFrame_call {d : Decoder} {next : ExtractionCall} {p : Program}
    (h : d.extracted next = .ok p) (s : DecoderState) :
    ((d.call s next).2.startFrame : Int) = p.startFrame := by
  cases next with
  | extractFrom start =>
    have hprogram : Program.ofStartFrame d.placement d.nPis d.resetVar start = .ok p := h
    simp only [call, extractFrom, hprogram, Program.startFrame_ofStartFrame hprogram]
  | extract c =>
    rcases bind_eq_ok_iff.1 h with ⟨start, hstart, hprogram⟩
    have hindex := Program.startFrame_ofStartFrame hprogram
    simp only [call, extract, extractFrom, hstart, hprogram, hindex]
  | decode c hasSink =>
    rcases bind_eq_ok_iff.1 h with ⟨start, hstart, hprogram⟩
    rw [call, startFrame_decode hstart hprogram, Program.startFrame_ofStartFrame hprogram]

/-! ## Sequences of calls -/

/-- The state after calls in order; a call that fails does not end the sequence. -/
def afterCalls (d : Decoder) (s : DecoderState) (calls : List ExtractionCall) : DecoderState :=
  calls.foldl (fun s next => (d.call s next).2) s

/-- The programs that calls extract, in order. -/
def programs (d : Decoder) (calls : List ExtractionCall) : List Program :=
  calls.filterMap fun next => (d.extracted next).toOption

/-- After calls the start frame of the last program is shown, or else the one from before. -/
theorem startFrame_afterCalls (d : Decoder) (s : DecoderState) (calls : List ExtractionCall) :
    ((d.afterCalls s calls).startFrame : Int) =
      ((d.programs calls).getLast?.map (·.startFrame)).getD (s.startFrame : Int) := by
  induction calls generalizing s with
  | nil => rfl
  | cons next calls ih =>
    have hafter : d.afterCalls s (next :: calls) = d.afterCalls (d.call s next).2 calls := rfl
    rw [hafter, ih]
    cases hnext : d.extracted next with
    | error fault =>
      have hprograms : d.programs (next :: calls) = d.programs calls := by
        simp [programs, hnext, Except.toOption]
      rw [hprograms, call_of_extracted_error hnext]
    | ok p =>
      have hprograms : d.programs (next :: calls) = p :: d.programs calls := by
        simp [programs, hnext, Except.toOption]
      rw [hprograms, List.getLast?_cons, startFrame_call hnext]
      cases (d.programs calls).getLast? with
      | none => rfl
      | some last => rfl

/-- A decoding without a sink is refused and is noted; an extraction that is refused is not. -/
example : (sample.afterCalls sample.start [.decode .sample false, .extract []]).startFrame = 1 :=
  rfl

/-- What calls of a new decoder show, and what the next call does. -/
structure TracksExtractions (d : Decoder) (calls : List ExtractionCall) : Prop where
  /-- What a call on a chain extracts is what the extraction from the chain would answer. -/
  answer_extract : ∀ c, (d.extract c (d.afterCalls d.start calls)).1 = d.programOf c
  /-- The start frame of the last program is shown, and 0 as long as there is none. -/
  startFrame_eq : ((d.afterCalls d.start calls).startFrame : Int) =
    ((d.programs calls).getLast?.map (·.startFrame)).getD 0
  /-- The next call shows what it extracts, even if it fails later. -/
  noted_of_extracted : ∀ {next p}, d.extracted next = .ok p →
    ((d.call (d.afterCalls d.start calls) next).2.startFrame : Int) = p.startFrame
  /-- So does a decoding without a sink, which fails for that reason alone. -/
  noted_without_sink : ∀ {c p}, d.programOf c = .ok p →
    ∃ s, d.call (d.afterCalls d.start calls) (.decode c false) = (.error .sinkMissing, s) ∧
      (s.startFrame : Int) = p.startFrame
  /-- A call that extracts nothing fails and changes nothing. -/
  unchanged_of_error : ∀ {next fault}, d.extracted next = .error fault →
    d.call (d.afterCalls d.start calls) next = (.error fault, d.afterCalls d.start calls)
  /-- The extraction from a start frame does not depend on the calls before. -/
  extracts_exactly : ∀ start, d.ExtractsExactly start (d.afterCalls d.start calls)

/-- A decoder shows the start frame of the last program that was extracted, over every sequence of
calls, and every extraction in it is exact. -/
theorem tracks_extractions (d : Decoder) (calls : List ExtractionCall) :
    d.TracksExtractions calls := by
  constructor
  case answer_extract => exact fun c => fst_extract d c _
  case startFrame_eq => exact startFrame_afterCalls d d.start calls
  case noted_of_extracted => exact fun hnext => startFrame_call hnext _
  case noted_without_sink =>
    intro c p hprogram
    rcases bind_eq_ok_iff.1 hprogram with ⟨start, hstart, hp⟩
    exact ⟨_, decode_of_no_sink hstart hp, (Program.startFrame_ofStartFrame hp).symm⟩
  case unchanged_of_error => exact fun hnext => call_of_extracted_error hnext _
  case extracts_exactly => exact fun start => extractFrom_exactly d start _

end Calls

end Decoder
end ImemReplay
