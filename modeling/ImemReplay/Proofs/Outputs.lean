import ImemReplay.Proofs.Decoding
import ImemReplay.Proofs.Grids
import ImemReplay.Proofs.ReportReading

/-!
# The outputs of one decoded chain

A decoded chain is reported three times: as a pair of pictures in the sink, as rows of
assignments in the ledger, and as an entry with the literals of the program.  The pictures are
painted from the raw frame, the rows are described from the program, and the program is what the
extraction kept of the frame; all three tell of the same literals.

Main results:

- Theorem `decode_outputs_agree`: the rows list the literals of the entry, and writing the rows
  into an empty grid draws the pictures.
-/

namespace ImemReplay

namespace Placement

/-- The assignment of a kept literal says which literal it is of. -/
theorem literal_of_assignmentOf (t : Placement) (l : Int) :
    (t.assignmentOf l).literal =
      2 * (t.assignmentOf l).input + (1 - (t.assignmentOf l).value.toInt) :=
  Literal.eq_of_polarity l

/-- The assignments of literals are of these literals. -/
theorem map_literal_assignmentOf (t : Placement) (lits : List Int) :
    (lits.map t.assignmentOf).map (·.literal) = lits := by
  rw [List.map_map]
  exact List.map_id lits

/-- The address of a kept literal is one of the memory. -/
theorem address_range {t : Placement} (ht : t.WellFormed) (hindexed : t.Indexed) {nPis l : Int}
    (hkeeps : t.keeps nPis l = true) :
    (0 ≤ (t.assignmentOf l).inst ∧ (t.assignmentOf l).inst < t.nInsts) ∧
      0 ≤ (t.assignmentOf l).bit ∧ (t.assignmentOf l).bit < t.instLen := by
  rcases hindexed.exists_slotAt hkeeps with ⟨slot, hslot⟩
  have hinst := ht.inst_range hslot
  have hbit := ht.bit_range slot
  simp only [assignmentOf, hslot, Option.getD_some]
  exact ⟨hinst, hbit⟩

end Placement

namespace Decoder

/-- The outputs that a decoding adds to a state tell of one program: `rows` are its assignments
and `r` is its picture. -/
structure OutputsAgree (t : Placement) (nPis : Int) (p : Program) (s s' : DecoderState)
    (rows : List Assignment) (r : Rendering) : Prop where
  /-- The decoding takes the next number, under which all outputs are kept. -/
  count_eq : s'.ledger.count = s.ledger.count + 1
  /-- The rows of the ledger grow by the assignments, in order. -/
  rows_eq : s'.ledger.rows = s.ledger.rows ++ rows.map (⟨s'.ledger.count, ·⟩)
  /-- The assignments are what the literals of the program describe. -/
  described : Assignment.ofLits t nPis p.lits = .ok rows
  /-- There is one assignment per literal, none is dropped. -/
  literals_eq : rows.map (·.literal) = p.lits
  /-- A literal is the one of its input and value. -/
  literal_eq : ∀ a ∈ rows, a.literal = 2 * a.input + (1 - a.value.toInt)
  /-- Every assignment has its place in the grid. -/
  address_range : ∀ a ∈ rows, (0 ≤ a.inst ∧ a.inst < t.nInsts) ∧ 0 ≤ a.bit ∧ a.bit < t.instLen
  /-- The sink gets the report of the picture. -/
  sink_eq : s'.sink = s.sink ++ r.report s'.ledger.count
  /-- The report is read back: its number and the rows of both views. -/
  report_readBack : Report.ReadBack t.nInsts.toNat (r.report s'.ledger.count)
    [⟨s'.ledger.count, r.concrete, r.generalized⟩]
  /-- Writing the assignments into a grid of free bits draws the generalized rows. -/
  generalized_eq : r.generalized = (Grid.replay t.shape 'x' rows).map String.ofList
  /-- Writing the assignments into a grid of clear bits draws the concrete rows. -/
  concrete_eq : r.concrete = (Grid.replay t.shape '0' rows).map String.ofList
  /-- The entry of the ledger has the start frame and the literals of the program. -/
  entries_eq : ∃ clause, s'.ledger.entries =
    s.ledger.entries ++ [⟨s'.ledger.count, p.startFrame, p.lits, clause⟩]

/-- In any state whose reports have the shape of the placement, the outputs of a decoding that
succeeds tell of the program that it returns. -/
theorem decode_outputs_agree [Memory] {entries : List (Option Int)} {instLen nInsts : Int}
    {t : Placement} {registers : RegisterTable} {nPis resetVar : Int} {d : Decoder}
    (hplacement : Placement.ofIndexes entries instLen nInsts = .ok t)
    (hdecoder : ofTables t registers nPis resetVar = .ok d) {s s' : DecoderState}
    (hshape : s.shape = t.shape) {c : Chain} {hasSink : Bool} {p : Program}
    (hdecode : d.decode c hasSink s = (.ok p, s')) :
    ∃ rows r, OutputsAgree t nPis p s s' rows r := by
  have ht := Placement.wellFormed_of_ofEntries hplacement
  have hindexed := Placement.indexed_of_ofIndexes hplacement
  rcases ofTables_eq_ok hdecoder with ⟨-, rfl⟩
  rcases decode_cases ⟨t, registers, nPis, resetVar⟩ hindexed c hasSink s with
    ⟨fault, index, hfails⟩ | ⟨start, q, r, -, hprogram, hrender, hdecodes⟩
  · rw [hfails] at hdecode
    cases hdecode
  · rw [hdecodes] at hdecode
    cases hdecode
    rw [render, hshape] at hrender
    rcases Program.ofStartFrame_eq_ok_iff.1 hprogram with ⟨hnonneg, -, rfl⟩
    rcases Rendering.rows_eq_replay ht hindexed hrender with ⟨hgeneralized, hconcrete⟩
    refine ⟨(start.frame.inputLits.filter (t.keeps nPis)).map t.assignmentOf, r, ?_⟩
    constructor
    case count_eq => rfl
    case rows_eq =>
      have hrows := Ledger.rows_recorded s.ledger t nPis
        ⟨start.index, start.frame.inputLits.filter (t.keeps nPis)⟩
      rw [t.filter_keeps] at hrows
      exact hrows
    case described => exact hindexed.ofLits_of_filter nPis hnonneg
    case literals_eq => exact t.map_literal_assignmentOf _
    case literal_eq =>
      intro a ha
      rcases List.mem_map.1 ha with ⟨l, -, rfl⟩
      exact t.literal_of_assignmentOf l
    case address_range =>
      intro a ha
      rcases List.mem_map.1 ha with ⟨l, hl, rfl⟩
      exact Placement.address_range ht hindexed (List.mem_filter.1 hl).2
    case sink_eq => rfl
    case report_readBack =>
      have hwords := congrArg (·.words.length) (Rendering.ofFrame_eq_ok hrender).2.2
      exact Report.readBack_report _ (hwords.trans (Rendering.length_wordsOf _ _))
    case generalized_eq => exact hgeneralized
    case concrete_eq => exact hconcrete
    case entries_eq => exact ⟨_, rfl⟩

/-- Decoding the small chain twice: the outputs of the second decoding tell of its program. -/
theorem decode_outputs_agree_sample :
    (Decoder.sample.decode .sample true
        (Decoder.sample.decode .sample true Decoder.sample.start).2).1 =
      .ok ⟨1, [4, 7, 5, 8, 4]⟩ ∧
    ∃ rows r, OutputsAgree .sample 5 ⟨1, [4, 7, 5, 8, 4]⟩
      (Decoder.sample.decode .sample true Decoder.sample.start).2
      (Decoder.sample.decode .sample true
        (Decoder.sample.decode .sample true Decoder.sample.start).2).2 rows r := by
  refine ⟨rfl, ?_⟩
  exact decode_outputs_agree Placement.ofIndexes_sample ofTables_sample rfl
    (Prod.ext rfl rfl : Decoder.sample.decode .sample true
        (Decoder.sample.decode .sample true Decoder.sample.start).2 =
      (.ok ⟨1, [4, 7, 5, 8, 4]⟩, (Decoder.sample.decode .sample true
        (Decoder.sample.decode .sample true Decoder.sample.start).2).2))

end Decoder
end ImemReplay
