import ImemReplay.Proofs.Runs

/-!
# The dumps of a run

The entries of the ledger are dumped after every run.  The table of their literals is written only
if there is a literal, and then it has a line for each of them.  Without a literal no table is
written, and the one that an earlier run of another decoder has left stays where it is.

Main results:

- Theorem `toTable_eq_tableOf`: the table of a ledger without gaps is that of its entries.
- Theorem `dumps_agree`: after a run that succeeds, the dump and the table are of the same entries,
  unless no entry has a literal and the table is an old one.
- Theorem `stale_table_kept`: a run without any literal that leaves an old table.
-/

namespace ImemReplay

namespace Ledger

/-- The table of entries: the heading, and a line for every literal. -/
def tableOf (t : Placement) (entries : List LedgerEntry) : String :=
  tableLine ["seq", "lit", "pi", "value", "inst", "bit"] ++
    String.join (entries.flatMap fun entry =>
      entry.lits.map fun l => tableLine (rowFields ⟨entry.seq, t.assignmentOf l⟩))

/-- The table of a ledger without gaps is that of its entries. -/
theorem toTable_eq_tableOf {t : Placement} (hindexed : t.Indexed) {nPis : Int} {ledger : Ledger}
    (h : ledger.Gapless t nPis) : ledger.toTable = tableOf t ledger.entries := by
  have hlines : ledger.rows.map (fun row => tableLine (rowFields row)) =
      ledger.entries.flatMap fun entry =>
        entry.lits.map fun l => tableLine (rowFields ⟨entry.seq, t.assignmentOf l⟩) := by
    rw [h.rows_eq_assignments hindexed, List.map_flatMap]
    simp only [LedgerEntry.assignments, List.map_map, Function.comp_def]
  rw [toTable, table, tableOf, Passage.textOf_cons, Passage.textOf, List.map_map, ← hlines]
  rfl

/-- A ledger without gaps has a row exactly if an entry has a literal. -/
theorem rows_eq_nil_iff {t : Placement} (hindexed : t.Indexed) {nPis : Int} {ledger : Ledger}
    (h : ledger.Gapless t nPis) :
    ledger.rows = [] ↔ ∀ entry ∈ ledger.entries, entry.lits = [] := by
  rw [h.rows_eq_assignments hindexed, List.flatMap_eq_nil_iff]
  simp only [LedgerEntry.assignments, List.map_eq_nil_iff]

end Ledger

namespace Project

/-- What the dumps of a run have in common. -/
structure DumpsAgree (t : Placement) (files : FileTree) (out : String) (after : Desk) :
    Prop where
  /-- The dump lists the entries of the decoder, and is read back. -/
  json_read : after.files.read (out ++ ".programs.json") = .ok after.state.ledger.toJson ∧
    Json.read? after.state.ledger.toJson = some after.state.ledger.document
  /-- The literals of the entries have addresses. -/
  address_eq : ∀ entry ∈ after.state.ledger.entries, ∀ l ∈ entry.lits,
    ∃ slot, t.slotAt? (l / 2) = some slot ∧ t.assignmentOf l =
      ⟨l, l / 2, Literal.assertsVariable l, slot / t.instLen, slot % t.instLen⟩
  /-- If an entry has a literal, the table is that of the entries, and is read back. -/
  table_read : (∃ entry ∈ after.state.ledger.entries, entry.lits ≠ []) →
    after.files.read (out ++ ".programs.csv") =
        .ok (Ledger.tableOf t after.state.ledger.entries) ∧
      Ledger.readTable? (Ledger.tableOf t after.state.ledger.entries) =
        some (Ledger.heading,
          after.state.ledger.entries.flatMap (LedgerEntry.assignments t))
  /-- If no entry has a literal, what there was under the name of the table stays there. -/
  table_kept : (∀ entry ∈ after.state.ledger.entries, entry.lits = []) →
    ∀ {place}, files.target (out ++ ".programs.csv") = .ok place →
      after.files.read (out ++ ".programs.csv") = files.read (out ++ ".programs.csv")

/-- After every history, a run that succeeds leaves a dump and a table of the same entries, or no
entry has a literal and nothing was written under the name of the table. -/
theorem dumps_agree [Memory] {entries : List (Option Int)} {instLen nInsts : Int} {t : Placement}
    {registers : RegisterTable} {nPis resetVar : Int} {p : Project}
    (hplacement : Placement.ofIndexes entries instLen nInsts = .ok t)
    (hdecoder : Decoder.ofTables t registers nPis resetVar = .ok p.decoder)
    (history : List Request) {given : Option String} {files : FileTree} {programs : List Program}
    {after : Desk} (hrun : p.run given ⟨files, p.stateAfter history⟩ = (.ok programs, after)) :
    ∃ out, p.config.prefixFor given = .ok out ∧ DumpsAgree t files out after := by
  have hplaced := (Decoder.ofTables_eq_ok hdecoder).2
  have hindexed : t.Indexed := Placement.indexed_of_ofIndexes hplacement
  have hdecoding : p.decoder.placement.Indexed := by rwa [hplaced]
  have hgapless : after.state.ledger.Gapless t nPis := by
    have hbefore : p.decoder.Intact (fun _ => True) (p.stateAfter history) :=
      intact_stateAfter hdecoding fun request _ => p.requests_true request
    have hintact := intact_request hdecoding hbefore (p.requests_true (.run given files))
    rw [stateAfterRequest, hrun] at hintact
    simpa only [hplaced] using hintact.gapless
  rcases run_eq_ok hrun with ⟨out, chains, hout, hload⟩
  rcases run_of_chains hout hload with ⟨console, hinto⟩
  rw [hinto] at hrun
  rcases completed_of_decodeInto hdecoding rfl hrun with ⟨results, -, -, hcompleted⟩
  refine ⟨out, hout, ?_⟩
  constructor
  case json_read => exact hcompleted.json_read
  case address_eq =>
    intro entry hentry l hl
    rcases hindexed.exists_slotAt (hgapless.keepsAll entry hentry l hl).2 with ⟨slot, hslot⟩
    exact ⟨slot, hslot, by simp only [Placement.assignmentOf, hslot, Option.getD_some]⟩
  case table_read =>
    rintro ⟨entry, hentry, hlits⟩
    have hrows : after.state.ledger.rows ≠ [] :=
      fun hnil => hlits ((Ledger.rows_eq_nil_iff hindexed hgapless).1 hnil entry hentry)
    have htable := hcompleted.table_read hrows
    rwa [Ledger.toTable_eq_tableOf hindexed hgapless,
      hgapless.rows_eq_assignments hindexed] at htable
  case table_kept =>
    intro hlits place hplace
    have hrows := (Ledger.rows_eq_nil_iff hindexed hgapless).2 hlits
    have hwritten := hcompleted.rewrites
    rw [dumpEndings, hrows] at hwritten
    exact hwritten.read_ending (by decide) (by decide) (by decide) hplace

/-- The small design with the built-in chain, which has a literal on input 2. -/
def toySample : Project where
  config := ⟨2, 2, 5, 1, none, none, .text "toy", [], .text "out"⟩
  decoder := .sample

/-- After a decoding, a run on the built-in chain leaves a table of two programs. -/
theorem dumps_agree_sample :
    ∃ after, toySample.run none ⟨⟨[], [], []⟩, toySample.stateAfter [.decode .sample true]⟩ =
        (.ok [⟨1, [5]⟩], after) ∧
      ∃ out, toySample.config.prefixFor none = .ok out ∧
        DumpsAgree .sample ⟨[], [], []⟩ out after := by
  have hnumbered : Placement.sample.Numbered :=
    Placement.numbered_of_ofIndexes Placement.ofIndexes_sample (by decide)
  have hwritable : Writable ⟨[], [], []⟩ "out" :=
    ⟨⟨["out.unsafe.txt"], rfl⟩, ⟨["out.programs.json"], rfl⟩, ⟨["out.programs.csv"], rfl⟩⟩
  have hintact : toySample.decoder.Intact Chain.Numbered
      (toySample.stateAfter [.decode .sample true]) := by
    apply intact_stateAfter hnumbered.indexed
    simp [Requests, Chain.Numbered, Chain.sample, Capacity.wordBound]
  have hresults : Decoder.sample.DecodedAs Placement.sample.shape
      [[{ stateLits := [0], inputLits := [0] }, { stateLits := [2], inputLits := [2, 0, 5] },
        { stateLits := [4], inputLits := [3] }]]
      [(⟨1, [5]⟩, ⟨[[none, some false], [none, none]]⟩)] := .cons rfl .nil
  have hout : toySample.config.prefixFor none = .ok "out" := rfl
  rcases run_of_decodedAs hnumbered hout hwritable hintact
    (by simp [Chain.Numbered, Capacity.wordBound]) rfl hresults with ⟨after, hrun, -⟩
  exact ⟨after, hrun, dumps_agree Placement.ofIndexes_sample Decoder.ofTables_sample _ hrun⟩

/-- The small design without chains. -/
def idleSample : Project where
  config := ⟨2, 2, 5, 1, none, none, .text "yaml", [], .text "out"⟩
  decoder := .sample

/-- A table with a row under the name of the table that a run would write. -/
def staleFiles : FileTree where
  here := []
  files := [(["out.programs.csv"], "seq,lit,pi,value,inst,bit\r\n1,4,2,1,0,0\r\n")]

/-- A run without chains succeeds and dumps no program, and the row of the old table stays. -/
theorem stale_table_kept :
    (Placement.ofIndexes [none, none, some 0, some 3, some 1] 2 2 = .ok .sample ∧
        Decoder.ofTables .sample {} 5 1 = .ok idleSample.decoder) ∧
      (idleSample.run none ⟨staleFiles, idleSample.stateAfter []⟩).1 = .ok [] ∧
      (idleSample.run none ⟨staleFiles, idleSample.stateAfter []⟩).2.state.ledger.entries = [] ∧
      (idleSample.run none ⟨staleFiles, idleSample.stateAfter []⟩).2.files.read
          "out.programs.json" = .ok "\x7b\n  \"programs\": []\n\x7d" ∧
      (idleSample.run none ⟨staleFiles, idleSample.stateAfter []⟩).2.files.read
          "out.programs.csv" = .ok "seq,lit,pi,value,inst,bit\r\n1,4,2,1,0,0\r\n" ∧
      "seq,lit,pi,value,inst,bit\r\n1,4,2,1,0,0\r\n" ≠ Ledger.tableOf .sample [] :=
  ⟨⟨rfl, rfl⟩, rfl, rfl, rfl, rfl, by decide⟩

end Project
end ImemReplay
