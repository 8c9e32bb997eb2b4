import ImemReplay.Proofs.Histories
import ImemReplay.Proofs.ReportReading
import ImemReplay.Proofs.WrittenPlaces

/-!
# What a run leaves

A run goes through three stages: it loads its chains, decodes them into the file of reports, and
dumps the ledger.  The reports are those of the run alone, but their numbers go on from the ones
taken before; the dumps are of the decoder's whole life.  A run that fails while it loads touches no
file; one that fails at a chain leaves the reports of the chains in front of it and no dump; one
that succeeds leaves all its files.  What the files hold can be read back.

Main results:

- Theorem `dump_eq_ok`: what the dumps leave.
- Theorem `decodeInto_eq_ok_iff`: when a list of chains is decoded and dumped.
- Theorem `run_eq_ok`: what a run has done that succeeds.
- Theorem `run_transition`: how a run ends, and what it leaves, after every history.
-/

namespace ImemReplay

/-! ## Reports under consecutive numbers -/

namespace Report

/-- The reports of pictures, numbered from `seq` on, as a reader knows them. -/
def numbered (seq : Nat) : List Rendering → List Report
  | [] => []
  | r :: rs => ofRendering seq r :: numbered (seq + 1) rs

/-- The text of numbered reports. -/
theorem join_text_numbered (seq : Nat) (rs : List Rendering) :
    String.join ((numbered seq rs).map text) = Rendering.reports seq rs := by
  induction rs generalizing seq with
  | nil => rfl
  | cons r rs ih => rw [numbered, List.map_cons, String.join_cons, ih, text_ofRendering,
      Rendering.reports]

/-- Reports of pictures with a number of words each are read back. -/
theorem readBack_reports {words : Nat} (seq : Nat) {rs : List Rendering}
    (h : ∀ r ∈ rs, r.words.length = words) :
    ReadBack words (Rendering.reports seq rs) (numbered seq rs) := by
  have hfits : ∀ report ∈ numbered seq rs, report.Fits words := by
    induction rs generalizing seq with
    | nil => exact List.forall_mem_nil _
    | cons r rs ih =>
      rcases List.forall_mem_cons.1 h with ⟨hr, hrest⟩
      exact List.forall_mem_cons.2 ⟨hr ▸ fits_ofRendering seq r, ih (seq + 1) hrest⟩
  rw [← join_text_numbered]
  exact readBack_text hfits

end Report

/-- The pictures of decoded chains have the words of their shape. -/
theorem Decoder.DecodedAs.length_words [Memory] {d : Decoder} {shape : Shape}
    {chains : List Chain} {results : List (Program × Rendering)}
    (h : d.DecodedAs shape chains results) :
    ∀ r ∈ results.map (·.2), r.words.length = shape.nInsts.toNat := by
  induction h with
  | nil => exact List.forall_mem_nil _
  | cons hc _ ih =>
    rcases decoded_eq_ok_iff.1 hc with ⟨start, -, -, hpicture⟩
    have hwords := congrArg (·.words.length) (Rendering.ofFrame_eq_ok hpicture).2.2
    exact List.forall_mem_cons.2 ⟨hwords.trans (Rendering.length_wordsOf _ _), ih⟩

/-- What chains decode to is determined by them. -/
theorem Decoder.DecodedAs.unique [Memory] {d : Decoder} {shape : Shape} {chains : List Chain}
    {results others : List (Program × Rendering)} (h : d.DecodedAs shape chains results)
    (hothers : d.DecodedAs shape chains others) : results = others := by
  induction h generalizing others with
  | nil =>
    cases hothers
    rfl
  | cons hc _ ih =>
    cases hothers with
    | cons hother hrest =>
    rw [hc] at hother
    cases hother
    rw [ih hrest]

namespace Project

/-! ## The dumps -/

/-- How the files end that the ledger is dumped to; there is a table only if it has a row. -/
def dumpEndings (ledger : Ledger) : List String :=
  ".programs.json" :: if ledger.rows.isEmpty then [] else [".programs.csv"]

/-- The file of reports is none of the dumps. -/
theorem not_mem_dumpEndings (ledger : Ledger) :
    ".unsafe.txt" ∉ dumpEndings ledger ∧ ∀ ending ∈ dumpEndings ledger, '/' ∉ ending.toList := by
  unfold dumpEndings
  split
  · exact ⟨by decide, by decide⟩
  · exact ⟨by decide, by decide⟩

/-- The files of a run can be written. -/
structure Writable (t : FileTree) (out : String) : Prop where
  reports : ∃ place, t.target (out ++ ".unsafe.txt") = .ok place
  json : ∃ place, t.target (out ++ ".programs.json") = .ok place
  table : ∃ place, t.target (out ++ ".programs.csv") = .ok place

/-- Files that can be written can still be written after others were. -/
theorem Writable.rewrites {before after : FileTree} {paths : List String} {out : String}
    (h : Writable before out) (hrewrites : before.Rewrites after paths) : Writable after out := by
  rcases h with ⟨⟨reports, hreports⟩, ⟨json, hjson⟩, ⟨table, htable⟩⟩
  exact ⟨⟨reports, hrewrites.target_iff.2 hreports⟩, ⟨json, hrewrites.target_iff.2 hjson⟩,
    ⟨table, hrewrites.target_iff.2 htable⟩⟩

/-- Passages were put into a file as a whole. -/
theorem put_eq_ok {path : String} {passages : List Passage} {before after : FileTree}
    (h : put path passages before = (.ok (), after)) :
    before.write path (Passage.textOf passages) = .ok after := by
  unfold put at h
  cases hwrite : before.write path (Passage.written passages) with
  | error fault =>
    rw [hwrite] at h
    cases h
  | ok t =>
    simp only [hwrite, Prod.mk.injEq] at h
    rcases h with ⟨hended, rfl⟩
    rw [← Passage.written_of_ended hended]
    exact hwrite

/-- The dumps of a ledger were written under a prefix. -/
structure Dumped (out : String) (ledger : Ledger) (before after : FileTree) : Prop where
  json_read : after.read (out ++ ".programs.json") = .ok ledger.toJson
  /-- The table is that of the ledger, if there is anything to put into it. -/
  table_read : ledger.rows ≠ [] → after.read (out ++ ".programs.csv") = .ok ledger.toTable
  /-- Nothing else was written, and no table if there is nothing to put into it. -/
  rewrites : before.Rewrites after ((dumpEndings ledger).map (out ++ ·))

/-- What the dumps leave. -/
theorem dump_eq_ok {out : String} {ledger : Ledger} {before after : FileTree}
    (h : dump out ledger before = (.ok (), after)) : Dumped out ledger before after := by
  unfold dump at h
  rcases hput : put (out ++ ".programs.json") ledger.json before with ⟨fault | _, middle⟩
  · rw [hput] at h
    cases h
  · have hjson : before.write (out ++ ".programs.json") ledger.toJson = .ok middle :=
      put_eq_ok hput
    rcases FileTree.write_eq_ok hjson with ⟨hread, hfirst⟩
    simp only [hput] at h
    by_cases hrows : ledger.rows = []
    · simp only [hrows, List.isEmpty_nil, if_true, Prod.mk.injEq, true_and] at h
      subst h
      refine ⟨hread, fun hne => absurd hrows hne, ?_⟩
      simpa [dumpEndings, hrows] using hfirst
    · rw [if_neg (by simpa using hrows)] at h
      have hcsv : middle.write (out ++ ".programs.csv") ledger.toTable = .ok after := put_eq_ok h
      rcases FileTree.write_eq_ok hcsv with ⟨htext, hsecond⟩
      constructor
      case json_read =>
        -- The table is written after the dump, at another place.
        rcases FileTree.exists_target_of_write hjson with ⟨place, hplace⟩
        have hother : middle.Rewrites after ([".programs.csv"].map (out ++ ·)) := hsecond
        rw [← hread]
        exact hother.read_ending (by decide) (by decide) (by decide)
          (hfirst.target_iff.2 hplace)
      case table_read => exact fun _ => htext
      case rewrites => simpa [dumpEndings, hrows] using hfirst.trans hsecond

/-- Passages that can be written are put into a file that can be. -/
theorem put_of_target {path : String} {place : List String} {t : FileTree}
    {passages : List Passage} (hplace : t.target path = .ok place)
    (hpassages : Passage.Writable passages) :
    put path passages t = (.ok (), t.insert place (Passage.textOf passages)) := by
  have hended := Passage.ended_eq_ok_iff.2 hpassages
  unfold put
  rw [Passage.written_of_ended hended, FileTree.write_of_target _ hplace, hended]

/-- The dumps succeed if the numbers of the ledger and the files can be written. -/
theorem exists_dump {t : FileTree} {out : String} (h : Writable t out) {ledger : Ledger}
    (hledger : ledger.Writable) : ∃ after, dump out ledger t = (.ok (), after) := by
  rcases h.json with ⟨json, hjson⟩
  have hwritten := FileTree.write_of_target ledger.toJson hjson
  rcases (h.rewrites (FileTree.write_eq_ok hwritten).2).table with ⟨table, htable⟩
  have hput := put_of_target hjson (Ledger.writable_json.2 hledger.entries)
  unfold dump
  simp only [hput]
  split
  · exact ⟨_, rfl⟩
  · exact ⟨_, put_of_target htable (Ledger.writable_table.2 hledger.rows)⟩

/-! ## Decoding into the file of reports -/

section Runs

variable [Memory]

/-- A list of chains is decoded and dumped if all chains can be decoded and all files written. -/
theorem decodeInto_eq_ok_iff {p : Project} {out : String} {chains : List Chain}
    {before after : Desk} {programs : List Program} :
    p.decodeInto out chains before = (.ok programs, after) ↔
      ∃ s middle, p.decoder.decodeAll chains before.state = (.ok programs, s) ∧
        before.files.write (out ++ ".unsafe.txt") s.sink = .ok middle ∧
        dump out s.ledger middle = (.ok (), after.files) ∧
        after.state = s.print s!"[INFO] Unsafe programs decoded: {programs.length}\n" := by
  unfold decodeInto
  cases hplace : before.files.target (out ++ ".unsafe.txt") with
  | error fault => simp [FileTree.write, hplace, Except.map]
  | ok place =>
    rcases hdecoded : p.decoder.decodeAll chains before.state with ⟨fault | decoded, s⟩
    · simp
    · have hwrite := FileTree.write_of_target s.sink hplace
      rcases hdump : dump out s.ledger (before.files.insert place s.sink) with ⟨fault | done, t⟩
      · constructor
        · intro h
          simp [hdump] at h
        · rintro ⟨s', middle, hchains, hreports, hdumped, -⟩
          cases hchains
          rw [hwrite] at hreports
          cases hreports
          rw [hdump] at hdumped
          cases hdumped
      · constructor
        · intro h
          simp only [hdump, Prod.mk.injEq, Except.ok.injEq] at h
          rcases h with ⟨rfl, rfl⟩
          exact ⟨s, _, rfl, hwrite, hdump, rfl⟩
        · rintro ⟨s', middle, hchains, hreports, hdumped, hstate⟩
          cases hchains
          rw [hwrite] at hreports
          cases hreports
          rw [hdump] at hdumped
          cases hdumped
          simp only [hdump, ← hstate]

/-- A list of chains with one that cannot be decoded ends with its fault and leaves a file of
reports. -/
theorem decodeInto_of_error {p : Project} {out : String} {chains : List Chain}
    {files : FileTree} {s s' : DecoderState} {fault : Fault} (hwritable : Writable files out)
    (hfails : p.decoder.decodeAll chains s = (.error fault, s')) :
    ∃ after, files.write (out ++ ".unsafe.txt") s'.sink = .ok after ∧
      p.decodeInto out chains ⟨files, s⟩ = (.error fault, ⟨after, s'⟩) := by
  rcases hwritable.reports with ⟨place, hplace⟩
  refine ⟨_, FileTree.write_of_target s'.sink hplace, ?_⟩
  unfold decodeInto
  simp only [hplace, hfails]

/-! ## Stages of a run -/

/-- A run whose chains cannot be loaded ends with the fault and touches no file. -/
theorem run_of_unloaded {p : Project} (given : Option String) {files : FileTree}
    {s : DecoderState} {fault : Fault} (hload : (p.loadChains files s).1 = .error fault) :
    p.run given ⟨files, s⟩ = (.error fault, ⟨files, { s with sink := "" }⟩) := by
  rcases p.loadChains_cases files with ⟨other, hfails⟩ | ⟨chains, hloads⟩
  · rw [hfails] at hload
    cases hload
    exact run_of_loadChains_error (hfails _)
  · rcases hloads s with ⟨console, hloaded⟩
    rw [hloaded] at hload
    contradiction

/-- A run decodes and dumps the chains that it has loaded. -/
theorem run_of_chains {p : Project} {given : Option String} {files : FileTree}
    {s : DecoderState} {out : String} {chains : List Chain}
    (hout : p.config.prefixFor given = .ok out)
    (hload : (p.loadChains files s).1 = .ok chains) :
    ∃ console, p.run given ⟨files, s⟩ =
      p.decodeInto out chains ⟨files, { s with sink := "", console }⟩ := by
  rcases p.loadChains_cases files with ⟨fault, hfails⟩ | ⟨others, hloads⟩
  · rw [hfails] at hload
    contradiction
  · rcases hloads s with ⟨_, hloaded⟩
    rw [hloaded] at hload
    cases hload
    rcases hloads { s with sink := "" } with ⟨console, hagain⟩
    refine ⟨console, ?_⟩
    unfold run
    simp only [hagain, hout]

/-- A run that succeeds has a prefix and has loaded its chains. -/
theorem run_eq_ok {p : Project} {given : Option String} {files : FileTree} {s : DecoderState}
    {after : Desk} {programs : List Program} (h : p.run given ⟨files, s⟩ = (.ok programs, after)) :
    ∃ out chains, p.config.prefixFor given = .ok out ∧
      (p.loadChains files s).1 = .ok chains := by
  cases hload : (p.loadChains files s).1 with
  | error fault =>
    rw [run_of_unloaded given hload] at h
    cases h
  | ok chains =>
    cases hout : p.config.prefixFor given with
    | ok out => exact ⟨out, chains, rfl, rfl⟩
    | error fault =>
      rcases p.loadChains_cases files with ⟨other, hfails⟩ | ⟨others, hloads⟩
      · rw [hfails] at hload
        contradiction
      · rcases hloads { s with sink := "" } with ⟨console, hloaded⟩
        unfold run at h
        simp only [hloaded, hout] at h
        cases h

/-! ## What is left -/

/-- The results of some chains were entered into a ledger and reported. -/
structure Reported (ledger : Ledger) (out : String) (results : List (Program × Rendering))
    (after : Desk) : Prop where
  /-- The counter has advanced by the chains. -/
  count_eq : after.state.ledger.count = ledger.count + results.length
  /-- The entries of the programs follow those from before. -/
  entries_eq : after.state.ledger.entries =
    ledger.entries ++ LedgerEntry.ofPrograms (ledger.count + 1) (results.map (·.1))
  /-- The reports are those of these chains alone, under the numbers that come next. -/
  reports_read : after.files.read (out ++ ".unsafe.txt") =
    .ok (Rendering.reports (ledger.count + 1) (results.map (·.2)))
  /-- They are read back: as many reports as chains, with their numbers and both views. -/
  reports_readBack : Report.ReadBack after.state.shape.nInsts.toNat
    (Rendering.reports (ledger.count + 1) (results.map (·.2)))
    (Report.numbered (ledger.count + 1) (results.map (·.2)))

/-- A run has decoded all its chains: `results` are what they decode to. -/
structure Completed (files : FileTree) (ledger : Ledger) (out : String)
    (results : List (Program × Rendering)) (after : Desk) : Prop
    extends Reported ledger out results after where
  /-- The dump has all entries of the decoder, and is read back. -/
  json_read : after.files.read (out ++ ".programs.json") = .ok after.state.ledger.toJson ∧
    Json.read? after.state.ledger.toJson = some after.state.ledger.document
  /-- The table has all rows of the decoder, if there is any, and is read back. -/
  table_read : after.state.ledger.rows ≠ [] →
    after.files.read (out ++ ".programs.csv") = .ok after.state.ledger.toTable ∧
      Ledger.readTable? after.state.ledger.toTable =
        some (Ledger.heading, after.state.ledger.rows)
  /-- Nothing else was written, and no table without a row. -/
  rewrites : files.Rewrites after.files
    ((".unsafe.txt" :: dumpEndings after.state.ledger).map (out ++ ·))

/-- A run has failed at a chain: `results` are what the chains in front of it decode to. -/
structure Interrupted (files : FileTree) (ledger : Ledger) (out : String)
    (results : List (Program × Rendering)) (after : Desk) : Prop
    extends Reported ledger out results after where
  /-- The dumps are those from before, if there are any. -/
  json_read : after.files.read (out ++ ".programs.json") = files.read (out ++ ".programs.json")
  table_read : after.files.read (out ++ ".programs.csv") = files.read (out ++ ".programs.csv")
  /-- Only the reports were written. -/
  rewrites : files.Rewrites after.files [out ++ ".unsafe.txt"]

/-- What was added to an empty file of reports is what was entered and reported. -/
theorem reported_of_progress {d : Decoder} {chains : List Chain} {s s' : DecoderState}
    {after : Desk} {out : String} {results : List (Program × Rendering)} (hsink : s.sink = "")
    (hresults : d.DecodedAs s.shape chains results)
    (hprogress : Decoder.Progress d s s' results) (hledger : after.state.ledger = s'.ledger)
    (hshape : after.state.shape = s'.shape)
    (hread : after.files.read (out ++ ".unsafe.txt") = .ok s'.sink) :
    Reported s.ledger out results after := by
  constructor
  case count_eq =>
    rw [hledger, hprogress.ledger_eq, Ledger.count_recordedAll, List.length_map]
  case entries_eq => rw [hledger, hprogress.ledger_eq, Ledger.entries_recordedAll]
  case reports_read => rw [hread, hprogress.sink_eq, hsink, String.empty_append]
  case reports_readBack =>
    rw [hshape, hprogress.shape_eq]
    exact Report.readBack_reports _ hresults.length_words

/-- What was added is entered, reported and dumped. -/
theorem completed_of_progress {d : Decoder} {chains : List Chain} {s s' : DecoderState}
    {files middle : FileTree} {after : Desk} {out : String} {results : List (Program × Rendering)}
    (hsink : s.sink = "") (hresults : d.DecodedAs s.shape chains results)
    (hprogress : Decoder.Progress d s s' results) (hledger : after.state.ledger = s'.ledger)
    (hshape : after.state.shape = s'.shape)
    (hreports : files.write (out ++ ".unsafe.txt") s'.sink = .ok middle)
    (hdump : dump out s'.ledger middle = (.ok (), after.files)) :
    Completed files s.ledger out results after := by
  rcases FileTree.exists_target_of_write hreports with ⟨place, hplace⟩
  rcases FileTree.write_eq_ok hreports with ⟨hread, hfirst⟩
  have hdumped : Dumped out after.state.ledger middle after.files := by
    rw [hledger]
    exact dump_eq_ok hdump
  rcases not_mem_dumpEndings after.state.ledger with ⟨hnot, hslashes⟩
  -- The dumps are written behind the reports and leave them as they are.
  have hkept : after.files.read (out ++ ".unsafe.txt") = .ok s'.sink := by
    rw [← hread]
    exact hdumped.rewrites.read_ending (by decide) hslashes hnot (hfirst.target_iff.2 hplace)
  constructor
  case toReported => exact reported_of_progress hsink hresults hprogress hledger hshape hkept
  case json_read => exact ⟨hdumped.json_read, after.state.ledger.read?_toJson⟩
  case table_read =>
    exact fun hrows => ⟨hdumped.table_read hrows, after.state.ledger.readTable?_toTable⟩
  case rewrites => exact hfirst.trans hdumped.rewrites

/-- What a list of chains leaves that was decoded and dumped. -/
theorem completed_of_decodeInto {p : Project} (hindexed : p.decoder.placement.Indexed)
    {out : String} {chains : List Chain} {files : FileTree} {s : DecoderState} {after : Desk}
    {programs : List Program} (hsink : s.sink = "")
    (h : p.decodeInto out chains ⟨files, s⟩ = (.ok programs, after)) :
    ∃ results, p.decoder.DecodedAs s.shape chains results ∧ programs = results.map (·.1) ∧
      Completed files s.ledger out results after := by
  rcases decodeInto_eq_ok_iff.1 h with ⟨s', middle, hchains, hreports, hdump, hstate⟩
  rcases Decoder.exists_decodedAs_of_ok hindexed hchains with
    ⟨results, hresults, hprograms, hprogress⟩
  have hprinted : after.state.ledger = s'.ledger ∧ after.state.shape = s'.shape := by
    rw [hstate]
    exact ⟨rfl, rfl⟩
  exact ⟨results, hresults, hprograms, completed_of_progress hsink hresults hprogress
    hprinted.1 hprinted.2 hreports hdump⟩

/-- Chains that can all be decoded are decoded and dumped, if the files can be written. -/
theorem completed_of_decodedAs {p : Project} (hplacement : p.decoder.placement.Numbered)
    {out : String} {chains : List Chain} (hnumbered : ∀ c ∈ chains, c.Numbered)
    {files : FileTree} {s : DecoderState} (hintact : p.decoder.Intact Chain.Numbered s)
    {results : List (Program × Rendering)} (hsink : s.sink = "") (hwritable : Writable files out)
    (hresults : p.decoder.DecodedAs s.shape chains results) :
    ∃ after, p.decodeInto out chains ⟨files, s⟩ = (.ok (results.map (·.1)), after) ∧
      Completed files s.ledger out results after := by
  rcases Decoder.decodeAll_of_decodedAs hplacement hnumbered hintact.shape_eq hresults with
    ⟨s', hdecodes, hprogress⟩
  have hadvances := Decoder.advances_decodeAll hplacement.indexed hnumbered s
  rw [hdecodes] at hadvances
  have hledger : s'.ledger.Writable :=
    (hintact.advances hplacement.indexed hadvances).writable hplacement
  rcases hwritable.reports with ⟨place, hplace⟩
  have hreports := FileTree.write_of_target s'.sink hplace
  have hrewrites := (FileTree.write_eq_ok hreports).2
  rcases exists_dump (hwritable.rewrites hrewrites) hledger with ⟨last, hdump⟩
  have hends : p.decodeInto out chains ⟨files, s⟩ = (.ok (results.map (·.1)), ⟨last, _⟩) :=
    decodeInto_eq_ok_iff.2 ⟨s', _, hdecodes, hreports, hdump, rfl⟩
  exact ⟨_, hends, completed_of_progress hsink hresults hprogress rfl rfl hreports hdump⟩

/-- A run on chains that can all be decoded decodes and dumps them, if the files can be written. -/
theorem run_of_decodedAs {p : Project} (hplacement : p.decoder.placement.Numbered)
    {given : Option String} {out : String} {files : FileTree} {s : DecoderState}
    (hout : p.config.prefixFor given = .ok out) (hwritable : Writable files out)
    (hintact : p.decoder.Intact Chain.Numbered s) {chains : List Chain}
    (hnumbered : ∀ c ∈ chains, c.Numbered) (hload : (p.loadChains files s).1 = .ok chains)
    {results : List (Program × Rendering)} (hresults : p.decoder.DecodedAs s.shape chains results) :
    ∃ after, p.run given ⟨files, s⟩ = (.ok (results.map (·.1)), after) ∧
      Completed files s.ledger out results after := by
  rcases run_of_chains hout hload with ⟨console, hrun⟩
  have hempty : p.decoder.Intact Chain.Numbered { s with sink := "", console } :=
    ⟨hintact.shape_eq, hintact.gapless, hintact.entries_decoded⟩
  rw [hrun]
  exact completed_of_decodedAs hplacement hnumbered hempty rfl hwritable hresults

/-- A chain that cannot be decoded ends the decoding, after the chains in front of it were entered
and reported. -/
theorem interrupted_of_refused {p : Project} (hplacement : p.decoder.placement.Numbered)
    {out : String} {front : List Chain} (hnumbered : ∀ c ∈ front, c.Numbered) {c : Chain}
    {files : FileTree} {s : DecoderState} (hshape : s.shape = p.decoder.placement.shape)
    {results : List (Program × Rendering)} {fault : Fault} (hsink : s.sink = "")
    (hwritable : Writable files out) (hfront : p.decoder.DecodedAs s.shape front results)
    (hc : p.decoder.decoded s.shape c = .error fault) (back : List Chain) :
    ∃ after, p.decodeInto out (front ++ c :: back) ⟨files, s⟩ = (.error fault, after) ∧
      Interrupted files s.ledger out results after := by
  rcases Decoder.decodeAll_of_refused hplacement hnumbered hshape hfront hc back with
    ⟨s', hfails, hprogress⟩
  rcases decodeInto_of_error hwritable hfails with ⟨after, hreports, hends⟩
  rcases FileTree.write_eq_ok hreports with ⟨hread, hrewrites⟩
  have hreports : files.Rewrites after ([".unsafe.txt"].map (out ++ ·)) := hrewrites
  rcases hwritable.json with ⟨json, hjson⟩
  rcases hwritable.table with ⟨table, htable⟩
  refine ⟨⟨after, s'⟩, hends, reported_of_progress hsink hfront hprogress rfl rfl hread, ?_, ?_,
    hrewrites⟩
  · exact hreports.read_ending (by decide) (by decide) (by decide) hjson
  · exact hreports.read_ending (by decide) (by decide) (by decide) htable

/-! ## Runs after a history -/

/-- How a run ends and what it leaves, after a history. -/
structure RunTransition (p : Project) (history : List Request) (given : Option String)
    (files : FileTree) : Prop where
  /-- The entries have had all numbers up to the counter. -/
  seqs_before : (p.stateAfter history).ledger.entries.map (·.seq) =
    List.range' 1 (p.stateAfter history).ledger.count
  /-- A run whose chains cannot be loaded ends with the fault, touches no file and enters
  nothing. -/
  unloaded : ∀ {fault}, (p.loadChains files (p.stateAfter history)).1 = .error fault →
    (p.run given ⟨files, p.stateAfter history⟩).1 = .error fault ∧
      (p.run given ⟨files, p.stateAfter history⟩).2.files = files ∧
      (p.run given ⟨files, p.stateAfter history⟩).2.state.ledger = (p.stateAfter history).ledger
  /-- A run with a chain that cannot be decoded ends with its fault, and leaves what the chains in
  front of it decode to. -/
  interrupted : ∀ {out front c back fault}, p.config.prefixFor given = .ok out →
    Writable files out → (∀ b ∈ front, b.Numbered) →
    (p.loadChains files (p.stateAfter history)).1 = .ok (front ++ c :: back) →
    (∀ b ∈ front, ∃ q, (p.decoder.decode b true (p.stateAfter history)).1 = .ok q) →
    (p.decoder.decode c true (p.stateAfter history)).1 = .error fault →
    (p.run given ⟨files, p.stateAfter history⟩).1 = .error fault ∧
      ∃ results, p.decoder.DecodedAs p.decoder.placement.shape front results ∧
        Interrupted files (p.stateAfter history).ledger out results
          (p.run given ⟨files, p.stateAfter history⟩).2
  /-- A run without such a chain returns what its chains decode to, and leaves it in all files; its
  programs are those of the last entries. -/
  completed : ∀ {out chains}, p.config.prefixFor given = .ok out → Writable files out →
    (∀ request ∈ history, p.Requests Chain.Numbered request) → (∀ c ∈ chains, c.Numbered) →
    (p.loadChains files (p.stateAfter history)).1 = .ok chains →
    (∀ c ∈ chains, ∃ q, (p.decoder.decode c true (p.stateAfter history)).1 = .ok q) →
    ∃ results, p.decoder.DecodedAs p.decoder.placement.shape chains results ∧
      (p.run given ⟨files, p.stateAfter history⟩).1 = .ok (results.map (·.1)) ∧
      Completed files (p.stateAfter history).ledger out results
        (p.run given ⟨files, p.stateAfter history⟩).2 ∧
      ((p.run given ⟨files, p.stateAfter history⟩).2.state.ledger.entries.drop
        (p.stateAfter history).ledger.count).map LedgerEntry.program = results.map (·.1)
  /-- Whatever happened, the entries have all numbers up to the counter. -/
  seqs_after : (p.run given ⟨files, p.stateAfter history⟩).2.state.ledger.entries.map (·.seq) =
    List.range' 1 (p.run given ⟨files, p.stateAfter history⟩).2.state.ledger.count

/-- After every history of decodings and runs, a run on any files ends in one of three ways and
leaves what belongs to it.  Inputs and frames are numbered by words, as the places of every list
are. -/
theorem run_transition {entries : List (Option Int)} {instLen nInsts : Int} {t : Placement}
    {registers : RegisterTable} {nPis resetVar : Int} {p : Project}
    (hplacement : Placement.ofIndexes entries instLen nInsts = .ok t)
    (hlength : (entries.length : Int) < Capacity.wordBound)
    (hdecoder : Decoder.ofTables t registers nPis resetVar = .ok p.decoder)
    (history : List Request) (given : Option String) (files : FileTree) :
    RunTransition p history given files := by
  have hnumbered : p.decoder.placement.Numbered := by
    rw [(Decoder.ofTables_eq_ok hdecoder).2]
    exact Placement.numbered_of_ofIndexes hplacement hlength
  have hindexed := hnumbered.indexed
  have hintact : p.decoder.Intact (fun _ => True) (p.stateAfter history) :=
    intact_stateAfter hindexed fun request _ => p.requests_true request
  constructor
  case seqs_before => exact hintact.gapless.seqs_eq
  case unloaded =>
    intro fault hload
    rw [run_of_unloaded given hload]
    exact ⟨rfl, rfl, rfl⟩
  case interrupted =>
    intro out front c back fault hout hwritable hwords hload hfront hc
    rcases Decoder.exists_decodedAs hindexed hfront with ⟨results, hresults⟩
    have hrefused := Decoder.decoded_eq_error hindexed hc
    rcases run_of_chains hout hload with ⟨console, hrun⟩
    rcases interrupted_of_refused (s := { p.stateAfter history with sink := "", console })
      hnumbered hwords hintact.shape_eq rfl hwritable hresults hrefused back with
      ⟨after, hends, hleft⟩
    rw [hrun, hends]
    rw [hintact.shape_eq] at hresults
    exact ⟨rfl, results, hresults, hleft⟩
  case completed =>
    intro out chains hout hwritable hhistory hwords hload hall
    rcases Decoder.exists_decodedAs hindexed hall with ⟨results, hresults⟩
    rcases run_of_decodedAs hnumbered hout hwritable (intact_stateAfter hindexed hhistory) hwords
      hload hresults with ⟨after, hrun, hleft⟩
    rw [hrun]
    rw [hintact.shape_eq] at hresults
    refine ⟨results, hresults, rfl, hleft, ?_⟩
    rw [hleft.entries_eq, ← hintact.gapless.length_entries, List.drop_left,
      LedgerEntry.map_program_ofPrograms]
  case seqs_after =>
    exact (intact_request hindexed hintact (p.requests_true (.run given files))).gapless.seqs_eq

end Runs

/-- The small design with two chains in files. -/
def sample : Project where
  config := ⟨2, 2, 5, 1, none, none, .text "yaml", [some "a.yml", some "b.yml"], .text "out"⟩
  decoder := .sample

/-- The files of the two chains: the first one is of a frame that asserts reset and sets input 2. -/
def sampleFiles (second : String) : FileTree where
  here := []
  files := [(["a.yml"], "frames: [{lits: [2, 4]}]"), (["b.yml"], second)]

/-- The files of a run on the small design can be written. -/
theorem writable_sampleFiles (second : String) : Writable (sampleFiles second) "out" :=
  ⟨⟨["out.unsafe.txt"], rfl⟩, ⟨["out.programs.json"], rfl⟩, ⟨["out.programs.csv"], rfl⟩⟩

/-- A decoding that succeeds, and one that fails. -/
def sampleHistory : List Request := [.decode .sample true, .decode [] true]

/-- What the chains of two runs decode to, one with a literal on input 3 after the first chain. -/
theorem decodedAs_sample : Decoder.sample.DecodedAs Placement.sample.shape
    [[{ inputLits := [2, 4] }], [{ inputLits := [7] }]]
    [(⟨0, [4]⟩, ⟨[[none, some true], [none, none]]⟩),
      (⟨0, [7]⟩, ⟨[[none, none], [some false, none]]⟩)] :=
  .cons rfl (.cons rfl .nil)

/-- After the history a run on the small design numbers its two programs from 2 on and dumps all
three programs; with a second chain that has no frame it fails. -/
theorem run_transition_sample :
    (sample.stateAfter sampleHistory).ledger.count = 1 ∧
      RunTransition sample sampleHistory none (sampleFiles "frames: [{lits: [7]}]") ∧
      (∃ results after, sample.run none ⟨sampleFiles "frames: [{lits: [7]}]",
          sample.stateAfter sampleHistory⟩ = (.ok [⟨0, [4]⟩, ⟨0, [7]⟩], after) ∧
        Completed (sampleFiles "frames: [{lits: [7]}]")
          (sample.stateAfter sampleHistory).ledger "out" results after ∧
        after.state.ledger.document = Json.object [("programs", .list
          [LedgerEntry.document ⟨1, 1, [4, 7, 5, 8, 4], [5, 6, 4, 9, 5]⟩,
            LedgerEntry.document ⟨2, 0, [4], [5]⟩, LedgerEntry.document ⟨3, 0, [7], [6]⟩])]) ∧
      RunTransition sample sampleHistory none (sampleFiles "frames: []") ∧
      (sample.run none ⟨sampleFiles "frames: []", sample.stateAfter sampleHistory⟩).1 =
        .error .emptyChain := by
  have h (second : String) : RunTransition sample sampleHistory none (sampleFiles second) :=
    run_transition Placement.ofIndexes_sample (by decide) Decoder.ofTables_sample _ none _
  have hhistory : ∀ request ∈ sampleHistory, sample.Requests Chain.Numbered request := by
    simp [sampleHistory, Requests, Chain.Numbered, Chain.sample, Capacity.wordBound]
  have hwords (f : Frame) : Chain.Numbered [f] := by
    simp [Chain.Numbered, Capacity.wordBound]
  have hload : (sample.loadChains (sampleFiles "frames: [{lits: [7]}]")
      (sample.stateAfter sampleHistory)).1 =
        .ok [[{ inputLits := [2, 4] }], [{ inputLits := [7] }]] := by
    rw [sample.fst_loadChains_eq _ _ sample.decoder.start]
    decide +kernel
  have hloadEmpty : (sample.loadChains (sampleFiles "frames: []")
      (sample.stateAfter sampleHistory)).1 = .ok ([[{ inputLits := [2, 4] }]] ++ [] :: []) := by
    rw [sample.fst_loadChains_eq _ _ sample.decoder.start]
    decide +kernel
  have hfirst : ∃ q, (sample.decoder.decode [{ inputLits := [2, 4] }] true
      (sample.stateAfter sampleHistory)).1 = .ok q := ⟨⟨0, [4]⟩, rfl⟩
  have hsecond : ∃ q, (sample.decoder.decode [{ inputLits := [7] }] true
      (sample.stateAfter sampleHistory)).1 = .ok q := ⟨⟨0, [7]⟩, rfl⟩
  rcases (h _).completed rfl (writable_sampleFiles _) hhistory (by simp [hwords]) hload
    (by simp [hfirst, hsecond]) with ⟨results, hresults, hends, hleft, -⟩
  have hprograms : results.map (·.1) = [⟨0, [4]⟩, ⟨0, [7]⟩] := by
    rw [hresults.unique decodedAs_sample]
    rfl
  have hfails := ((h "frames: []").interrupted rfl (writable_sampleFiles _) (by simp [hwords])
    hloadEmpty (by simp [hfirst]) rfl).1
  refine ⟨rfl, h _, ⟨results, _, Prod.ext (hends.trans (congrArg _ hprograms)) rfl, hleft, ?_⟩,
    h _, hfails⟩
  rw [Ledger.document, hleft.entries_eq, hprograms]
  rfl

end Project
end ImemReplay
