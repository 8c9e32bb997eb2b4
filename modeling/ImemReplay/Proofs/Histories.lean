import ImemReplay.Proofs.DecodedChains
import ImemReplay.Proofs.Sessions
import ImemReplay.Run

/-!
# Histories of a decoder

Over its life a decoder is asked to decode chains and to run, each time on the files that are
there.  A request may fail at any point, but all it enters are programs that its chains decode to,
and it takes no number without entering a program.  So after every history the entries have all
numbers up to the counter, every literal of an entry has its row, and where chains are no longer
than lists can be, every number of the ledger can be written.

Main results:

- Theorem `advances_run`: a run enters programs that its chains decode to and nothing else.
- Theorem `intact_stateAfter`: what holds after every history.
- Theorem `Gapless.rows_eq_assignments`: the rows of a ledger without gaps are the assignments of
  the literals of its entries.
- Theorem `Intact.writable`: when the numbers of the ledger can be written.
-/

namespace ImemReplay

/-- Every literal of a list is one on a declared and placed input. -/
def Placement.KeepsAll (t : Placement) (nPis : Int) (lits : List Int) : Prop :=
  ∀ l ∈ lits, 0 ≤ l ∧ t.keeps nPis l = true

/-- The literals of an extracted program are on declared and placed inputs. -/
theorem Program.keepsAll {t : Placement} {nPis resetVar : Int} {start : StartFrame} {p : Program}
    (h : ofStartFrame t nPis resetVar start = .ok p) : t.KeepsAll nPis p.lits := by
  rcases ofStartFrame_eq_ok_iff.1 h with ⟨hnonneg, -, rfl⟩
  intro l hl
  rcases List.mem_filter.1 hl with ⟨hmem, hkeeps⟩
  exact ⟨hnonneg l hmem, hkeeps⟩

/-! ## Ledgers without gaps -/

/-- The assignments of an entry's literals, under the number of the entry. -/
def LedgerEntry.assignments (t : Placement) (entry : LedgerEntry) : List LedgerRow :=
  entry.lits.map fun l => ⟨entry.seq, t.assignmentOf l⟩

/-- All rows of an entry whose literals are kept. -/
theorem LedgerEntry.rows_of_keepsAll {t : Placement} (hindexed : t.Indexed) {nPis : Int}
    {entry : LedgerEntry} (h : t.KeepsAll nPis entry.lits) :
    entry.rows t nPis = .ok (entry.assignments t) := by
  have hfilter : entry.lits.filter (t.keeps nPis) = entry.lits :=
    List.filter_eq_self.2 fun l hl => (h l hl).2
  rw [rows, hindexed.ofLits_of_nonneg nPis fun l hl => (h l hl).1, hfilter]
  simp only [Except.map, List.map_map, assignments, Function.comp_def]

namespace Ledger

/-- The ledger is consistent, has an entry for every number, and keeps every literal. -/
structure Gapless (t : Placement) (nPis : Int) (ledger : Ledger) : Prop
    extends Consistent t nPis ledger where
  seqs_eq : ledger.entries.map (·.seq) = List.range' 1 ledger.count
  keepsAll : ∀ entry ∈ ledger.entries, t.KeepsAll nPis entry.lits

/-- The ledger without entries has no gaps. -/
theorem gapless_empty (t : Placement) (nPis : Int) : Gapless t nPis {} := by
  refine ⟨consistent_empty t nPis, rfl, ?_⟩
  intro entry hentry
  cases hentry

/-- A ledger without gaps has as many entries as numbers were taken. -/
theorem Gapless.length_entries {t : Placement} {nPis : Int} {ledger : Ledger}
    (h : ledger.Gapless t nPis) : ledger.entries.length = ledger.count := by
  rw [← List.length_map (·.seq), h.seqs_eq, List.length_range']

/-- The rows of a ledger without gaps are the assignments of the literals of its entries. -/
theorem Gapless.rows_eq_assignments {t : Placement} (hindexed : t.Indexed) {nPis : Int}
    {ledger : Ledger} (h : ledger.Gapless t nPis) :
    ledger.rows = ledger.entries.flatMap (LedgerEntry.assignments t) := by
  have hall : ∀ entries : List LedgerEntry, (∀ entry ∈ entries, t.KeepsAll nPis entry.lits) →
      entries.mapM (LedgerEntry.rows t nPis) = .ok (entries.map (LedgerEntry.assignments t)) := by
    intro entries hkept
    induction entries with
    | nil => rfl
    | cons entry entries ih =>
      rcases List.forall_mem_cons.1 hkept with ⟨hentry, hentries⟩
      rw [List.mapM_cons, LedgerEntry.rows_of_keepsAll hindexed hentry, ih hentries]
      rfl
  have hrows := h.rows_eq
  rw [hall ledger.entries h.keepsAll] at hrows
  rw [List.flatMap_def]
  exact (Except.ok.inj hrows).symm

/-- The clause of an entry in a ledger without gaps has the opposite literals. -/
theorem Gapless.blockingClause_eq {t : Placement} {nPis : Int} {ledger : Ledger}
    (h : ledger.Gapless t nPis) {entry : LedgerEntry} (hentry : entry ∈ ledger.entries) :
    entry.blockingClause = entry.lits.map Literal.opposite := by
  have hclause := h.clause_eq entry hentry
  rw [mapM_negate_of_nonneg fun l hl => (h.keepsAll entry hentry l hl).1] at hclause
  exact (Except.ok.inj hclause).symm

/-- Entering a program with kept literals makes no gap. -/
theorem Gapless.recorded {t : Placement} (hindexed : t.Indexed) {nPis : Int} {ledger : Ledger}
    (h : ledger.Gapless t nPis) {p : Program} (hkept : t.KeepsAll nPis p.lits) :
    (ledger.recorded t nPis p).Gapless t nPis := by
  constructor
  case toConsistent => exact h.toConsistent.recorded hindexed fun l hl => (hkept l hl).1
  case seqs_eq =>
    rw [entries_recorded, count_recorded, List.map_append, h.seqs_eq, List.range'_1_concat,
      Nat.add_comm 1]
    rfl
  case keepsAll =>
    intro entry hentry
    rw [entries_recorded, List.mem_append, List.mem_singleton] at hentry
    rcases hentry with hold | rfl
    · exact h.keepsAll entry hold
    · exact hkept

/-- Entering programs with kept literals makes no gap. -/
theorem Gapless.recordedAll {t : Placement} (hindexed : t.Indexed) {nPis : Int} {ledger : Ledger}
    (h : ledger.Gapless t nPis) {programs : List Program}
    (hkept : ∀ p ∈ programs, t.KeepsAll nPis p.lits) :
    (ledger.recordedAll t nPis programs).Gapless t nPis := by
  induction programs generalizing ledger with
  | nil => exact h
  | cons p programs ih =>
    rcases List.forall_mem_cons.1 hkept with ⟨hp, hprograms⟩
    exact ih (h.recorded hindexed hp) hprograms

end Ledger

namespace Decoder

variable [Memory] {d : Decoder} {s s' : DecoderState} {C : Chain → Prop}

/-! ## What requests add -/

/-- The state `s'` has, compared with `s`, the programs and reports of some chains of a kind
more. -/
def Advances (d : Decoder) (C : Chain → Prop) (s s' : DecoderState) : Prop :=
  ∃ results, Progress d s s' results ∧
    ∀ result ∈ results, ∃ c, C c ∧ d.decoded s.shape c = .ok result

/-- Printing and noting a start frame add nothing. -/
theorem Advances.of_eq (hshape : s'.shape = s.shape) (hledger : s'.ledger = s.ledger)
    (hsink : s'.sink = s.sink) : d.Advances C s s' :=
  ⟨[], .of_eq hshape hledger hsink, List.forall_mem_nil _⟩

/-- Listing a program adds nothing. -/
theorem advances_list (d : Decoder) (C : Chain → Prop) (p : Program) (nPis : Int)
    (s : DecoderState) : d.Advances C s (d.list p nPis s).2 :=
  ⟨[], progress_list d p nPis s, List.forall_mem_nil _⟩

/-- What is added in two parts is added. -/
theorem Advances.trans {s₁ s₂ : DecoderState} (hfront : d.Advances C s s₁)
    (hback : d.Advances C s₁ s₂) : d.Advances C s s₂ := by
  rcases hfront with ⟨front, hfirst, hfrom⟩
  rcases hback with ⟨back, hsecond, hrest⟩
  rw [hfirst.shape_eq] at hrest
  exact ⟨front ++ back, hfirst.trans hsecond, List.forall_mem_append.2 ⟨hfrom, hrest⟩⟩

/-- Printing after something was added adds nothing more. -/
theorem Advances.print (h : d.Advances C s s') (text : String) :
    d.Advances C s (s'.print text) :=
  h.trans (.of_eq rfl rfl rfl)

/-- Decoding a chain adds what it decodes to, or nothing. -/
theorem advances_decode (hindexed : d.placement.Indexed) {c : Chain} (hc : C c) (hasSink : Bool)
    (s : DecoderState) : d.Advances C s (d.decode c hasSink s).2 := by
  rcases decode_cases d hindexed c hasSink s with
    ⟨fault, index, hdecode⟩ | ⟨start, p, r, hstart, hprogram, hrender, hdecode⟩
  · rw [hdecode]
    exact .of_eq rfl rfl rfl
  · rw [hdecode]
    refine ⟨[(p, r)], ⟨rfl, rfl, ?_⟩, ?_⟩
    · simp only [List.map_cons, List.map_nil, Rendering.reports, String.append_empty]
      rfl
    · intro result hresult
      rw [List.mem_singleton.1 hresult]
      exact ⟨c, hc, decoded_eq_ok_iff.2 ⟨start, hstart, hprogram, hrender⟩⟩

/-- Decoding chains adds what some of them decode to, wherever it ends. -/
theorem advances_decodeAll (hindexed : d.placement.Indexed) {chains : List Chain}
    (hchains : ∀ c ∈ chains, C c) (s : DecoderState) :
    d.Advances C s (d.decodeAll chains s).2 := by
  induction chains generalizing s with
  | nil => exact .of_eq rfl rfl rfl
  | cons c chains ih =>
    rcases List.forall_mem_cons.1 hchains with ⟨hc, hrest⟩
    have hdecoded := advances_decode hindexed hc true s
    unfold decodeAll
    rcases hdecode : d.decode c true s with ⟨fault | p, s₁⟩
    · rwa [hdecode] at hdecoded
    · rw [hdecode] at hdecoded
      have hlisted := hdecoded.trans (advances_list d C p d.nPis s₁)
      dsimp only
      rcases hlist : d.list p d.nPis s₁ with ⟨fault | _, s₂⟩
      · rwa [hlist] at hlisted
      · rw [hlist] at hlisted
        have hall := hlisted.trans (ih hrest s₂)
        dsimp only
        rcases hothers : d.decodeAll chains s₂ with ⟨fault | programs, s₃⟩
        · rwa [hothers] at hall
        · rwa [hothers] at hall

/-- The ledger has no gaps, its entries are what chains of a kind decode to, and reports have the
shape of the placement. -/
structure Intact (d : Decoder) (C : Chain → Prop) (s : DecoderState) : Prop where
  shape_eq : s.shape = d.placement.shape
  gapless : s.ledger.Gapless d.placement d.nPis
  entries_decoded : ∀ entry ∈ s.ledger.entries,
    ∃ c r, C c ∧ d.decoded d.placement.shape c = .ok (entry.program, r)

/-- The state in which a decoder starts is intact. -/
theorem intact_start (d : Decoder) (C : Chain → Prop) : d.Intact C d.start :=
  ⟨rfl, Ledger.gapless_empty d.placement d.nPis, List.forall_mem_nil _⟩

/-- A program that a chain decodes to has kept literals. -/
theorem keepsAll_of_decoded {shape : Shape} {c : Chain} {p : Program} {r : Rendering}
    (h : d.decoded shape c = .ok (p, r)) : d.placement.KeepsAll d.nPis p.lits := by
  rcases decoded_eq_ok_iff.1 h with ⟨start, -, hprogram, -⟩
  exact Program.keepsAll hprogram

/-- A state stays intact as programs are added. -/
theorem Intact.advances (hindexed : d.placement.Indexed) (h : d.Intact C s)
    (hadvances : d.Advances C s s') : d.Intact C s' := by
  rcases hadvances with ⟨results, hprogress, hfrom⟩
  rw [h.shape_eq] at hfrom
  have hprograms : ∀ p ∈ results.map (·.1),
      ∃ c r, C c ∧ d.decoded d.placement.shape c = .ok (p, r) := by
    intro p hp
    rcases List.mem_map.1 hp with ⟨result, hresult, rfl⟩
    rcases hfrom result hresult with ⟨c, hc, hdecoded⟩
    exact ⟨c, result.2, hc, hdecoded⟩
  constructor
  case shape_eq => rw [hprogress.shape_eq, h.shape_eq]
  case gapless =>
    rw [hprogress.ledger_eq]
    apply h.gapless.recordedAll hindexed
    intro p hp
    rcases hprograms p hp with ⟨c, r, -, hdecoded⟩
    exact keepsAll_of_decoded hdecoded
  case entries_decoded =>
    intro entry hentry
    rw [hprogress.ledger_eq, Ledger.entries_recordedAll, List.mem_append] at hentry
    rcases hentry with hold | hnew
    · exact h.entries_decoded entry hold
    · apply hprograms
      rw [← LedgerEntry.map_program_ofPrograms (s.ledger.count + 1) (results.map (·.1))]
      exact List.mem_map_of_mem hnew

/-- The numbers of an intact ledger can be written, if inputs and frames are numbered by words. -/
theorem Intact.writable (hplacement : d.placement.Numbered) (h : d.Intact Chain.Numbered s) :
    s.ledger.Writable := by
  have hlits : ∀ entry ∈ s.ledger.entries, ∀ l ∈ entry.lits, ∀ m, 0 ≤ m → m / 2 = l / 2 →
      Text.isWritable m = true := by
    intro entry hentry l hl m hm hvar
    exact hplacement.isWritable_literal hm hvar (h.gapless.keepsAll entry hentry l hl).2
  constructor
  case entries =>
    intro entry hentry
    rcases h.entries_decoded entry hentry with ⟨c, r, hc, hdecoded⟩
    rcases decoded_eq_ok_iff.1 hdecoded with ⟨start, hstart, hprogram, -⟩
    constructor
    case startFrame =>
      have hindex : entry.startFrame = start.index := Program.startFrame_ofStartFrame hprogram
      rw [hindex]
      exact hc.isWritable_index hstart
    case lits =>
      intro l hl
      exact hlits entry hentry l hl l (h.gapless.keepsAll entry hentry l hl).1 rfl
    case blockingClause =>
      intro m hm
      rw [h.gapless.blockingClause_eq hentry] at hm
      rcases List.mem_map.1 hm with ⟨l, hl, rfl⟩
      have hnonneg := (h.gapless.keepsAll entry hentry l hl).1
      have hvar := Literal.opposite_ediv l
      exact hlits entry hentry l hl _ (by omega) hvar
  case rows =>
    intro row hrow
    rw [h.gapless.rows_eq_assignments hplacement.indexed, List.mem_flatMap] at hrow
    rcases hrow with ⟨entry, hentry, hrow⟩
    rcases List.mem_map.1 hrow with ⟨l, hl, rfl⟩
    rcases h.gapless.keepsAll entry hentry l hl with ⟨hnonneg, hkeeps⟩
    rcases h.entries_decoded entry hentry with ⟨c, r, -, hdecoded⟩
    exact hplacement.writable_assignmentOf (totalBits_lt_of_decoded hdecoded) hnonneg hkeeps

end Decoder

/-! ## Runs -/

namespace Project

section Runs

variable [Memory] {C : Chain → Prop}

/-- Loading chains fails or prints something, whatever the state is. -/
theorem loadChains_cases (p : Project) (t : FileTree) :
    (∃ fault, ∀ s, p.loadChains t s = (.error fault, s)) ∨
      ∃ chains, ∀ s, ∃ console, p.loadChains t s = (.ok chains, { s with console }) := by
  unfold loadChains
  by_cases htoy : p.config.isToy = true
  · simp only [if_pos htoy]
    cases toyChain p.config.nPis p.config.resetVar with
    | error fault => exact Or.inl ⟨fault, fun s => rfl⟩
    | ok chain => exact Or.inr ⟨[chain], fun s => ⟨s.console, rfl⟩⟩
  · simp only [if_neg htoy]
    cases p.config.chainFiles.mapM fun file => named file >>= Chain.load t with
    | error fault => exact Or.inl ⟨fault, fun s => rfl⟩
    | ok chains => exact Or.inr ⟨chains, fun s => ⟨_, rfl⟩⟩

/-- Which chains are loaded does not depend on the state. -/
theorem fst_loadChains_eq (p : Project) (t : FileTree) (s s' : DecoderState) :
    (p.loadChains t s).1 = (p.loadChains t s').1 := by
  rcases p.loadChains_cases t with ⟨fault, hfails⟩ | ⟨chains, hloads⟩
  · rw [hfails, hfails]
  · rcases hloads s with ⟨console, hload⟩
    rcases hloads s' with ⟨console', hload'⟩
    rw [hload, hload']

/-- Writing the reports and dumps changes the state as decoding the chains does, or not at all. -/
theorem advances_decodeInto {p : Project} (hindexed : p.decoder.placement.Indexed) (out : String)
    {chains : List Chain} (hchains : ∀ c ∈ chains, C c) (desk : Desk) :
    p.decoder.Advances C desk.state (p.decodeInto out chains desk).2.state := by
  unfold decodeInto
  split
  · exact .of_eq rfl rfl rfl
  · have hdecoded := Decoder.advances_decodeAll hindexed hchains desk.state
    split
    · next hfails => rwa [hfails] at hdecoded
    · next hdecodes =>
      rw [hdecodes] at hdecoded
      split
      · exact hdecoded
      · exact hdecoded.print _

/-- A run begins with an empty file of reports and adds what its chains decode to. -/
theorem advances_run {p : Project} (hindexed : p.decoder.placement.Indexed)
    (given : Option String) (desk : Desk)
    (hchains : ∀ chains, (p.loadChains desk.files p.decoder.start).1 = .ok chains →
      ∀ c ∈ chains, C c) :
    p.decoder.Advances C { desk.state with sink := "" } (p.run given desk).2.state := by
  unfold run
  rcases p.loadChains_cases desk.files with ⟨fault, hload⟩ | ⟨chains, hload⟩
  · simp only [hload]
    exact .of_eq rfl rfl rfl
  · have hloads : (p.loadChains desk.files p.decoder.start).1 = .ok chains := by
      rcases hload p.decoder.start with ⟨console, hloaded⟩
      rw [hloaded]
    rcases hload { desk.state with sink := "" } with ⟨console, hloaded⟩
    simp only [hloaded]
    cases p.config.prefixFor given with
    | error fault => exact .of_eq rfl rfl rfl
    | ok out =>
      rcases advances_decodeInto hindexed out (hchains chains hloads)
          { desk with state := { desk.state with sink := "", console } } with
        ⟨results, hprogress, hfrom⟩
      exact ⟨results, ⟨hprogress.shape_eq, hprogress.ledger_eq, hprogress.sink_eq⟩, hfrom⟩

end Runs

end Project

/-! ## Histories -/

/-- A request to a decoder. -/
inductive Request where
  /-- To decode a chain; `hasSink` says whether there is a place for the report. -/
  | decode (chain : Chain) (hasSink : Bool)
  /-- To run with a prefix on the files that are there. -/
  | run (given : Option String) (files : FileTree)

namespace Project

section Histories

variable [Memory] {p : Project} {C : Chain → Prop}

/-- All chains that a request has to decode are of a kind. -/
def Requests (p : Project) (C : Chain → Prop) : Request → Prop
  | .decode c _ => C c
  | .run _ files => ∀ chains, (p.loadChains files p.decoder.start).1 = .ok chains →
      ∀ c ∈ chains, C c

/-- The state that a request leaves, whether or not it fails. -/
def stateAfterRequest (p : Project) (s : DecoderState) : Request → DecoderState
  | .decode c hasSink => (p.decoder.decode c hasSink s).2
  | .run given files => (p.run given ⟨files, s⟩).2.state

/-- The state after a history of requests. -/
def stateAfter (p : Project) (history : List Request) : DecoderState :=
  history.foldl p.stateAfterRequest p.decoder.start

/-- A request leaves an intact state. -/
theorem intact_request (hindexed : p.decoder.placement.Indexed) {s : DecoderState}
    (h : p.decoder.Intact C s) {request : Request} (hrequest : p.Requests C request) :
    p.decoder.Intact C (p.stateAfterRequest s request) := by
  cases request with
  | decode c hasSink =>
    exact h.advances hindexed (Decoder.advances_decode hindexed hrequest hasSink s)
  | run given files =>
    have hempty : p.decoder.Intact C { s with sink := "" } :=
      ⟨h.shape_eq, h.gapless, h.entries_decoded⟩
    exact hempty.advances hindexed (advances_run hindexed given ⟨files, s⟩ hrequest)

/-- The state after every history is intact. -/
theorem intact_stateAfter (hindexed : p.decoder.placement.Indexed) {history : List Request}
    (hhistory : ∀ request ∈ history, p.Requests C request) :
    p.decoder.Intact C (p.stateAfter history) := by
  have hrun : ∀ s, p.decoder.Intact C s →
      p.decoder.Intact C (history.foldl p.stateAfterRequest s) := by
    induction history with
    | nil => exact fun s h => h
    | cons request history ih =>
      rcases List.forall_mem_cons.1 hhistory with ⟨hrequest, hrest⟩
      exact fun s h => ih hrest _ (intact_request hindexed h hrequest)
  exact hrun p.decoder.start (p.decoder.intact_start C)

/-- A history is one of chains, of whatever kind. -/
theorem requests_true (p : Project) (request : Request) : p.Requests (fun _ => True) request := by
  cases request with
  | decode c hasSink => exact trivial
  | run given files => exact fun _ _ _ _ => trivial

end Histories

end Project
end ImemReplay
