import ImemReplay.Proofs.Decodability
import ImemReplay.Proofs.DumpReading
import ImemReplay.Proofs.InstructionGroups
import Mathlib.Data.List.Forall2

/-!
# Decoding one chain after the other

What a chain decodes to depends on the tables of the decoder and on the shape of the reports, not
on what was decoded before.  Decoding a list of chains therefore adds to the ledger and to the sink
what the chains decode to, under the numbers that come next, and it ends with the fault of the
first chain that cannot be decoded.  Each program is listed on the way.  What the listing shows are
numbers of frames and bits, and these can be written, since chains and tables are lists.

Main results:

- Theorem `decode_eq_decoded`: decoding a chain adds what the chain decodes to, or nothing.
- Theorem `Progress.trans`: what is added in two parts is added in their order.
- Theorem `list_eq_ok`: a program that was decoded can be listed.
- Theorem `decodeAll_of_decodedAs`: what a list of chains adds that can all be decoded.
- Theorem `decodeAll_of_refused`: what a list adds with a chain that cannot be decoded.
-/

namespace ImemReplay

/-! ## Reports and entries under consecutive numbers -/

/-- The reports of pictures, numbered from `seq` on. -/
def Rendering.reports (seq : Nat) : List Rendering → String
  | [] => ""
  | r :: rs => r.report seq ++ reports (seq + 1) rs

theorem Rendering.reports_append (seq : Nat) (front back : List Rendering) :
    reports seq (front ++ back) = reports seq front ++ reports (seq + front.length) back := by
  induction front generalizing seq with
  | nil => simp [reports]
  | cons r front ih =>
    rw [List.cons_append, reports, reports, ih, String.append_assoc, List.length_cons,
      Nat.add_assoc seq, Nat.add_comm 1]

/-- The entry of a program under a number. -/
def LedgerEntry.ofProgram (seq : Nat) (p : Program) : LedgerEntry :=
  ⟨seq, p.startFrame, p.lits, p.lits.map Literal.opposite⟩

/-- The program of an entry. -/
def LedgerEntry.program (entry : LedgerEntry) : Program := ⟨entry.startFrame, entry.lits⟩

/-- The entries of programs, numbered from `seq` on. -/
def LedgerEntry.ofPrograms (seq : Nat) (programs : List Program) : List LedgerEntry :=
  (programs.zipIdx seq).map fun numbered => ofProgram numbered.2 numbered.1

namespace LedgerEntry

@[simp]
theorem ofPrograms_nil (seq : Nat) : ofPrograms seq [] = [] :=
  rfl

@[simp]
theorem ofPrograms_cons (seq : Nat) (p : Program) (programs : List Program) :
    ofPrograms seq (p :: programs) = ofProgram seq p :: ofPrograms (seq + 1) programs :=
  rfl

/-- The entries of programs have their start frames and literals. -/
theorem map_program_ofPrograms (seq : Nat) (programs : List Program) :
    (ofPrograms seq programs).map program = programs := by
  induction programs generalizing seq with
  | nil => rfl
  | cons p programs ih =>
    rw [ofPrograms_cons, List.map_cons, ih]
    rfl

end LedgerEntry

namespace Ledger

/-- The ledger after programs were entered one after the other. -/
def recordedAll (ledger : Ledger) (t : Placement) (nPis : Int) (programs : List Program) :
    Ledger :=
  programs.foldl (fun ledger p => ledger.recorded t nPis p) ledger

@[simp]
theorem recordedAll_nil (ledger : Ledger) (t : Placement) (nPis : Int) :
    ledger.recordedAll t nPis [] = ledger :=
  rfl

@[simp]
theorem recordedAll_cons (ledger : Ledger) (t : Placement) (nPis : Int) (p : Program)
    (programs : List Program) :
    ledger.recordedAll t nPis (p :: programs) =
      (ledger.recorded t nPis p).recordedAll t nPis programs :=
  rfl

theorem recordedAll_append (ledger : Ledger) (t : Placement) (nPis : Int)
    (front back : List Program) :
    ledger.recordedAll t nPis (front ++ back) =
      (ledger.recordedAll t nPis front).recordedAll t nPis back :=
  List.foldl_append

@[simp]
theorem count_recordedAll (ledger : Ledger) (t : Placement) (nPis : Int)
    (programs : List Program) :
    (ledger.recordedAll t nPis programs).count = ledger.count + programs.length := by
  induction programs generalizing ledger with
  | nil => rfl
  | cons p programs ih =>
    rw [recordedAll_cons, ih, count_recorded, List.length_cons, Nat.add_assoc, Nat.add_comm 1]

theorem entries_recordedAll (ledger : Ledger) (t : Placement) (nPis : Int)
    (programs : List Program) :
    (ledger.recordedAll t nPis programs).entries =
      ledger.entries ++ LedgerEntry.ofPrograms (ledger.count + 1) programs := by
  induction programs generalizing ledger with
  | nil => simp
  | cons p programs ih =>
    rw [recordedAll_cons, ih, entries_recorded, count_recorded, List.append_assoc]
    rfl

end Ledger

/-! ## Numbers of frames and inputs -/

/-- The frames of a chain are numbered by words, as the places of every list are. -/
def Chain.Numbered (c : Chain) : Prop := c.length < Capacity.wordBound

/-- The index of a start frame can be written. -/
theorem Chain.Numbered.isWritable_index {c : Chain} (h : c.Numbered) {resetVar : Int}
    {start : StartFrame} (hstart : c.startFrame resetVar = .ok start) :
    Text.isWritable start.index = true := by
  have hindex := (List.getElem?_eq_some_iff.1 (getElem?_of_startFrame hstart)).1
  unfold Numbered at h
  exact Capacity.isWritable_of_le (Int.natCast_nonneg _) (by omega)

namespace Placement

/-- The inputs of an indexed placement are numbered by words, as the places of every list are. -/
structure Numbered (t : Placement) : Prop where
  wellFormed : t.WellFormed
  indexed : t.Indexed
  length_lt : t.length < Capacity.wordBound

theorem numbered_of_ofIndexes {entries : List (Option Int)} {instLen nInsts : Int} {t : Placement}
    (h : ofIndexes entries instLen nInsts = .ok t)
    (hlength : (entries.length : Int) < Capacity.wordBound) : t.Numbered := by
  refine ⟨wellFormed_of_ofEntries h, indexed_of_ofIndexes h, ?_⟩
  rwa [length_of_ofEntries h, List.length_map]

/-- A literal on a placed input can be written, and so can any other on the input. -/
theorem Numbered.isWritable_literal {t : Placement} (h : t.Numbered) {nPis l m : Int}
    (hm : 0 ≤ m) (hvar : m / 2 = l / 2) (hkeeps : t.keeps nPis l = true) :
    Text.isWritable m = true := by
  rcases (keeps_iff.1 hkeeps).2 with ⟨place, hplace⟩
  have hinput := (input_range hplace).2
  have hlength := h.length_lt
  exact Capacity.isWritable_of_le hm (by omega)

/-- The assignment of a kept literal can be written, if the bits are numbered by words too. -/
theorem Numbered.writable_assignmentOf {t : Placement} (h : t.Numbered)
    (hbits : t.totalBits < Capacity.wordBound) {nPis l : Int} (hl : 0 ≤ l)
    (hkeeps : t.keeps nPis l = true) : (t.assignmentOf l).Writable := by
  rcases h.indexed.exists_slotAt hkeeps with ⟨slot, hslot⟩
  rcases h.wellFormed.slot_range hslot with ⟨hlow, hhigh⟩
  have hlen := h.wellFormed.instLen_pos
  have hinst : 0 ≤ slot / t.instLen := Int.ediv_nonneg hlow (Int.le_of_lt hlen)
  have hbit : 0 ≤ slot % t.instLen := Int.emod_nonneg slot (Int.ne_of_gt hlen)
  have hinstle : slot / t.instLen ≤ slot := Int.ediv_le_self _ hlow
  have hproduct : 0 ≤ t.instLen * (slot / t.instLen) := Int.mul_nonneg (Int.le_of_lt hlen) hinst
  have hsum := Int.mul_ediv_add_emod slot t.instLen
  rcases (keeps_iff.1 hkeeps).2 with ⟨place, hplace⟩
  have hinput := input_range hplace
  have hlength := h.length_lt
  have hword : 0 < Capacity.wordBound := by decide
  have hbitle : slot % t.instLen ≤ slot := by omega
  have hinputWritten : Text.isWritable (l / 2) = true :=
    Capacity.isWritable_of_le hinput.1 (by omega)
  have hinstWritten : Text.isWritable (slot / t.instLen) = true :=
    Capacity.isWritable_of_le hinst (by omega)
  have hbitWritten : Text.isWritable (slot % t.instLen) = true :=
    Capacity.isWritable_of_le hbit (by omega)
  simp only [assignmentOf, hslot, Option.getD_some]
  exact ⟨h.isWritable_literal hl rfl hkeeps, hinputWritten, hinstWritten, hbitWritten⟩

end Placement

/-- A listing can be written if the start frame and the addresses of the assignments can. -/
theorem Assignment.writable_listing {startFrame : Int} {rows : List Assignment}
    (hstart : Text.isWritable startFrame = true) (hrows : ∀ row ∈ rows, row.Writable) :
    Passage.Writable (listing startFrame rows) := by
  have hline (inst : Int) (hinst : inst ∈ instructions rows) :
      (line rows inst).isWritable = true := by
    rcases mem_instructions.1 hinst with ⟨row, hrow, rfl⟩
    simp only [line, Passage.isWritable, List.all_cons, List.all_map, Bool.and_eq_true,
      List.all_eq_true, Function.comp_apply]
    refine ⟨(hrows row hrow).inst, fun other hother => (hrows other ?_).bit⟩
    exact (List.mem_filter.1 ((ofInstruction_perm rows row.inst).mem_iff.1 hother)).1
  unfold listing
  split
  · simp [Passage.isWritable]
  · rw [Passage.writable_cons]
    refine ⟨by simp [heading, Passage.isWritable, hstart], ?_⟩
    simpa only [Passage.Writable, List.forall_mem_map] using hline

namespace Decoder

/-! ## What a chain decodes to -/

/-- The state `s'` has, compared with `s`, the programs and reports of some results more. -/
structure Progress (d : Decoder) (s s' : DecoderState) (results : List (Program × Rendering)) :
    Prop where
  shape_eq : s'.shape = s.shape
  ledger_eq : s'.ledger = s.ledger.recordedAll d.placement d.nPis (results.map (·.1))
  sink_eq : s'.sink = s.sink ++ Rendering.reports (s.ledger.count + 1) (results.map (·.2))

/-- Printing and noting a start frame add nothing. -/
theorem Progress.of_eq {d : Decoder} {s s' : DecoderState} (hshape : s'.shape = s.shape)
    (hledger : s'.ledger = s.ledger) (hsink : s'.sink = s.sink) : Progress d s s' [] := by
  refine ⟨hshape, hledger, ?_⟩
  rw [hsink, List.map_nil, Rendering.reports, String.append_empty]

/-- What is added in two parts is added in their order. -/
theorem Progress.trans {d : Decoder} {s s₁ s₂ : DecoderState}
    {front back : List (Program × Rendering)} (hfront : Progress d s s₁ front)
    (hback : Progress d s₁ s₂ back) : Progress d s s₂ (front ++ back) := by
  constructor
  case shape_eq => rw [hback.shape_eq, hfront.shape_eq]
  case ledger_eq =>
    rw [hback.ledger_eq, hfront.ledger_eq, List.map_append, Ledger.recordedAll_append]
  case sink_eq =>
    have hcount : s.ledger.count + (front.map (·.1)).length + 1 =
        s.ledger.count + 1 + (front.map (·.2)).length := by
      rw [List.length_map, List.length_map]
      omega
    rw [hback.sink_eq, hfront.sink_eq, hfront.ledger_eq, Ledger.count_recordedAll, hcount,
      List.map_append, Rendering.reports_append, String.append_assoc]

/-- Listing a program adds nothing. -/
theorem progress_list (d : Decoder) (p : Program) (nPis : Int) (s : DecoderState) :
    Progress d s (d.list p nPis s).2 [] := by
  unfold list
  cases Assignment.ofLits d.placement nPis p.lits with
  | error fault => exact .of_eq rfl rfl rfl
  | ok rows => exact .of_eq rfl rfl rfl

variable [Memory]

/-- The program and the picture of a chain. -/
def decoded (d : Decoder) (shape : Shape) (c : Chain) : Except Fault (Program × Rendering) := do
  let start ← c.startFrame d.resetVar
  let p ← Program.ofStartFrame d.placement d.nPis d.resetVar start
  let r ← Rendering.ofFrame d.placement d.nPis shape start.frame
  return (p, r)

/-- The stages that a decoded chain has passed. -/
theorem decoded_eq_ok_iff {d : Decoder} {shape : Shape} {c : Chain} {p : Program} {r : Rendering} :
    d.decoded shape c = .ok (p, r) ↔
      ∃ start, c.startFrame d.resetVar = .ok start ∧
        Program.ofStartFrame d.placement d.nPis d.resetVar start = .ok p ∧
        Rendering.ofFrame d.placement d.nPis shape start.frame = .ok r := by
  unfold decoded
  simp only [bind_eq_ok_iff]
  constructor
  · rintro ⟨start, hstart, q, hprogram, picture, hpicture, hpair⟩
    cases hpair
    exact ⟨start, hstart, hprogram, hpicture⟩
  · rintro ⟨start, hstart, hprogram, hpicture⟩
    exact ⟨start, hstart, p, hprogram, r, hpicture, rfl⟩

/-- Decoding a chain adds what the chain decodes to, or fails in the same way and adds nothing. -/
theorem decode_eq_decoded (d : Decoder) (hindexed : d.placement.Indexed) (c : Chain)
    (s : DecoderState) :
    (∃ fault s', d.decoded s.shape c = .error fault ∧ d.decode c true s = (.error fault, s') ∧
      Progress d s s' []) ∨
      ∃ p r s', d.decoded s.shape c = .ok (p, r) ∧ d.decode c true s = (.ok p, s') ∧
        Progress d s s' [(p, r)] := by
  cases hstart : c.startFrame d.resetVar with
  | error fault =>
    exact Or.inl ⟨fault, s, by rw [decoded, hstart]; rfl, decode_of_startFrame_error hstart,
      .of_eq rfl rfl rfl⟩
  | ok start =>
    cases hprogram : Program.ofStartFrame d.placement d.nPis d.resetVar start with
    | error fault =>
      refine Or.inl ⟨fault, s, ?_, decode_of_program_error hstart hprogram, .of_eq rfl rfl rfl⟩
      simp only [decoded, hstart, hprogram, bind, Except.bind]
    | ok p =>
      cases hrender : d.render start.frame s with
      | error fault =>
        refine Or.inl ⟨fault, _, ?_, decode_of_render_error hstart hprogram hrender,
          .of_eq rfl rfl rfl⟩
        rw [render] at hrender
        simp only [decoded, hstart, hprogram, hrender, bind, Except.bind]
      | ok r =>
        refine Or.inr ⟨p, r, _, ?_, decode_of_render hindexed hstart hprogram hrender, ?_⟩
        · rw [render] at hrender
          simp only [decoded, hstart, hprogram, hrender, bind, Except.bind]
          rfl
        · refine ⟨rfl, rfl, ?_⟩
          simp only [List.map_cons, List.map_nil, Rendering.reports, String.append_empty]
          rfl

/-- How a decoding ends depends on the state only through the shape of the reports. -/
theorem fst_decode_eq {d : Decoder} (hindexed : d.placement.Indexed) (c : Chain)
    (s : DecoderState) : (d.decode c true s).1 = (d.decoded s.shape c).map (·.1) := by
  rcases decode_eq_decoded d hindexed c s with
    ⟨fault, s', hdecoded, hdecode, -⟩ | ⟨p, r, s', hdecoded, hdecode, -⟩
  · rw [hdecoded, hdecode]
    rfl
  · rw [hdecoded, hdecode]
    rfl

/-- A chain whose decoding fails decodes to nothing. -/
theorem decoded_eq_error {d : Decoder} (hindexed : d.placement.Indexed) {c : Chain}
    {s : DecoderState} {fault : Fault} (h : (d.decode c true s).1 = .error fault) :
    d.decoded s.shape c = .error fault := by
  rw [fst_decode_eq hindexed] at h
  cases hdecoded : d.decoded s.shape c with
  | error other =>
    rw [hdecoded] at h
    exact congrArg _ (Except.error.inj h)
  | ok result =>
    rw [hdecoded] at h
    contradiction

/-- The bits of a picture are numbered by words. -/
theorem totalBits_lt_of_decoded {d : Decoder} {c : Chain} {result : Program × Rendering}
    (h : d.decoded d.placement.shape c = .ok result) :
    d.placement.totalBits < Capacity.wordBound := by
  rcases decoded_eq_ok_iff.1 h with ⟨start, -, -, hpicture⟩
  exact Rendering.lt_wordBound_of_ofFrame hpicture

/-- A program can be listed that a chain decodes to in the shape of the placement. -/
theorem list_eq_ok {d : Decoder} (hplacement : d.placement.Numbered) {c : Chain}
    (hc : c.Numbered) {p : Program} {r : Rendering}
    (hdecoded : d.decoded d.placement.shape c = .ok (p, r)) (s : DecoderState) :
    (d.list p d.nPis s).1 = .ok () := by
  rcases decoded_eq_ok_iff.1 hdecoded with ⟨start, hstart, hprogram, -⟩
  have hbits := totalBits_lt_of_decoded hdecoded
  have hnonneg := Program.lits_nonneg hprogram
  have hindex : Text.isWritable p.startFrame = true := by
    rw [Program.startFrame_ofStartFrame hprogram]
    exact hc.isWritable_index hstart
  simp only [list, hplacement.indexed.ofLits_of_nonneg d.nPis hnonneg]
  apply Passage.ended_eq_ok_iff.2
  apply Assignment.writable_listing hindex
  simp only [List.forall_mem_map, List.mem_filter]
  exact fun l hl => hplacement.writable_assignmentOf hbits (hnonneg l hl.1) hl.2

/-! ## Lists of chains -/

/-- The results are what the chains decode to, one after the other. -/
def DecodedAs (d : Decoder) (shape : Shape) (chains : List Chain)
    (results : List (Program × Rendering)) : Prop :=
  List.Forall₂ (fun c result => d.decoded shape c = .ok result) chains results

/-- A first chain that cannot be decoded ends the decoding of a list and adds nothing. -/
theorem decodeAll_cons_of_error {d : Decoder} (hindexed : d.placement.Indexed) {c : Chain}
    {s : DecoderState} {fault : Fault} (hc : d.decoded s.shape c = .error fault)
    (chains : List Chain) :
    ∃ s', d.decodeAll (c :: chains) s = (.error fault, s') ∧ Progress d s s' [] := by
  rcases decode_eq_decoded d hindexed c s with
    ⟨other, s', hdecoded, hdecode, hprogress⟩ | ⟨p, r, s', hdecoded, -, -⟩
  · rw [hc] at hdecoded
    cases hdecoded
    exact ⟨s', by simp only [decodeAll, hdecode], hprogress⟩
  · rw [hc] at hdecoded
    contradiction

/-- A first chain that can be decoded adds what it decodes to and leaves the rest to be decoded. -/
theorem decodeAll_cons_of_ok {d : Decoder} (hplacement : d.placement.Numbered) {c : Chain}
    (hnumbered : c.Numbered) {s : DecoderState} (hshape : s.shape = d.placement.shape)
    {p : Program} {r : Rendering} (hc : d.decoded s.shape c = .ok (p, r)) :
    ∃ s₁, Progress d s s₁ [(p, r)] ∧ ∀ chains, d.decodeAll (c :: chains) s =
      ((d.decodeAll chains s₁).1.map (p :: ·), (d.decodeAll chains s₁).2) := by
  rcases decode_eq_decoded d hplacement.indexed c s with
    ⟨fault, s₁, hdecoded, -, -⟩ | ⟨q, picture, s₁, hdecoded, hdecode, hprogress⟩
  · rw [hc] at hdecoded
    cases hdecoded
  · rw [hc] at hdecoded
    cases hdecoded
    rw [hshape] at hc
    have hlisted := list_eq_ok hplacement hnumbered hc s₁
    refine ⟨_, hprogress.trans (progress_list d p d.nPis s₁), ?_⟩
    intro chains
    rcases hlist : d.list p d.nPis s₁ with ⟨answer, s₂⟩
    rw [hlist] at hlisted
    have hanswer : answer = .ok () := hlisted
    simp only [decodeAll, hdecode, hlist, hanswer]
    rcases d.decodeAll chains s₂ with ⟨fault | programs, s'⟩
    · rfl
    · rfl

/-- Chains that can be decoded add what they decode to and leave the rest to be decoded. -/
theorem decodeAll_append {d : Decoder} (hplacement : d.placement.Numbered) {front : List Chain}
    (hnumbered : ∀ c ∈ front, c.Numbered) {s : DecoderState}
    (hshape : s.shape = d.placement.shape) {results : List (Program × Rendering)}
    (hfront : d.DecodedAs s.shape front results) :
    ∃ s₁, Progress d s s₁ results ∧ ∀ back, d.decodeAll (front ++ back) s =
      ((d.decodeAll back s₁).1.map (results.map (·.1) ++ ·), (d.decodeAll back s₁).2) := by
  induction front generalizing s results with
  | nil =>
    cases hfront
    refine ⟨s, .of_eq rfl rfl rfl, ?_⟩
    intro back
    rcases h : d.decodeAll back s with ⟨fault | programs, s'⟩
    · simp only [List.nil_append, h, Except.map]
    · simp only [List.nil_append, h, Except.map, List.map_nil]
  | cons c front ih =>
    cases hfront with
    | cons hresult hfront =>
    rcases List.forall_mem_cons.1 hnumbered with ⟨hc, hrest⟩
    rcases decodeAll_cons_of_ok hplacement hc hshape hresult with ⟨s₁, hprogress, hdecodes⟩
    rw [← hprogress.shape_eq] at hfront
    rcases ih hrest (hprogress.shape_eq.trans hshape) hfront with ⟨s₂, hadded, hback⟩
    refine ⟨s₂, hprogress.trans hadded, ?_⟩
    intro back
    rw [List.cons_append, hdecodes, hback]
    rcases d.decodeAll back s₂ with ⟨fault | programs, s'⟩
    · rfl
    · rfl

/-- A list of chains that can all be decoded adds what they decode to. -/
theorem decodeAll_of_decodedAs {d : Decoder} (hplacement : d.placement.Numbered)
    {chains : List Chain} (hnumbered : ∀ c ∈ chains, c.Numbered) {s : DecoderState}
    (hshape : s.shape = d.placement.shape) {results : List (Program × Rendering)}
    (h : d.DecodedAs s.shape chains results) :
    ∃ s', d.decodeAll chains s = (.ok (results.map (·.1)), s') ∧ Progress d s s' results := by
  rcases decodeAll_append hplacement hnumbered hshape h with ⟨s', hprogress, hdecodes⟩
  refine ⟨s', ?_, hprogress⟩
  have hall := hdecodes []
  rw [List.append_nil] at hall
  rw [hall]
  simp only [decodeAll, Except.map, List.append_nil]

/-- A list of chains ends at the first one that cannot be decoded, with its fault, and adds what
the ones in front of it decode to. -/
theorem decodeAll_of_refused {d : Decoder} (hplacement : d.placement.Numbered)
    {front : List Chain} (hnumbered : ∀ c ∈ front, c.Numbered) {c : Chain} {s : DecoderState}
    (hshape : s.shape = d.placement.shape) {results : List (Program × Rendering)} {fault : Fault}
    (hfront : d.DecodedAs s.shape front results) (hc : d.decoded s.shape c = .error fault)
    (back : List Chain) :
    ∃ s', d.decodeAll (front ++ c :: back) s = (.error fault, s') ∧ Progress d s s' results := by
  rcases decodeAll_append hplacement hnumbered hshape hfront with ⟨s₁, hprogress, hdecodes⟩
  rw [← hprogress.shape_eq] at hc
  rcases decodeAll_cons_of_error hplacement.indexed hc back with ⟨s', hfails, hadded⟩
  refine ⟨s', ?_, by simpa using hprogress.trans hadded⟩
  rw [hdecodes, hfails]
  rfl

/-- Chains can all be decoded, or there is a first one that cannot. -/
theorem decodedAs_or_refused (d : Decoder) (shape : Shape) (chains : List Chain) :
    (∃ results, d.DecodedAs shape chains results) ∨
      ∃ front c back results fault, chains = front ++ c :: back ∧
        d.DecodedAs shape front results ∧ d.decoded shape c = .error fault := by
  induction chains with
  | nil => exact Or.inl ⟨[], List.Forall₂.nil⟩
  | cons c chains ih =>
    cases hc : d.decoded shape c with
    | error fault => exact Or.inr ⟨[], c, chains, [], fault, rfl, List.Forall₂.nil, hc⟩
    | ok result =>
      rcases ih with ⟨results, hall⟩ | ⟨front, b, back, results, fault, rfl, hfront, hb⟩
      · exact Or.inl ⟨result :: results, List.Forall₂.cons hc hall⟩
      · exact Or.inr ⟨c :: front, b, back, result :: results, fault, rfl,
          List.Forall₂.cons hc hfront, hb⟩

/-- Chains that can each be decoded can all be decoded. -/
theorem exists_decodedAs {d : Decoder} (hindexed : d.placement.Indexed) {chains : List Chain}
    {s : DecoderState} (h : ∀ c ∈ chains, ∃ p, (d.decode c true s).1 = .ok p) :
    ∃ results, d.DecodedAs s.shape chains results := by
  rcases d.decodedAs_or_refused s.shape chains with
    hall | ⟨front, c, back, results, fault, rfl, -, hc⟩
  · exact hall
  · rcases h c (List.mem_append_right front List.mem_cons_self) with ⟨p, hp⟩
    rw [fst_decode_eq hindexed, hc] at hp
    contradiction

/-- A list of chains that were decoded has added what they decode to. -/
theorem exists_decodedAs_of_ok {d : Decoder} (hindexed : d.placement.Indexed)
    {chains : List Chain} {s s' : DecoderState} {programs : List Program}
    (h : d.decodeAll chains s = (.ok programs, s')) :
    ∃ results, d.DecodedAs s.shape chains results ∧ programs = results.map (·.1) ∧
      Progress d s s' results := by
  induction chains generalizing s programs with
  | nil =>
    cases h
    exact ⟨[], .nil, rfl, .of_eq rfl rfl rfl⟩
  | cons c chains ih =>
    rcases decode_eq_decoded d hindexed c s with
      ⟨fault, s₁, -, hdecode, -⟩ | ⟨p, r, s₁, hdecoded, hdecode, hprogress⟩
    · simp only [decodeAll, hdecode] at h
      cases h
    · have hadded := hprogress.trans (progress_list d p d.nPis s₁)
      rcases hlist : d.list p d.nPis s₁ with ⟨fault | _, s₂⟩
      · simp only [decodeAll, hdecode, hlist] at h
        cases h
      · rw [hlist] at hadded
        rcases hrest : d.decodeAll chains s₂ with ⟨fault | others, s₃⟩
        · simp only [decodeAll, hdecode, hlist, hrest] at h
          cases h
        · simp only [decodeAll, hdecode, hlist, hrest] at h
          cases h
          rcases ih hrest with ⟨results, hresults, rfl, hothers⟩
          rw [hadded.shape_eq] at hresults
          exact ⟨(p, r) :: results, .cons hdecoded hresults, rfl, hadded.trans hothers⟩

end Decoder
end ImemReplay
