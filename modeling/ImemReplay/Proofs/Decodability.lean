import ImemReplay.Proofs.Decoding
import ImemReplay.Proofs.Resolution

/-!
# When a chain can be decoded

The stages of a decoding have checks of their own.  The search for reset looks at every frame, as
far as the frame is not guarded; the extraction looks at all input literals of the start frame; the
report needs a sink and room for its picture.  A chain passes all stages exactly when it is
`Decodable`, which is said without the stages, and a stage that refuses it leaves neither a report
nor an entry.

Main results:

- Theorem `exists_program_iff`: the chains that have a program.
- Theorem `decode_refusal`: the faults of a decoding and what each of them tells of the chain.
- Theorem `decode_succeeds_exactly`: decoding succeeds exactly for the decodable chains, as long as
  there is room for the picture, and leaves no trace otherwise.
- Theorem `not_decodes_without_room`: a decodable chain of a design without room for its picture.
-/

namespace ImemReplay

namespace Decoder

/-! ## What a decoding asks of a chain -/

/-- Whether a frame denies reset while reset is a declared and placed input. -/
def DeniesReset (d : Decoder) (f : Frame) : Prop :=
  d.resetVar < d.nPis ∧ (∃ place, d.placement.lookup d.resetVar = some place) ∧
    2 * d.resetVar + 1 ∈ f.inputLits

/-- The denied reset literal is kept exactly of a frame that denies reset. -/
theorem denying_mem_kept_iff {d : Decoder} {f : Frame} :
    Literal.denying d.resetVar ∈ f.inputLits.filter (d.placement.keeps d.nPis) ↔
      d.DeniesReset f := by
  have hvar : (2 * d.resetVar + 1) / 2 = d.resetVar := by omega
  rw [List.mem_filter, Placement.keeps_iff, Literal.denying, hvar]
  unfold DeniesReset
  constructor
  · rintro ⟨hmem, hdeclared, hplaced⟩
    exact ⟨hdeclared, hplaced, hmem⟩
  · rintro ⟨hdeclared, hplaced, hmem⟩
    exact ⟨hmem, hdeclared, hplaced⟩

/-- A frame denies reset only if reset is an input of the table. -/
theorem DeniesReset.range {d : Decoder} {f : Frame} (h : d.DeniesReset f) :
    0 ≤ d.resetVar ∧ d.resetVar < d.placement.length := by
  rcases h with ⟨-, ⟨place, hplace⟩, -⟩
  exact Placement.input_range hplace

/-- The denied reset can be named together with a frame, as long as the table and the chain are no
longer than lists can be. -/
theorem DeniesReset.shown_isWritable {d : Decoder} {f : Frame} (h : d.DeniesReset f)
    (htable : d.placement.length < Capacity.wordBound) {index : Nat}
    (hindex : index < Capacity.wordBound) :
    (Fault.resetDenied (Literal.denying d.resetVar) index).shown.all Text.isWritable = true := by
  have hrange := h.range
  have hliteral : Text.isWritable (Literal.denying d.resetVar) = true := by
    unfold Literal.denying
    exact Capacity.isWritable_of_le (by omega) (by omega)
  have hframe : Text.isWritable index = true := Capacity.isWritable_of_le (by omega) (by omega)
  simp [Fault.shown, hliteral, hframe]

/-- What a decoding asks of a chain. -/
structure Decodable (d : Decoder) (c : Chain) : Prop where
  ne_nil : c ≠ []
  /-- The search for reset does not reach a negative literal in any frame. -/
  guarded : ∀ f ∈ c, f.Guarded d.resetVar
  /-- The frame that the chain takes effect from has no negative input literal at all. -/
  nonneg : ∀ {start}, c.TakesEffect d.resetVar start → ∀ l ∈ start.frame.inputLits, 0 ≤ l
  not_denied : ∀ {start}, c.TakesEffect d.resetVar start → ¬d.DeniesReset start.frame

/-- A chain whose start frame is found and has no negative literal, but denies reset. -/
structure Contradicts (d : Decoder) (c : Chain) : Prop where
  guarded : ∀ f ∈ c, f.Guarded d.resetVar
  denied : ∃ start, c.TakesEffect d.resetVar start ∧ (∀ l ∈ start.frame.inputLits, 0 ≤ l) ∧
    d.DeniesReset start.frame

/-- A chain that contradicts itself is not decodable. -/
theorem Contradicts.not_decodable {d : Decoder} {c : Chain} (h : d.Contradicts c) :
    ¬d.Decodable c := by
  rcases h.denied with ⟨start, heffect, -, hdenied⟩
  exact fun hdecodable => hdecodable.not_denied heffect hdenied

/-- The chains that have a program are the decodable ones. -/
theorem exists_program_iff {d : Decoder} (hreset : 0 ≤ d.resetVar) {c : Chain} :
    (∃ start p, c.startFrame d.resetVar = .ok start ∧
      Program.ofStartFrame d.placement d.nPis d.resetVar start = .ok p) ↔ d.Decodable c := by
  constructor
  · rintro ⟨start, p, hstart, hprogram⟩
    rcases Chain.startFrame_sound hreset hstart with ⟨hguarded, heffect⟩
    rcases Program.ofStartFrame_eq_ok_iff.1 hprogram with ⟨hnonneg, hdenied, -⟩
    constructor
    · rintro rfl
      contradiction
    · exact hguarded
    · intro other hother
      rwa [hother.unique heffect]
    · intro other hother
      rw [hother.unique heffect]
      exact fun h => hdenied (denying_mem_kept_iff.2 h)
  · intro h
    rcases Chain.exists_startFrame hreset h.ne_nil h.guarded with ⟨start, hstart⟩
    have heffect := (Chain.startFrame_sound hreset hstart).2
    refine ⟨start, _, hstart, Program.ofStartFrame_eq_ok_iff.2 ⟨h.nonneg heffect, ?_, rfl⟩⟩
    exact fun hmem => h.not_denied heffect (denying_mem_kept_iff.1 hmem)

/-! ## The stages of a decoding -/

section Stages

variable [Memory] {d : Decoder} {c : Chain} {start : StartFrame} {p : Program} {hasSink : Bool}
  {s s' : DecoderState} {fault : Fault}

theorem decode_of_startFrame_error (hstart : c.startFrame d.resetVar = .error fault) :
    d.decode c hasSink s = (.error fault, s) := by
  simp only [decode, hstart]

theorem decode_of_program_error (hstart : c.startFrame d.resetVar = .ok start)
    (hprogram : Program.ofStartFrame d.placement d.nPis d.resetVar start = .error fault) :
    d.decode c hasSink s = (.error fault, s) := by
  simp only [decode, hstart, extractFrom, hprogram]

/-- A program without a sink is not reported. -/
theorem decode_of_no_sink (hstart : c.startFrame d.resetVar = .ok start)
    (hprogram : Program.ofStartFrame d.placement d.nPis d.resetVar start = .ok p) :
    d.decode c false s = (.error .sinkMissing, { s with startFrame := start.index }) := by
  simp only [decode, hstart, extractFrom, hprogram, log, writeUnder, Bool.false_eq_true, if_false]

/-- A program whose start frame has no picture is not reported. -/
theorem decode_of_render_error (hstart : c.startFrame d.resetVar = .ok start)
    (hprogram : Program.ofStartFrame d.placement d.nPis d.resetVar start = .ok p)
    (hrender : d.render start.frame s = .error fault) :
    d.decode c true s = (.error fault, { s with startFrame := start.index }) := by
  rw [render] at hrender
  simp only [decode, hstart, extractFrom, hprogram, log, writeUnder, render, hrender, if_true]

/-- A program whose start frame has a picture is reported and entered. -/
theorem decode_of_render (hindexed : d.placement.Indexed)
    (hstart : c.startFrame d.resetVar = .ok start)
    (hprogram : Program.ofStartFrame d.placement d.nPis d.resetVar start = .ok p) {r : Rendering}
    (hrender : d.render start.frame s = .ok r) :
    d.decode c true s =
      (.ok p, (({ s with startFrame := start.index } : DecoderState).recorded d r p).print
        (decodedLine (s.ledger.count + 1) c.length p)) := by
  have hlog := log_of_render (s := { s with startFrame := start.index }) hindexed
    (Program.lits_nonneg hprogram) hrender
  simp only [decode, hstart, extractFrom, hprogram, hlog]
  rfl

end Stages

/-! ## Refused chains -/

/-- What a fault of a decoding tells of the chain, the sink and the room. -/
inductive Refusal [Memory] (d : Decoder) (c : Chain) (hasSink : Bool) : Fault → Prop
  | emptyChain (hnil : c = []) : Refusal d c hasSink .emptyChain
  /-- The search for reset or the extraction reaches a negative literal. -/
  | negativeLiteral (l : Int) (hreached : (¬∀ f ∈ c, f.Guarded d.resetVar) ∨
      ∃ start, c.TakesEffect d.resetVar start ∧ ¬∀ l ∈ start.frame.inputLits, 0 ≤ l) :
      Refusal d c hasSink (.negativeLiteral l)
  | resetDenied (index : Nat) (hindex : index < c.length) (hdenied : d.Contradicts c) :
      Refusal d c hasSink (.resetDenied (Literal.denying d.resetVar) index)
  | sinkMissing (hdecodable : d.Decodable c) (hsink : hasSink = false) :
      Refusal d c hasSink .sinkMissing
  /-- The picture is the last thing that can fail. -/
  | noRoom {fault : Fault} (hdecodable : d.Decodable c) (hsink : hasSink = true)
      (hroom : ¬d.placement.shape.HasRoom)
      (hfault : fault = .memory ∨ fault = .unbounded) : Refusal d c hasSink fault

/-- A start frame without a program has a negative literal, or the chain contradicts itself. -/
theorem refusal_of_program_error [Memory] {d : Decoder} (hreset : 0 ≤ d.resetVar) {c : Chain}
    {start : StartFrame} {fault : Fault} (hasSink : Bool)
    (hstart : c.startFrame d.resetVar = .ok start)
    (hprogram : Program.ofStartFrame d.placement d.nPis d.resetVar start = .error fault) :
    d.Refusal c hasSink fault := by
  rcases Chain.startFrame_sound hreset hstart with ⟨hguarded, heffect⟩
  rcases Program.ofStartFrame_eq_error hprogram with ⟨l, hl, hneg, rfl⟩ | ⟨hnonneg, hdenied, rfl⟩
  · exact .negativeLiteral l
      (Or.inr ⟨start, heffect, fun hnonneg => Int.not_le.2 hneg (hnonneg l hl)⟩)
  · exact .resetDenied start.index (List.getElem?_eq_some_iff.1 heffect.frame_eq).1
      ⟨hguarded, start, heffect, hnonneg, denying_mem_kept_iff.1 hdenied⟩

/-- A decoding in the shape of the placement succeeds for a decodable chain with a sink and with
room for the picture, or it is refused. -/
theorem decode_refusal [Memory] {d : Decoder} (hreset : 0 ≤ d.resetVar)
    (ht : d.placement.WellFormed) (hindexed : d.placement.Indexed) {s : DecoderState}
    (hshape : s.shape = d.placement.shape) (c : Chain) (hasSink : Bool) :
    (∃ p s', d.decode c hasSink s = (.ok p, s') ∧ d.Decodable c ∧ hasSink = true ∧
      d.placement.shape.HasRoom) ∨
      ∃ fault s', d.decode c hasSink s = (.error fault, s') ∧ d.Refusal c hasSink fault := by
  cases hstart : c.startFrame d.resetVar with
  | error fault =>
    refine Or.inr ⟨fault, s, decode_of_startFrame_error hstart, ?_⟩
    rcases Chain.startFrame_eq_error hreset hstart with ⟨hnil, rfl⟩ | ⟨-, hguarded, l, rfl⟩
    · exact .emptyChain hnil
    · exact .negativeLiteral l (Or.inl hguarded)
  | ok start =>
    cases hprogram : Program.ofStartFrame d.placement d.nPis d.resetVar start with
    | error fault =>
      exact Or.inr ⟨fault, s, decode_of_program_error hstart hprogram,
        refusal_of_program_error hreset hasSink hstart hprogram⟩
    | ok p =>
      have hdecodable : d.Decodable c := (exists_program_iff hreset).1 ⟨start, p, hstart, hprogram⟩
      cases hasSink with
      | false =>
        exact Or.inr ⟨_, _, decode_of_no_sink hstart hprogram, .sinkMissing hdecodable rfl⟩
      | true =>
        have hnonneg := (Program.ofStartFrame_eq_ok_iff.1 hprogram).1
        by_cases hroom : d.placement.shape.HasRoom
        · rcases (Rendering.exists_ofFrame_iff_hasRoom ht hindexed hnonneg).2 hroom with
            ⟨r, hpicture⟩
          rw [← hshape] at hpicture
          exact Or.inl ⟨p, _, decode_of_render hindexed hstart hprogram hpicture, hdecodable, rfl,
            hroom⟩
        · have hfails : d.render start.frame s = .error
              (if d.placement.totalBits < Capacity.wordBound then .memory else .unbounded) := by
            rw [render, hshape]
            exact Rendering.ofFrame_of_not_hasRoom ht hindexed hnonneg hroom
          refine Or.inr ⟨_, _, decode_of_render_error hstart hprogram hfails,
            .noRoom hdecodable rfl hroom ?_⟩
          split
          · exact Or.inl rfl
          · exact Or.inr rfl

/-- The group of a fault tells a denied reset and a picture without room from the rest. -/
theorem Refusal.kind_cases [Memory] {d : Decoder} {c : Chain} {hasSink : Bool} {fault : Fault}
    (h : d.Refusal c hasSink fault) :
    (fault.kind = .contradiction ∧ d.Contradicts c) ∨
      ((fault.kind = .outOfMemory ∨ fault.kind = .overflow) ∧ d.Decodable c ∧ hasSink = true ∧
        ¬d.placement.shape.HasRoom) ∨
      (fault.kind = .invalidValue ∧ ¬d.Contradicts c ∧ ¬(d.Decodable c ∧ hasSink = true)) := by
  cases h with
  | emptyChain hnil =>
    refine Or.inr (Or.inr ⟨rfl, ?_, fun h => h.1.ne_nil hnil⟩)
    rintro ⟨-, start, heffect, -⟩
    have hframe := heffect.frame_eq
    rw [hnil] at hframe
    contradiction
  | negativeLiteral l hreached =>
    refine Or.inr (Or.inr ⟨rfl, ?_, ?_⟩)
    · rintro ⟨hguarded, start, heffect, hnonneg, -⟩
      rcases hreached with hnot | ⟨other, hother, hnot⟩
      · exact hnot hguarded
      · rw [hother.unique heffect] at hnot
        exact hnot hnonneg
    · rintro ⟨hdecodable, -⟩
      rcases hreached with hnot | ⟨other, hother, hnot⟩
      · exact hnot hdecodable.guarded
      · exact hnot (hdecodable.nonneg hother)
  | resetDenied index hindex hdenied => exact Or.inl ⟨rfl, hdenied⟩
  | sinkMissing hdecodable hsink =>
    refine Or.inr (Or.inr ⟨rfl, fun h => h.not_decodable hdecodable, ?_⟩)
    rw [hsink]
    simp
  | noRoom hdecodable hsink hroom hfault =>
    refine Or.inr (Or.inl ⟨?_, hdecodable, hsink, hroom⟩)
    rcases hfault with rfl | rfl
    · exact Or.inl rfl
    · exact Or.inr rfl

/-- A fault of a decoding is reported as one of its group, as long as the table and the chain are no
longer than lists can be. -/
theorem Refusal.kind_reported [Memory] {d : Decoder} {c : Chain} {hasSink : Bool} {fault : Fault}
    (h : d.Refusal c hasSink fault) (htable : d.placement.length < Capacity.wordBound)
    (hchain : c.length < Capacity.wordBound) : fault.reported.kind = fault.kind := by
  cases h with
  | emptyChain hnil => exact Fault.kind_reported_of_invalidValue rfl
  | negativeLiteral l hreached => exact Fault.kind_reported_of_invalidValue rfl
  | resetDenied index hindex hdenied =>
    rcases hdenied.denied with ⟨start, -, -, hdenies⟩
    rw [Fault.reported_eq_self (hdenies.shown_isWritable htable (by omega))]
  | sinkMissing hdecodable hsink => exact Fault.kind_reported_of_invalidValue rfl
  | noRoom hdecodable hsink hroom hfault =>
    rcases hfault with rfl | rfl <;> rfl

/-- When a decoding succeeds, what its faults tell, and what it leaves when it fails. -/
structure DecodesExactly [Memory] (d : Decoder) (c : Chain) (hasSink : Bool) (s : DecoderState) :
    Prop where
  /-- Decoding succeeds exactly for a decodable chain with a sink and room for the picture. -/
  succeeds_iff : (∃ p s', d.decode c hasSink s = (.ok p, s')) ↔
    d.Decodable c ∧ hasSink = true ∧ d.placement.shape.HasRoom
  /-- A contradiction is reported exactly for a chain whose start frame denies reset. -/
  contradiction_iff : ∀ {fault s'}, d.decode c hasSink s = (.error fault, s') →
    (fault.kind = .contradiction ↔ d.Contradicts c)
  /-- The room for the picture is missed only if nothing else is. -/
  noRoom_iff : ∀ {fault s'}, d.decode c hasSink s = (.error fault, s') →
    (fault.kind = .outOfMemory ∨ fault.kind = .overflow ↔
      d.Decodable c ∧ hasSink = true ∧ ¬d.placement.shape.HasRoom)
  /-- All other faults are of invalid values. -/
  invalidValue_otherwise : ∀ {fault s'}, d.decode c hasSink s = (.error fault, s') →
    fault.kind ≠ .contradiction → fault.kind ≠ .outOfMemory → fault.kind ≠ .overflow →
      fault.kind = .invalidValue
  /-- Faults are reported as they are, unless a list is longer than lists can be. -/
  kind_reported : ∀ {fault s'}, d.decode c hasSink s = (.error fault, s') →
    d.placement.length < Capacity.wordBound → c.length < Capacity.wordBound →
      fault.reported.kind = fault.kind
  /-- A decoding that fails, in whatever shape, leaves the sink and the ledger as they were. -/
  unchanged_of_error : ∀ {shape fault s'},
    d.decode c hasSink { s with shape } = (.error fault, s') →
      s'.sink = s.sink ∧ s'.ledger = s.ledger

/-- Decoding succeeds exactly when it should, as long as there is room for the picture, and a
decoding that fails leaves no trace in the sink and the ledger. -/
theorem decode_succeeds_exactly [Memory] {entries : List (Option Int)} {instLen nInsts : Int}
    {t : Placement} {registers : RegisterTable} {nPis resetVar : Int} {d : Decoder}
    (hplacement : Placement.ofIndexes entries instLen nInsts = .ok t)
    (hdecoder : ofTables t registers nPis resetVar = .ok d) {s : DecoderState}
    (hshape : s.shape = t.shape) (c : Chain) (hasSink : Bool) : DecodesExactly d c hasSink s := by
  have ht := Placement.wellFormed_of_ofEntries hplacement
  have hindexed := Placement.indexed_of_ofIndexes hplacement
  rcases ofTables_eq_ok hdecoder with ⟨hreset, rfl⟩
  have hcases := decode_refusal (d := ⟨t, registers, nPis, resetVar⟩) hreset ht hindexed hshape c
    hasSink
  have hrefused : ∀ {fault s'}, decode ⟨t, registers, nPis, resetVar⟩ c hasSink s =
      (.error fault, s') → Refusal ⟨t, registers, nPis, resetVar⟩ c hasSink fault := by
    intro fault s' hfails
    rcases hcases with ⟨p, s₁, hdecodes, -⟩ | ⟨other, s₁, hdecodes, hrefusal⟩
    · rw [hdecodes] at hfails
      cases hfails
    · rw [hdecodes] at hfails
      cases hfails
      exact hrefusal
  constructor
  case succeeds_iff =>
    rcases hcases with ⟨p, s', hdecodes, hconditions⟩ | ⟨fault, s', hdecodes, hrefusal⟩
    · exact ⟨fun _ => hconditions, fun _ => ⟨p, s', hdecodes⟩⟩
    · constructor
      · rintro ⟨p, s₁, hsucceeds⟩
        rw [hdecodes] at hsucceeds
        cases hsucceeds
      · rintro ⟨hdecodable, hsink, hroom⟩
        rcases hrefusal.kind_cases with ⟨-, hdenied⟩ | ⟨-, -, -, hnoRoom⟩ | ⟨-, -, hnot⟩
        · exact absurd hdecodable hdenied.not_decodable
        · exact absurd hroom hnoRoom
        · exact absurd ⟨hdecodable, hsink⟩ hnot
  case contradiction_iff =>
    intro fault s' hfails
    rcases (hrefused hfails).kind_cases with
      ⟨hkind, hdenied⟩ | ⟨hkind, hdecodable, -⟩ | ⟨hkind, hnot, -⟩
    · exact iff_of_true hkind hdenied
    · refine iff_of_false ?_ fun hdenied => hdenied.not_decodable hdecodable
      rcases hkind with hkind | hkind <;> simp [hkind]
    · exact iff_of_false (by simp [hkind]) hnot
  case noRoom_iff =>
    intro fault s' hfails
    rcases (hrefused hfails).kind_cases with ⟨hkind, hdenied⟩ | ⟨hkind, hroom⟩ | ⟨hkind, -, hnot⟩
    · exact iff_of_false (by simp [hkind]) fun h => hdenied.not_decodable h.1
    · exact iff_of_true hkind hroom
    · exact iff_of_false (by simp [hkind]) fun h => hnot ⟨h.1, h.2.1⟩
  case invalidValue_otherwise =>
    intro fault s' hfails hcontradiction hmemory hoverflow
    rcases (hrefused hfails).kind_cases with ⟨hkind, -⟩ | ⟨hkind | hkind, -⟩ | ⟨hkind, -⟩
    · exact absurd hkind hcontradiction
    · exact absurd hkind hmemory
    · exact absurd hkind hoverflow
    · exact hkind
  case kind_reported => exact fun hfails => (hrefused hfails).kind_reported
  case unchanged_of_error =>
    intro shape fault s' hfails
    rcases decode_cases ⟨t, registers, nPis, resetVar⟩ hindexed c hasSink { s with shape } with
      ⟨other, index, hleaves⟩ | ⟨start, p, r, -, -, -, hdecodes⟩
    · rw [hleaves] at hfails
      cases hfails
      exact ⟨rfl, rfl⟩
    · rw [hdecodes] at hfails
      cases hfails

/-- The small chain is decodable, and its decoding succeeds; without a sink it does not. -/
theorem decode_succeeds_exactly_sample :
    DecodesExactly Decoder.sample .sample true Decoder.sample.start ∧
      DecodesExactly Decoder.sample .sample false Decoder.sample.start :=
  ⟨decode_succeeds_exactly Placement.ofIndexes_sample ofTables_sample rfl .sample true,
    decode_succeeds_exactly Placement.ofIndexes_sample ofTables_sample rfl .sample false⟩

/-- One input at the first bit of an instruction with more bits than any list has places. -/
def vast : Decoder := ⟨⟨10000000000000000000000000000000000000000, 1, [some (.whole 0)]⟩, {}, 1, 2⟩

/-- A chain that meets every condition on chains, given a sink, and is still not decoded, whatever
the memory: there is no room for the picture of its start frame. -/
theorem not_decodes_without_room :
    (Placement.ofIndexes [some 0] 10000000000000000000000000000000000000000 1 =
        .ok vast.placement ∧ ofTables vast.placement {} 1 2 = .ok vast ∧
        vast.start.shape = vast.placement.shape) ∧
      vast.Decodable [{ inputLits := [0] }] ∧
      ∀ [Memory], ¬∃ p s', vast.decode [{ inputLits := [0] }] true vast.start = (.ok p, s') := by
  have hvast : Placement.ofIndexes [some 0] 10000000000000000000000000000000000000000 1 =
      .ok vast.placement := rfl
  refine ⟨⟨hvast, rfl, rfl⟩, ?_, ?_⟩
  · exact (exists_program_iff (by decide)).1 ⟨⟨0, { inputLits := [0] }⟩, ⟨0, [0]⟩, rfl, rfl⟩
  · rintro memory ⟨p, s', hdecodes⟩
    rcases decode_cases vast (Placement.indexed_of_ofIndexes hvast) _ true vast.start with
      ⟨fault, index, hfails⟩ | ⟨start, q, r, -, -, hrender, -⟩
    · rw [hfails] at hdecodes
      cases hdecodes
    · exact absurd (Rendering.lt_wordBound_of_ofFrame hrender) (by decide)

end Decoder
end ImemReplay
