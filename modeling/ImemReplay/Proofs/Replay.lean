import ImemReplay.Proofs.KeptLiterals

/-!
# Replay of extracted programs

An extracted program stands for the frame it was taken from.  As a frame of its own it has the
picture of that frame, in whatever shape it is drawn, and it is its own program: extracting from
the chain that consists of it gives the same literals back.

Main results:

- Theorem `ofFrame_toFrame`: a program is drawn like its start frame.
- Theorem `extract_toFrame`: extracting again changes nothing but the start frame.
- Theorem `decode_eq_extract`: decoding a chain finds the program that an extraction finds.
- Theorem `extract_replays`: an extracted program replays its frame.
-/

namespace ImemReplay

namespace Program

variable {t : Placement} {nPis resetVar : Int} {start : StartFrame} {p : Program}

/-- A program has the kept literals of its start frame. -/
theorem sameKept_toFrame (h : ofStartFrame t nPis resetVar start = .ok p) :
    p.toFrame.SameKept t nPis start.frame := by
  have hlits := lits_nonneg h
  rcases ofStartFrame_eq_ok_iff.1 h with ⟨hnonneg, -, rfl⟩
  exact ⟨hlits, hnonneg, t.filter_keeps nPis start.frame.inputLits⟩

/-- A program is drawn like its start frame, and fails to be drawn in the same way. -/
theorem ofFrame_toFrame [Memory] (h : ofStartFrame t nPis resetVar start = .ok p) (shape : Shape) :
    Rendering.ofFrame t nPis shape p.toFrame = Rendering.ofFrame t nPis shape start.frame :=
  (sameKept_toFrame h).ofFrame_eq shape

/-- A program is the program of its own frame. -/
theorem ofStartFrame_toFrame (h : ofStartFrame t nPis resetVar start = .ok p) (index : Nat) :
    ofStartFrame t nPis resetVar ⟨index, p.toFrame⟩ = .ok ⟨index, p.lits⟩ := by
  have hsame := (sameKept_toFrame h).ofStartFrame_eq resetVar index
  rcases ofStartFrame_eq_ok_iff.1 h with ⟨hnonneg, hdenied, rfl⟩
  rw [hsame]
  exact ofStartFrame_eq_ok_iff.2 ⟨hnonneg, hdenied, rfl⟩

end Program

namespace Decoder

variable {d : Decoder} {chain : Chain} {s s' : DecoderState} {p : Program}

/-- Extracting from the frame of a program gives the program back. -/
theorem extract_toFrame (hreset : 0 ≤ d.resetVar) (h : d.extract chain s = (.ok p, s'))
    (s₁ : DecoderState) :
    d.extract [p.toFrame] s₁ = (.ok ⟨0, p.lits⟩, { s₁ with startFrame := 0 }) := by
  rcases extract_eq_ok h with ⟨start, -, hprogram, -⟩
  have hfound : Chain.startFrame d.resetVar [p.toFrame] = .ok ⟨0, p.toFrame⟩ :=
    Chain.startFrame_singleton hreset (Program.lits_nonneg hprogram)
  have hagain := Program.ofStartFrame_toFrame hprogram 0
  unfold extract extractFrom
  simp only [hfound, hagain]
  rfl

/-- Decoding a chain finds the program that an extraction finds, in any two states. -/
theorem decode_eq_extract [Memory] (hindexed : d.placement.Indexed)
    (h : d.extract chain s = (.ok p, s')) {hasSink : Bool} {s₁ s₂ : DecoderState} {q : Program}
    (hdecode : d.decode chain hasSink s₁ = (.ok q, s₂)) : q = p := by
  rcases extract_eq_ok h with ⟨start, hstart, hprogram, -⟩
  rcases decode_cases d hindexed chain hasSink s₁ with
    ⟨fault, index, hfails⟩ | ⟨other, found, r, hother, hfound, -, hdecodes⟩
  · rw [hfails] at hdecode
    cases hdecode
  · rw [hdecodes] at hdecode
    cases hdecode
    rw [hstart] at hother
    cases hother
    rw [hprogram] at hfound
    exact (Except.ok.inj hfound).symm

/-- A program of a chain replays a frame. -/
structure Replays [Memory] (d : Decoder) (chain : Chain) (p : Program) (f : Frame) : Prop where
  /-- The program and the frame have the same picture, or the same fault, in every shape. -/
  render_eq : ∀ s, d.render p.toFrame s = d.render f s
  /-- In the shape of the placement they have a picture if there is room for it. -/
  exists_render : ∀ {s}, s.shape = d.placement.shape →
    d.placement.shape.HasRoom →
      ∃ r, d.render p.toFrame s = .ok r ∧ d.render f s = .ok r
  /-- The program is what decoding the chain finds. -/
  decode_eq : ∀ {hasSink s s' q}, d.decode chain hasSink s = (.ok q, s') → q = p
  /-- The program is extracted from the chain that consists of it. -/
  extract_eq : ∀ s, d.extract [p.toFrame] s = (.ok ⟨0, p.lits⟩, { s with startFrame := 0 })

/-- An extracted program replays the frame of the chain that it names. -/
theorem extract_replays [Memory] {entries : List (Option Int)} {instLen nInsts : Int}
    {t : Placement} {registers : RegisterTable} {nPis resetVar : Int} {d : Decoder}
    (hplacement : Placement.ofIndexes entries instLen nInsts = .ok t)
    (hdecoder : ofTables t registers nPis resetVar = .ok d) {chain : Chain} {s s' : DecoderState}
    {p : Program} (hextract : d.extract chain s = (.ok p, s')) :
    ∃ (i : Nat) (f : Frame), p.startFrame = i ∧ chain[i]? = some f ∧ Replays d chain p f := by
  have ht := Placement.wellFormed_of_ofEntries hplacement
  have hindexed := Placement.indexed_of_ofIndexes hplacement
  rcases ofTables_eq_ok hdecoder with ⟨hreset, rfl⟩
  rcases extract_eq_ok hextract with ⟨start, hstart, hprogram, -⟩
  have hindex : p.startFrame = start.index := by
    rcases Program.ofStartFrame_eq_ok_iff.1 hprogram with ⟨-, -, rfl⟩
    rfl
  refine ⟨start.index, start.frame, hindex, Chain.getElem?_of_startFrame hstart, ?_⟩
  constructor
  case render_eq => exact fun s => Program.ofFrame_toFrame hprogram s.shape
  case exists_render =>
    intro s hshape hroom
    have hnonneg := (Program.ofStartFrame_eq_ok_iff.1 hprogram).1
    rcases (Rendering.exists_ofFrame_iff_hasRoom ht hindexed hnonneg).2 hroom with ⟨r, hpicture⟩
    rw [render, render, Program.ofFrame_toFrame hprogram, hshape]
    exact ⟨r, hpicture, hpicture⟩
  case decode_eq =>
    intro hasSink s s' q hdecode
    exact decode_eq_extract hindexed hextract hdecode
  case extract_eq => exact extract_toFrame hreset hextract

/-- The program of the small chain replays its middle frame. -/
theorem extract_replays_sample :
    Decoder.sample.extract .sample Decoder.sample.start =
      (.ok ⟨1, [4, 7, 5, 8, 4]⟩, { Decoder.sample.start with startFrame := 1 }) ∧
    ∃ (i : Nat) (f : Frame), (1 : Int) = i ∧ Chain.sample[i]? = some f ∧
      Replays Decoder.sample .sample ⟨1, [4, 7, 5, 8, 4]⟩ f := by
  refine ⟨extract_sample, ?_⟩
  exact extract_replays Placement.ofIndexes_sample ofTables_sample extract_sample

end Decoder
end ImemReplay
