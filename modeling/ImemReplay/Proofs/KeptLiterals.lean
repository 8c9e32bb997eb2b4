import ImemReplay.Proofs.Decoding

/-!
# What a decoding depends on

The report of a chain is drawn from its start frame as it stands, with all its literals, while the
ledger is given the extracted program.  Neither shows more of the frame than its kept literals:
the literals of the state, those on variables that are no declared inputs, and those on inputs
without a bit leave no trace, and of the other frames only the length of the chain is seen.

Main results:

- Theorem `ofFrame_eq`: frames with the same kept literals have the same picture.
- Theorem `ofStartFrame_eq`: they have the same program, or fail to have one in the same way.
- Theorem `decode_eq_of_sameKept`: chains that take effect from such frames are decoded alike.
- Theorem `SameSlots.ofFrame_eq` and theorem `SameSlots.ofStartFrame_eq`: pictures and programs
  depend on a placement only through the bits that it gives to literals.
-/

namespace ImemReplay

/-- Two frames have the same kept literals, and all of their input literals can be looked at. -/
structure Frame.SameKept (t : Placement) (nPis : Int) (f g : Frame) : Prop where
  nonneg_left : ∀ l ∈ f.inputLits, 0 ≤ l
  nonneg_right : ∀ l ∈ g.inputLits, 0 ≤ l
  kept_eq : f.inputLits.filter (t.keeps nPis) = g.inputLits.filter (t.keeps nPis)

namespace Frame.SameKept

variable {t : Placement} {nPis : Int} {f g : Frame}

/-! ## Pictures and programs -/

/-- A memory is painted alike by both frames. -/
theorem paint_eq (h : f.SameKept t nPis g) (cells : Array Cell) :
    Rendering.paint t nPis f.inputLits cells = Rendering.paint t nPis g.inputLits cells := by
  rw [← Rendering.paint_filter cells h.nonneg_left, ← Rendering.paint_filter cells h.nonneg_right,
    h.kept_eq]

/-- Both frames have the same picture in every shape, or fail to have one in the same way. -/
theorem ofFrame_eq [Memory] (h : f.SameKept t nPis g) (shape : Shape) :
    Rendering.ofFrame t nPis shape f = Rendering.ofFrame t nPis shape g := by
  unfold Rendering.ofFrame
  simp only [h.paint_eq]

/-- An extraction keeps the same of both frames. -/
theorem keptLits_eq (h : f.SameKept t nPis g) :
    t.keptLits nPis f.inputLits = t.keptLits nPis g.inputLits := by
  rw [t.keptLits_eq_checked, t.keptLits_eq_checked, Literal.checked_of_nonneg _ h.nonneg_left,
    Literal.checked_of_nonneg _ h.nonneg_right, h.kept_eq]

/-- Both frames have the same program under one index, or the same fault. -/
theorem ofStartFrame_eq (h : f.SameKept t nPis g) (resetVar : Int) (index : Nat) :
    Program.ofStartFrame t nPis resetVar ⟨index, f⟩ =
      Program.ofStartFrame t nPis resetVar ⟨index, g⟩ := by
  unfold Program.ofStartFrame
  rw [h.keptLits_eq]

end Frame.SameKept

namespace Placement

/-- Two placements, each with a number of declared inputs, give every literal the same bit. -/
def SameSlots (t u : Placement) (nPis nPis' : Int) : Prop :=
  ∀ l, t.slotOfLiteral? nPis l = u.slotOfLiteral? nPis' l

namespace SameSlots

variable {t u : Placement} {nPis nPis' : Int}

/-- Under both, literals are painted alike. -/
theorem paint_eq (h : SameSlots t u nPis nPis') (lits : List Int) (cells : Array Cell) :
    Rendering.paint t nPis lits cells = Rendering.paint u nPis' lits cells := by
  induction lits generalizing cells with
  | nil => rfl
  | cons l lits ih =>
    rw [Rendering.paint, Rendering.paint, h l]
    simp only [ih]

/-- A frame has the same picture under both, or fails to have one in the same way. -/
theorem ofFrame_eq [Memory] (h : SameSlots t u nPis nPis') (shape : Shape) (f : Frame) :
    Rendering.ofFrame t nPis shape f = Rendering.ofFrame u nPis' shape f := by
  unfold Rendering.ofFrame
  simp only [h.paint_eq]

/-- The same literals are kept under both. -/
theorem keptLits_eq (h : SameSlots t u nPis nPis') (lits : List Int) :
    t.keptLits nPis lits = u.keptLits nPis' lits := by
  induction lits with
  | nil => rfl
  | cons l lits ih => rw [keptLits, keptLits, h l, ih]

/-- A start frame has the same program under both, or the same fault. -/
theorem ofStartFrame_eq (h : SameSlots t u nPis nPis') (resetVar : Int) (start : StartFrame) :
    Program.ofStartFrame t nPis resetVar start = Program.ofStartFrame u nPis' resetVar start := by
  unfold Program.ofStartFrame
  rw [h.keptLits_eq]

end SameSlots

end Placement

namespace Decoder

variable {d : Decoder} {f g : Frame}

/-! ## Reports and entries -/

/-- The report of a frame shows its kept literals only. -/
theorem writeUnder_eq_of_sameKept [Memory] (h : f.SameKept d.placement d.nPis g) (seq : Int)
    (hasSink : Bool) (s : DecoderState) :
    d.writeUnder f seq hasSink s = d.writeUnder g seq hasSink s := by
  unfold writeUnder render
  rw [h.ofFrame_eq]

/-- Entering a program under the report of a frame shows the kept literals of the frame only. -/
theorem log_eq_of_sameKept [Memory] (h : f.SameKept d.placement d.nPis g) (p : Program)
    (hasSink : Bool) (s : DecoderState) : d.log f p hasSink s = d.log g p hasSink s := by
  unfold log
  rw [writeUnder_eq_of_sameKept h]

/-- The program that is extracted from a frame has its kept literals only. -/
theorem extractFrom_eq_of_sameKept (h : f.SameKept d.placement d.nPis g) (index : Nat)
    (s : DecoderState) : d.extractFrom ⟨index, f⟩ s = d.extractFrom ⟨index, g⟩ s := by
  unfold extractFrom
  rw [h.ofStartFrame_eq]

/-- Two chains of one length that take effect from the same index are decoded alike in every state,
if their frames at the index have the same kept literals: the program or the fault is the same, and
so are what is written to the sink, what is printed, the ledger and the start frame. -/
theorem decode_eq_of_sameKept [Memory] {a b : Chain} {index : Nat}
    (hlength : a.length = b.length)
    (ha : a.startFrame d.resetVar = .ok ⟨index, f⟩) (hb : b.startFrame d.resetVar = .ok ⟨index, g⟩)
    (hkept : f.SameKept d.placement d.nPis g) (hasSink : Bool) (s : DecoderState) :
    d.decode a hasSink s = d.decode b hasSink s := by
  have hextract := extractFrom_eq_of_sameKept hkept index s
  have hlog := log_eq_of_sameKept hkept
  unfold decode
  simp only [ha, hb, hextract, hlog, hlength]

end Decoder

/-- A chain that takes effect as the small one does, and has nothing else in common with it: other
literals of the state, other frames, and other inputs without bits. -/
def Chain.sampleTwin : Chain :=
  [{ stateLits := [-5], inputLits := [1, 11] }, { inputLits := [4, 7, 0, 5, 2, 8, 1000, 4] },
    { stateLits := [2, 2] }]

/-- The two small chains are decoded alike. -/
theorem Decoder.decode_eq_of_sameKept_sample :
    Chain.sample.length = Chain.sampleTwin.length ∧
      Chain.sample.startFrame 1 =
        .ok ⟨1, { stateLits := [9], inputLits := [2, 4, 7, 5, 8, 40, 4] }⟩ ∧
      Chain.sampleTwin.startFrame 1 = .ok ⟨1, { inputLits := [4, 7, 0, 5, 2, 8, 1000, 4] }⟩ ∧
      Frame.SameKept .sample 5 { stateLits := [9], inputLits := [2, 4, 7, 5, 8, 40, 4] }
        { inputLits := [4, 7, 0, 5, 2, 8, 1000, 4] } ∧
      Decoder.sample.decode .sample true Decoder.sample.start =
        Decoder.sample.decode .sampleTwin true Decoder.sample.start := by
  have hlength : Chain.sample.length = Chain.sampleTwin.length := rfl
  have hkept : Frame.SameKept .sample 5 { stateLits := [9], inputLits := [2, 4, 7, 5, 8, 40, 4] }
      { inputLits := [4, 7, 0, 5, 2, 8, 1000, 4] } := ⟨by decide, by decide, by decide⟩
  have ha : Chain.sample.startFrame 1 =
      .ok ⟨1, { stateLits := [9], inputLits := [2, 4, 7, 5, 8, 40, 4] }⟩ := rfl
  have hb : Chain.sampleTwin.startFrame 1 =
      .ok ⟨1, { inputLits := [4, 7, 0, 5, 2, 8, 1000, 4] }⟩ := rfl
  refine ⟨hlength, ha, hb, hkept, ?_⟩
  exact decode_eq_of_sameKept hlength ha hb hkept true Decoder.sample.start

end ImemReplay
