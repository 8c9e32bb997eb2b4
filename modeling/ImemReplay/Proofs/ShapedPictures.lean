import ImemReplay.Proofs.Pictures

/-!
# Pictures in any shape

The shape of the reports can be changed to any pair of numbers, while the placement keeps its own.
A shape without bits has no picture, and neither has one whose bits there is no room for.  Otherwise
the literals of a frame are painted one after the other, and the first one that offends ends the
painting: a negative literal, or a kept one whose bit lies behind the last bit of the shape.  The
rows are made behind the painting, and need room too.

Main results:

- Theorem `paint_cons_of_fits` and theorem `paint_cons_of_offends`: what one literal does.
- Theorem `paint_eq_error_iff`: painting fails at the first literal that offends.
- Theorem `ofFrame_eq_error_iff`: when a frame has no picture, and why.
- Theorem `rows_of_ofFrame`: a picture has the rows of its shape.
- Theorem `fault_in_own_shape`: what can go wrong in the shape of the placement itself.
- Theorem `renders_exactly`: rendering and writing a frame in any shape.
- Theorem `offence_unnoticed_without_room`: a literal that offends where there is no room.
-/

namespace ImemReplay
namespace Rendering

/-! ## One literal -/

/-- What is wrong with a literal for a picture of so many bits, and the fault that it leads to. -/
inductive Offends (t : Placement) (nPis totalBits l : Int) : Fault → Prop
  | negative (hneg : l < 0) : Offends t nPis totalBits l (.negativeLiteral l)
  /-- The literal is kept, and its bit lies behind the last one of the picture. -/
  | beyond {slot : Int} (hdeclared : l / 2 < nPis) (hslot : t.lookup (l / 2) = some (.whole slot))
      (hbeyond : totalBits ≤ slot) : Offends t nPis totalBits l
        (if Capacity.isIndex slot then .bitBeyondRendering else .indexSize)

/-- A literal that can be painted on a picture of so many bits. -/
structure Fits (t : Placement) (nPis totalBits l : Int) : Prop where
  nonneg : 0 ≤ l
  slot_lt : ∀ {slot}, l / 2 < nPis → t.lookup (l / 2) = some (.whole slot) → slot < totalBits

variable {t : Placement} {nPis totalBits l : Int} {fault : Fault}

/-- A negative literal is an invalid value, and a bit behind the last one is out of bounds. -/
theorem Offends.kind_cases (h : Offends t nPis totalBits l fault) :
    (l < 0 ∧ fault.kind = .invalidValue) ∨
      (0 ≤ l ∧ fault.kind = .outOfBounds ∧ fault.reported = fault) := by
  cases h with
  | negative hneg => exact Or.inl ⟨hneg, rfl⟩
  | beyond hdeclared hslot hbeyond =>
    have hinput := (Placement.input_range hslot).1
    refine Or.inr ⟨by omega, ?_⟩
    split
    · exact ⟨rfl, rfl⟩
    · exact ⟨rfl, rfl⟩

/-- So it is reported, whether or not the literal can be written. -/
theorem Offends.kind_reported (h : Offends t nPis totalBits l fault) :
    (l < 0 ∧ fault.reported.kind = .invalidValue) ∨
      (0 ≤ l ∧ fault.reported.kind = .outOfBounds) := by
  rcases h.kind_cases with ⟨hneg, hkind⟩ | ⟨hnonneg, hkind, hreported⟩
  · exact Or.inl ⟨hneg, Fault.kind_reported_of_invalidValue hkind⟩
  · exact Or.inr ⟨hnonneg, by rw [hreported, hkind]⟩

/-- A literal fits or offends. -/
theorem fits_or_offends (t : Placement) (nPis totalBits l : Int) :
    Fits t nPis totalBits l ∨ ∃ fault, Offends t nPis totalBits l fault := by
  by_cases hneg : l < 0
  · exact Or.inr ⟨_, .negative hneg⟩
  by_cases hbeyond : ∃ slot, l / 2 < nPis ∧ t.lookup (l / 2) = some (.whole slot) ∧
      totalBits ≤ slot
  · rcases hbeyond with ⟨slot, hdeclared, hslot, hbeyond⟩
    exact Or.inr ⟨_, .beyond hdeclared hslot hbeyond⟩
  · left
    refine ⟨by omega, ?_⟩
    intro slot hdeclared hslot
    exact Int.not_le.1 fun hle => hbeyond ⟨slot, hdeclared, hslot, hle⟩

/-- A literal that fits does not offend. -/
theorem Fits.not_offends (h : Fits t nPis totalBits l) : ¬Offends t nPis totalBits l fault := by
  intro hoffends
  cases hoffends with
  | negative hneg => exact absurd h.nonneg (Int.not_le.2 hneg)
  | beyond hdeclared hslot hbeyond =>
    exact absurd (h.slot_lt hdeclared hslot) (Int.not_lt.2 hbeyond)

/-- A literal that fits makes its stroke. -/
theorem paint_cons_of_fits (ht : t.WellFormed) (hindexed : t.Indexed) {cells : Array Cell}
    (h : Fits t nPis cells.size l) (lits : List Int) :
    paint t nPis (l :: lits) cells = paint t nPis lits (stroke t nPis cells l) := by
  by_cases hkeeps : t.keeps nPis l = true
  · rcases hindexed.exists_slotAt hkeeps with ⟨slot, hslot⟩
    have hlookup := hindexed.lookup_of_slotAt hslot
    have hrange : 0 ≤ slot ∧ slot < cells.size :=
      ⟨(ht.slot_range hslot).1, h.slot_lt (Placement.keeps_iff.1 hkeeps).1 hlookup⟩
    rw [paint_cons_of_slotAt lits h.nonneg hkeeps hslot hrange, stroke,
      Placement.target?_of_keeps hkeeps, hslot]
  · rw [paint_cons_of_not_keeps lits cells h.nonneg hkeeps, stroke,
      Placement.target?_of_not_keeps hkeeps]

/-- A literal that offends ends the painting. -/
theorem paint_cons_of_offends {cells : Array Cell} (h : Offends t nPis cells.size l fault)
    (lits : List Int) : paint t nPis (l :: lits) cells = .error fault := by
  cases h with
  | negative hneg => exact paint_cons_of_neg lits cells hneg
  | @beyond slot hdeclared hslot hbeyond =>
    have hnonneg : 0 ≤ l := by
      have hinput := (Placement.input_range hslot).1
      omega
    have hkeeps : t.keeps nPis l = true := Placement.keeps_iff.2 ⟨hdeclared, _, hslot⟩
    have hrange : ¬(0 ≤ slot ∧ slot < cells.size) := by omega
    rw [paint_cons_of_keeps lits cells hnonneg hkeeps hslot, assign, Number.index?_whole]
    simp only [if_neg hrange]
    rfl

/-! ## All literals -/

/-- The first literal that offends, with its fault. -/
def FirstOffence (t : Placement) (nPis totalBits : Int) (lits : List Int) (fault : Fault) : Prop :=
  ∃ front l back, lits = front ++ l :: back ∧ (∀ m ∈ front, Fits t nPis totalBits m) ∧
    Offends t nPis totalBits l fault

theorem firstOffence_cons_of_fits (h : Fits t nPis totalBits l) (lits : List Int) :
    FirstOffence t nPis totalBits (l :: lits) fault ↔ FirstOffence t nPis totalBits lits fault := by
  constructor
  · rintro ⟨front, m, back, hsplit, hfront, hoffends⟩
    cases front with
    | nil =>
      cases hsplit
      exact absurd hoffends h.not_offends
    | cons k front =>
      cases hsplit
      exact ⟨front, m, back, rfl, (List.forall_mem_cons.1 hfront).2, hoffends⟩
  · rintro ⟨front, m, back, rfl, hfront, hoffends⟩
    exact ⟨l :: front, m, back, rfl, List.forall_mem_cons.2 ⟨h, hfront⟩, hoffends⟩

/-- Painting fails exactly at the first literal that offends. -/
theorem paint_eq_error_iff (ht : t.WellFormed) (hindexed : t.Indexed) {lits : List Int}
    {cells : Array Cell} :
    paint t nPis lits cells = .error fault ↔ FirstOffence t nPis cells.size lits fault := by
  induction lits generalizing cells with
  | nil =>
    constructor
    · intro h
      cases h
    · rintro ⟨front, l, back, hsplit, -⟩
      exact absurd hsplit (by simp)
  | cons l lits ih =>
    rcases fits_or_offends t nPis cells.size l with hfits | ⟨other, hoffends⟩
    · rw [paint_cons_of_fits ht hindexed hfits, firstOffence_cons_of_fits hfits, ih, size_stroke]
    · rw [paint_cons_of_offends hoffends]
      constructor
      · intro h
        cases h
        exact ⟨[], l, lits, rfl, by simp, hoffends⟩
      · rintro ⟨front, m, back, hsplit, hfront, hfails⟩
        cases front with
        | nil =>
          cases hsplit
          rw [← paint_cons_of_offends hoffends lits, paint_cons_of_offends hfails lits]
        | cons k front =>
          cases hsplit
          exact absurd hoffends (List.forall_mem_cons.1 hfront).1.not_offends

/-- Literals that fit can all be painted. -/
theorem exists_paint_of_fits (ht : t.WellFormed) (hindexed : t.Indexed) {lits : List Int}
    {cells : Array Cell} (h : ∀ l ∈ lits, Fits t nPis cells.size l) :
    ∃ painted, paint t nPis lits cells = .ok painted := by
  cases hpaint : paint t nPis lits cells with
  | ok painted => exact ⟨painted, rfl⟩
  | error fault =>
    rcases (paint_eq_error_iff ht hindexed).1 hpaint with ⟨front, l, back, rfl, -, hoffends⟩
    have hl : l ∈ front ++ l :: back := List.mem_append_right front List.mem_cons_self
    exact absurd hoffends (h l hl).not_offends

/-- Literals can all be painted, or one of them is the first that offends. -/
theorem fits_or_firstOffence (t : Placement) (nPis totalBits : Int) (lits : List Int) :
    (∀ l ∈ lits, Fits t nPis totalBits l) ∨ ∃ fault, FirstOffence t nPis totalBits lits fault := by
  induction lits with
  | nil => exact Or.inl (List.forall_mem_nil _)
  | cons l lits ih =>
    rcases fits_or_offends t nPis totalBits l with hfits | ⟨fault, hoffends⟩
    · rcases ih with hrest | ⟨fault, hfirst⟩
      · exact Or.inl (List.forall_mem_cons.2 ⟨hfits, hrest⟩)
      · exact Or.inr ⟨fault, (firstOffence_cons_of_fits hfits lits).2 hfirst⟩
    · exact Or.inr ⟨fault, [], l, lits, rfl, List.forall_mem_nil _, hoffends⟩

/-- The first literal that offends is no matter of bits or of room. -/
theorem FirstOffence.kind_cases {lits : List Int} (h : FirstOffence t nPis totalBits lits fault) :
    (fault.kind = .invalidValue ∧ ∀ total, fault ≠ .emptyRendering total) ∨
      fault.kind = .outOfBounds := by
  rcases h with ⟨front, l, back, -, -, hoffends⟩
  rcases hoffends.kind_cases with ⟨hneg, hkind⟩ | ⟨-, hkind, -⟩
  · cases hoffends with
    | negative _ => exact Or.inl ⟨rfl, by simp⟩
    | beyond hdeclared hslot hbeyond => exact absurd (Placement.input_range hslot).1 (by omega)
  · exact Or.inr hkind

/-! ## Pictures -/

variable {shape : Shape} {f : Frame}

/-- The blank memory of a shape has its bits. -/
theorem size_blank_eq (hbits : 0 < shape.totalBits) :
    ((blank shape).size : Int) = shape.totalBits := by
  rw [size_blank]
  exact Int.toNat_of_nonneg (Int.le_of_lt hbits)

/-- The rows of a shape with bits, under a view: none, if the number of instructions is negative,
and otherwise one for each instruction, as long as an instruction. -/
theorem rowsOf_shape (view : Cell → Char) {cells : Array Cell} (hbits : 0 < shape.totalBits)
    (hsize : cells.size = (blank shape).size) :
    ((rowsOf view shape cells).length : Int) = max shape.nInsts 0 ∧
      ∀ row ∈ rowsOf view shape cells, (row.length : Int) = shape.instLen := by
  refine ⟨by rw [length_rowsOf]; omega, ?_⟩
  intro row hrow
  -- A row shows that there is an instruction, so both numbers of the shape are positive.
  have hinsts : 0 < shape.nInsts := by
    have hlength := List.length_pos_of_mem hrow
    rw [length_rowsOf] at hlength
    omega
  have hlen : 0 < shape.instLen := Int.pos_of_mul_pos_left hbits hinsts
  rw [size_blank_eq_mul shape hlen hinsts] at hsize
  rw [length_of_mem_rowsOf view hsize row hrow]
  exact Int.toNat_of_nonneg (Int.le_of_lt hlen)

section Room

variable [Memory]

/-- Why a frame has no picture in a shape. -/
inductive Refusal (t : Placement) (nPis : Int) (shape : Shape) (f : Frame) : Fault → Prop
  | noBits (hbits : shape.totalBits ≤ 0) :
      Refusal t nPis shape f (.emptyRendering shape.totalBits)
  /-- The literals are not looked at if there is no room for the bits. -/
  | noBuffers (hbits : 0 < shape.totalBits) (hbuffers : ¬shape.HasBuffers) :
      Refusal t nPis shape f
        (if shape.totalBits < Capacity.wordBound then .memory else .unbounded)
  | offence {fault : Fault} (hbits : 0 < shape.totalBits) (hbuffers : shape.HasBuffers)
      (hfirst : FirstOffence t nPis shape.totalBits f.inputLits fault) :
      Refusal t nPis shape f fault
  /-- The literals were painted if there is room for the bits, but not for the rows. -/
  | noRows (hbits : 0 < shape.totalBits) (hbuffers : shape.HasBuffers) (hroom : ¬shape.HasRoom)
      (hfits : ∀ l ∈ f.inputLits, Fits t nPis shape.totalBits l) :
      Refusal t nPis shape f .memory

theorem ofFrame_of_no_bits (f : Frame) (hbits : shape.totalBits ≤ 0) :
    ofFrame t nPis shape f = .error (.emptyRendering shape.totalBits) :=
  if_pos hbits

/-- With room for the bits, the first literal that offends is the fault. -/
theorem ofFrame_of_firstOffence (ht : t.WellFormed) (hindexed : t.Indexed)
    (hbits : 0 < shape.totalBits) (hbuffers : shape.HasBuffers)
    (hfirst : FirstOffence t nPis shape.totalBits f.inputLits fault) :
    ofFrame t nPis shape f = .error fault := by
  rw [← size_blank_eq hbits, ← paint_eq_error_iff ht hindexed] at hfirst
  rw [ofFrame_of_hasBuffers f hbits hbuffers, hfirst]
  rfl

/-- With room for the bits, literals that fit are painted, and then there is a picture exactly if
there is room for the rows too. -/
theorem ofFrame_of_fits (ht : t.WellFormed) (hindexed : t.Indexed) (hbits : 0 < shape.totalBits)
    (hbuffers : shape.HasBuffers) (hfits : ∀ l ∈ f.inputLits, Fits t nPis shape.totalBits l) :
    (shape.HasRoom ∧ ∃ r, ofFrame t nPis shape f = .ok r) ∨
      (¬shape.HasRoom ∧ ofFrame t nPis shape f = .error .memory) := by
  rw [← size_blank_eq hbits] at hfits
  rcases exists_paint_of_fits ht hindexed hfits with ⟨cells, hpaint⟩
  rw [ofFrame_of_hasBuffers f hbits hbuffers, hpaint]
  by_cases hroom : shape.HasRoom
  · refine Or.inl ⟨hroom, ⟨wordsOf shape cells⟩, ?_⟩
    rw [Except.bind, (demand_rows_iff hbits).2 hroom]
    rfl
  · refine Or.inr ⟨hroom, ?_⟩
    rw [Except.bind, demand_rows_of_not_hasRoom hbits hbuffers hroom]
    rfl

/-- A frame has no picture for want of bits, for want of room for them, for the first literal that
offends, or for want of room for the rows. -/
theorem ofFrame_eq_error_iff (ht : t.WellFormed) (hindexed : t.Indexed) :
    ofFrame t nPis shape f = .error fault ↔ Refusal t nPis shape f fault := by
  constructor
  · intro h
    by_cases hbits : shape.totalBits ≤ 0
    · rw [ofFrame_of_no_bits f hbits] at h
      cases h
      exact .noBits hbits
    have hpos : 0 < shape.totalBits := Int.not_le.1 hbits
    by_cases hbuffers : shape.HasBuffers
    · rcases fits_or_firstOffence t nPis shape.totalBits f.inputLits with hfits | ⟨other, hfirst⟩
      · rcases ofFrame_of_fits ht hindexed hpos hbuffers hfits with ⟨-, r, hpicture⟩ |
          ⟨hroom, hfails⟩
        · rw [hpicture] at h
          contradiction
        · rw [hfails] at h
          cases h
          exact .noRows hpos hbuffers hroom hfits
      · rw [ofFrame_of_firstOffence ht hindexed hpos hbuffers hfirst] at h
        cases h
        exact .offence hpos hbuffers hfirst
    · rw [ofFrame_of_not_hasBuffers f hpos hbuffers] at h
      cases h
      exact .noBuffers hpos hbuffers
  · intro h
    cases h with
    | noBits hbits => exact ofFrame_of_no_bits f hbits
    | noBuffers hbits hbuffers => exact ofFrame_of_not_hasBuffers f hbits hbuffers
    | offence hbits hbuffers hfirst =>
      exact ofFrame_of_firstOffence ht hindexed hbits hbuffers hfirst
    | noRows hbits hbuffers hroom hfits =>
      rcases ofFrame_of_fits ht hindexed hbits hbuffers hfits with ⟨hfound, -⟩ | ⟨-, hfails⟩
      · exact absurd hfound hroom
      · exact hfails

/-- A frame has a picture exactly if the shape has bits, there is room for the picture, and all
input literals of the frame fit. -/
theorem exists_ofFrame_iff_fits (ht : t.WellFormed) (hindexed : t.Indexed) :
    (∃ r, ofFrame t nPis shape f = .ok r) ↔
      0 < shape.totalBits ∧ shape.HasRoom ∧ ∀ l ∈ f.inputLits, Fits t nPis shape.totalBits l := by
  constructor
  · rintro ⟨r, hpicture⟩
    rcases ofFrame_eq_ok_iff.1 hpicture with ⟨⟨hbits, hroom⟩, hnonneg, htargets, -⟩
    refine ⟨hbits, hroom, ?_⟩
    intro l hl
    refine ⟨hnonneg l hl, ?_⟩
    intro slot hdeclared hslot
    rcases htargets l hl (Placement.keeps_iff.2 ⟨hdeclared, _, hslot⟩) with
      ⟨other, htarget, -, hother⟩
    rw [hindexed.target?_eq_some_iff, hslot, Option.some.injEq, Number.whole.injEq] at htarget
    rwa [htarget.2]
  · rintro ⟨hbits, hroom, hfits⟩
    rcases ofFrame_of_fits ht hindexed hbits (hasBuffers_of_hasRoom hroom) hfits with
      ⟨-, hpicture⟩ | ⟨hno, -⟩
    · exact hpicture
    · exact absurd hroom hno

/-- A picture has the rows of its shape in both views. -/
theorem rows_of_ofFrame {r : Rendering} (h : ofFrame t nPis shape f = .ok r) :
    ∀ rows ∈ [r.concrete, r.generalized], (rows.length : Int) = max shape.nInsts 0 ∧
      ∀ row ∈ rows, (row.length : Int) = shape.instLen := by
  rcases ofFrame_eq_ok_iff.1 h with ⟨⟨hbits, -⟩, -, -, rfl⟩
  have hsize := size_strokes t nPis f.inputLits (blank shape)
  simp only [List.forall_mem_cons, List.not_mem_nil, false_implies, implies_true, and_true]
  exact ⟨rowsOf_shape Cell.concrete hbits hsize, rowsOf_shape Cell.generalized hbits hsize⟩

/-- The number of bits is wrong only in a shape without bits. -/
theorem Refusal.totalBits_le (h : Refusal t nPis shape f fault) {total : Int}
    (hfault : fault = .emptyRendering total) : shape.totalBits ≤ 0 := by
  cases h with
  | noBits hbits => exact hbits
  | noBuffers hbits hbuffers => split at hfault <;> contradiction
  | offence hbits hbuffers hfirst =>
    rcases hfirst.kind_cases with ⟨-, hne⟩ | hkind
    · exact absurd hfault (hne total)
    · rw [hfault] at hkind
      contradiction
  | noRows hbits hbuffers hroom hfits => contradiction

/-- No frame is refused for a contradiction. -/
theorem Refusal.kind_ne_contradiction (h : Refusal t nPis shape f fault) :
    fault.kind ≠ .contradiction := by
  cases h with
  | noBits hbits => simp [Fault.kind]
  | noBuffers hbits hbuffers => split <;> decide
  | offence hbits hbuffers hfirst =>
    rcases hfirst.kind_cases with ⟨hkind, -⟩ | hkind
    · simp [hkind]
    · simp [hkind]
  | noRows hbits hbuffers hroom hfits => decide

/-- There is a want of room before the literals are looked at, or behind literals that fit. -/
theorem Refusal.room_cases (h : Refusal t nPis shape f fault)
    (hfault : fault = .memory ∨ fault = .unbounded) :
    0 < shape.totalBits ∧ (¬shape.HasBuffers ∨
      ¬shape.HasRoom ∧ ∀ l ∈ f.inputLits, Fits t nPis shape.totalBits l) := by
  cases h with
  | noBits hbits => rcases hfault with hfault | hfault <;> contradiction
  | noBuffers hbits hbuffers => exact ⟨hbits, Or.inl hbuffers⟩
  | offence hbits hbuffers hfirst =>
    rcases hfirst.kind_cases with ⟨hkind, -⟩ | hkind
    · rcases hfault with rfl | rfl <;> contradiction
    · rcases hfault with rfl | rfl <;> contradiction
  | noRows hbits hbuffers hroom hfits => exact ⟨hbits, Or.inr ⟨hroom, hfits⟩⟩

/-- Where there is a want of room, that is the fault. -/
theorem Refusal.of_no_room (hbits : 0 < shape.totalBits) (h : ¬shape.HasBuffers ∨
      ¬shape.HasRoom ∧ ∀ l ∈ f.inputLits, Fits t nPis shape.totalBits l) :
    Refusal t nPis shape f .memory ∨ Refusal t nPis shape f .unbounded := by
  by_cases hbuffers : shape.HasBuffers
  · rcases h with hno | ⟨hroom, hfits⟩
    · exact absurd hbuffers hno
    · exact Or.inl (.noRows hbits hbuffers hroom hfits)
  · have hrefusal : Refusal t nPis shape f
        (if shape.totalBits < Capacity.wordBound then .memory else .unbounded) :=
      .noBuffers hbits hbuffers
    split at hrefusal
    · exact Or.inl hrefusal
    · exact Or.inr hrefusal

/-- With room for the bits, a frame has no picture for the first literal that offends, or for want
of room for the rows. -/
theorem ofFrame_eq_error_iff_of_hasBuffers (ht : t.WellFormed) (hindexed : t.Indexed)
    (hbits : 0 < shape.totalBits) (hbuffers : shape.HasBuffers) :
    ofFrame t nPis shape f = .error fault ↔
      FirstOffence t nPis shape.totalBits f.inputLits fault ∨
        (fault = .memory ∧ ¬shape.HasRoom ∧
          ∀ l ∈ f.inputLits, Fits t nPis shape.totalBits l) := by
  rw [ofFrame_eq_error_iff ht hindexed]
  constructor
  · intro h
    cases h with
    | noBits hno => exact absurd hbits (Int.not_lt.2 hno)
    | noBuffers _ hno => exact absurd hbuffers hno
    | offence _ _ hfirst => exact Or.inl hfirst
    | noRows _ _ hroom hfits => exact Or.inr ⟨rfl, hroom, hfits⟩
  · rintro (hfirst | ⟨rfl, hroom, hfits⟩)
    · exact .offence hbits hbuffers hfirst
    · exact .noRows hbits hbuffers hroom hfits

/-- In the shape of the placement every bit of an input is one of the picture, so only a negative
literal offends. -/
theorem fault_in_own_shape (ht : t.WellFormed) (hindexed : t.Indexed)
    (h : ofFrame t nPis t.shape f = .error fault) :
    (∃ l ∈ f.inputLits, l < 0 ∧ fault = .negativeLiteral l) ∨ fault = .memory ∨
      fault = .unbounded := by
  have hpos : 0 < t.shape.totalBits := Int.mul_pos ht.instLen_pos ht.nInsts_pos
  cases (ofFrame_eq_error_iff ht hindexed).1 h with
  | noBits hbits => exact absurd hpos (Int.not_lt.2 hbits)
  | noBuffers hbits hbuffers =>
    right
    split
    · exact Or.inl rfl
    · exact Or.inr rfl
  | noRows hbits hbuffers hroom hfits => exact Or.inr (Or.inl rfl)
  | offence hbits hbuffers hfirst =>
    rcases hfirst with ⟨front, l, back, hsplit, -, hoffends⟩
    cases hoffends with
    | negative hneg =>
      refine Or.inl ⟨l, ?_, hneg, rfl⟩
      rw [hsplit]
      exact List.mem_append_right front List.mem_cons_self
    | beyond hdeclared hslot hbeyond =>
      have hrange := ht.slot_range (hindexed.slotAt?_eq_some_iff.2 hslot)
      exact absurd hrange.2 (Int.not_lt.2 hbeyond)

end Room

end Rendering

namespace Decoder

open Rendering

/-- A frame is not written to a sink exactly if it is not rendered, or if the number of its report
cannot be written; nothing is written then. -/
theorem write_eq_error_iff [Memory] {d : Decoder} {f : Frame} {seq : Int} {s s' : DecoderState}
    {fault : Fault} :
    d.write f seq true s = (.error fault, s') ↔ s' = s ∧ (d.render f s = .error fault ∨
      (∃ r, d.render f s = .ok r) ∧ Text.isWritable seq = false ∧ fault = .integerSize) := by
  unfold write writeUnder
  simp only [if_true]
  cases d.render f s with
  | error other =>
    simp only [Prod.mk.injEq, Except.error.injEq, reduceCtorEq, exists_false, false_and, or_false]
    exact ⟨fun h => ⟨h.2.symm, h.1⟩, fun h => ⟨h.2, h.1.symm⟩⟩
  | ok r =>
    cases Text.isWritable seq with
    | true => simp
    | false =>
      simp only [Bool.false_eq_true, if_false, Prod.mk.injEq, Except.error.injEq, reduceCtorEq,
        Except.ok.injEq, exists_eq', true_and, false_or]
      exact ⟨fun h => ⟨h.2.symm, h.1.symm⟩, fun h => ⟨h.2.symm, h.1.symm⟩⟩

/-- How a frame is rendered, and written to a sink, when the reports have been given a shape. -/
structure RendersExactly [Memory] (d : Decoder) (shape : Shape) (f : Frame) (s : DecoderState) :
    Prop where
  /-- The number of bits is what is wrong exactly if it is not positive. -/
  noBits_iff : d.render f { s with shape } = .error (.emptyRendering shape.totalBits) ↔
    shape.instLen * shape.nInsts ≤ 0
  /-- That is an invalid value, and its text shows the number, unless it has too many digits. -/
  noBits_reported : (Fault.emptyRendering shape.totalBits).reported.kind = .invalidValue ∧
    (Text.isWritable shape.totalBits = true →
      (Fault.emptyRendering shape.totalBits).reported.message? =
        s!"total_bits must be positive, got {shape.totalBits}")
  /-- There is no room exactly if there is none for the bits, whatever the literals are, or none for
  the rows of literals that fit. -/
  noRoom_iff : (d.render f { s with shape } = .error .memory ∨
    d.render f { s with shape } = .error .unbounded) ↔ 0 < shape.totalBits ∧ (¬shape.HasBuffers ∨
      ¬shape.HasRoom ∧ ∀ l ∈ f.inputLits, Fits d.placement d.nPis shape.totalBits l)
  /-- With bits and with room for them, the first literal that offends is the fault, and there is no
  other one than a want of room for the rows. -/
  offence_iff : 0 < shape.totalBits → shape.HasBuffers → ∀ {fault},
    (d.render f { s with shape } = .error fault ↔
      FirstOffence d.placement d.nPis shape.totalBits f.inputLits fault ∨
        (fault = .memory ∧ ¬shape.HasRoom ∧
          ∀ l ∈ f.inputLits, Fits d.placement d.nPis shape.totalBits l))
  /-- A negative literal is an invalid value, and a bit behind the last one is out of bounds. -/
  kind_of_offence : ∀ {l fault}, Offends d.placement d.nPis shape.totalBits l fault →
    (l < 0 ∧ fault.reported.kind = .invalidValue) ∨
      (0 ≤ l ∧ fault.reported.kind = .outOfBounds)
  /-- With bits, with room, and without such a literal there is a picture. -/
  succeeds_iff : (∃ r, d.render f { s with shape } = .ok r) ↔
    0 < shape.totalBits ∧ shape.HasRoom ∧
      ∀ l ∈ f.inputLits, Fits d.placement d.nPis shape.totalBits l
  /-- Both views of it have the rows of the shape. -/
  rows_of_picture : ∀ {r}, d.render f { s with shape } = .ok r →
    ∀ rows ∈ [r.concrete, r.generalized], (rows.length : Int) = max shape.nInsts 0 ∧
      ∀ row ∈ rows, (row.length : Int) = shape.instLen
  /-- Writing fails in the same way, or for a number with too many digits; it has written nothing
  then. -/
  write_fails_iff : ∀ {seq fault s'}, d.write f seq true { s with shape } = (.error fault, s') ↔
    s' = { s with shape } ∧ (d.render f { s with shape } = .error fault ∨
      (∃ r, d.render f { s with shape } = .ok r) ∧ Text.isWritable seq = false ∧
        fault = .integerSize)
  /-- In the shape that reports have from the start, the number of bits is never wrong, and no
  index is out of bounds. -/
  fault_in_first_shape : ∀ {fault}, d.render f { s with shape := d.start.shape } = .error fault →
    (∀ totalBits, fault ≠ .emptyRendering totalBits) ∧ fault.reported.kind ≠ .outOfBounds

/-- Rendering fails for a shape without bits or without room, and otherwise exactly at the first
literal that is negative or kept with a bit behind the last one; writing fails with it. -/
theorem renders_exactly [Memory] {entries : List (Option Int)} {instLen nInsts : Int} {d : Decoder}
    (hplacement : Placement.ofIndexes entries instLen nInsts = .ok d.placement) (shape : Shape)
    (f : Frame) (s : DecoderState) : RendersExactly d shape f s := by
  have ht := Placement.wellFormed_of_ofEntries hplacement
  have hindexed := Placement.indexed_of_ofIndexes hplacement
  constructor
  case noBits_iff =>
    constructor
    · intro h
      exact ((ofFrame_eq_error_iff ht hindexed).1 h).totalBits_le rfl
    · exact ofFrame_of_no_bits f
  case noBits_reported =>
    refine ⟨Fault.kind_reported_of_invalidValue rfl, ?_⟩
    intro hwritable
    rw [Fault.reported_eq_self (by simp [Fault.shown, hwritable])]
    rfl
  case noRoom_iff =>
    constructor
    · rintro (h | h)
      · exact ((ofFrame_eq_error_iff ht hindexed).1 h).room_cases (Or.inl rfl)
      · exact ((ofFrame_eq_error_iff ht hindexed).1 h).room_cases (Or.inr rfl)
    · rintro ⟨hbits, hroom⟩
      rcases Refusal.of_no_room hbits hroom with hrefusal | hrefusal
      · exact Or.inl ((ofFrame_eq_error_iff ht hindexed).2 hrefusal)
      · exact Or.inr ((ofFrame_eq_error_iff ht hindexed).2 hrefusal)
  case offence_iff =>
    intro hbits hbuffers fault
    exact ofFrame_eq_error_iff_of_hasBuffers ht hindexed hbits hbuffers
  case kind_of_offence => exact fun hoffends => hoffends.kind_reported
  case succeeds_iff => exact exists_ofFrame_iff_fits ht hindexed
  case rows_of_picture => exact rows_of_ofFrame
  case write_fails_iff => exact write_eq_error_iff
  case fault_in_first_shape =>
    intro fault hfails
    rcases fault_in_own_shape ht hindexed hfails with ⟨l, -, -, rfl⟩ | rfl | rfl
    · refine ⟨by simp, ?_⟩
      rw [Fault.kind_reported_of_invalidValue rfl]
      decide
    · exact ⟨by simp, by decide⟩
    · exact ⟨by simp, by decide⟩

/-- In one instruction of the small placement the bit of input 3 is missing, and the literal on it
comes before the negative one; in a shape of two negative numbers both literals on inputs fit, and
the picture has no rows. -/
theorem renders_exactly_sample :
    Placement.ofIndexes [none, none, some 0, some 3, some 1] 2 2 = .ok sample.placement ∧
      sample.render { inputLits := [4, 2, 7, -1] } { sample.start with shape := ⟨2, 1⟩ } =
        .error .bitBeyondRendering ∧
      RendersExactly sample ⟨2, 1⟩ { inputLits := [4, 2, 7, -1] } sample.start ∧
      sample.render { inputLits := [4, 7] } { sample.start with shape := ⟨-1, -4⟩ } = .ok ⟨[]⟩ ∧
      RendersExactly sample ⟨-1, -4⟩ { inputLits := [4, 7] } sample.start :=
  ⟨rfl, rfl, renders_exactly Placement.ofIndexes_sample _ _ _, rfl,
    renders_exactly Placement.ofIndexes_sample _ _ _⟩

/-- A shape with bits, and a frame whose first literal is negative; and yet the fault is not that of
the literal, since no memory has room for the bits. -/
theorem offence_unnoticed_without_room :
    Placement.ofIndexes [none, none, some 0, some 3, some 1] 2 2 = .ok sample.placement ∧
      (0 : Int) < 10000000000000000000000000000000000000000 * 1 ∧
      Offends sample.placement sample.nPis (10000000000000000000000000000000000000000 * 1) (-1)
        (.negativeLiteral (-1)) ∧
      (∀ [Memory], sample.render { inputLits := [-1] }
          { sample.start with shape := ⟨10000000000000000000000000000000000000000, 1⟩ } =
        .error .unbounded) ∧
      Fault.unbounded.reported.kind ≠ .invalidValue :=
  ⟨rfl, by decide, .negative (by decide), fun {_} => rfl, by decide⟩

end Decoder
end ImemReplay
