import Mathlib.Data.Finset.Card
import Mathlib.Data.Finset.Image
import ImemReplay.Session
import ImemReplay.Proofs.Decodability
import ImemReplay.Proofs.ShapedPictures

/-!
# Decoding the toy chain

The toy chain is made of the two smallest declared inputs other than reset, and there is none if
fewer than two are declared, or if there is no room for the list of them.  Reset is asserted in its
middle frame only, whatever the variable of reset is, so the chain takes effect from that frame; and
since the second input is not reset, no frame that asserts reset denies it.

Main results:

- Theorem `toyInputs_cases`: the inputs of the toy chain are the two smallest.
- Theorem `toyChain_cases`: the toy chain of a design, or why there is none.
- Theorem `startFrame_toyFrames`: the toy chain takes effect from its middle frame.
- Theorem `decode_toyFrames_cases`: how the decoding of the toy chain ends in any state.
- Theorem `toy_decodes_from_one`: the toy chain of every design is decoded from frame 1.
- Theorem `toy_not_decoded_without_room`: a toy chain without room for the picture of its frame.
-/

namespace ImemReplay

/-! ## The two smallest inputs -/

/-- The declared inputs other than reset. -/
def otherInputs (nPis resetVar : Int) : Finset Int :=
  ((Finset.range nPis.toNat).image Int.ofNat).erase resetVar

theorem mem_otherInputs {nPis resetVar input : Int} :
    input ∈ otherInputs nPis resetVar ↔ input ≠ resetVar ∧ 0 ≤ input ∧ input < nPis := by
  rw [otherInputs, Finset.mem_erase, Finset.mem_image]
  refine and_congr_right fun _ => ?_
  constructor
  · rintro ⟨n, hn, rfl⟩
    have hlt := Finset.mem_range.1 hn
    exact ⟨Int.natCast_nonneg n, Int.lt_of_toNat_lt hlt⟩
  · rintro ⟨hnonneg, hdeclared⟩
    exact ⟨input.toNat, Finset.mem_range.2 (by omega), Int.toNat_of_nonneg hnonneg⟩

/-- The two smallest declared inputs other than reset. -/
structure FirstInputs (nPis resetVar first second : Int) : Prop where
  first_mem : first ∈ otherInputs nPis resetVar
  second_mem : second ∈ otherInputs nPis resetVar
  lt : first < second
  smallest : ∀ input ∈ otherInputs nPis resetVar, input = first ∨ second ≤ input

theorem mem_toyInputs {nPis resetVar input : Int} :
    input ∈ toyInputs nPis resetVar ↔ input ∈ otherInputs nPis resetVar := by
  simp only [toyInputs, List.mem_filter, List.mem_map, List.mem_range, decide_eq_true_eq,
    otherInputs, Finset.mem_erase, Finset.mem_image, Finset.mem_range, and_comm]

theorem pairwise_toyInputs (nPis resetVar : Int) :
    (toyInputs nPis resetVar).Pairwise (· < ·) := by
  apply List.Pairwise.filter
  rw [List.pairwise_map]
  exact List.pairwise_lt_range.imp Int.ofNat_lt.2

theorem length_toyInputs (nPis resetVar : Int) :
    (toyInputs nPis resetVar).length = (otherInputs nPis resetVar).card := by
  have hnodup : (toyInputs nPis resetVar).Nodup :=
    (pairwise_toyInputs nPis resetVar).imp Int.ne_of_lt
  rw [← List.toFinset_card_of_nodup hnodup]
  congr 1
  ext input
  rw [List.mem_toFinset, mem_toyInputs]

/-- The size of their list, if there are any declared inputs. -/
theorem toyCount_eq {nPis : Int} (resetVar : Int) (hnPis : 0 ≤ nPis) :
    toyCount nPis resetVar = (otherInputs nPis resetVar).card := by
  have hinjective : Function.Injective Int.ofNat := fun _ _ => Int.ofNat.inj
  have hdeclared : resetVar ∈ (Finset.range nPis.toNat).image Int.ofNat ↔
      0 ≤ resetVar ∧ resetVar < nPis := by
    simp only [Finset.mem_image, Finset.mem_range]
    constructor
    · rintro ⟨n, hn, rfl⟩
      exact ⟨Int.natCast_nonneg n, Int.lt_of_toNat_lt hn⟩
    · rintro ⟨hnonneg, hlt⟩
      exact ⟨resetVar.toNat, by omega, Int.toNat_of_nonneg hnonneg⟩
  rw [toyCount, otherInputs, Finset.card_erase_eq_ite, Finset.card_image_of_injective _ hinjective,
    Finset.card_range]
  simp only [hdeclared]
  split <;> omega

/-- There is room for the list of the declared inputs other than reset. -/
theorem holds_toyCount_iff [Memory] (nPis resetVar : Int) :
    Memory.holds [toyCount nPis resetVar] = true ↔
      Memory.holds [((otherInputs nPis resetVar).card : Int)] = true := by
  by_cases hnPis : 0 ≤ nPis
  · rw [toyCount_eq resetVar hnPis]
  · -- Without declared inputs the list is empty, and needs no room.
    have hcard : (otherInputs nPis resetVar).card = 0 := by
      rw [← length_toyInputs, toyInputs, Int.toNat_of_nonpos (by omega)]
      rfl
    have hcount : toyCount nPis resetVar ≤ 0 := by
      unfold toyCount
      split <;> omega
    exact iff_of_true (Memory.holds_of_nonpos (by simpa using hcount))
      (Memory.holds_of_nonpos (by simp [hcard]))

/-- The first two inputs of the toy chain are the two smallest; if there are not two, then fewer
than two inputs are declared. -/
theorem toyInputs_cases (nPis resetVar : Int) :
    (∃ first second rest, toyInputs nPis resetVar = first :: second :: rest ∧
        FirstInputs nPis resetVar first second ∧ 2 ≤ (otherInputs nPis resetVar).card) ∨
      ((toyInputs nPis resetVar).length < 2 ∧ (otherInputs nPis resetVar).card < 2) := by
  have hsorted := pairwise_toyInputs nPis resetVar
  have hlength := length_toyInputs nPis resetVar
  have hmem (input : Int) := @mem_toyInputs nPis resetVar input
  rcases hinputs : toyInputs nPis resetVar with _ | ⟨first, _ | ⟨second, rest⟩⟩
  · rw [hinputs] at hlength
    exact Or.inr ⟨by simp, by simp [← hlength]⟩
  · rw [hinputs] at hlength
    exact Or.inr ⟨by simp, by simp [← hlength]⟩
  · rw [hinputs] at hsorted hlength hmem
    refine Or.inl ⟨first, second, rest, rfl, ⟨?_, ?_, ?_, ?_⟩, by simp [← hlength]⟩
    · exact (hmem first).1 List.mem_cons_self
    · exact (hmem second).1 (by simp)
    · exact List.rel_of_pairwise_cons hsorted List.mem_cons_self
    · intro input hinput
      rcases List.mem_cons.1 ((hmem input).2 hinput) with heq | hrest
      · exact Or.inl heq
      rcases List.mem_cons.1 hrest with heq | hrest
      · exact Or.inr (Int.le_of_eq heq.symm)
      · have hgt := List.rel_of_pairwise_cons (List.pairwise_cons.1 hsorted).2 hrest
        exact Or.inr (Int.le_of_lt hgt)

/-! ## The toy chain -/

/-- The frame of the toy chain that asserts reset. -/
def toyStart (resetVar first second : Int) : Frame :=
  { stateLits := [2], inputLits := [2 * resetVar, 2 * first, 2 * second + 1] }

/-- The toy chain on given inputs. -/
def toyFrames (resetVar first second : Int) : Chain :=
  [{ stateLits := [0], inputLits := [2 * first] }, toyStart resetVar first second,
    { stateLits := [4], inputLits := [2 * resetVar + 1] }]

/-- With room for the list of inputs, the toy chain is the one on the two smallest ones other than
reset, if there are two. -/
theorem toyChain_cases [Memory] {nPis resetVar : Int}
    (hroom : Memory.holds [((otherInputs nPis resetVar).card : Int)] = true) :
    (∃ first second, FirstInputs nPis resetVar first second ∧
        2 ≤ (otherInputs nPis resetVar).card ∧
        toyChain nPis resetVar = .ok (toyFrames resetVar first second)) ∨
      ((otherInputs nPis resetVar).card < 2 ∧
        toyChain nPis resetVar = .error (.toyInputs nPis)) := by
  rw [toyChain, if_pos ((holds_toyCount_iff nPis resetVar).2 hroom)]
  rcases toyInputs_cases nPis resetVar with
    ⟨first, second, rest, hinputs, hfirst, hcard⟩ | ⟨hlength, hcard⟩
  · refine Or.inl ⟨first, second, hfirst, hcard, ?_⟩
    rw [hinputs]
    rfl
  · refine Or.inr ⟨hcard, ?_⟩
    rcases hinputs : toyInputs nPis resetVar with _ | ⟨first, _ | ⟨second, rest⟩⟩
    · rfl
    · rfl
    · rw [hinputs, List.length_cons, List.length_cons] at hlength
      omega

/-- Without room for the list of inputs there is no toy chain. -/
theorem toyChain_of_no_room [Memory] {nPis resetVar : Int}
    (hroom : Memory.holds [((otherInputs nPis resetVar).card : Int)] = false) :
    toyChain nPis resetVar = .error .memory := by
  have hcount : ¬Memory.holds [toyCount nPis resetVar] = true := by
    rw [holds_toyCount_iff, hroom]
    exact Bool.false_ne_true
  exact if_neg hcount

section Frames

variable {nPis resetVar first second : Int}

/-- A frame without negative input literals is guarded. -/
theorem Frame.guarded_of_nonneg {f : Frame} (h : ∀ l ∈ f.inputLits, 0 ≤ l) :
    f.Guarded resetVar := by
  intro front back l hsplit hneg
  have hl : l ∈ f.inputLits := by
    rw [hsplit]
    exact List.mem_append_right front List.mem_cons_self
  exact absurd (h l hl) (Int.not_le.2 hneg)

theorem FirstInputs.nonneg_of_toyFrames (h : FirstInputs nPis resetVar first second)
    (hreset : 0 ≤ resetVar) :
    ∀ f ∈ toyFrames resetVar first second, ∀ l ∈ f.inputLits, 0 ≤ l := by
  have hfirst := mem_otherInputs.1 h.first_mem
  have hsecond := mem_otherInputs.1 h.second_mem
  simp only [toyFrames, toyStart, List.forall_mem_cons, List.not_mem_nil, false_implies,
    implies_true, and_true]
  omega

/-- Reset is asserted in the middle frame of the toy chain, and in no other. -/
theorem startFrame_toyFrames (h : FirstInputs nPis resetVar first second)
    (hreset : 0 ≤ resetVar) :
    (toyFrames resetVar first second).startFrame resetVar =
      .ok ⟨1, toyStart resetVar first second⟩ := by
  apply (Chain.startFrame_eq_ok_iff hreset).2
  constructor
  · exact fun f hf => Frame.guarded_of_nonneg (h.nonneg_of_toyFrames hreset f hf)
  · constructor
    case frame_eq => rfl
    case last =>
      intro f hf
      rw [List.mem_singleton.1 hf, Frame.AssertsReset, List.mem_singleton]
      omega
    case asserts_or_first => exact Or.inl List.mem_cons_self

/-- The program of the toy chain has what is kept of the literals of its middle frame. -/
theorem ofStartFrame_toyStart (t : Placement) (h : FirstInputs nPis resetVar first second)
    (hreset : 0 ≤ resetVar) :
    Program.ofStartFrame t nPis resetVar ⟨1, toyStart resetVar first second⟩ =
      .ok ⟨1, [2 * resetVar, 2 * first, 2 * second + 1].filter (t.keeps nPis)⟩ := by
  have hsecond := mem_otherInputs.1 h.second_mem
  apply Program.ofStartFrame_eq_ok_iff.2
  refine ⟨h.nonneg_of_toyFrames hreset _ (by simp [toyFrames]), ?_, rfl⟩
  intro hdenied
  have hmem := (List.mem_filter.1 hdenied).1
  simp only [toyStart, Literal.denying, List.mem_cons, List.not_mem_nil, or_false] at hmem
  omega

end Frames

namespace Decoder

/-! ## Decoding -/

section Decoding

variable [Memory]

/-- The decoding of the toy chain ends with the program of its middle frame, or for want of a sink
or of a picture. -/
theorem decode_toyFrames_cases {d : Decoder} (hindexed : d.placement.Indexed)
    (hreset : 0 ≤ d.resetVar) {first second : Int}
    (h : FirstInputs d.nPis d.resetVar first second) (hasSink : Bool) (s : DecoderState) :
    (∃ s' r, d.decode (toyFrames d.resetVar first second) hasSink s =
          (.ok ⟨1, [2 * d.resetVar, 2 * first, 2 * second + 1].filter (d.placement.keeps d.nPis)⟩,
            s') ∧
        hasSink = true ∧ d.render (toyStart d.resetVar first second) s = .ok r) ∨
      ∃ fault s', d.decode (toyFrames d.resetVar first second) hasSink s = (.error fault, s') ∧
        ((hasSink = false ∧ fault = .sinkMissing) ∨
          (hasSink = true ∧ d.render (toyStart d.resetVar first second) s = .error fault)) := by
  have hstart := startFrame_toyFrames h hreset
  have hprogram := ofStartFrame_toyStart d.placement h hreset
  cases hasSink with
  | false => exact Or.inr ⟨_, _, decode_of_no_sink hstart hprogram, Or.inl ⟨rfl, rfl⟩⟩
  | true =>
    cases hrender : d.render (toyStart d.resetVar first second) s with
    | error fault =>
      exact Or.inr ⟨_, _, decode_of_render_error hstart hprogram hrender, Or.inr ⟨rfl, rfl⟩⟩
    | ok r => exact Or.inl ⟨_, r, decode_of_render hindexed hstart hprogram hrender, rfl, rfl⟩

/-- No fault of decoding the toy chain, in whatever shape, is a contradiction. -/
theorem kind_ne_contradiction_of_toyFrames {d : Decoder} (ht : d.placement.WellFormed)
    (hindexed : d.placement.Indexed) (hreset : 0 ≤ d.resetVar) {first second : Int}
    (h : FirstInputs d.nPis d.resetVar first second) {hasSink : Bool} {s s' : DecoderState}
    {fault : Fault}
    (hfails : d.decode (toyFrames d.resetVar first second) hasSink s = (.error fault, s')) :
    fault.kind ≠ .contradiction := by
  rcases decode_toyFrames_cases hindexed hreset h hasSink s with
    ⟨s₁, r, hdecodes, -⟩ | ⟨other, s₁, hdecodes, hcause⟩
  · rw [hdecodes] at hfails
    cases hfails
  rw [hdecodes] at hfails
  cases hfails
  rcases hcause with ⟨-, rfl⟩ | ⟨-, hrender⟩
  · decide
  · exact ((Rendering.ofFrame_eq_error_iff ht hindexed).1 hrender).kind_ne_contradiction

/-- How a chain is decoded whose program has the kept ones of some literals of its frame 1. -/
structure DecodesFromOne (d : Decoder) (c : Chain) (lits : List Int) (s : DecoderState) :
    Prop where
  /-- With room for the picture, the program starts at frame 1 and has the kept literals. -/
  decodes : d.placement.shape.HasRoom →
    ∃ s', d.decode c true s = (.ok ⟨1, lits.filter (d.placement.keeps d.nPis)⟩, s')
  /-- Otherwise the room is all that is missed. -/
  fails_without_room : ¬d.placement.shape.HasRoom →
    ∃ fault s', d.decode c true s = (.error fault, s') ∧
      (fault.reported.kind = .outOfMemory ∨ fault.reported.kind = .overflow)
  /-- Reset is never denied, whatever the shape is, and whether or not there is a sink. -/
  not_contradiction : ∀ {shape hasSink fault s'},
    d.decode c hasSink { s with shape } = (.error fault, s') →
      fault.kind ≠ .contradiction ∧ fault.reported.kind ≠ .contradiction

/-- In the shape of the placement, the toy chain is decoded from its middle frame. -/
theorem decodesFromOne_toyFrames {d : Decoder} (ht : d.placement.WellFormed)
    (hindexed : d.placement.Indexed) (hreset : 0 ≤ d.resetVar) {first second : Int}
    (h : FirstInputs d.nPis d.resetVar first second) {s : DecoderState}
    (hshape : s.shape = d.placement.shape) :
    d.DecodesFromOne (toyFrames d.resetVar first second)
      [2 * d.resetVar, 2 * first, 2 * second + 1] s := by
  have hcases := decode_toyFrames_cases hindexed hreset h true s
  have hnonneg : ∀ l ∈ (toyStart d.resetVar first second).inputLits, 0 ≤ l :=
    h.nonneg_of_toyFrames hreset _ (by simp [toyFrames])
  constructor
  case decodes =>
    intro hroom
    have hpicture : ∃ r, d.render (toyStart d.resetVar first second) s = .ok r := by
      rw [render, hshape]
      exact (Rendering.exists_ofFrame_iff_hasRoom ht hindexed hnonneg).2 hroom
    rcases hcases with ⟨s', -, hdecodes, -⟩ | ⟨fault, s', -, ⟨hsink, -⟩ | ⟨-, hrender⟩⟩
    · exact ⟨s', hdecodes⟩
    · contradiction
    · rw [hrender] at hpicture
      rcases hpicture with ⟨r, hok⟩
      contradiction
  case fails_without_room =>
    intro hroom
    rcases hcases with ⟨s', r, -, -, hrender⟩ | ⟨fault, s', hdecodes, ⟨hsink, -⟩ | ⟨-, hrender⟩⟩
    · rw [render, hshape] at hrender
      exact absurd (Rendering.hasRoom_of_ofFrame hrender).2 hroom
    · contradiction
    · rw [render, hshape, Rendering.ofFrame_of_not_hasRoom ht hindexed hnonneg hroom] at hrender
      refine ⟨fault, s', hdecodes, ?_⟩
      split at hrender
      · cases hrender
        exact Or.inl rfl
      · cases hrender
        exact Or.inr rfl
  case not_contradiction =>
    intro shape hasSink fault s' hfails
    have hkind := kind_ne_contradiction_of_toyFrames ht hindexed hreset h hfails
    refine ⟨hkind, ?_⟩
    rw [Fault.kind_reported]
    split
    · exact hkind
    · decide

/-- When a design has a toy chain, and how it is decoded. -/
structure DecodesToy (d : Decoder) (s : DecoderState) : Prop where
  /-- With room for the list of the inputs other than reset, the toy chain is refused exactly if
  there are fewer than two of them. -/
  refused_iff : Memory.holds [((otherInputs d.nPis d.resetVar).card : Int)] = true →
    ((∃ fault, (d.stepFrom s .toy).result = .error fault) ↔
      (otherInputs d.nPis d.resetVar).card < 2)
  /-- That is an invalid value. -/
  refused_kind : Memory.holds [((otherInputs d.nPis d.resetVar).card : Int)] = true →
    ∀ {fault}, (d.stepFrom s .toy).result = .error fault → fault.reported.kind = .invalidValue
  /-- Without room for the list, that is the fault. -/
  no_room : Memory.holds [((otherInputs d.nPis d.resetVar).card : Int)] = false →
    (d.stepFrom s .toy).result = .error .memory
  /-- With room and two inputs it is the only chain, and its program is one of reset and the two
  smallest other inputs, of which the second one is clear. -/
  decodes : Memory.holds [((otherInputs d.nPis d.resetVar).card : Int)] = true →
    2 ≤ (otherInputs d.nPis d.resetVar).card →
      ∃ first second c, FirstInputs d.nPis d.resetVar first second ∧
        (d.stepFrom s .toy).result = .ok (.chains [c]) ∧
        d.DecodesFromOne c [2 * d.resetVar, 2 * first, 2 * second + 1] s

/-- The toy chain of a design with two inputs other than reset is decoded from frame 1, as long as
there is room for the list of these inputs and for the picture. -/
theorem toy_decodes_from_one {entries : List (Option Int)} {instLen nInsts : Int} {d : Decoder}
    (hplacement : Placement.ofIndexes entries instLen nInsts = .ok d.placement)
    (hreset : 0 ≤ d.resetVar) {s : DecoderState} (hshape : s.shape = d.placement.shape) :
    DecodesToy d s := by
  have ht := Placement.wellFormed_of_ofEntries hplacement
  have hindexed := Placement.indexed_of_ofIndexes hplacement
  have hstep : (d.stepFrom s .toy).result =
      (toyChain d.nPis d.resetVar).map fun chain => .chains [chain] := rfl
  constructor
  case refused_iff =>
    intro hroom
    rcases toyChain_cases hroom with ⟨first, second, -, hcard, htoy⟩ | ⟨hcard, htoy⟩
    · refine iff_of_false ?_ (Nat.not_lt.2 hcard)
      rintro ⟨fault, hfails⟩
      rw [hstep, htoy] at hfails
      contradiction
    · exact iff_of_true ⟨.toyInputs d.nPis, by rw [hstep, htoy]; rfl⟩ hcard
  case refused_kind =>
    intro hroom fault hfails
    rcases toyChain_cases hroom with ⟨first, second, -, -, htoy⟩ | ⟨-, htoy⟩
    · rw [hstep, htoy] at hfails
      contradiction
    · rw [hstep, htoy] at hfails
      cases hfails
      exact Fault.kind_reported_of_invalidValue rfl
  case no_room =>
    intro hroom
    rw [hstep, toyChain_of_no_room hroom]
    rfl
  case decodes =>
    intro hroom htwo
    rcases toyChain_cases hroom with ⟨first, second, hfirst, -, htoy⟩ | ⟨hcard, -⟩
    · exact ⟨first, second, _, hfirst, by rw [hstep, htoy]; rfl,
        decodesFromOne_toyFrames ht hindexed hreset hfirst hshape⟩
    · exact absurd hcard (Nat.not_lt.2 htwo)

end Decoding

/-- In the small design reset is input 1, and its toy chain is one on the inputs 0 and 2; with
reset in the place of input 0 and an input less, there is none. -/
theorem toy_decodes_from_one_sample :
    Placement.ofIndexes [none, none, some 0, some 3, some 1] 2 2 = .ok sample.placement ∧
      (sample.stepFrom sample.start .toy).result = .ok (.chains [toyFrames 1 0 2]) ∧
      DecodesToy sample sample.start ∧
      ({ sample with nPis := 2, resetVar := 0 }.stepFrom sample.start .toy).result =
        .error (.toyInputs 2) ∧
      DecodesToy { sample with nPis := 2, resetVar := 0 } sample.start :=
  ⟨rfl, rfl, toy_decodes_from_one Placement.ofIndexes_sample (by decide) rfl, rfl,
    toy_decodes_from_one Placement.ofIndexes_sample (by decide) rfl⟩

/-- Two inputs other than reset, a toy chain and a sink; and yet the chain is not decoded, since no
memory has room for the picture of its frame 1. -/
theorem toy_not_decoded_without_room :
    Placement.ofIndexes [some 0] 10000000000000000000000000000000000000000 1 =
        .ok vast.placement ∧ 0 ≤ vast.resetVar ∧ vast.start.shape = vast.placement.shape ∧
      2 ≤ (otherInputs 2 vast.resetVar).card ∧
      ({ vast with nPis := 2 }.stepFrom vast.start .toy).result = .ok (.chains [toyFrames 2 0 1]) ∧
      ∀ [Memory], ({ vast with nPis := 2 }.decode (toyFrames 2 0 1) true vast.start).1 =
        .error .unbounded :=
  ⟨rfl, by decide, rfl, by decide, rfl, fun {_} => rfl⟩

end Decoder
end ImemReplay
