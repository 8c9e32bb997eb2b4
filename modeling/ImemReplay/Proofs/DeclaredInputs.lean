import ImemReplay.Proofs.Extractions
import ImemReplay.Proofs.KeptLiterals
import ImemReplay.Proofs.LastLiterals

/-!
# More and fewer declared inputs

A decoder looks at the literals on declared inputs only.  Declaring more inputs adds to what a
frame shows and takes nothing away: a bit that shows a value keeps it, because no two inputs drive
one bit, so that a literal which is now looked at cannot reach the bit of one that was looked at
before.  For the same reason an extraction that succeeds with more inputs succeeds with fewer, and
its program is then the part on the inputs that are left.

Main results:

- Theorem `keeps_iff_of_le`: with fewer inputs the kept literals are those on the inputs left.
- Theorem `strokes_extends`: with more inputs a memory has the values that it had, and more.
- Theorem `charAt?_rowsOf_eq`: which place of the memory a character of a picture tells of.
- Theorem `exists_ofFrame_of_le` and theorem `exists_ofFrame_iff_of_le`: when the other picture
  exists too.
- Theorem `extract_of_le`: the program with fewer inputs.
- Theorem `grows_with_inputs`: all of this for every placement.
-/

namespace ImemReplay

namespace Placement

variable {t : Placement} {few many : Int}

/-- With fewer inputs the kept literals are those of them that are on the inputs left. -/
theorem keeps_iff_of_le (hle : few ≤ many) {l : Int} :
    t.keeps few l = true ↔ t.keeps many l = true ∧ l / 2 < few := by
  rw [keeps_iff, keeps_iff]
  constructor
  · rintro ⟨hdeclared, hplaced⟩
    exact ⟨⟨by omega, hplaced⟩, hdeclared⟩
  · rintro ⟨⟨-, hplaced⟩, hdeclared⟩
    exact ⟨hdeclared, hplaced⟩

theorem filter_keeps_of_le (hle : few ≤ many) (lits : List Int) :
    lits.filter (t.keeps few) = (lits.filter (t.keeps many)).filter (· / 2 < few) := by
  rw [List.filter_filter]
  apply List.filter_congr
  intro l _
  rw [Bool.eq_iff_iff, keeps_iff_of_le hle, Bool.and_eq_true, decide_eq_true_eq, and_comm]

/-- A table has no inputs beyond its length, so from there on a declaration adds none. -/
theorem keeps_eq_of_length_le (hlength : t.length ≤ few) (hle : few ≤ many) :
    t.keeps few = t.keeps many := by
  funext l
  rw [Bool.eq_iff_iff, keeps_iff_of_le hle, and_iff_left_iff_imp]
  intro hkeeps
  rcases (keeps_iff.1 hkeeps).2 with ⟨place, hplace⟩
  have hrange := input_range hplace
  omega

theorem sameSlots_of_length_le (hlength : t.length ≤ few) (hle : few ≤ many) :
    SameSlots t t few many := by
  intro l
  by_cases hl : l < 0
  · rw [slotOfLiteral?_of_neg hl, slotOfLiteral?_of_neg hl]
  · have hnonneg : 0 ≤ l := by omega
    rw [slotOfLiteral?_of_nonneg hnonneg, slotOfLiteral?_of_nonneg hnonneg,
      keeps_eq_of_length_le hlength hle]

/-- With fewer inputs a literal that is kept keeps its position. -/
theorem target?_of_le (hle : few ≤ many) {l : Int} (hkeeps : t.keeps few l = true) :
    t.target? few l = t.target? many l := by
  rw [target?_of_keeps hkeeps, target?_of_keeps ((keeps_iff_of_le hle).1 hkeeps).1]

end Placement

namespace Rendering

variable {t : Placement} {few many : Int}

/-! ## Values that stay -/

/-- A memory has every value that another has, at the same place. -/
def Extends (cells wider : Array Cell) : Prop :=
  ∀ {place : Nat} {value : Bool},
    cells[place]? = some (some value) → wider[place]? = some (some value)

/-- The last literal on a position is the last one there with more inputs too. -/
theorem lastOn_of_le (ht : t.WellFormed) (hle : few ≤ many) {lits : List Int} {slot l : Int}
    (h : lastOn t few lits slot = some l) : lastOn t many lits slot = some l := by
  have hmem := List.mem_filter.1 (List.mem_of_getLast? h)
  have htarget := Placement.target?_eq_some_iff.1 (of_decide_eq_true hmem.2)
  have hdeclared := (Placement.keeps_iff.1 htarget.1).1
  -- No other input drives the position, so what follows the literal there is on its own input.
  rw [lastOn_eq_lastOf ht hdeclared htarget.2] at h
  rw [lastOn_eq_lastOf ht (by omega) htarget.2, h]

/-- With more inputs a memory has the values that it had, and more. -/
theorem strokes_extends (ht : t.WellFormed) (hle : few ≤ many) (lits : List Int) (shape : Shape) :
    Extends (strokes t few lits (blank shape)) (strokes t many lits (blank shape)) := by
  intro place value hcell
  have hplace : place < (blank shape).size := by
    have hbound := (Array.getElem?_eq_some_iff.1 hcell).1
    rwa [size_strokes] at hbound
  have hlow : (0 : Int) ≤ place := Int.natCast_nonneg place
  have hhigh : (place : Int) < (blank shape).size := Int.ofNat_lt.2 hplace
  have hfew := getElem?_strokes ht few lits hlow hhigh
  have hmany := getElem?_strokes ht many lits hlow hhigh
  rw [Int.toNat_natCast, getElem?_blank hplace] at hfew hmany
  rw [hcell] at hfew
  cases hlast : lastOn t few lits place with
  | none =>
    rw [hlast] at hfew
    cases hfew
  | some l =>
    rw [hlast] at hfew
    rw [hmany, lastOn_of_le ht hle hlast]
    exact hfew.symm

/-! ## Characters and their places -/

/-- The place that a character of a picture tells of, in a memory of some size.  A row shows its
last place first, and a row at the end of the memory may be short. -/
def placeAt? (shape : Shape) (size row column : Nat) : Option Nat :=
  let first := row * shape.instLen.toNat
  let last := min ((row + 1) * shape.instLen.toNat) size
  if row < shape.nInsts.toNat ∧ column < last - first then some (last - 1 - column) else none

theorem getElem?_wordAt_eq (len : Nat) (cells : Array Cell) (word column : Nat) :
    (wordAt len cells word)[column]? =
      if column < min ((word + 1) * len) cells.size - word * len then
        cells[min ((word + 1) * len) cells.size - 1 - column]?
      else none := by
  have hlength : (cells.extract (word * len) ((word + 1) * len)).toList.length =
      min ((word + 1) * len) cells.size - word * len := by
    rw [Array.length_toList, Array.size_extract]
  rw [wordAt]
  split
  · have hplace : word * len +
        (min ((word + 1) * len) cells.size - word * len - 1 - column) =
        min ((word + 1) * len) cells.size - 1 - column := by omega
    rw [List.getElem?_reverse (by omega), hlength, Array.getElem?_toList, Array.getElem?_extract,
      if_pos (by omega), hplace]
  · apply List.getElem?_eq_none
    rw [List.length_reverse, hlength]
    omega

/-- A character of a picture is the view of the cell at its place. -/
theorem charAt?_rowsOf_eq (view : Cell → Char) (shape : Shape) (cells : Array Cell)
    (row column : Nat) :
    charAt? (rowsOf view shape cells) row column =
      ((placeAt? shape cells.size row column).bind (cells[·]?)).map view := by
  unfold charAt? rowsOf placeAt?
  by_cases hrow : row < shape.nInsts.toNat
  · rw [List.getElem?_map, getElem?_wordsOf shape cells hrow, Option.map_some, Option.bind_some,
      String.toList_ofList, List.getElem?_map, getElem?_wordAt_eq]
    simp only [hrow, true_and]
    split <;> rfl
  · rw [List.getElem?_eq_none (by rw [List.length_map, length_wordsOf]; omega)]
    simp only [hrow, false_and, if_false, Option.bind_none, Option.map_none]

/-- A character that tells of a value tells of it in every memory that has the value too. -/
theorem charAt?_of_extends {shape : Shape} {cells wider : Array Cell}
    (hextends : Extends cells wider) (hsize : wider.size = cells.size) {row column : Nat}
    {c : Char} (hc : c ≠ 'x')
    (h : charAt? (rowsOf Cell.generalized shape cells) row column = some c) :
    charAt? (rowsOf Cell.generalized shape wider) row column = some c := by
  rw [charAt?_rowsOf_eq] at h ⊢
  rcases Option.map_eq_some_iff.1 h with ⟨cell, hcell, rfl⟩
  rcases Option.bind_eq_some_iff.1 hcell with ⟨place, hplace, hat⟩
  cases cell with
  | none => exact absurd rfl hc
  | some value => rw [hsize, hplace, Option.bind_some, hextends hat, Option.map_some]

/-- A picture with more inputs has the characters that tell of values in the picture with fewer. -/
theorem charAt?_of_le [Memory] (ht : t.WellFormed) (hle : few ≤ many) {shape : Shape} {f : Frame}
    {r r' : Rendering} (hfew : ofFrame t few shape f = .ok r)
    (hmany : ofFrame t many shape f = .ok r') {row column : Nat} {c : Char} (hc : c ≠ 'x')
    (h : charAt? r.generalized row column = some c) :
    charAt? r'.generalized row column = some c := by
  rcases ofFrame_eq_ok hfew with ⟨-, -, rfl⟩
  rcases ofFrame_eq_ok hmany with ⟨-, -, rfl⟩
  apply charAt?_of_extends (strokes_extends ht hle f.inputLits shape) _ hc h
  rw [size_strokes, size_strokes]

/-! ## Pictures that exist -/

/-- A frame with a picture has one with fewer inputs. -/
theorem exists_ofFrame_of_le [Memory] (hle : few ≤ many) {shape : Shape} {f : Frame} {r : Rendering}
    (h : ofFrame t many shape f = .ok r) : ∃ r', ofFrame t few shape f = .ok r' := by
  rcases ofFrame_eq_ok_iff.1 h with ⟨hroom, hnonneg, htargets, -⟩
  refine ⟨_, ofFrame_eq_ok_iff.2 ⟨hroom, hnonneg, ?_, rfl⟩⟩
  intro l hl hkeeps
  rw [Placement.target?_of_le hle hkeeps]
  exact htargets l hl ((Placement.keeps_iff_of_le hle).1 hkeeps).1

/-- A frame with a picture has one with more inputs exactly if the literals that are now looked at
have positions. -/
theorem exists_ofFrame_iff_of_le [Memory] (ht : t.WellFormed) (hle : few ≤ many) {f : Frame}
    {r : Rendering} (h : ofFrame t few t.shape f = .ok r) :
    (∃ r', ofFrame t many t.shape f = .ok r') ↔
      ∀ l ∈ f.inputLits, few ≤ l / 2 → t.keeps many l = true →
        ∃ slot, t.slotAt? (l / 2) = some slot := by
  have hnonneg := (ofFrame_eq_ok h).1
  rcases (exists_ofFrame_iff ht hnonneg).1 ⟨r, h⟩ with ⟨hroom, hslots⟩
  rw [exists_ofFrame_iff ht hnonneg]
  constructor
  · rintro ⟨-, hslots'⟩ l hl - hkeeps
    exact hslots' l hl hkeeps
  · intro hnew
    refine ⟨hroom, ?_⟩
    intro l hl hkeeps
    by_cases hdeclared : l / 2 < few
    · exact hslots l hl ((Placement.keeps_iff_of_le hle).2 ⟨hkeeps, hdeclared⟩)
    · exact hnew l hl (by omega) hkeeps

/-- A table of integers has both pictures of a frame or neither. -/
theorem exists_ofFrame_iff_of_indexed [Memory] (ht : t.WellFormed) (hindexed : t.Indexed)
    {f : Frame} (hnonneg : ∀ l ∈ f.inputLits, 0 ≤ l) :
    (∃ r, ofFrame t few t.shape f = .ok r) ↔ ∃ r', ofFrame t many t.shape f = .ok r' := by
  rw [exists_ofFrame_iff ht hnonneg, exists_ofFrame_iff ht hnonneg]
  constructor
  · rintro ⟨hroom, -⟩
    exact ⟨hroom, fun _ _ hkeeps => hindexed.exists_slotAt hkeeps⟩
  · rintro ⟨hroom, -⟩
    exact ⟨hroom, fun _ _ hkeeps => hindexed.exists_slotAt hkeeps⟩

end Rendering

/-! ## Programs -/

/-- The part of a program on the inputs below a number. -/
def Program.below (p : Program) (nPis : Int) : Program :=
  { p with lits := p.lits.filter (· / 2 < nPis) }

/-- A program that a start frame has with more inputs has its part with fewer: what is not kept
there cannot deny reset. -/
theorem Program.ofStartFrame_of_le {t : Placement} {few many : Int} (hle : few ≤ many)
    {resetVar : Int} {start : StartFrame} {p : Program}
    (h : ofStartFrame t many resetVar start = .ok p) :
    ofStartFrame t few resetVar start = .ok (p.below few) := by
  rcases ofStartFrame_eq_ok_iff.1 h with ⟨hnonneg, hdenied, rfl⟩
  apply ofStartFrame_eq_ok_iff.2
  refine ⟨hnonneg, ?_, ?_⟩
  · intro hmem
    rw [Placement.filter_keeps_of_le hle] at hmem
    exact hdenied (List.mem_filter.1 hmem).1
  · rw [below, Placement.filter_keeps_of_le hle]

/-- An extraction that succeeds with more inputs succeeds with fewer, and notes the same frame. -/
theorem Decoder.extract_of_le {few many : Int} (hle : few ≤ many) {d : Decoder} {c : Chain}
    {s s' : DecoderState} {p : Program}
    (h : { d with nPis := many }.extract c s = (.ok p, s')) :
    { d with nPis := few }.extract c s = (.ok (p.below few), s') := by
  rcases extract_eq_ok h with ⟨start, hstart, hprogram, rfl⟩
  have hbelow := Program.ofStartFrame_of_le hle hprogram
  have hindex : c.startFrame d.resetVar = .ok start := hstart
  simp only [extract, extractFrom, hindex, hbelow]

/-! ## All inputs -/

/-- What declaring more inputs changes in the pictures and programs of a placement. -/
structure GrowsWithInputs [Memory] (t : Placement) (few many : Int) : Prop where
  /-- A character that tells of a value stays, in pictures of every shape. -/
  value_stays : ∀ {shape f r r'}, Rendering.ofFrame t few shape f = .ok r →
    Rendering.ofFrame t many shape f = .ok r' → ∀ {row column : Nat} {c : Char},
      c = '0' ∨ c = '1' → Rendering.charAt? r.generalized row column = some c →
        Rendering.charAt? r'.generalized row column = some c
  exists_with_fewer : ∀ {shape f r'}, Rendering.ofFrame t many shape f = .ok r' →
    ∃ r, Rendering.ofFrame t few shape f = .ok r
  /-- With more inputs there is a picture if the literals that are now looked at have positions. -/
  exists_with_more_iff : ∀ {f r}, Rendering.ofFrame t few t.shape f = .ok r →
    ((∃ r', Rendering.ofFrame t many t.shape f = .ok r') ↔
      ∀ l ∈ f.inputLits, few ≤ l / 2 → t.keeps many l = true →
        ∃ slot, t.slotAt? (l / 2) = some slot)
  /-- A table of integers has both pictures or neither. -/
  exists_iff_of_indexed : t.Indexed → ∀ {f : Frame}, (∀ l ∈ f.inputLits, 0 ≤ l) →
    ((∃ r, Rendering.ofFrame t few t.shape f = .ok r) ↔
      ∃ r', Rendering.ofFrame t many t.shape f = .ok r')
  /-- Inputs beyond the table change nothing. -/
  drawn_alike : t.length ≤ few → ∀ shape f,
    Rendering.ofFrame t few shape f = Rendering.ofFrame t many shape f
  /-- An extraction that succeeds with more inputs succeeds with fewer: the start frame is the same,
  and of the literals those on the inputs left are there, in order. -/
  extracts_below : ∀ {d : Decoder} {c s p s'}, d.placement = t →
    { d with nPis := many }.extract c s = (.ok p, s') →
      ∃ q, { d with nPis := few }.extract c s = (.ok q, s') ∧ q.startFrame = p.startFrame ∧
        q.lits = p.lits.filter (· / 2 < few)

/-- Declaring more inputs adds to what a placement shows of a frame and takes nothing away. -/
theorem Placement.grows_with_inputs [Memory] {entries : List PlacementEntry} {instLen nInsts : Int}
    {t : Placement} (hplacement : ofEntries entries instLen nInsts = .ok t) {few many : Int}
    (hle : few ≤ many) : GrowsWithInputs t few many := by
  have ht := wellFormed_of_ofEntries hplacement
  constructor
  case value_stays =>
    intro shape f r r' hfew hmany row column c hvalue hc
    have hx : c ≠ 'x' := by
      rcases hvalue with rfl | rfl
      · decide
      · decide
    exact Rendering.charAt?_of_le ht hle hfew hmany hx hc
  case exists_with_fewer => exact Rendering.exists_ofFrame_of_le hle
  case exists_with_more_iff => exact Rendering.exists_ofFrame_iff_of_le ht hle
  case exists_iff_of_indexed =>
    intro hindexed f hnonneg
    exact Rendering.exists_ofFrame_iff_of_indexed ht hindexed hnonneg
  case drawn_alike =>
    intro hlength shape f
    exact (sameSlots_of_length_le hlength hle).ofFrame_eq shape f
  case extracts_below =>
    intro d c s p s' _ hextract
    exact ⟨p.below few, Decoder.extract_of_le hle hextract, rfl, rfl⟩

/-- The small placement with three inputs and with five. -/
theorem Placement.grows_with_inputs_sample :
    ofEntries [.unmapped, .unmapped, .slot (.whole 0), .slot (.whole 3), .slot (.whole 1)] 2 2 =
        .ok .sample ∧ (3 : Int) ≤ 5 ∧ GrowsWithInputs .sample 3 5 := by
  have hplacement : ofEntries
      [.unmapped, .unmapped, .slot (.whole 0), .slot (.whole 3), .slot (.whole 1)] 2 2 =
        .ok .sample := rfl
  have hle : (3 : Int) ≤ 5 := by decide
  exact ⟨hplacement, hle, grows_with_inputs hplacement hle⟩

/-- One half, as it is read from a file. -/
def Number.half : Number := .real (.finite false 4503599627370496 (-53))

/-- A number between two bits is accepted as a place, but is not one: declaring its input takes the
whole picture away, and with it the value that was shown. -/
theorem Placement.not_grows_beside_fraction :
    ∃ t r, ofEntries [.slot (.whole 0), .slot .half] 2 1 = .ok t ∧
      Rendering.ofFrame t 1 t.shape { inputLits := [0, 2] } = .ok r ∧
      Rendering.charAt? r.generalized 0 1 = some '1' ∧
      ∀ r', Rendering.ofFrame t 2 t.shape { inputLits := [0, 2] } ≠ .ok r' := by
  refine ⟨⟨2, 1, [some (.whole 0), some .half]⟩, ⟨[[none, some true]]⟩, by decide, by decide,
    by decide, ?_⟩
  intro r' hpicture
  have hfault : Rendering.ofFrame ⟨2, 1, [some (.whole 0), some .half]⟩ 2 ⟨2, 1⟩
      { inputLits := [0, 2] } = .error .wrongType := by decide
  cases hfault.symm.trans hpicture

end ImemReplay
