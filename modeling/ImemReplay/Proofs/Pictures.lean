import ImemReplay.Proofs.Decoding

/-!
# Pictures bit by bit

A picture has a row of characters for each instruction.  The character of a bit, counted from the
end of its row, tells of the last input literal on the declared input that drives the bit: `1` if
the literal asserts the input and `0` if it denies it.  A bit that no literal reaches is free, and
so is a bit without a declared input.

Main results:

- Theorem `charAt?_rowsOf`: the character of a bit is the view of its cell.
- Theorem `lastOn_eq_lastOf`: on a bit with a declared input the last literal is that on the input.
- Theorem `lastOn_eq_lastOnBit`: the literal that a bit shows, said without positions of literals.
- Theorem `ofFrame_shows_last_values`: a frame without negative input literals has a picture if
  there is room for it, and the picture shows the last values bit by bit.
- Theorem `not_renders_without_room`: a placement without room for its picture.
-/

namespace ImemReplay

/-! ## The last literal of a bit and of an input -/

/-- The last of some literals on a declared input that drives a bit. -/
def Placement.lastOnBit (t : Placement) (nPis : Int) (lits : List Int) (bit : Int) : Option Int :=
  (lits.filter fun l => l / 2 < nPis ∧ t.lookup (l / 2) = some (.whole bit)).getLast?

/-- The last of some literals on a variable. -/
def Literal.lastOf (lits : List Int) (id : Int) : Option Int :=
  (lits.filter fun l => l / 2 = id).getLast?

/-- The character that tells of a literal: `1` if it asserts its variable and `0` if it denies it;
without a literal it is the mark of a free bit. -/
def Cell.mark (free : Char) : Option Int → Char
  | none => free
  | some l => if l % 2 = 0 then '1' else '0'

namespace Cell

theorem generalized_eq_mark (l? : Option Int) :
    generalized (l?.map Literal.assertsVariable) = mark 'x' l? := by
  cases l? with
  | none => rfl
  | some l =>
    rw [Option.map_some, generalized_some, digit, mark, Literal.assertsVariable]
    simp only [decide_eq_true_eq]

theorem concrete_eq_mark (l? : Option Int) :
    concrete (l?.map Literal.assertsVariable) = mark '0' l? := by
  cases l? with
  | none => rfl
  | some l =>
    rw [Option.map_some, concrete_some, digit, mark, Literal.assertsVariable]
    simp only [decide_eq_true_eq]

end Cell

namespace Rendering

variable {t : Placement} {nPis : Int}

/-- The literals that reach the bit of a declared input are those on the input. -/
theorem target?_eq_some_iff_of_slotAt (ht : t.WellFormed) {input slot l : Int}
    (hdeclared : input < nPis) (hslot : t.slotAt? input = some slot) :
    t.target? nPis l = some slot ↔ l / 2 = input := by
  rw [Placement.target?_eq_some_iff]
  constructor
  · intro h
    exact ht.slot_injective h.2 hslot
  · intro h
    rcases Option.bind_eq_some_iff.1 hslot with ⟨place, hplace, -⟩
    rw [h]
    refine ⟨Placement.keeps_iff.2 ?_, hslot⟩
    rw [h]
    exact ⟨hdeclared, place, hplace⟩

/-- The last literal on the bit of a declared input is the last one on the input. -/
theorem lastOn_eq_lastOf (ht : t.WellFormed) {input slot : Int} (hdeclared : input < nPis)
    (hslot : t.slotAt? input = some slot) (lits : List Int) :
    lastOn t nPis lits slot = Literal.lastOf lits input := by
  unfold lastOn Literal.lastOf
  simp only [target?_eq_some_iff_of_slotAt ht hdeclared hslot]

end Rendering

namespace Placement

variable {t : Placement}

/-- The positions of an indexed placement are its bits. -/
theorem Indexed.slotAt?_eq_some_iff (h : t.Indexed) {input slot : Int} :
    t.slotAt? input = some slot ↔ t.lookup input = some (.whole slot) := by
  constructor
  · exact h.lookup_of_slotAt
  · intro hlookup
    rw [slotAt?, hlookup]
    rfl

/-- The literals that reach a bit are those on a declared input that drives it. -/
theorem Indexed.target?_eq_some_iff (h : t.Indexed) {nPis l bit : Int} :
    t.target? nPis l = some bit ↔ l / 2 < nPis ∧ t.lookup (l / 2) = some (.whole bit) := by
  rw [Placement.target?_eq_some_iff, h.slotAt?_eq_some_iff, keeps_iff]
  constructor
  · rintro ⟨⟨hdeclared, -⟩, hlookup⟩
    exact ⟨hdeclared, hlookup⟩
  · rintro ⟨hdeclared, hlookup⟩
    exact ⟨⟨hdeclared, _, hlookup⟩, hlookup⟩

/-- The last literal that reaches a bit is the last one on a declared input that drives it. -/
theorem Indexed.lastOn_eq_lastOnBit (h : t.Indexed) (nPis : Int) (lits : List Int) (bit : Int) :
    Rendering.lastOn t nPis lits bit = t.lastOnBit nPis lits bit := by
  unfold Rendering.lastOn lastOnBit
  simp only [h.target?_eq_some_iff]

/-- No two inputs drive one bit, so the last literal of a bit is the last one on its input. -/
theorem WellFormed.lastOnBit_eq_lastOf (ht : t.WellFormed) (hindexed : t.Indexed)
    {nPis input bit : Int} (hdeclared : input < nPis) (hbit : t.lookup input = some (.whole bit))
    (lits : List Int) : t.lastOnBit nPis lits bit = Literal.lastOf lits input := by
  rw [← hindexed.lastOn_eq_lastOnBit]
  exact Rendering.lastOn_eq_lastOf ht hdeclared (hindexed.slotAt?_eq_some_iff.2 hbit) lits

/-- A bit without a declared input has no last literal. -/
theorem lastOnBit_eq_none {nPis bit : Int}
    (h : ∀ input < nPis, t.lookup input ≠ some (.whole bit)) (lits : List Int) :
    t.lastOnBit nPis lits bit = none := by
  unfold lastOnBit
  rw [List.getLast?_eq_none_iff, List.filter_eq_nil_iff]
  intro l _ hl
  have hdriven := of_decide_eq_true hl
  exact h (l / 2) hdriven.1 hdriven.2

end Placement

namespace Rendering

/-! ## Characters of a picture -/

/-- The character in a row and a column. -/
def charAt? (rows : List String) (row column : Nat) : Option Char :=
  rows[row]?.bind (·.toList[column]?)

/-- The rows of a memory under a view of its cells. -/
def rowsOf (view : Cell → Char) (shape : Shape) (cells : Array Cell) : List String :=
  (wordsOf shape cells).map fun word => String.ofList (word.map view)

variable {shape : Shape} {cells : Array Cell}

/-- There is a row for each instruction. -/
theorem length_rowsOf (view : Cell → Char) :
    (rowsOf view shape cells).length = shape.nInsts.toNat := by
  rw [rowsOf, List.length_map, length_wordsOf]

/-- Every row has a character for each bit of an instruction. -/
theorem length_of_mem_rowsOf (view : Cell → Char)
    (hsize : cells.size = shape.instLen.toNat * shape.nInsts.toNat) :
    ∀ row ∈ rowsOf view shape cells, row.length = shape.instLen.toNat := by
  intro row hrow
  rcases List.mem_map.1 hrow with ⟨word, hword, rfl⟩
  rcases List.getElem?_of_mem hword with ⟨i, hi⟩
  have hlt : i < shape.nInsts.toNat := by
    have hbound := (List.getElem?_eq_some_iff.1 hi).1
    rwa [length_wordsOf] at hbound
  rw [getElem?_wordsOf shape cells hlt] at hi
  rw [String.length_ofList, List.length_map, ← Option.some.inj hi,
    length_wordAt (word_le_size hsize hlt)]

/-- The character of a bit, counted from the end of its row, is the view of its cell. -/
theorem charAt?_rowsOf (view : Cell → Char)
    (hsize : cells.size = shape.instLen.toNat * shape.nInsts.toNat) {i b : Nat}
    (hi : i < shape.nInsts.toNat) (hb : b < shape.instLen.toNat) :
    charAt? (rowsOf view shape cells) i (shape.instLen.toNat - 1 - b) =
      cells[i * shape.instLen.toNat + b]?.map view := by
  have hcell := getElem?_wordAt (word_le_size hsize hi) hb
  rw [charAt?, rowsOf, List.getElem?_map, getElem?_wordsOf shape cells hi, Option.map_some,
    Option.bind_some, String.toList_ofList, List.getElem?_map, hcell]

/-- The position of a bit in the memory. -/
theorem toNat_position {len : Int} (hlen : 0 < len) (i b : Nat) :
    ((i : Int) * len + b).toNat = i * len.toNat + b := by
  have hcast : (len.toNat : Int) = len := Int.toNat_of_nonneg (Int.le_of_lt hlen)
  rw [← hcast]
  exact Int.toNat_natCast (i * len.toNat + b)

/-- The bits of the instructions have positions below the size of the memory. -/
theorem position_lt {len insts i b : Nat} (hi : i < insts) (hb : b < len) :
    i * len + b < len * insts := by
  have hwords := Nat.mul_le_mul_left len hi
  rw [Nat.mul_succ, Nat.mul_comm] at hwords
  omega

/-! ## Pictures of frames -/

/-- Rows of characters tell, bit by bit, of the last literals that reach the bits, and mark the
free bits. -/
structure RowsShow (t : Placement) (nPis : Int) (lits : List Int) (free : Char)
    (rows : List String) : Prop where
  length_eq : (rows.length : Int) = t.nInsts
  length_row : ∀ row ∈ rows, (row.length : Int) = t.instLen
  /-- A bit shows the last literal on a declared input that drives it. -/
  bit_shown : ∀ {i b : Nat}, (i : Int) < t.nInsts → (b : Int) < t.instLen →
    charAt? rows i (t.instLen.toNat - 1 - b) =
      some (Cell.mark free (t.lastOnBit nPis lits (i * t.instLen + b)))
  /-- The value of a declared and placed input is shown at its address. -/
  input_shown : ∀ {input : Int}, input < nPis → (t.lookup input).isSome →
    ∃ i b : Nat, t.instructionOf input = .ok (.whole i) ∧ t.bitOf input = .ok (.whole b) ∧
      charAt? rows i (t.instLen.toNat - 1 - b) = some (Cell.mark free (Literal.lastOf lits input))
  /-- A bit that no declared input drives is free. -/
  free_shown : ∀ {i b : Nat}, (i : Int) < t.nInsts → (b : Int) < t.instLen →
    (∀ input < nPis, t.lookup input ≠ some (.whole (i * t.instLen + b))) →
      charAt? rows i (t.instLen.toNat - 1 - b) = some free

/-- The character of a bit after strokes tells of the last literal that reaches the bit. -/
theorem charAt?_strokes {t : Placement} (ht : t.WellFormed) (hindexed : t.Indexed) (nPis : Int)
    (lits : List Int) {view : Cell → Char} {free : Char}
    (hview : ∀ l? : Option Int, view (l?.map Literal.assertsVariable) = Cell.mark free l?)
    {i b : Nat} (hi : (i : Int) < t.nInsts) (hb : (b : Int) < t.instLen) :
    charAt? (rowsOf view t.shape (strokes t nPis lits (blank t.shape))) i
        (t.instLen.toNat - 1 - b) =
      some (Cell.mark free (t.lastOnBit nPis lits (i * t.instLen + b))) := by
  have hword : i < t.nInsts.toNat := Int.lt_toNat.2 hi
  have hbit : b < t.instLen.toNat := Int.lt_toNat.2 hb
  have hblank : (blank t.shape).size = t.instLen.toNat * t.nInsts.toNat :=
    size_blank_eq_mul t.shape ht.instLen_pos ht.nInsts_pos
  have hrange := position_lt hword hbit
  have hposition := toNat_position ht.instLen_pos i b
  have hlow : 0 ≤ (i : Int) * t.instLen + b :=
    Int.add_nonneg (Int.mul_nonneg (Int.natCast_nonneg i) (Int.le_of_lt ht.instLen_pos))
      (Int.natCast_nonneg b)
  have hhigh : (i : Int) * t.instLen + b < (blank t.shape).size := by
    apply (Int.toNat_lt hlow).1
    rwa [hposition, hblank]
  have hfree : (blank t.shape)[i * t.instLen.toNat + b]? = some none := by
    apply getElem?_blank
    rwa [hblank]
  have hcell := getElem?_strokes ht nPis lits hlow hhigh
  rw [hposition, hfree, hindexed.lastOn_eq_lastOnBit] at hcell
  refine (charAt?_rowsOf view ((size_strokes t nPis lits _).trans hblank) hword hbit).trans ?_
  refine (congrArg (Option.map view) hcell).trans ?_
  rw [← hview]
  cases t.lastOnBit nPis lits (i * t.instLen + b) <;> rfl

/-- The rows of the memory that literals leave show the last literals. -/
theorem rowsShow_strokes {t : Placement} (ht : t.WellFormed) (hindexed : t.Indexed) (nPis : Int)
    (lits : List Int) {view : Cell → Char} {free : Char}
    (hview : ∀ l? : Option Int, view (l?.map Literal.assertsVariable) = Cell.mark free l?) :
    RowsShow t nPis lits free (rowsOf view t.shape (strokes t nPis lits (blank t.shape))) := by
  have hshown := fun {i b : Nat} (hi : (i : Int) < t.nInsts) (hb : (b : Int) < t.instLen) =>
    charAt?_strokes ht hindexed nPis lits hview hi hb
  have hsize := (size_strokes t nPis lits (blank t.shape)).trans
    (size_blank_eq_mul t.shape ht.instLen_pos ht.nInsts_pos)
  constructor
  case length_eq =>
    rw [length_rowsOf]
    exact Int.toNat_of_nonneg (Int.le_of_lt ht.nInsts_pos)
  case length_row =>
    intro row hrow
    rw [length_of_mem_rowsOf view hsize row hrow]
    exact Int.toNat_of_nonneg (Int.le_of_lt ht.instLen_pos)
  case bit_shown => exact hshown
  case input_shown =>
    intro input hdeclared hplaced
    rcases Option.isSome_iff_exists.1 hplaced with ⟨place, hplace⟩
    rcases hindexed.lookup_whole hplace with ⟨slot, rfl⟩
    have hslot := hindexed.slotAt?_eq_some_iff.2 hplace
    have hinst := ht.inst_range hslot
    have hbit := ht.bit_range slot
    have hi : ((slot / t.instLen).toNat : Int) = slot / t.instLen := Int.toNat_of_nonneg hinst.1
    have hb : ((slot % t.instLen).toNat : Int) = slot % t.instLen := Int.toNat_of_nonneg hbit.1
    refine ⟨(slot / t.instLen).toNat, (slot % t.instLen).toNat, ?_, ?_, ?_⟩
    · rw [hi, hindexed.instructionOf_eq hslot]
    · rw [hb, hindexed.bitOf_eq hslot]
    · have hcharacter := hshown (by rw [hi]; exact hinst.2) (by rw [hb]; exact hbit.2)
      have hsum : slot / t.instLen * t.instLen + slot % t.instLen = slot := by
        rw [Int.mul_comm, Int.mul_ediv_add_emod]
      rw [hi, hb, hsum, ht.lastOnBit_eq_lastOf hindexed hdeclared hplace] at hcharacter
      exact hcharacter
  case free_shown =>
    intro i b hi hb hfree
    rw [hshown hi hb, Placement.lastOnBit_eq_none hfree]
    rfl

/-- When a frame has a picture in the shape of the placement, and what the picture shows. -/
structure ShowsLastValues [Memory] (t : Placement) (nPis : Int) (f : Frame) : Prop where
  /-- There is a picture exactly if there is room for it. -/
  exists_iff : (∃ r, ofFrame t nPis t.shape f = .ok r) ↔ t.shape.HasRoom
  /-- Without room the fault is about memory, unless its size is no word. -/
  fault_of_no_room : ¬t.shape.HasRoom → ofFrame t nPis t.shape f =
    .error (if t.totalBits < Capacity.wordBound then .memory else .unbounded)
  generalized_shows : ∀ {r}, ofFrame t nPis t.shape f = .ok r →
    RowsShow t nPis f.inputLits 'x' r.generalized
  concrete_shows : ∀ {r}, ofFrame t nPis t.shape f = .ok r →
    RowsShow t nPis f.inputLits '0' r.concrete

/-- A frame without negative input literals has a picture in the shape of the placement if there is
room for it.  Both views of the picture have a row for each instruction and a character for each
bit, which tells of the last input literal that reaches the bit. -/
theorem ofFrame_shows_last_values [Memory] {entries : List (Option Int)} {instLen nInsts : Int}
    {t : Placement} (hplacement : Placement.ofIndexes entries instLen nInsts = .ok t) (nPis : Int)
    {f : Frame} (hnonneg : ∀ l ∈ f.inputLits, 0 ≤ l) : ShowsLastValues t nPis f := by
  have ht := Placement.wellFormed_of_ofEntries hplacement
  have hindexed := Placement.indexed_of_ofIndexes hplacement
  constructor
  case exists_iff => exact exists_ofFrame_iff_hasRoom ht hindexed hnonneg
  case fault_of_no_room => exact ofFrame_of_not_hasRoom ht hindexed hnonneg
  case generalized_shows =>
    intro r hpicture
    rcases ofFrame_eq_ok hpicture with ⟨-, -, rfl⟩
    exact rowsShow_strokes ht hindexed nPis f.inputLits Cell.generalized_eq_mark
  case concrete_shows =>
    intro r hpicture
    rcases ofFrame_eq_ok hpicture with ⟨-, -, rfl⟩
    exact rowsShow_strokes ht hindexed nPis f.inputLits Cell.concrete_eq_mark

/-- The picture of a frame that sets and clears input 2 and ends with setting it. -/
theorem ofFrame_shows_last_values_sample :
    (Placement.ofIndexes [none, none, some 0, some 3, some 1] 2 2 = .ok .sample ∧
      ∀ l ∈ [2, 4, 7, 5, 8, 40, 4], (0 : Int) ≤ l) ∧
    ((ofFrame .sample 5 Placement.sample.shape { inputLits := [2, 4, 7, 5, 8, 40, 4] }).map
      generalized = .ok ["11", "0x"]) ∧
    ShowsLastValues .sample 5 { inputLits := [2, 4, 7, 5, 8, 40, 4] } := by
  have hnonneg : ∀ l ∈ [2, 4, 7, 5, 8, 40, 4], (0 : Int) ≤ l := by decide
  refine ⟨⟨Placement.ofIndexes_sample, hnonneg⟩, rfl, ?_⟩
  exact ofFrame_shows_last_values Placement.ofIndexes_sample 5 hnonneg

/-- A placement of one instruction with one bit more than a list can have places: whatever the
memory, a frame without literals has no picture in its shape. -/
theorem not_renders_without_room :
    Placement.ofIndexes [] 9223372036854775808 1 = .ok ⟨9223372036854775808, 1, []⟩ ∧
      ∀ [Memory], ¬∃ r, ofFrame ⟨9223372036854775808, 1, []⟩ 0
        (Placement.shape ⟨9223372036854775808, 1, []⟩) {} = .ok r := by
  refine ⟨rfl, ?_⟩
  rintro memory ⟨r, hpicture⟩
  exact absurd (lt_wordBound_of_ofFrame hpicture) (by decide)

end Rendering
end ImemReplay
