import ImemReplay.Proofs.Painting

/-!
# Pictures as grids of characters

A picture can also be drawn from the assignments of its literals: an assignment with instruction
`inst` and bit `bit` writes its value into row `inst` and column `instLen - 1 - bit` of a grid.
The positions of the memory and the addresses of the assignments are computed separately, by
cutting and reversing words on one side and by division with remainder on the other; here they
are shown to agree.

Main results:

- Theorem `wordAt_setIfInBounds`: setting one bit changes one place of one word.
- Theorem `ofCells_strokes`: the strokes of literals are the writes of their assignments.
- Theorem `rows_eq_replay`: both views of a picture are drawn from its assignments.
-/

namespace ImemReplay
namespace Rendering

/-! ## One bit among the words -/

/-- Positions in different words or at different bits are different. -/
theorem word_bit_unique {len word other bit otherBit : Nat} (hbit : bit < len)
    (hother : otherBit < len) (h : word * len + bit = other * len + otherBit) :
    word = other ∧ bit = otherBit := by
  rcases Nat.lt_trichotomy word other with hlt | heq | hgt
  · have hmul := Nat.mul_le_mul_right len hlt
    rw [Nat.succ_mul] at hmul
    omega
  · subst heq
    exact ⟨rfl, by omega⟩
  · have hmul := Nat.mul_le_mul_right len hgt
    rw [Nat.succ_mul] at hmul
    omega

/-- Setting a bit of a memory sets one place of its word and leaves the other words. -/
theorem wordAt_setIfInBounds {len : Nat} {cells : Array Cell} {word other bit : Nat}
    (value : Cell) (hword : (word + 1) * len ≤ cells.size) (hother : (other + 1) * len ≤ cells.size)
    (hbit : bit < len) :
    wordAt len (cells.setIfInBounds (word * len + bit) value) other =
      if word = other then (wordAt len cells other).set (len - 1 - bit) value
      else wordAt len cells other := by
  have hpainted : (other + 1) * len ≤ (cells.setIfInBounds (word * len + bit) value).size := by
    rwa [Array.size_setIfInBounds]
  have hlength : (if word = other then (wordAt len cells other).set (len - 1 - bit) value
      else wordAt len cells other).length = len := by
    split
    · rw [List.length_set, length_wordAt hother]
    · exact length_wordAt hother
  apply List.ext_getElem?
  intro column
  by_cases hcolumn : column < len
  · have hplace : column = len - 1 - (len - 1 - column) := by omega
    have hfar : len - 1 - column < len := by omega
    rw [hplace, getElem?_wordAt hpainted hfar, Array.getElem?_setIfInBounds]
    by_cases hposition : word * len + bit = other * len + (len - 1 - column)
    · rcases word_bit_unique hbit hfar hposition with ⟨rfl, rfl⟩
      have hsize : word * len + (len - 1 - column) < cells.size := by
        rw [Nat.succ_mul] at hword
        omega
      rw [if_pos rfl, if_pos hsize, if_pos rfl, List.getElem?_set_self]
      rw [length_wordAt hother]
      omega
    · rw [if_neg hposition, ← getElem?_wordAt hother hfar]
      split
      · next heq =>
        have hne : len - 1 - bit ≠ len - 1 - (len - 1 - column) := by
          intro hsame
          apply hposition
          rw [heq, show bit = len - 1 - column by omega]
        rw [List.getElem?_set_ne hne]
      · rfl
  · rw [List.getElem?_eq_none (by rw [length_wordAt hpainted]; omega),
      List.getElem?_eq_none (by rw [hlength]; omega)]

/-- Setting a position of a memory sets one place of one of its words. -/
theorem wordsOf_setIfInBounds {shape : Shape} {cells : Array Cell} {slot : Int} (value : Cell)
    (hsize : cells.size = shape.instLen.toNat * shape.nInsts.toNat) (hlen : 0 < shape.instLen)
    (hlow : 0 ≤ slot) (hhigh : slot < shape.totalBits) :
    wordsOf shape (cells.setIfInBounds slot.toNat value) =
      (wordsOf shape cells).modify (slot / shape.instLen).toNat fun word =>
        word.set (shape.instLen - 1 - slot % shape.instLen).toNat value := by
  rcases slot_coordinates hlen hlow hhigh with ⟨hword, hbit, hslot⟩
  have hcolumn : (shape.instLen - 1 - slot % shape.instLen).toNat =
      shape.instLen.toNat - 1 - (slot % shape.instLen).toNat := by
    have hbitnonneg := Int.emod_nonneg slot (Int.ne_of_gt hlen)
    omega
  apply List.ext_getElem?
  intro other
  rw [List.getElem?_modify]
  by_cases hother : other < shape.nInsts.toNat
  · rw [getElem?_wordsOf shape _ hother, getElem?_wordsOf shape cells hother, ← hslot,
      wordAt_setIfInBounds value (word_le_size hsize hword) (word_le_size hsize hother) hbit,
      hcolumn]
    split <;> rfl
  · have hnone : (wordsOf shape cells)[other]? = none :=
      List.getElem?_eq_none (by rw [length_wordsOf]; omega)
    rw [hnone, List.getElem?_eq_none (by rw [length_wordsOf]; omega)]
    rfl

end Rendering

/-! ## Grids -/

/-- Rows of characters, one row an instruction. -/
abbrev Grid := List (List Char)

namespace Grid

/-- The grid of a shape with one character everywhere. -/
def filled (shape : Shape) (mark : Char) : Grid :=
  List.replicate shape.nInsts.toNat (List.replicate shape.instLen.toNat mark)

/-- Writes the value of an assignment into its row, counting columns from the highest bit. -/
def write (instLen : Int) (g : Grid) (a : Assignment) : Grid :=
  g.modify a.inst.toNat fun row => row.set (instLen - 1 - a.bit).toNat (Cell.digit a.value)

/-- Writes assignments into a filled grid, one after the other. -/
def replay (shape : Shape) (mark : Char) (rows : List Assignment) : Grid :=
  rows.foldl (write shape.instLen) (filled shape mark)

/-- The grid of a memory under a view of its cells. -/
def ofCells (view : Cell → Char) (shape : Shape) (cells : Array Cell) : Grid :=
  (Rendering.wordsOf shape cells).map (·.map view)

/-- Cells that are free in a memory are free in its words. -/
theorem eq_none_of_mem_wordAt_blank {shape : Shape} {len word : Nat} {cell : Cell}
    (h : cell ∈ Rendering.wordAt len (Rendering.blank shape) word) : cell = none := by
  rw [Rendering.wordAt, List.mem_reverse, Array.mem_toList_iff, Array.mem_extract_iff_getElem] at h
  rcases h with ⟨i, hi, hcell⟩
  rw [← hcell]
  exact Array.getElem_replicate _

/-- A memory with every bit free looks the same everywhere. -/
theorem ofCells_blank (view : Cell → Char) (shape : Shape) (hlen : 0 < shape.instLen)
    (hinsts : 0 < shape.nInsts) :
    ofCells view shape (Rendering.blank shape) = filled shape (view none) := by
  have hsize := Rendering.size_blank_eq_mul shape hlen hinsts
  apply List.eq_replicate_iff.2
  refine ⟨by rw [ofCells, List.length_map, Rendering.length_wordsOf], ?_⟩
  intro row hrow
  rcases List.mem_map.1 hrow with ⟨word, hword, rfl⟩
  rcases List.getElem?_of_mem hword with ⟨i, hi⟩
  have hlt : i < shape.nInsts.toNat := by
    have hbound := (List.getElem?_eq_some_iff.1 hi).1
    rwa [Rendering.length_wordsOf] at hbound
  rw [Rendering.getElem?_wordsOf shape _ hlt] at hi
  rw [← Option.some.inj hi]
  apply List.eq_replicate_iff.2
  refine ⟨?_, ?_⟩
  · rw [List.length_map, Rendering.length_wordAt (Rendering.word_le_size hsize hlt)]
  · intro c hc
    rcases List.mem_map.1 hc with ⟨cell, hcell, rfl⟩
    rw [eq_none_of_mem_wordAt_blank hcell]

/-- A change of one element that a map carries over is a change of one element of the image. -/
theorem map_modify {α β : Type} {f : α → α} {g : α → β} {f' : β → β}
    (h : ∀ a, g (f a) = f' (g a)) (l : List α) (i : Nat) :
    (l.modify i f).map g = (l.map g).modify i f' := by
  apply List.ext_getElem?
  intro j
  rw [List.getElem?_map, List.getElem?_modify, List.getElem?_modify, List.getElem?_map]
  cases l[j]? with
  | none => rfl
  | some a => split <;> simp [h]

/-- The stroke of a kept literal is the write of its assignment. -/
theorem ofCells_stroke {view : Cell → Char} (hview : ∀ value, view (some value) = Cell.digit value)
    {t : Placement} (ht : t.WellFormed) {nPis l slot : Int} {cells : Array Cell}
    (hsize : cells.size = t.instLen.toNat * t.nInsts.toNat)
    (htarget : t.target? nPis l = some slot) :
    ofCells view t.shape (Rendering.stroke t nPis cells l) =
      write t.instLen (ofCells view t.shape cells) (t.assignmentOf l) := by
  have hslot := (Placement.target?_eq_some_iff.1 htarget).2
  rcases ht.slot_range hslot with ⟨hlow, hhigh⟩
  have hwords := Rendering.wordsOf_setIfInBounds (some (Literal.assertsVariable l))
    (show cells.size = t.shape.instLen.toNat * t.shape.nInsts.toNat from hsize) ht.instLen_pos
    hlow hhigh
  rw [Rendering.stroke, htarget]
  simp only [ofCells, write, Placement.assignmentOf, hslot, Option.getD_some, hwords]
  apply map_modify
  intro word
  rw [List.map_set, hview]
  rfl

/-- The strokes of literals are the writes of the assignments of the kept ones. -/
theorem ofCells_strokes {view : Cell → Char} (hview : ∀ value, view (some value) = Cell.digit value)
    {t : Placement} (ht : t.WellFormed) (hindexed : t.Indexed) (nPis : Int) (lits : List Int)
    {cells : Array Cell} (hsize : cells.size = t.instLen.toNat * t.nInsts.toNat) :
    ofCells view t.shape (Rendering.strokes t nPis lits cells) =
      ((lits.filter (t.keeps nPis)).map t.assignmentOf).foldl (write t.instLen)
        (ofCells view t.shape cells) := by
  induction lits generalizing cells with
  | nil => rfl
  | cons l lits ih =>
    rw [Rendering.strokes_cons, ih (by rwa [Rendering.size_stroke])]
    by_cases hkeeps : t.keeps nPis l = true
    · rcases hindexed.exists_slotAt hkeeps with ⟨slot, hslot⟩
      have htarget := Placement.target?_eq_some_iff.2 ⟨hkeeps, hslot⟩
      rw [ofCells_stroke hview ht hsize htarget, List.filter_cons_of_pos hkeeps, List.map_cons,
        List.foldl_cons]
    · rw [Rendering.stroke, Placement.target?_of_not_keeps hkeeps, List.filter_cons_of_neg hkeeps]

/-- The rows of a picture under a view are drawn from the assignments of its kept literals. -/
theorem ofCells_eq_replay {view : Cell → Char}
    (hview : ∀ value, view (some value) = Cell.digit value)
    {t : Placement} (ht : t.WellFormed) (hindexed : t.Indexed) (nPis : Int) (lits : List Int) :
    ofCells view t.shape (Rendering.strokes t nPis lits (Rendering.blank t.shape)) =
      replay t.shape (view none) ((lits.filter (t.keeps nPis)).map t.assignmentOf) := by
  have hsize := Rendering.size_blank_eq_mul t.shape ht.instLen_pos ht.nInsts_pos
  rw [ofCells_strokes hview ht hindexed nPis lits hsize,
    ofCells_blank view t.shape ht.instLen_pos ht.nInsts_pos]
  rfl

end Grid

namespace Rendering

/-- The rows with free bits marked, as a grid. -/
theorem generalized_wordsOf (shape : Shape) (cells : Array Cell) :
    (mk (wordsOf shape cells)).generalized =
      (Grid.ofCells Cell.generalized shape cells).map String.ofList := by
  rw [Grid.ofCells, List.map_map]
  rfl

/-- The rows with free bits clear, as a grid. -/
theorem concrete_wordsOf (shape : Shape) (cells : Array Cell) :
    (mk (wordsOf shape cells)).concrete =
      (Grid.ofCells Cell.concrete shape cells).map String.ofList := by
  rw [Grid.ofCells, List.map_map]
  rfl

/-- Both views of a picture are drawn from the assignments of its kept literals. -/
theorem rows_eq_replay [Memory] {t : Placement} (ht : t.WellFormed) (hindexed : t.Indexed)
    {nPis : Int} {f : Frame} {r : Rendering} (h : ofFrame t nPis t.shape f = .ok r) :
    r.generalized = (Grid.replay t.shape 'x'
        ((f.inputLits.filter (t.keeps nPis)).map t.assignmentOf)).map String.ofList ∧
      r.concrete = (Grid.replay t.shape '0'
        ((f.inputLits.filter (t.keeps nPis)).map t.assignmentOf)).map String.ofList := by
  rcases ofFrame_eq_ok h with ⟨-, -, rfl⟩
  constructor
  · rw [generalized_wordsOf, Grid.ofCells_eq_replay Cell.generalized_some ht hindexed]
    rfl
  · rw [concrete_wordsOf, Grid.ofCells_eq_replay Cell.concrete_some ht hindexed]
    rfl

end Rendering
end ImemReplay
