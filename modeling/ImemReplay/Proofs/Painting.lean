import ImemReplay.Proofs.Placements

/-!
# Painting as a sequence of strokes

A literal that reaches a position of the memory sets or clears the bit there, which is a stroke;
a painted memory is the result of the strokes of all literals in their order.  A bit therefore
shows the last literal that reaches it, and a literal that is not kept leaves no trace.

Main results:

- Theorem `paint_eq_ok`: a painted memory is the result of the strokes of its literals.
- Theorem `paint_filter`: painting the kept literals has the effect of painting all.
- Theorem `getElem?_strokes`: a bit shows the last literal that reaches it.
- Theorem `getElem?_wordsOf`: where a bit stands among the words.
- Theorem `ofFrame_eq_ok_iff`: when a frame has a picture, and which.
- Theorem `exists_ofFrame_iff_hasRoom`: with an indexed placement that is a matter of room alone.
-/

namespace ImemReplay
namespace Placement

/-- The position that a literal reaches: the one of its input, if the literal is kept. -/
def target? (t : Placement) (nPis l : Int) : Option Int :=
  if t.keeps nPis l then t.slotAt? (l / 2) else none

theorem target?_of_keeps {t : Placement} {nPis l : Int} (h : t.keeps nPis l = true) :
    t.target? nPis l = t.slotAt? (l / 2) :=
  if_pos h

theorem target?_of_not_keeps {t : Placement} {nPis l : Int} (h : ¬t.keeps nPis l = true) :
    t.target? nPis l = none :=
  if_neg h

/-- A literal that reaches a position is kept, and its input has the position. -/
theorem target?_eq_some_iff {t : Placement} {nPis l slot : Int} :
    t.target? nPis l = some slot ↔ t.keeps nPis l = true ∧ t.slotAt? (l / 2) = some slot := by
  unfold target?
  split <;> simp [*]

/-- Two literals that reach one position are on one input. -/
theorem WellFormed.target_injective {t : Placement} (h : t.WellFormed) {nPis l m slot : Int}
    (hl : t.target? nPis l = some slot) (hm : t.target? nPis m = some slot) : l / 2 = m / 2 :=
  h.slot_injective (target?_eq_some_iff.1 hl).2 (target?_eq_some_iff.1 hm).2

end Placement

/-- The character of a bit that is set or clear. -/
def Cell.digit (value : Bool) : Char := if value then '1' else '0'

theorem Cell.generalized_some (value : Bool) :
    Cell.generalized (some value) = Cell.digit value := by
  cases value <;> rfl

theorem Cell.concrete_some (value : Bool) : Cell.concrete (some value) = Cell.digit value := by
  cases value <;> rfl

namespace Rendering

/-! ## Strokes -/

/-- The effect of one literal on the memory. -/
def stroke (t : Placement) (nPis : Int) (cells : Array Cell) (l : Int) : Array Cell :=
  match t.target? nPis l with
  | some slot => cells.setIfInBounds slot.toNat (some (Literal.assertsVariable l))
  | none => cells

/-- The effect of literals on the memory, one after the other. -/
def strokes (t : Placement) (nPis : Int) (lits : List Int) (cells : Array Cell) : Array Cell :=
  lits.foldl (stroke t nPis) cells

@[simp]
theorem strokes_cons (t : Placement) (nPis l : Int) (lits : List Int) (cells : Array Cell) :
    strokes t nPis (l :: lits) cells = strokes t nPis lits (stroke t nPis cells l) :=
  rfl

@[simp]
theorem size_stroke (t : Placement) (nPis l : Int) (cells : Array Cell) :
    (stroke t nPis cells l).size = cells.size := by
  unfold stroke
  split <;> simp

theorem size_strokes (t : Placement) (nPis : Int) (lits : List Int) (cells : Array Cell) :
    (strokes t nPis lits cells).size = cells.size := by
  induction lits generalizing cells with
  | nil => rfl
  | cons l lits ih => rw [strokes_cons, ih, size_stroke]

/-- A bit gets a value when its number is a position of the memory. -/
theorem assign_eq_ok_iff {cells painted : Array Cell} {place : Number} {value : Bool} :
    assign cells place value = .ok painted ↔
      ∃ slot, place.index? = some slot ∧ (0 ≤ slot ∧ slot < cells.size) ∧
        painted = cells.setIfInBounds slot.toNat (some value) := by
  unfold assign
  cases hindex : place.index? with
  | none => simp
  | some slot =>
    by_cases hrange : 0 ≤ slot ∧ slot < cells.size
    · simp [hrange, eq_comm]
    · simp [hrange]

/-- A literal that is not kept is painted over. -/
theorem paint_cons_of_not_keeps {t : Placement} {nPis l : Int} (lits : List Int)
    (cells : Array Cell) (hl : 0 ≤ l) (hkeeps : ¬t.keeps nPis l = true) :
    paint t nPis (l :: lits) cells = paint t nPis lits cells := by
  rw [paint, Placement.slotOfLiteral?_of_nonneg hl, if_neg hkeeps]
  rfl

/-- A kept literal gives its bit a value. -/
theorem paint_cons_of_keeps {t : Placement} {nPis l : Int} {place : Number} (lits : List Int)
    (cells : Array Cell) (hl : 0 ≤ l) (hkeeps : t.keeps nPis l = true)
    (hplace : t.lookup (l / 2) = some place) :
    paint t nPis (l :: lits) cells =
      (assign cells place (Literal.assertsVariable l)).bind (paint t nPis lits) := by
  rw [paint, Placement.slotOfLiteral?_of_nonneg hl, if_pos hkeeps, hplace]
  simp only [bind, Except.bind, Literal.isComplement_eq hl, Bool.not_not]

/-- A kept literal with a position in the memory is painted there. -/
theorem paint_cons_of_slotAt {t : Placement} {nPis l slot : Int} (lits : List Int)
    {cells : Array Cell} (hl : 0 ≤ l) (hkeeps : t.keeps nPis l = true)
    (hslot : t.slotAt? (l / 2) = some slot) (hrange : 0 ≤ slot ∧ slot < cells.size) :
    paint t nPis (l :: lits) cells =
      paint t nPis lits
        (cells.setIfInBounds slot.toNat (some (Literal.assertsVariable l))) := by
  rcases Option.bind_eq_some_iff.1 hslot with ⟨place, hplace, hindex⟩
  have hassign : assign cells place (Literal.assertsVariable l) =
      .ok (cells.setIfInBounds slot.toNat (some (Literal.assertsVariable l))) :=
    assign_eq_ok_iff.2 ⟨slot, hindex, hrange, rfl⟩
  rw [paint_cons_of_keeps lits cells hl hkeeps hplace, hassign]
  rfl

theorem paint_cons_of_neg {t : Placement} {nPis l : Int} (lits : List Int) (cells : Array Cell)
    (hl : l < 0) : paint t nPis (l :: lits) cells = .error (.negativeLiteral l) := by
  rw [paint, Placement.slotOfLiteral?_of_neg hl]
  rfl

/-- A painted memory is the result of the strokes of its literals, none of which is negative, and
every kept literal has reached a position of the memory. -/
theorem paint_eq_ok {t : Placement} {nPis : Int} {lits : List Int} {cells painted : Array Cell}
    (h : paint t nPis lits cells = .ok painted) :
    (∀ l ∈ lits, 0 ≤ l) ∧
      (∀ l ∈ lits, t.keeps nPis l = true →
        ∃ slot, t.target? nPis l = some slot ∧ 0 ≤ slot ∧ slot < cells.size) ∧
      painted = strokes t nPis lits cells := by
  induction lits generalizing cells with
  | nil =>
    refine ⟨by simp, by simp, ?_⟩
    exact (Except.ok.inj h).symm
  | cons l lits ih =>
    by_cases hl : l < 0
    · rw [paint_cons_of_neg lits cells hl] at h
      contradiction
    have hnonneg : 0 ≤ l := by omega
    by_cases hkeeps : t.keeps nPis l = true
    · rcases Placement.keeps_iff.1 hkeeps with ⟨-, place, hplace⟩
      rw [paint_cons_of_keeps lits cells hnonneg hkeeps hplace] at h
      cases hassign : assign cells place (Literal.assertsVariable l) with
      | error fault => simp [hassign, Except.bind] at h
      | ok next =>
        rw [hassign] at h
        rcases assign_eq_ok_iff.1 hassign with ⟨slot, hindex, hrange, hnext⟩
        have htarget : t.target? nPis l = some slot := by
          rw [Placement.target?_of_keeps hkeeps, Placement.slotAt?, hplace]
          exact hindex
        have hstroke : stroke t nPis cells l = next := by rw [stroke, htarget, hnext]
        rcases ih h with ⟨hlits, htargets, hpainted⟩
        have hsize : next.size = cells.size := by rw [← hstroke, size_stroke]
        rw [hsize] at htargets
        refine ⟨List.forall_mem_cons.2 ⟨hnonneg, hlits⟩, List.forall_mem_cons.2 ⟨?_, htargets⟩, ?_⟩
        · exact fun _ => ⟨slot, htarget, hrange⟩
        · rw [strokes_cons, hstroke, hpainted]
    · rw [paint_cons_of_not_keeps lits cells hnonneg hkeeps] at h
      have hstroke : stroke t nPis cells l = cells := by
        rw [stroke, Placement.target?_of_not_keeps hkeeps]
      rcases ih h with ⟨hlits, htargets, hpainted⟩
      refine ⟨List.forall_mem_cons.2 ⟨hnonneg, hlits⟩, List.forall_mem_cons.2 ⟨?_, htargets⟩, ?_⟩
      · exact fun h => absurd h hkeeps
      · rw [strokes_cons, hstroke, hpainted]

/-- Painting the kept literals has the effect of painting all, if none is negative. -/
theorem paint_filter {t : Placement} {nPis : Int} {lits : List Int} (cells : Array Cell)
    (hnonneg : ∀ l ∈ lits, 0 ≤ l) :
    paint t nPis (lits.filter (t.keeps nPis)) cells = paint t nPis lits cells := by
  induction lits generalizing cells with
  | nil => rfl
  | cons l lits ih =>
    rcases List.forall_mem_cons.1 hnonneg with ⟨hl, hlits⟩
    by_cases hkeeps : t.keeps nPis l = true
    · rcases Placement.keeps_iff.1 hkeeps with ⟨-, place, hplace⟩
      rw [List.filter_cons_of_pos hkeeps, paint_cons_of_keeps _ cells hl hkeeps hplace,
        paint_cons_of_keeps _ cells hl hkeeps hplace]
      cases assign cells place (Literal.assertsVariable l) with
      | error fault => rfl
      | ok next => exact ih next hlits
    · rw [List.filter_cons_of_neg hkeeps, paint_cons_of_not_keeps lits cells hl hkeeps,
        ih cells hlits]

/-- Literals can be painted on a memory that has the positions of those that are kept. -/
theorem exists_paint {t : Placement} (nPis : Int) {lits : List Int} {cells : Array Cell}
    (hnonneg : ∀ l ∈ lits, 0 ≤ l)
    (hslots : ∀ l ∈ lits, t.keeps nPis l = true →
      ∃ slot, t.slotAt? (l / 2) = some slot ∧ 0 ≤ slot ∧ slot < cells.size) :
    ∃ painted, paint t nPis lits cells = .ok painted := by
  induction lits generalizing cells with
  | nil => exact ⟨cells, rfl⟩
  | cons l lits ih =>
    rcases List.forall_mem_cons.1 hnonneg with ⟨hl, hlits⟩
    rcases List.forall_mem_cons.1 hslots with ⟨hslot, hslots⟩
    by_cases hkeeps : t.keeps nPis l = true
    · rcases hslot hkeeps with ⟨slot, hslot, hrange⟩
      rw [paint_cons_of_slotAt lits hl hkeeps hslot hrange]
      apply ih hlits
      intro m hm hkept
      rw [Array.size_setIfInBounds]
      exact hslots m hm hkept
    · rw [paint_cons_of_not_keeps lits cells hl hkeeps]
      exact ih hlits hslots

/-- When literals can be painted on a memory, and what they leave. -/
theorem paint_eq_ok_iff {t : Placement} {nPis : Int} {lits : List Int}
    {cells painted : Array Cell} :
    paint t nPis lits cells = .ok painted ↔
      (∀ l ∈ lits, 0 ≤ l) ∧
        (∀ l ∈ lits, t.keeps nPis l = true →
          ∃ slot, t.target? nPis l = some slot ∧ 0 ≤ slot ∧ slot < cells.size) ∧
        painted = strokes t nPis lits cells := by
  constructor
  · exact paint_eq_ok
  · intro h
    rcases h with ⟨hnonneg, htargets, rfl⟩
    have hslots : ∀ l ∈ lits, t.keeps nPis l = true →
        ∃ slot, t.slotAt? (l / 2) = some slot ∧ 0 ≤ slot ∧ slot < cells.size := by
      intro l hl hkeeps
      rcases htargets l hl hkeeps with ⟨slot, htarget, hrange⟩
      exact ⟨slot, (Placement.target?_eq_some_iff.1 htarget).2, hrange⟩
    rcases exists_paint nPis hnonneg hslots with ⟨painted, hpaint⟩
    rw [hpaint, (paint_eq_ok hpaint).2.2]

/-- On a memory that has all positions of a placement, painting can only fail for a kept literal
without a position. -/
theorem fault_of_paint {t : Placement} {nPis : Int} {lits : List Int} {cells : Array Cell}
    {fault : Fault} (hnonneg : ∀ l ∈ lits, 0 ≤ l)
    (hrange : ∀ {input slot : Int}, t.slotAt? input = some slot → 0 ≤ slot ∧ slot < cells.size)
    (h : paint t nPis lits cells = .error fault) : fault = .wrongType := by
  induction lits generalizing cells with
  | nil => contradiction
  | cons l lits ih =>
    rcases List.forall_mem_cons.1 hnonneg with ⟨hl, hlits⟩
    by_cases hkeeps : t.keeps nPis l = true
    · cases hslot : t.slotAt? (l / 2) with
      | none =>
        rcases Placement.keeps_iff.1 hkeeps with ⟨-, place, hplace⟩
        rw [Placement.slotAt?, hplace, Option.bind_some] at hslot
        rw [paint_cons_of_keeps lits cells hl hkeeps hplace, assign, hslot] at h
        exact (Except.error.inj h).symm
      | some slot =>
        rw [paint_cons_of_slotAt lits hl hkeeps hslot (hrange hslot)] at h
        apply ih hlits _ h
        rw [Array.size_setIfInBounds]
        exact hrange
    · rw [paint_cons_of_not_keeps lits cells hl hkeeps] at h
      exact ih hlits hrange h

/-! ## What a bit shows -/

/-- The last of some literals that reaches a position. -/
def lastOn (t : Placement) (nPis : Int) (lits : List Int) (slot : Int) : Option Int :=
  (lits.filter fun l => t.target? nPis l = some slot).getLast?

/-- A literal in front is the last one on a position only if none follows it there. -/
theorem lastOn_cons (t : Placement) (nPis l : Int) (lits : List Int) (slot : Int) :
    lastOn t nPis (l :: lits) slot =
      (lastOn t nPis lits slot).or (if t.target? nPis l = some slot then some l else none) := by
  unfold lastOn
  by_cases h : t.target? nPis l = some slot
  · rw [List.filter_cons_of_pos (by simpa using h), if_pos h, List.getLast?_cons]
    cases (lits.filter fun l => t.target? nPis l = some slot).getLast? <;> rfl
  · rw [List.filter_cons_of_neg (by simpa using h), if_neg h, Option.or_none]

/-- A stroke changes the bit that its literal reaches, and no other. -/
theorem getElem?_stroke {t : Placement} (ht : t.WellFormed) (nPis l : Int) {cells : Array Cell}
    {slot : Int} (hlow : 0 ≤ slot) (hhigh : slot < cells.size) :
    (stroke t nPis cells l)[slot.toNat]? =
      if t.target? nPis l = some slot then some (some (Literal.assertsVariable l))
      else cells[slot.toNat]? := by
  unfold stroke
  cases htarget : t.target? nPis l with
  | none => simp
  | some other =>
    have hother := (ht.slot_range (Placement.target?_eq_some_iff.1 htarget).2).1
    by_cases heq : other = slot
    · rw [heq, if_pos rfl, Array.getElem?_setIfInBounds_self_of_lt (by omega)]
    · rw [if_neg (by simpa using heq), Array.getElem?_setIfInBounds_ne (by omega)]

/-- A bit shows the last literal that reaches it. -/
theorem getElem?_strokes {t : Placement} (ht : t.WellFormed) (nPis : Int) (lits : List Int)
    {cells : Array Cell} {slot : Int} (hlow : 0 ≤ slot) (hhigh : slot < cells.size) :
    (strokes t nPis lits cells)[slot.toNat]? =
      ((lastOn t nPis lits slot).map fun l => some (Literal.assertsVariable l)).or
        cells[slot.toNat]? := by
  induction lits generalizing cells with
  | nil => rfl
  | cons l lits ih =>
    rw [strokes_cons, ih (by rwa [size_stroke]), lastOn_cons, getElem?_stroke ht nPis l hlow hhigh]
    cases lastOn t nPis lits slot with
    | some m => rfl
    | none => split <;> rfl

/-! ## Words -/

/-- The word with a number, most significant bit first. -/
def wordAt (len : Nat) (cells : Array Cell) (word : Nat) : List Cell :=
  (cells.extract (word * len) ((word + 1) * len)).toList.reverse

theorem getElem?_wordsOf (shape : Shape) (cells : Array Cell) {word : Nat}
    (h : word < shape.nInsts.toNat) :
    (wordsOf shape cells)[word]? = some (wordAt shape.instLen.toNat cells word) := by
  simp [wordsOf, wordAt, h]

theorem length_wordAt {len : Nat} {cells : Array Cell} {word : Nat}
    (h : (word + 1) * len ≤ cells.size) : (wordAt len cells word).length = len := by
  simp only [wordAt, List.length_reverse, Array.length_toList, Array.size_extract, Nat.add_mul,
    Nat.one_mul] at h ⊢
  omega

/-- A bit of a word stands as far from the end as it is significant. -/
theorem getElem?_wordAt {len : Nat} {cells : Array Cell} {word bit : Nat}
    (h : (word + 1) * len ≤ cells.size) (hbit : bit < len) :
    (wordAt len cells word)[len - 1 - bit]? = cells[word * len + bit]? := by
  have hlength := length_wordAt h
  rw [wordAt, List.length_reverse] at hlength
  rw [wordAt, List.getElem?_reverse' (j := bit) (by omega), Array.getElem?_toList,
    Array.getElem?_extract]
  rw [Nat.add_mul, Nat.one_mul] at h ⊢
  rw [if_pos (by omega)]

/-- The words and the bits of a position that is one of the memory. -/
theorem slot_coordinates {shape : Shape} {slot : Int} (hlen : 0 < shape.instLen) (hlow : 0 ≤ slot)
    (hhigh : slot < shape.totalBits) :
    (slot / shape.instLen).toNat < shape.nInsts.toNat ∧
      (slot % shape.instLen).toNat < shape.instLen.toNat ∧
      (slot / shape.instLen).toNat * shape.instLen.toNat + (slot % shape.instLen).toNat =
        slot.toNat := by
  have hword : 0 ≤ slot / shape.instLen := Int.ediv_nonneg hlow (Int.le_of_lt hlen)
  have hwordlt : slot / shape.instLen < shape.nInsts := by
    rw [Int.ediv_lt_iff_lt_mul hlen, Int.mul_comm]
    exact hhigh
  have hbit : 0 ≤ slot % shape.instLen := Int.emod_nonneg slot (Int.ne_of_gt hlen)
  have hbitlt : slot % shape.instLen < shape.instLen := Int.emod_lt_of_pos slot hlen
  have hsum := Int.mul_ediv_add_emod slot shape.instLen
  refine ⟨by omega, by omega, ?_⟩
  apply Int.ofNat.inj
  simp only [Int.ofNat_eq_natCast, Int.natCast_add, Int.natCast_mul, Int.toNat_of_nonneg, hword,
    hbit, hlow, Int.le_of_lt hlen]
  rw [Int.mul_comm]
  exact hsum

/-- All words of a memory are as long as an instruction. -/
theorem word_le_size {shape : Shape} {cells : Array Cell} {word : Nat}
    (hsize : cells.size = shape.instLen.toNat * shape.nInsts.toNat)
    (hword : word < shape.nInsts.toNat) : (word + 1) * shape.instLen.toNat ≤ cells.size := by
  rw [hsize, Nat.mul_comm]
  exact Nat.mul_le_mul_left _ hword

/-- The cell of a position among the words. -/
theorem getElem?_wordsOf_slot {shape : Shape} {cells : Array Cell} {slot : Int}
    (hsize : cells.size = shape.instLen.toNat * shape.nInsts.toNat) (hlen : 0 < shape.instLen)
    (hlow : 0 ≤ slot) (hhigh : slot < shape.totalBits) :
    ((wordsOf shape cells)[(slot / shape.instLen).toNat]?.bind fun word =>
      word[(shape.instLen - 1 - slot % shape.instLen).toNat]?) = cells[slot.toNat]? := by
  rcases slot_coordinates hlen hlow hhigh with ⟨hword, hbit, hslot⟩
  have hcolumn : (shape.instLen - 1 - slot % shape.instLen).toNat =
      shape.instLen.toNat - 1 - (slot % shape.instLen).toNat := by
    have hbitnonneg := Int.emod_nonneg slot (Int.ne_of_gt hlen)
    omega
  rw [getElem?_wordsOf shape cells hword, Option.bind_some, hcolumn,
    getElem?_wordAt (word_le_size hsize hword) hbit, hslot]

/-! ## Pictures -/

theorem size_blank (shape : Shape) : (blank shape).size = shape.totalBits.toNat := by
  rw [blank, Array.size_replicate]

/-- Every bit of a blank memory is free. -/
theorem getElem?_blank {shape : Shape} {place : Nat} (h : place < (blank shape).size) :
    (blank shape)[place]? = some none := by
  rw [size_blank] at h
  rw [blank, Array.getElem?_replicate, if_pos h]

/-- The size of a memory is a product of the numbers of its words and bits. -/
theorem size_blank_eq_mul (shape : Shape) (hlen : 0 < shape.instLen) (hinsts : 0 < shape.nInsts) :
    (blank shape).size = shape.instLen.toNat * shape.nInsts.toNat := by
  rw [size_blank]
  exact Int.toNat_mul (Int.le_of_lt hlen) (Int.le_of_lt hinsts)

/-- The positions of a placement are places of its blank memory. -/
theorem slot_lt_size_blank {t : Placement} (ht : t.WellFormed) {input slot : Int}
    (hslot : t.slotAt? input = some slot) : 0 ≤ slot ∧ slot < (blank t.shape).size := by
  rcases ht.slot_range hslot with ⟨hlow, hhigh⟩
  have hshape : t.totalBits = t.shape.totalBits := rfl
  rw [size_blank]
  exact ⟨hlow, by omega⟩

/-- The rows of a picture have no more bits than its memory. -/
theorem rowBits_le {shape : Shape} (hbits : 0 < shape.totalBits) :
    shape.rowBits ≤ shape.totalBits := by
  unfold Shape.rowBits
  by_cases hlen : 0 < shape.instLen
  · have hinsts : 0 < shape.nInsts := Int.pos_of_mul_pos_right hbits hlen
    rw [Int.toNat_of_nonneg (Int.le_of_lt hlen), Int.toNat_of_nonneg (Int.le_of_lt hinsts)]
    exact Int.le_refl _
  · rw [Int.toNat_of_nonpos (Int.not_lt.1 hlen), Int.natCast_zero, Int.zero_mul]
    exact Int.le_of_lt hbits

theorem rowBits_nonneg (shape : Shape) : 0 ≤ shape.rowBits :=
  Int.mul_nonneg (Int.natCast_nonneg _) (Int.natCast_nonneg _)

section Room

variable [Memory] {t : Placement} {nPis : Int} {shape : Shape}

/-- A picture has room for its memory. -/
theorem hasBuffers_of_hasRoom (h : shape.HasRoom) : shape.HasBuffers :=
  Memory.holds_sublist (List.sublist_append_left [shape.totalBits, shape.totalBits] _) h

theorem lt_wordBound_of_hasBuffers (h : shape.HasBuffers) :
    shape.totalBits < Capacity.wordBound :=
  Memory.lt_wordBound h List.mem_cons_self

/-- Both memories can be made if there is room for them. -/
theorem demand_buffers_iff (hbits : 0 < shape.totalBits) :
    Capacity.demand [shape.totalBits, shape.totalBits] = .ok () ↔ shape.HasBuffers := by
  apply Capacity.demand_eq_ok_iff_of_nonneg
  simp only [List.forall_mem_cons, List.not_mem_nil, false_implies, implies_true, and_true]
  omega

/-- Their rows can be made too if there is room for all of them. -/
theorem demand_rows_iff (hbits : 0 < shape.totalBits) :
    Capacity.demand [shape.totalBits, shape.totalBits, shape.rowBits, shape.rowBits] = .ok () ↔
      shape.HasRoom := by
  have hrows := rowBits_nonneg shape
  apply Capacity.demand_eq_ok_iff_of_nonneg
  simp only [List.forall_mem_cons, List.not_mem_nil, false_implies, implies_true, and_true]
  omega

/-- Without room for the memories a picture fails before any literal is looked at. -/
theorem ofFrame_of_not_hasBuffers (f : Frame) (hbits : 0 < shape.totalBits)
    (hroom : ¬shape.HasBuffers) :
    ofFrame t nPis shape f =
      .error (if shape.totalBits < Capacity.wordBound then .memory else .unbounded) := by
  have hindexes : [shape.totalBits, shape.totalBits].all Capacity.isIndex =
      decide (shape.totalBits < Capacity.wordBound) := by
    have hlow : -Capacity.wordBound ≤ shape.totalBits := by
      simp only [Capacity.wordBound]
      omega
    simp [Capacity.isIndex, hlow]
  rw [ofFrame, if_neg (by omega), Capacity.demand_of_no_room (Bool.not_eq_true _ ▸ hroom), hindexes]
  simp only [decide_eq_true_eq]
  rfl

/-- With room for the memories, the literals are painted, and then there must be room for the
rows. -/
theorem ofFrame_of_hasBuffers (f : Frame) (hbits : 0 < shape.totalBits)
    (hbuffers : shape.HasBuffers) :
    ofFrame t nPis shape f =
      (paint t nPis f.inputLits (blank shape)).bind fun cells =>
        (Capacity.demand [shape.totalBits, shape.totalBits, shape.rowBits, shape.rowBits]).map
          fun _ => ⟨wordsOf shape cells⟩ := by
  rw [ofFrame, if_neg (by omega), (demand_buffers_iff hbits).2 hbuffers]
  rfl

/-- Without room for the rows, the fault is about memory. -/
theorem demand_rows_of_not_hasRoom (hbits : 0 < shape.totalBits) (hbuffers : shape.HasBuffers)
    (hroom : ¬shape.HasRoom) :
    Capacity.demand [shape.totalBits, shape.totalBits, shape.rowBits, shape.rowBits] =
      .error .memory := by
  have hword := lt_wordBound_of_hasBuffers hbuffers
  have hrows := rowBits_le hbits
  have htotal : Capacity.isIndex shape.totalBits = true :=
    Capacity.isIndex_of_range (Int.le_of_lt hbits) hword
  have hrow : Capacity.isIndex shape.rowBits = true :=
    Capacity.isIndex_of_range (rowBits_nonneg shape) (by omega)
  rw [Capacity.demand_of_no_room (Bool.not_eq_true _ ▸ hroom)]
  simp [htotal, hrow]

/-- With room for it, the picture of a frame is what its literals paint on a blank memory. -/
theorem ofFrame_of_hasRoom (f : Frame) (hbits : 0 < shape.totalBits) (hroom : shape.HasRoom) :
    ofFrame t nPis shape f =
      (paint t nPis f.inputLits (blank shape)).map fun cells => ⟨wordsOf shape cells⟩ := by
  rw [ofFrame_of_hasBuffers f hbits (hasBuffers_of_hasRoom hroom), (demand_rows_iff hbits).2 hroom]
  rfl

/-- A frame with a picture has room for it. -/
theorem hasRoom_of_ofFrame {f : Frame} {r : Rendering} (h : ofFrame t nPis shape f = .ok r) :
    0 < shape.totalBits ∧ shape.HasRoom := by
  unfold ofFrame at h
  split at h
  · contradiction
  · next hbits =>
    have hpos : 0 < shape.totalBits := by omega
    rcases bind_eq_ok_iff.1 h with ⟨_, -, h⟩
    rcases bind_eq_ok_iff.1 h with ⟨cells, -, h⟩
    rcases bind_eq_ok_iff.1 h with ⟨_, hrows, -⟩
    exact ⟨hpos, (demand_rows_iff hpos).1 hrows⟩

/-- The bits of a frame with a picture are numbered by words. -/
theorem lt_wordBound_of_ofFrame {f : Frame} {r : Rendering} (h : ofFrame t nPis shape f = .ok r) :
    shape.totalBits < Capacity.wordBound :=
  lt_wordBound_of_hasBuffers (hasBuffers_of_hasRoom (hasRoom_of_ofFrame h).2)

/-- When a frame has a picture, and which. -/
theorem ofFrame_eq_ok_iff {f : Frame} {r : Rendering} :
    ofFrame t nPis shape f = .ok r ↔
      (0 < shape.totalBits ∧ shape.HasRoom) ∧
        (∀ l ∈ f.inputLits, 0 ≤ l) ∧
        (∀ l ∈ f.inputLits, t.keeps nPis l = true →
          ∃ slot, t.target? nPis l = some slot ∧ 0 ≤ slot ∧ slot < shape.totalBits) ∧
        r = ⟨wordsOf shape (strokes t nPis f.inputLits (blank shape))⟩ := by
  have hpicture : 0 < shape.totalBits → shape.HasRoom →
      (ofFrame t nPis shape f = .ok r ↔ (∀ l ∈ f.inputLits, 0 ≤ l) ∧
        (∀ l ∈ f.inputLits, t.keeps nPis l = true →
          ∃ slot, t.target? nPis l = some slot ∧ 0 ≤ slot ∧ slot < shape.totalBits) ∧
        r = ⟨wordsOf shape (strokes t nPis f.inputLits (blank shape))⟩) := by
    intro hbits hroom
    have hsize : ((blank shape).size : Int) = shape.totalBits := by
      rw [size_blank]
      exact Int.toNat_of_nonneg (Int.le_of_lt hbits)
    rw [ofFrame_of_hasRoom f hbits hroom, map_eq_ok_iff]
    simp only [paint_eq_ok_iff, hsize]
    constructor
    · rintro ⟨cells, ⟨hnonneg, htargets, rfl⟩, rfl⟩
      exact ⟨hnonneg, htargets, rfl⟩
    · rintro ⟨hnonneg, htargets, rfl⟩
      exact ⟨_, ⟨hnonneg, htargets, rfl⟩, rfl⟩
  constructor
  · intro h
    have hroom := hasRoom_of_ofFrame h
    exact ⟨hroom, (hpicture hroom.1 hroom.2).1 h⟩
  · intro h
    exact (hpicture h.1.1 h.1.2).2 h.2

/-- The words of a picture are those of the memory that its literals leave. -/
theorem ofFrame_eq_ok {f : Frame} {r : Rendering} (h : ofFrame t nPis shape f = .ok r) :
    (∀ l ∈ f.inputLits, 0 ≤ l) ∧
      (∀ l ∈ f.inputLits, t.keeps nPis l = true →
        ∃ slot, t.target? nPis l = some slot ∧ 0 ≤ slot ∧ slot < shape.totalBits) ∧
      r = ⟨wordsOf shape (strokes t nPis f.inputLits (blank shape))⟩ :=
  (ofFrame_eq_ok_iff.1 h).2

/-- Frames whose literals paint the same have the same picture, or fail in the same way. -/
theorem ofFrame_congr {f g : Frame}
    (h : paint t nPis f.inputLits (blank shape) = paint t nPis g.inputLits (blank shape)) :
    ofFrame t nPis shape f = ofFrame t nPis shape g := by
  rw [ofFrame, ofFrame, h]

/-- A frame without negative input literals has a picture in the shape of the placement exactly if
there is room for it and the kept literals have positions. -/
theorem exists_ofFrame_iff (ht : t.WellFormed) {f : Frame} (hnonneg : ∀ l ∈ f.inputLits, 0 ≤ l) :
    (∃ r, ofFrame t nPis t.shape f = .ok r) ↔
      t.shape.HasRoom ∧
        ∀ l ∈ f.inputLits, t.keeps nPis l = true → ∃ slot, t.slotAt? (l / 2) = some slot := by
  constructor
  · intro hpicture
    rcases hpicture with ⟨r, hpicture⟩
    rcases ofFrame_eq_ok_iff.1 hpicture with ⟨⟨-, hroom⟩, -, htargets, -⟩
    refine ⟨hroom, ?_⟩
    intro l hl hkeeps
    rcases htargets l hl hkeeps with ⟨slot, htarget, -⟩
    exact ⟨slot, (Placement.target?_eq_some_iff.1 htarget).2⟩
  · intro h
    rcases h with ⟨hroom, hslots⟩
    have hbits : 0 < t.shape.totalBits := Int.mul_pos ht.instLen_pos ht.nInsts_pos
    refine ⟨_, ofFrame_eq_ok_iff.2 ⟨⟨hbits, hroom⟩, hnonneg, ?_, rfl⟩⟩
    intro l hl hkeeps
    rcases hslots l hl hkeeps with ⟨slot, hslot⟩
    exact ⟨slot, Placement.target?_eq_some_iff.2 ⟨hkeeps, hslot⟩, ht.slot_range hslot⟩

/-- A frame without negative input literals has a picture in the shape of an indexed placement
exactly if there is room for it. -/
theorem exists_ofFrame_iff_hasRoom (ht : t.WellFormed) (hindexed : t.Indexed) {f : Frame}
    (hnonneg : ∀ l ∈ f.inputLits, 0 ≤ l) :
    (∃ r, ofFrame t nPis t.shape f = .ok r) ↔ t.shape.HasRoom := by
  rw [exists_ofFrame_iff ht hnonneg, and_iff_left_iff_imp]
  exact fun _ l _ hkeeps => hindexed.exists_slotAt hkeeps

/-- Without room its fault is about memory, or about the size of a list. -/
theorem ofFrame_of_not_hasRoom (ht : t.WellFormed) (hindexed : t.Indexed) {f : Frame}
    (hnonneg : ∀ l ∈ f.inputLits, 0 ≤ l) (hroom : ¬t.shape.HasRoom) :
    ofFrame t nPis t.shape f =
      .error (if t.totalBits < Capacity.wordBound then .memory else .unbounded) := by
  have hbits : 0 < t.shape.totalBits := Int.mul_pos ht.instLen_pos ht.nInsts_pos
  by_cases hbuffers : t.shape.HasBuffers
  · have hslots : ∀ l ∈ f.inputLits, t.keeps nPis l = true →
        ∃ slot, t.slotAt? (l / 2) = some slot ∧ 0 ≤ slot ∧ slot < (blank t.shape).size := by
      intro l _ hkeeps
      rcases hindexed.exists_slotAt hkeeps with ⟨slot, hslot⟩
      exact ⟨slot, hslot, slot_lt_size_blank ht hslot⟩
    rcases exists_paint nPis hnonneg hslots with ⟨cells, hpaint⟩
    have hword : t.totalBits < Capacity.wordBound := lt_wordBound_of_hasBuffers hbuffers
    rw [ofFrame_of_hasBuffers f hbits hbuffers, hpaint, if_pos hword, Except.bind,
      demand_rows_of_not_hasRoom hbits hbuffers hroom]
    rfl
  · exact ofFrame_of_not_hasBuffers f hbits hbuffers

end Room

/-! ## Rows -/

/-- The character that rows show for a position of the memory. -/
def shownAt (instLen : Int) (rows : List String) (slot : Int) : Option Char :=
  rows[(slot / instLen).toNat]?.bind fun row => row.toList[(instLen - 1 - slot % instLen).toNat]?

/-- Rows show the view of the cell at a position. -/
theorem shownAt_map (view : Cell → Char) {shape : Shape} {cells : Array Cell} {slot : Int}
    (hsize : cells.size = shape.instLen.toNat * shape.nInsts.toNat) (hlen : 0 < shape.instLen)
    (hlow : 0 ≤ slot) (hhigh : slot < shape.totalBits) :
    shownAt shape.instLen
        ((wordsOf shape cells).map fun word => String.ofList (word.map view)) slot =
      cells[slot.toNat]?.map view := by
  rw [← getElem?_wordsOf_slot hsize hlen hlow hhigh, shownAt, List.getElem?_map]
  cases (wordsOf shape cells)[(slot / shape.instLen).toNat]? with
  | none => rfl
  | some word =>
    simp only [Option.map_some, Option.bind_some, String.toList_ofList, List.getElem?_map]

/-- A picture in the shape of the placement shows the last literal on each position. -/
theorem shownAt_ofFrame [Memory] {t : Placement} (ht : t.WellFormed) {nPis : Int} {f : Frame}
    {r : Rendering} (h : ofFrame t nPis t.shape f = .ok r) {input slot : Int}
    (hslot : t.slotAt? input = some slot) :
    shownAt t.instLen r.generalized slot =
      some (Cell.generalized
        ((lastOn t nPis f.inputLits slot).map Literal.assertsVariable)) := by
  rcases ofFrame_eq_ok h with ⟨-, -, rfl⟩
  rcases ht.slot_range hslot with ⟨hlow, hhigh⟩
  have hsize := (size_strokes t nPis f.inputLits (blank t.shape)).trans
    (size_blank_eq_mul t.shape ht.instLen_pos ht.nInsts_pos)
  have hrange : slot.toNat < (blank t.shape).size := by
    have htotal : t.totalBits = t.shape.totalBits := rfl
    rw [size_blank]
    omega
  have hcell := getElem?_blank hrange
  have hrows := shownAt_map Cell.generalized hsize ht.instLen_pos hlow hhigh
  rw [getElem?_strokes ht nPis f.inputLits hlow (by omega), hcell] at hrows
  refine hrows.trans ?_
  cases lastOn t nPis f.inputLits slot <;> rfl

end Rendering
end ImemReplay
