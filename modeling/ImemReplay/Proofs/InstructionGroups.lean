import ImemReplay.Assignment
import Mathlib.Data.List.Perm.Basic

/-!
# Assignments grouped by instruction

The instructions of assignments are sorted, each once, and the assignments of an instruction are
sorted by their bits from the highest down.  The sort is stable, so that assignments of one bit keep
their order, and the groups of all instructions hold every assignment once.

Main results:

- Theorem `pairwise_instructions`: the instructions ascend strictly.
- Theorem `filter_ofInstruction`: the assignments of one bit keep their order.
- Theorem `flatMap_ofInstruction_perm`: the groups hold all assignments, each as often as it was.
-/

namespace ImemReplay
namespace Assignment

/-! ## Instructions -/

theorem nodup_eraseDups (xs : List Int) : xs.eraseDups.Nodup := by
  match xs with
  | [] => exact List.nodup_nil
  | x :: xs =>
    rw [List.eraseDups_cons, List.nodup_cons, List.mem_eraseDups]
    exact ⟨by simp, nodup_eraseDups _⟩
termination_by xs.length
decreasing_by exact Nat.lt_succ_of_le (List.length_filter_le _ _)

/-- The instructions are those of the assignments. -/
theorem mem_instructions {rows : List Assignment} {inst : Int} :
    inst ∈ instructions rows ↔ ∃ row ∈ rows, row.inst = inst := by
  rw [instructions, List.mem_mergeSort, List.mem_eraseDups, List.mem_map]

theorem nodup_instructions (rows : List Assignment) : (instructions rows).Nodup :=
  (List.mergeSort_perm _ _).nodup_iff.2 (nodup_eraseDups _)

/-- The instructions ascend strictly. -/
theorem pairwise_instructions (rows : List Assignment) :
    (instructions rows).Pairwise (· < ·) := by
  have hsorted : (instructions rows).Pairwise fun a b => decide (a ≤ b) = true := by
    apply List.pairwise_mergeSort
    · simp only [decide_eq_true_eq]
      exact fun a b c hab hbc => Int.le_trans hab hbc
    · simp only [Bool.or_eq_true, decide_eq_true_eq]
      exact Int.le_total
  apply (hsorted.and (nodup_instructions rows)).imp
  intro a b h
  have hle := of_decide_eq_true h.1
  have hne := h.2
  omega

/-! ## Assignments of one instruction -/

/-- Higher bits come first. -/
def higherFirst (a b : Assignment) : Bool := b.bit ≤ a.bit

theorem ofInstruction_perm (rows : List Assignment) (inst : Int) :
    (ofInstruction rows inst).Perm (rows.filter (·.inst = inst)) :=
  List.mergeSort_perm _ _

theorem inst_of_mem_ofInstruction {rows : List Assignment} {inst : Int} {row : Assignment}
    (h : row ∈ ofInstruction rows inst) : row.inst = inst :=
  of_decide_eq_true (List.mem_filter.1 ((ofInstruction_perm rows inst).mem_iff.1 h)).2

theorem higherFirst_trans (a b c : Assignment) (hab : higherFirst a b = true)
    (hbc : higherFirst b c = true) : higherFirst a c = true := by
  simp only [higherFirst, decide_eq_true_eq] at hab hbc ⊢
  omega

theorem higherFirst_total (a b : Assignment) : (higherFirst a b || higherFirst b a) = true := by
  simp only [higherFirst, Bool.or_eq_true, decide_eq_true_eq]
  omega

/-- The bits of an instruction do not ascend. -/
theorem pairwise_ofInstruction (rows : List Assignment) (inst : Int) :
    (ofInstruction rows inst).Pairwise fun a b => b.bit ≤ a.bit := by
  have hsorted : (ofInstruction rows inst).Pairwise fun a b => higherFirst a b = true :=
    List.pairwise_mergeSort higherFirst_trans higherFirst_total _
  exact hsorted.imp fun h => of_decide_eq_true h

/-- The assignments of one bit keep their order. -/
theorem filter_ofInstruction (rows : List Assignment) (inst bit : Int) :
    (ofInstruction rows inst).filter (·.bit = bit) =
      rows.filter fun row => row.inst = inst ∧ row.bit = bit := by
  have hfilter : (rows.filter fun row => row.inst = inst ∧ row.bit = bit) =
      (rows.filter (·.inst = inst)).filter (·.bit = bit) := by
    rw [List.filter_filter]
    congr 1
    funext row
    rw [Bool.decide_and, Bool.and_comm]
  -- A stable sort keeps every sublist that is sorted already, and assignments of one bit are.
  have hlevel : ((rows.filter (·.inst = inst)).filter (·.bit = bit)).Pairwise
      fun a b => higherFirst a b = true := by
    apply List.pairwise_of_forall_mem_list
    intro a ha b hb
    have hbita := of_decide_eq_true (List.mem_filter.1 ha).2
    have hbitb := of_decide_eq_true (List.mem_filter.1 hb).2
    simp only [higherFirst, decide_eq_true_eq]
    omega
  have hsublist := List.sublist_mergeSort higherFirst_trans higherFirst_total hlevel
    List.filter_sublist
  have hkept := hsublist.filter fun row : Assignment => decide (row.bit = bit)
  rw [List.filter_eq_self.2 fun row hrow => (List.mem_filter.1 hrow).2] at hkept
  rw [hfilter]
  refine (hkept.eq_of_length ?_).symm
  exact ((ofInstruction_perm rows inst).filter _).length_eq.symm

/-! ## All assignments -/

/-- Assignments are distributed to their instructions, each to one. -/
theorem flatMap_filter_perm {insts : List Int} (hnodup : insts.Nodup) {rows : List Assignment}
    (h : ∀ row ∈ rows, row.inst ∈ insts) :
    (insts.flatMap fun inst => rows.filter (·.inst = inst)).Perm rows := by
  induction insts generalizing rows with
  | nil =>
    cases rows with
    | nil => exact .nil
    | cons row rows => exact absurd (h row List.mem_cons_self) List.not_mem_nil
  | cons inst insts ih =>
    rcases List.nodup_cons.1 hnodup with ⟨hinst, hinsts⟩
    have hothers : ∀ row ∈ rows.filter fun row => !decide (row.inst = inst), row.inst ∈ insts := by
      intro row hrow
      rcases List.mem_filter.1 hrow with ⟨hrow, hne⟩
      simp only [Bool.not_eq_true', decide_eq_false_iff_not] at hne
      exact (List.mem_cons.1 (h row hrow)).resolve_left hne
    have hrest : (insts.flatMap fun other => rows.filter (·.inst = other)) =
        insts.flatMap fun other =>
          (rows.filter fun row => !decide (row.inst = inst)).filter (·.inst = other) := by
      apply List.flatMap_congr
      intro other hother
      rw [List.filter_filter]
      apply List.filter_congr
      intro row _
      by_cases hrow : row.inst = other
      · have hne : ¬other = inst := by
          rintro rfl
          exact hinst hother
        simp [hrow, hne]
      · simp [hrow]
    rw [List.flatMap_cons, hrest]
    exact ((ih hinsts hothers).append_left _).trans
      (List.filter_append_perm (fun row => decide (row.inst = inst)) rows)

/-- The groups of all instructions hold every assignment as often as it was. -/
theorem flatMap_ofInstruction_perm (rows : List Assignment) :
    ((instructions rows).flatMap (ofInstruction rows)).Perm rows := by
  have hgroups : ((instructions rows).flatMap (ofInstruction rows)).Perm
      ((instructions rows).flatMap fun inst => rows.filter (·.inst = inst)) :=
    List.Perm.flatMap_left _ fun inst _ => ofInstruction_perm rows inst
  exact hgroups.trans (flatMap_filter_perm (nodup_instructions rows)
    fun row hrow => mem_instructions.2 ⟨row, hrow, rfl⟩)

end Assignment
end ImemReplay
