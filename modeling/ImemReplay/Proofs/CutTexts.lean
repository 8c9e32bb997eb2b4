import ImemReplay.Text.Parts

/-!
# Texts cut at separators

A text that was put together from parts is cut into them again, if no part holds the separator.  A
text of lines has a line break behind every line, so that nothing is left behind the last one.

Main results:

- Theorem `parts_intercalate`: parts with a separator between them are found again.
- Theorem `words_intercalate`: the same for texts.
- Theorem `lines_join`: lines with a line break behind each of them are found again.
- Theorem `mapM_map_of_read`: items are read back one by one.
-/

namespace ImemReplay
namespace Text

/-! ## Parts -/

/-- A text without the separator is its only part. -/
theorem parts_of_not_mem {separator : Char} {cs : List Char} (h : separator ∉ cs) :
    parts separator cs = [cs] := by
  induction cs with
  | nil => rfl
  | cons c cs ih =>
    rw [List.mem_cons, not_or] at h
    rw [parts, if_neg fun heq => h.1 heq.symm, ih h.2]

/-- The first separator ends the first part. -/
theorem parts_append_cons {separator : Char} {part : List Char} (h : separator ∉ part)
    (cs : List Char) :
    parts separator (part ++ separator :: cs) = part :: parts separator cs := by
  induction part with
  | nil => rw [List.nil_append, parts, if_pos rfl]
  | cons c part ih =>
    rw [List.mem_cons, not_or] at h
    rw [List.cons_append, parts, if_neg fun heq => h.1 heq.symm, ih h.2]

/-- Parts with a separator between them are found again. -/
theorem parts_intercalate {separator : Char} {ps : List (List Char)} (hne : ps ≠ [])
    (h : ∀ part ∈ ps, separator ∉ part) :
    parts separator (List.intercalate [separator] ps) = ps := by
  induction ps with
  | nil => contradiction
  | cons part ps ih =>
    rcases List.forall_mem_cons.1 h with ⟨hpart, hps⟩
    cases ps with
    | nil =>
      rw [List.intercalate_singleton]
      exact parts_of_not_mem hpart
    | cons next ps =>
      rw [List.intercalate_cons_cons, List.append_assoc, List.singleton_append,
        parts_append_cons hpart, ih (List.cons_ne_nil next ps) hps]

/-! ## Words and lines -/

/-- The words of a text between the separators. -/
def words (separator : Char) (text : String) : List String :=
  (parts separator text.toList).map String.ofList

theorem map_ofList_toList (texts : List String) :
    (texts.map String.toList).map String.ofList = texts := by
  rw [List.map_map]
  exact List.map_id'' (fun text => String.ofList_toList) texts

/-- Words with a separator between them are found again. -/
theorem words_intercalate {separator : Char} {ws : List String} (hne : ws ≠ [])
    (h : ∀ word ∈ ws, separator ∉ word.toList) :
    words separator ((String.singleton separator).intercalate ws) = ws := by
  have hparts : ∀ part ∈ ws.map String.toList, separator ∉ part := by
    intro part hpart
    rcases List.mem_map.1 hpart with ⟨word, hword, rfl⟩
    exact h word hword
  rw [words, String.toList_intercalate, String.toList_singleton,
    parts_intercalate (by simpa using hne) hparts, map_ofList_toList]

/-- A text with one separator has two words. -/
theorem words_pair {separator : Char} {first second : String} (hfirst : separator ∉ first.toList)
    (hsecond : separator ∉ second.toList) :
    words separator (first ++ String.singleton separator ++ second) = [first, second] := by
  have hwords : ∀ word ∈ [first, second], separator ∉ word.toList := by
    simp only [List.mem_cons, List.not_mem_nil, or_false, forall_eq_or_imp, forall_eq]
    exact ⟨hfirst, hsecond⟩
  have hpair : (String.singleton separator).intercalate [first, second] =
      first ++ String.singleton separator ++ second := by
    rw [String.intercalate_cons_cons, String.intercalate_singleton]
  rw [← hpair, words_intercalate (List.cons_ne_nil first [second]) hwords]

/-- A character that is in neither part of a text is not in the text. -/
theorem not_mem_append {c : Char} {front back : String} (hfront : c ∉ front.toList)
    (hback : c ∉ back.toList) : c ∉ (front ++ back).toList := by
  rw [String.toList_append, List.mem_append, not_or]
  exact ⟨hfront, hback⟩

/-- A character that is neither in the words nor in what stands between them is not in the text. -/
theorem not_mem_intercalate {c : Char} {between : String} (hbetween : c ∉ between.toList)
    {ws : List String} (h : ∀ word ∈ ws, c ∉ word.toList) :
    c ∉ (between.intercalate ws).toList := by
  induction ws with
  | nil => exact List.not_mem_nil
  | cons word ws ih =>
    rcases List.forall_mem_cons.1 h with ⟨hword, hws⟩
    cases ws with
    | nil => rwa [String.intercalate_singleton]
    | cons next ws =>
      rw [String.intercalate_cons_cons]
      exact not_mem_append (not_mem_append hword hbetween) (ih hws)

/-- The lines of a text, each in front of its line break. -/
def lines (text : String) : List String :=
  (parts '\n' text.toList).dropLast.map String.ofList

/-- Lines with a line break behind each of them are found again. -/
theorem lines_join {rows : List String} (h : ∀ row ∈ rows, '\n' ∉ row.toList) :
    lines (String.join (rows.map (· ++ "\n"))) = rows := by
  have hparts : parts '\n' (String.join (rows.map (· ++ "\n"))).toList =
      rows.map String.toList ++ [[]] := by
    induction rows with
    | nil => rfl
    | cons row rows ih =>
      rcases List.forall_mem_cons.1 h with ⟨hrow, hrows⟩
      have hbreak : "\n".toList = ['\n'] := rfl
      rw [List.map_cons, String.join_cons, String.toList_append, String.toList_append, hbreak,
        List.append_assoc, List.singleton_append, parts_append_cons hrow, ih hrows, List.map_cons,
        List.cons_append]
  rw [lines, hparts, List.dropLast_concat, map_ofList_toList]

/-- Items are read back one by one, if each is read back from what was written of it. -/
theorem mapM_map_of_read {α β : Type} {write : α → β} {read : β → Option α} {xs : List α}
    (h : ∀ x ∈ xs, read (write x) = some x) : (xs.map write).mapM read = some xs := by
  induction xs with
  | nil => rfl
  | cons x xs ih =>
    rcases List.forall_mem_cons.1 h with ⟨hx, hxs⟩
    rw [List.map_cons, List.mapM_cons, hx, ih hxs]
    rfl

end Text
end ImemReplay
