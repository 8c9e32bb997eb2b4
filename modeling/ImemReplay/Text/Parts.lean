/-!
# Parts of a text

A separator cuts a text into parts: a text without the separator is its only part, and each
separator begins another one.

Main results:

- Theorem `intercalate_parts`: the parts with the separator between them are the text.
- Theorem `not_mem_of_mem_parts`: no part holds the separator.
-/

namespace ImemReplay
namespace Text

/-- The parts of a text between the separators. -/
def parts (separator : Char) : List Char → List (List Char)
  | [] => [[]]
  | c :: cs =>
    if c = separator then [] :: parts separator cs
    else
      match parts separator cs with
      | [] => [[c]]
      | part :: rest => (c :: part) :: rest

theorem parts_ne_nil (separator : Char) (cs : List Char) : parts separator cs ≠ [] := by
  cases cs with
  | nil => simp [parts]
  | cons c cs =>
    simp only [parts]
    split
    · simp
    · split <;> simp

theorem intercalate_parts (separator : Char) (cs : List Char) :
    List.intercalate [separator] (parts separator cs) = cs := by
  induction cs with
  | nil => rfl
  | cons c cs ih =>
    obtain ⟨part, rest, hparts⟩ := List.exists_cons_of_ne_nil (parts_ne_nil separator cs)
    rw [hparts] at ih
    by_cases hc : c = separator
    · simp only [parts, if_pos hc, hparts]
      rw [List.intercalate_cons_cons, ih, hc]
      rfl
    · simp only [parts, if_neg hc, hparts]
      cases rest with
      | nil => simpa using ih
      | cons next rest =>
        rw [List.intercalate_cons_cons] at ih ⊢
        simpa using ih

theorem not_mem_of_mem_parts {separator : Char} {cs part : List Char}
    (h : part ∈ parts separator cs) : separator ∉ part := by
  induction cs generalizing part with
  | nil => simp_all [parts]
  | cons c cs ih =>
    obtain ⟨first, rest, hparts⟩ := List.exists_cons_of_ne_nil (parts_ne_nil separator cs)
    by_cases hc : c = separator
    · simp only [parts, if_pos hc, List.mem_cons] at h
      rcases h with rfl | h
      · simp
      · exact ih h
    · simp only [parts, if_neg hc, hparts, List.mem_cons] at h
      rcases h with rfl | h
      · have hfirst : separator ∉ first := ih (by simp [hparts])
        simpa [hfirst] using fun heq => hc heq.symm
      · exact ih (by simp [hparts, h])

end Text
end ImemReplay
