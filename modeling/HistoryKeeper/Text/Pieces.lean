/-!
# Pieces

`pieces` cuts a text at every separator. Joined with the separator the pieces are the text again
(`flatten_intersperse_pieces`), and no piece holds the separator (`not_mem_of_mem_pieces`).
-/

namespace HistoryKeeper.Text

/-- The pieces between separators; there is one more than there are separators. -/
def pieces (separator : Char) : List Char → List (List Char)
  | [] => [[]]
  | c :: cs =>
    if c = separator then [] :: pieces separator cs
    else
      match pieces separator cs with
      | [] => [[c]]
      | piece :: rest => (c :: piece) :: rest

theorem pieces_ne_nil (separator : Char) (cs : List Char) : pieces separator cs ≠ [] := by
  cases cs with
  | nil => simp [pieces]
  | cons c cs =>
    simp only [pieces]
    split
    · simp
    · split <;> simp

theorem flatten_intersperse_pieces (separator : Char) (cs : List Char) :
    ((pieces separator cs).intersperse [separator]).flatten = cs := by
  induction cs with
  | nil => simp [pieces]
  | cons c cs ih =>
    obtain ⟨piece, rest, h⟩ := List.exists_cons_of_ne_nil (pieces_ne_nil separator cs)
    rw [h] at ih
    by_cases hc : c = separator
    · simp [pieces, hc, h, ih]
    · cases rest with
      | nil => simpa [pieces, hc, h] using ih
      | cons next rest => simpa [pieces, hc, h] using ih

theorem not_mem_of_mem_pieces {separator : Char} {cs piece : List Char}
    (h : piece ∈ pieces separator cs) : separator ∉ piece := by
  induction cs generalizing piece with
  | nil => simp_all [pieces]
  | cons c cs ih =>
    obtain ⟨first, rest, hp⟩ := List.exists_cons_of_ne_nil (pieces_ne_nil separator cs)
    rw [hp] at ih
    by_cases hc : c = separator
    · rw [pieces, if_pos hc, hp, List.mem_cons] at h
      rcases h with rfl | h
      · simp
      · exact ih h
    · rw [pieces, if_neg hc, hp, List.mem_cons] at h
      rcases h with rfl | h
      · simp [ih (List.mem_cons_self ..), Ne.symm hc]
      · exact ih (List.mem_cons_of_mem _ h)

end HistoryKeeper.Text
