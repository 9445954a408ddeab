import FrontendSurvey.Text.Line

set_option autoImplicit false

namespace FrontendSurvey.Text

variable {α : Type} [DecidableEq α] {sep : α}

theorem splitAt_append (s t : List α) :
    splitAt sep (s ++ sep :: t) = splitAt sep s ++ splitAt sep t := by
  induction s with
  | nil => simp [splitAt]
  | cons a r ih =>
    simp only [List.cons_append, splitAt]
    split
    · simp [ih]
    · rw [ih]
      cases pieces : splitAt sep r with
      | nil => exact absurd pieces (splitAt_ne_nil sep r)
      | cons piece rest => rfl

theorem splitAt_of_not_mem {s : List α} (absent : sep ∉ s) : splitAt sep s = [s] := by
  induction s with
  | nil => rfl
  | cons a r ih =>
    simp only [List.mem_cons, not_or] at absent
    rw [splitAt, if_neg (Ne.symm absent.1), ih absent.2]

theorem not_mem_of_mem_splitAt {s piece : List α} (member : piece ∈ splitAt sep s) : sep ∉ piece := by
  induction s generalizing piece with
  | nil => simp_all [splitAt]
  | cons a r ih =>
    rw [splitAt] at member
    split at member
    next => rcases List.mem_cons.1 member with rfl | member <;> simp_all
    next differ =>
      cases pieces : splitAt sep r with
      | nil => exact absurd pieces (splitAt_ne_nil sep r)
      | cons first rest =>
        rw [pieces] at member
        rcases List.mem_cons.1 member with rfl | member
        · have clean : sep ∉ first := ih (by simp [pieces])
          simp [clean, Ne.symm differ]
        · exact ih (by simp [pieces, member])

theorem subset_of_mem_splitAt {s piece : List α} (member : piece ∈ splitAt sep s) : piece ⊆ s := by
  induction s generalizing piece with
  | nil =>
    rw [List.mem_singleton.1 member]
    exact List.nil_subset []
  | cons a r ih =>
    rw [splitAt] at member
    split at member
    next =>
      rcases List.mem_cons.1 member with rfl | member
      · exact List.nil_subset _
      · exact List.subset_cons_of_subset a (ih member)
    next =>
      cases pieces : splitAt sep r with
      | nil => exact absurd pieces (splitAt_ne_nil sep r)
      | cons first rest =>
        rw [pieces] at member
        rcases List.mem_cons.1 member with rfl | member
        · exact List.cons_subset_cons a (ih (by simp [pieces]))
        · exact List.subset_cons_of_subset a (ih (by simp [pieces, member]))

theorem splitAt_intercalate {pieces : List (List α)} (some : pieces ≠ [])
    (clean : ∀ piece ∈ pieces, sep ∉ piece) :
    splitAt sep (List.intercalate [sep] pieces) = pieces := by
  induction pieces with
  | nil => exact absurd rfl some
  | cons piece rest ih =>
    cases rest with
    | nil => simpa using splitAt_of_not_mem (clean piece (by simp))
    | cons second rest =>
      have joined : List.intercalate [sep] (piece :: second :: rest) =
          piece ++ sep :: List.intercalate [sep] (second :: rest) := by
        simp [List.intercalate]
      rw [joined, splitAt_append, splitAt_of_not_mem (clean piece (by simp)),
        ih (by simp) fun other member => clean other (by simp [member])]
      rfl

theorem intercalate_splitAt (s : List α) : List.intercalate [sep] (splitAt sep s) = s := by
  induction s with
  | nil => rfl
  | cons a r ih =>
    rw [splitAt]
    cases pieces : splitAt sep r with
    | nil => exact absurd pieces (splitAt_ne_nil sep r)
    | cons piece rest =>
      rw [pieces] at ih
      split
      next same => rw [← ih, same]; cases rest <;> rfl
      next => rw [← ih]; cases rest <;> rfl

-- The last piece of one text and the first piece of the next become one piece.
theorem exists_splitAt_append (sep : α) (s t : List α) : ∃ above last first below,
    splitAt sep s = above ++ [last] ∧ splitAt sep t = first :: below ∧
      splitAt sep (s ++ t) = above ++ (last ++ first) :: below := by
  induction s with
  | nil =>
    obtain ⟨first, below, pieces⟩ := List.exists_cons_of_ne_nil (splitAt_ne_nil sep t)
    exact ⟨[], [], first, below, rfl, pieces, pieces⟩
  | cons a r ih =>
    obtain ⟨above, last, first, below, left, right, both⟩ := ih
    rw [List.cons_append, splitAt, splitAt, left, both]
    split
    next => exact ⟨[] :: above, last, first, below, rfl, right, rfl⟩
    next =>
      cases above with
      | nil => exact ⟨[], a :: last, first, below, rfl, right, rfl⟩
      | cons piece above => exact ⟨(a :: piece) :: above, last, first, below, rfl, right, rfl⟩

omit [DecidableEq α] in
theorem intercalate_append (above : List (List α)) {below : List (List α)} (some : below ≠ []) :
    List.intercalate [sep] (above ++ below) =
      above.flatMap (· ++ [sep]) ++ List.intercalate [sep] below := by
  induction above with
  | nil => rfl
  | cons piece above ih =>
    obtain ⟨first, rest, joined⟩ := List.exists_cons_of_ne_nil (List.append_ne_nil_of_right_ne_nil above some)
    rw [List.cons_append, joined, List.intercalate_cons_cons, ← joined, ih, List.flatMap_cons]
    simp

end FrontendSurvey.Text
