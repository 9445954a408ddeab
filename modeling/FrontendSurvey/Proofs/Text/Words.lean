import FrontendSurvey.Proofs.Text.Matching

set_option autoImplicit false

namespace FrontendSurvey.Text

def words (s : List Char) : List (List Char) :=
  (s.splitOnP fun c => !isWordChar c).filter (· ≠ [])

def InWord (s : List Char) : Prop := ∀ c ∈ s, isWordChar c = true

def InGap (s : List Char) : Prop := ∀ c ∈ s, isBlank c = true

variable {before : Option Char} {s t rest run : List Char} {c : Char}

theorem words_skip (outside : isWordChar c = false) (s : List Char) : words (c :: s) = words s := by
  simp [words, List.splitOnP_cons_eq_if_modifyHead, outside]

theorem words_run (begun : run ≠ []) (inside : InWord run) (ends : rest.head?.any isWordChar = false) :
    words (run ++ rest) = run :: words rest := by
  have within : ∀ c ∈ run, (!isWordChar c) = false := by
    intro c member
    simp [inside c member]
  cases rest with
  | nil =>
    have whole := List.splitOnP_eq_singleton within
    simp [words, whole, begun]
  | cons c rest =>
    have outside : isWordChar c = false := ends
    have first := List.splitOnP_append_cons_of_forall_mem within c (by simp [outside]) rest
    rw [words_skip outside]
    simp [words, first, begun]

theorem exists_run_of_letter (letter : isWordChar c = true) (s : List Char) : ∃ run rest,
    c :: s = run ++ rest ∧ run ≠ [] ∧ InWord run ∧ rest.head?.any isWordChar = false := by
  refine ⟨(c :: s).takeWhile isWordChar, (c :: s).dropWhile isWordChar,
    List.takeWhile_append_dropWhile.symm, by simp [letter], List.all_eq_true.1 List.all_takeWhile, ?_⟩
  have head := List.head?_dropWhile_not isWordChar (c :: s)
  cases found : ((c :: s).dropWhile isWordChar).head? with
  | none => rfl
  | some d => simpa [found] using head

theorem ends_word_iff : rest.head?.any isWordChar = false ↔ ∀ c ∈ rest.head?, isWordChar c = false := by
  cases rest <;> simp

namespace Pattern

theorem any_past (begun : run ≠ []) (inside : InWord run) : (past before run).any isWordChar = true := by
  have last : ∃ r c, run = r ++ [c] := by simpa [begun] using List.eq_nil_or_concat run
  obtain ⟨r, c, rfl⟩ := last
  simp [inside c]

theorem matches_boundary_behind (inside : before.any isWordChar = true) :
    boundary.Matches before s rest ↔ s = [] ∧ rest.head?.any isWordChar = false := by
  cases before with
  | none => cases inside
  | some c =>
    have letter : isWordChar c = true := inside
    cases rest <;> simp [boundary, Cursor.afterWordChar, Cursor.beforeWordChar, letter]

section

variable {name : String} (begun : name.toList ≠ []) (letters : InWord name.toList)
include begun letters

theorem matches_wholeWord : (wholeWord name).Matches before s rest ↔
    s = name.toList ∧ before.any isWordChar = false ∧ rest.head?.any isWordChar = false := by
  simp only [wholeWord, word, matches_append, matches_literal]
  generalize name.toList = run at begun letters
  have behind {before : Option Char} : (past before run).any isWordChar = true := any_past begun letters
  cases run with
  | nil => exact absurd rfl begun
  | cons c r =>
    have start : isWordChar c = true := letters c (by simp)
    constructor
    · rintro ⟨_, _, split, ⟨_, _, whole, first, same⟩, last⟩
      subst same
      have edge := (matches_boundary start _).1 first
      rw [edge.1, List.nil_append] at whole
      rw [whole, matches_boundary_behind behind] at last
      rw [split, whole, last.1, List.append_nil]
      exact ⟨rfl, edge.2, last.2⟩
    · rintro ⟨same, first, last⟩
      refine ⟨c :: r, [], by rw [same, List.append_nil], ⟨[], c :: r, rfl, ?_, rfl⟩, ?_⟩
      · exact (matches_boundary start _).2 ⟨rfl, first⟩
      · exact (matches_boundary_behind behind).2 ⟨rfl, last⟩

theorem find?_wholeWord_edge (edge : before.any isWordChar = true ∨ s.head?.any isWordChar = false) :
    (wholeWord name).find? ⟨before, s⟩ = none := by
  rw [find?_eq_none_iff]
  intro t rest split matched
  have parts := (matches_wholeWord begun letters).1 matched
  cases edge with
  | inl inside => simp [inside] at parts
  | inr outside =>
    have named : ∃ c r, name.toList = c :: r := List.exists_cons_of_ne_nil begun
    obtain ⟨c, r, spelled⟩ := named
    have start : isWordChar c = true := letters c (by simp [spelled])
    simp [split, parts.1, spelled, start] at outside

theorem search_word (apart : before.any isWordChar = false) (ends : rest.head?.any isWordChar = false) :
    searchFrom (wholeWord name).find? before (name.toList ++ rest) 0 =
      name.toList :: searchFrom (wholeWord name).find? (past before name.toList) rest 0 := by
  have matched : (wholeWord name).Matches before name.toList rest :=
    (matches_wholeWord begun letters).2 ⟨rfl, apart, ends⟩
  cases found : (wholeWord name).find? ⟨before, name.toList ++ rest⟩ with
  | none => exact absurd matched (find?_eq_none_iff.1 found _ rest rfl)
  | some taken =>
    obtain ⟨t, e⟩ := taken
    have here := matches_of_find? found
    have whole : t = name.toList := ((matches_wholeWord begun letters).1 here.2).1
    subst whole
    exact searchFrom_some begun found (List.append_cancel_left here.1).symm

theorem search_other (inside : InWord run) (ends : rest.head?.any isWordChar = false) (other : run ≠ name.toList) :
    searchFrom (wholeWord name).find? before (run ++ rest) 0 =
      searchFrom (wholeWord name).find? (past before run) rest 0 := by
  apply searchFrom_pass
  intro u v split some
  cases u with
  | nil =>
    rw [List.nil_append] at split
    rw [find?_eq_none_iff, ← split]
    intro t rest' same matched
    have parts := (matches_wholeWord begun letters).1 matched
    have whole := eq_of_span inside (ends_word_iff.1 ends) (parts.1 ▸ letters) (ends_word_iff.1 parts.2.2) same
    exact other (whole.1.trans parts.1)
  | cons a u =>
    apply find?_wholeWord_edge begun letters (.inl (any_past (by simp) _))
    intro c member
    exact inside c (split ▸ List.mem_append_left v member)

-- The search stands between words, or in front of a character that belongs to none.
theorem length_search_wholeWord (edge : before.any isWordChar = false ∨ s.head?.any isWordChar = false) :
    (searchFrom (wholeWord name).find? before s 0).length = (words s).count name.toList := by
  induction length : s.length using Nat.strong_induction_on generalizing before s with
  | _ n ih =>
    cases s with
    | nil => simp [words]
    | cons c r =>
      cases kind : isWordChar c with
      | false =>
        have nothing : (wholeWord name).find? ⟨before, c :: r⟩ = none :=
          find?_wholeWord_edge begun letters (.inr kind)
        rw [searchFrom_none nothing, words_skip kind]
        exact ih r.length (by simp [← length]) (.inl kind) rfl
      | true =>
        have apart : before.any isWordChar = false := by simpa [kind] using edge
        obtain ⟨run, rest, split, some, inside, ends⟩ := exists_run_of_letter kind r
        have less : rest.length < n := by
          have long := List.length_pos_of_ne_nil some
          rw [← length, split, List.length_append]
          omega
        have onward : (searchFrom (wholeWord name).find? (past before run) rest 0).length =
            (words rest).count name.toList := ih rest.length less (.inr ends) rfl
        rw [split, words_run some inside ends, List.count_cons]
        by_cases same : run = name.toList
        next =>
          subst same
          rw [search_word begun letters apart ends, List.length_cons, onward]
          simp
        next =>
          rw [search_other begun letters inside ends same, onward]
          simp [same]

theorem count_wholeWord (s : String) : (wholeWord name).count s = (words s.toList).count name.toList :=
  length_search_wholeWord begun letters (.inl rfl)

end

end Pattern

end FrontendSurvey.Text
