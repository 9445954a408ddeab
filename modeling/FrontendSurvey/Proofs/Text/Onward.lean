import FrontendSurvey.Proofs.Text.Words

set_option autoImplicit false

namespace FrontendSurvey.Text

variable {α β γ : Type} {before : Option Char} {s t word rest : List Char} {c : Char}

def behindGap? : List Char → Option (List Char)
  | c :: r => if isBlank c then some (r.dropWhile isBlank) else none
  | [] => none

theorem findSome?_flatMap (xs : List α) (f : α → List β) (find : β → Option γ) :
    (xs.flatMap f).findSome? find = xs.findSome? fun x => (f x).findSome? find := by
  induction xs with
  | nil => rfl
  | cons x xs ih =>
    rw [List.flatMap_cons, List.findSome?_append, ih, List.findSome?_cons]
    cases (f x).findSome? find <;> rfl

theorem dropPrefix?_cons (a : Char) (word : List Char) (c : Char) (s : List Char) :
    (c :: s).dropPrefix? (a :: word) = if c = a then s.dropPrefix? word else none := by
  simp [List.dropPrefix?]

theorem dropPrefix?_of_ne {a : Char} (other : c ≠ a) (r : List Char) : (c :: r).dropPrefix? (a :: word) = none := by
  rw [dropPrefix?_cons, if_neg other]

theorem dropPrefix?_eq_some_iff : s.dropPrefix? word = some rest ↔ s = word ++ rest := by
  simp [List.dropPrefix?_eq_some_iff]

theorem dropPrefix?_joined (clean : '\n' ∉ word) (s t : List Char) :
    (s ++ '\n' :: t).dropPrefix? word = (s.dropPrefix? word).map (· ++ '\n' :: t) := by
  induction word generalizing s with
  | nil => simp
  | cons a word ih =>
    obtain ⟨first, others⟩ := not_or.1 (mt List.mem_cons.2 clean)
    cases s with
    | nil => rw [List.nil_append, dropPrefix?_cons, if_neg first]; rfl
    | cons c s =>
      rw [List.cons_append, dropPrefix?_cons, dropPrefix?_cons, ih others]
      split <;> rfl

theorem ne_of_blank {a : Char} (blank : isBlank c = true) (other : isBlank a = false) : c ≠ a := by
  intro same
  rw [same, other] at blank
  cases blank

theorem dropWhile_blank_append (gap : InGap s) (t : List Char) :
    (s ++ t).dropWhile isBlank = t.dropWhile isBlank :=
  List.dropWhile_append_of_pos gap

theorem dropWhile_blank_ne_nil (some : ¬ InGap s) : s.dropWhile isBlank ≠ [] := by
  intro nothing
  exact some (List.dropWhile_eq_nil_iff.1 nothing)

theorem dropWhile_joined (some : ¬ InGap s) (t : List Char) :
    (s ++ t).dropWhile isBlank = s.dropWhile isBlank ++ t := by
  simp [List.dropWhile_append, dropWhile_blank_ne_nil some]

theorem behindGap?_joined_gap (gap : InGap s) (t : List Char) :
    behindGap? (s ++ '\n' :: t) = some (t.dropWhile isBlank) := by
  cases s with
  | nil => rfl
  | cons c s =>
    obtain ⟨first, others⟩ := List.forall_mem_cons.1 gap
    rw [List.cons_append, behindGap?, if_pos first, dropWhile_blank_append others]
    rfl

theorem behindGap?_joined (some : ¬ InGap s) (t : List Char) :
    behindGap? (s ++ t) = (behindGap? s).map (· ++ t) := by
  cases s with
  | nil => exact absurd (fun _ member => absurd member List.not_mem_nil) some
  | cons c s =>
    rw [List.cons_append, behindGap?, behindGap?]
    split
    next blank =>
      have more : ¬ InGap s := fun others => some (List.forall_mem_cons.2 ⟨blank, others⟩)
      rw [dropWhile_joined more, Option.map_some]
    next => rfl

theorem behindGap?_gap (gap : InGap s) : behindGap? s = none ∨ behindGap? s = some [] := by
  cases s with
  | nil => exact .inl rfl
  | cons c s =>
    obtain ⟨first, others⟩ := List.forall_mem_cons.1 gap
    rw [behindGap?, if_pos first, List.dropWhile_eq_nil_iff.2 others]
    exact .inr rfl

theorem parts_of_behindGap? (found : behindGap? s = some rest) :
    ∃ gap, s = gap ++ rest ∧ gap ≠ [] ∧ InGap gap ∧ ∀ c ∈ rest.head?, isBlank c = false := by
  cases s with
  | nil => cases found
  | cons c s =>
    rw [behindGap?] at found
    split at found
    next blank =>
      have same : s.dropWhile isBlank = rest := Option.some.inj found
      refine ⟨c :: s.takeWhile isBlank, ?_, by simp, ?_, ?_⟩
      · rw [← same, List.cons_append, List.takeWhile_append_dropWhile]
      · exact List.forall_mem_cons.2 ⟨blank, List.all_eq_true.1 List.all_takeWhile⟩
      · intro d first
        have head := List.head?_dropWhile_not isBlank s
        rw [same, Option.mem_def.1 first] at head
        simpa using head
    next => cases found

namespace Pattern

variable {find : List Char → Option α}

theorem findSome?_literal (word : List Char) (before : Option Char) (s : List Char) (find : Cursor → Option α) :
    ((literal word).ends ⟨before, s⟩).findSome? find =
      (s.dropPrefix? word).bind fun rest => find ⟨past before word, rest⟩ := by
  induction word using literal.induct generalizing before s with
  | case1 => simp [literal]
  | case2 a =>
    cases s with
    | nil => rfl
    | cons c s =>
      rw [dropPrefix?_cons]
      by_cases same : c = a <;> simp [literal, is, same]
  | case3 a word other ih =>
    rw [literal]
    · cases s with
      | nil => rfl
      | cons c s =>
        rw [dropPrefix?_cons]
        by_cases same : c = a <;> simp [is, same, ih]
    · exact other

theorem findSome?_of_skips {ok : Char → Bool}
    (skips : ∀ a r, ok a = true → find (a :: r) = none ∨ find (a :: r) = find r) (s : List Char)
    (inside : ∀ c ∈ s, ok c = true) (t : List Char) : find (s ++ t) = none ∨ find (s ++ t) = find t := by
  induction s with
  | nil => exact .inr rfl
  | cons a r ih =>
    obtain ⟨first, others⟩ := List.forall_mem_cons.1 inside
    cases skips a (r ++ t) first with
    | inl nothing => exact .inl nothing
    | inr same =>
      rw [List.cons_append, same]
      exact ih others

-- Wherever a run may end, nothing else is found than behind the whole run.
theorem findSome?_run_skips {ok : Char → Bool}
    (skips : ∀ a r, ok a = true → find (a :: r) = none ∨ find (a :: r) = find r) (before : Option Char)
    (s : List Char) : ((run ok).ends ⟨before, s⟩).findSome? (fun c => find c.rest) = find (s.dropWhile ok) := by
  rw [ends]
  induction s generalizing before with
  | nil => simp [runEnds]
  | cons a r ih =>
    by_cases inside : ok a = true
    next =>
      have whole : find (a :: r) = none ∨ find (a :: r) = find (r.dropWhile ok) := by
        have split : a :: r = (a :: r.takeWhile ok) ++ r.dropWhile ok := by simp
        rw [split]
        exact findSome?_of_skips skips _ (List.forall_mem_cons.2 ⟨inside, List.all_eq_true.1 List.all_takeWhile⟩) _
      simp only [runEnds, inside, if_true, List.reverse_cons, List.findSome?_append, ih,
        List.dropWhile_cons_of_pos, List.findSome?_cons, List.findSome?_nil]
      cases behind : find (r.dropWhile ok) with
      | none =>
        rw [behind, or_self] at whole
        simp [whole]
      | some x => simp
    next => simp [runEnds, inside]

theorem findSome?_someBlanks
    (skips : ∀ a r, isBlank a = true → find (a :: r) = none ∨ find (a :: r) = find r) (before : Option Char)
    (s : List Char) : (someBlanks.ends ⟨before, s⟩).findSome? (fun c => find c.rest) = (behindGap? s).bind find := by
  cases s with
  | nil => rfl
  | cons c s =>
    have behind := findSome?_run_skips skips (some c) s
    by_cases blank : isBlank c = true <;> simp [someBlanks, blanks, behindGap?, blank, behind]

theorem findSome?_shortRun_cons (ok : Char → Bool) (find : Cursor → Option α) (before : Option Char) (a : Char)
    (r : List Char) : ((shortRun ok).ends ⟨before, a :: r⟩).findSome? find =
      (find ⟨before, a :: r⟩).or (if ok a then ((shortRun ok).ends ⟨some a, r⟩).findSome? find else none) := by
  rw [ends, runEnds, List.findSome?_cons]
  cases find ⟨before, a :: r⟩ with
  | none => by_cases inside : ok a = true <;> simp [ends, inside]
  | some x => rfl

end Pattern

end FrontendSurvey.Text
