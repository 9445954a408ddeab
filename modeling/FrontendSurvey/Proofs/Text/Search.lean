import FrontendSurvey.Text.Pattern

set_option autoImplicit false

namespace FrontendSurvey.Text

variable {α : Type}

def past (before : Option Char) : List Char → Option Char
  | [] => before
  | a :: r => past (some a) r

@[simp] theorem past_nil (before : Option Char) : past before [] = before := rfl

@[simp] theorem past_cons (before : Option Char) (a : Char) (r : List Char) :
    past before (a :: r) = past (some a) r := rfl

@[simp] theorem past_append (before : Option Char) (s t : List Char) :
    past before (s ++ t) = past (past before s) t := by
  induction s generalizing before with
  | nil => rfl
  | cons a r ih => exact ih (some a)

theorem Cursor.upTo_eq {a b : Cursor} {s : List Char} (between : a.rest = s ++ b.rest) :
    a.upTo b = s := by
  simp [upTo, between]

theorem span_append {ok : Char → Bool} {s t : List Char} (inside : ∀ c ∈ s, ok c = true)
    (ends : ∀ c ∈ t.head?, ok c = false) : (s ++ t).takeWhile ok = s ∧ (s ++ t).dropWhile ok = t := by
  rw [List.takeWhile_append_of_pos inside, List.dropWhile_append_of_pos inside]
  cases t with
  | nil => simp
  | cons c r => simp [ends c rfl]

theorem eq_of_span {ok : Char → Bool} {s t s' t' : List Char} (inside : ∀ c ∈ s, ok c = true)
    (ends : ∀ c ∈ t.head?, ok c = false) (inside' : ∀ c ∈ s', ok c = true)
    (ends' : ∀ c ∈ t'.head?, ok c = false) (same : s ++ t = s' ++ t') : s = s' ∧ t = t' := by
  have first := span_append inside ends
  have second := span_append inside' ends'
  rw [same, second.1, second.2] at first
  exact ⟨first.1.symm, first.2.symm⟩

theorem reverse_runEnds (ok : Char → Bool) (before : Option Char) (s : List Char) :
    ∃ nearer, (runEnds ok before s).reverse =
        ⟨past before (s.takeWhile ok), s.dropWhile ok⟩ :: nearer ∧
      ∀ c ∈ nearer, ∃ before a r, c = ⟨before, a :: r⟩ ∧ ok a = true := by
  induction s generalizing before with
  | nil => exact ⟨[], rfl, by simp⟩
  | cons a r ih =>
    by_cases inside : ok a = true
    · obtain ⟨nearer, runs, within⟩ := ih (some a)
      refine ⟨nearer ++ [⟨before, a :: r⟩], by simp [runEnds, inside, runs], ?_⟩
      intro c member
      rcases List.mem_append.1 member with earlier | last
      · exact within c earlier
      · exact ⟨before, a, r, List.mem_singleton.1 last, inside⟩
    · exact ⟨[], by simp [runEnds, inside], by simp⟩

theorem flatMap_run {ok : Char → Bool} {next : Cursor → List α}
    (apart : ∀ before a r, ok a = true → next ⟨before, a :: r⟩ = []) (before : Option Char)
    (s : List Char) : (runEnds ok before s).reverse.flatMap next =
      next ⟨past before (s.takeWhile ok), s.dropWhile ok⟩ := by
  obtain ⟨nearer, runs, within⟩ := reverse_runEnds ok before s
  have nothing : nearer.flatMap next = [] := by
    rw [List.flatMap_eq_nil_iff]
    intro c member
    obtain ⟨before, a, r, rfl, inside⟩ := within c member
    exact apart before a r inside
  rw [runs, List.flatMap_cons, nothing, List.append_nil]

theorem findSome?_run {ok : Char → Bool} {next : Cursor → Option α}
    (apart : ∀ before a r, ok a = true → next ⟨before, a :: r⟩ = none) (before : Option Char)
    (s : List Char) : (runEnds ok before s).reverse.findSome? next =
      next ⟨past before (s.takeWhile ok), s.dropWhile ok⟩ := by
  obtain ⟨nearer, runs, within⟩ := reverse_runEnds ok before s
  have nothing : nearer.findSome? next = none := by
    rw [List.findSome?_eq_none_iff]
    intro c member
    obtain ⟨before, a, r, rfl, inside⟩ := within c member
    exact apart before a r inside
  rw [runs, List.findSome?_cons, nothing]
  cases next ⟨past before (s.takeWhile ok), s.dropWhile ok⟩ <;> rfl

section Search

variable {find : Cursor → Option (α × Cursor)}

@[simp] theorem searchFrom_nil (before : Option Char) : searchFrom find before [] 0 = [] := by
  rw [searchFrom]

theorem searchFrom_skip (before : Option Char) (s t : List Char) :
    searchFrom find before (s ++ t) s.length = searchFrom find (past before s) t 0 := by
  induction s generalizing before with
  | nil => rfl
  | cons a r ih => exact ih (some a)

theorem searchFrom_none {before : Option Char} {a : Char} {r : List Char}
    (nothing : find ⟨before, a :: r⟩ = none) :
    searchFrom find before (a :: r) 0 = searchFrom find (some a) r 0 := by
  rw [searchFrom, nothing]

theorem searchFrom_pass {before : Option Char} {s t : List Char}
    (nothing : ∀ u v, s = u ++ v → v ≠ [] → find ⟨past before u, v ++ t⟩ = none) :
    searchFrom find before (s ++ t) 0 = searchFrom find (past before s) t 0 := by
  induction s generalizing before with
  | nil => rfl
  | cons a r ih =>
    have first : find ⟨before, a :: (r ++ t)⟩ = none := nothing [] (a :: r) rfl (by simp)
    rw [List.cons_append, searchFrom_none first]
    apply ih
    intro u v split some
    exact nothing (a :: u) v (by rw [split, List.cons_append]) some

theorem searchFrom_eq_nil_iff {before : Option Char} {s : List Char} : searchFrom find before s 0 = [] ↔
    ∀ u v, s = u ++ v → v ≠ [] → find ⟨past before u, v⟩ = none := by
  constructor
  · intro nothing u v split some
    induction u generalizing before s with
    | nil =>
      cases v with
      | nil => exact absurd rfl some
      | cons a r =>
        subst split
        cases found : find ⟨before, a :: r⟩ with
        | none => exact found
        | some taken => simp [searchFrom, found] at nothing
    | cons a u ih =>
      subst split
      cases found : find ⟨before, a :: (u ++ v)⟩ with
      | none =>
        rw [List.cons_append, searchFrom_none found] at nothing
        exact ih nothing rfl
      | some taken => simp [searchFrom, found] at nothing
  · intro nothing
    have passed := searchFrom_pass (t := []) fun u v split some => by simpa using nothing u v split some
    simpa using passed

theorem searchFrom_some {before : Option Char} {s t : List Char} {x : α} {e : Cursor} (begun : s ≠ [])
    (found : find ⟨before, s ++ t⟩ = some (x, e)) (rest : e.rest = t) :
    searchFrom find before (s ++ t) 0 = x :: searchFrom find (past before s) t 0 := by
  obtain ⟨a, r, rfl⟩ := List.exists_cons_of_ne_nil begun
  have behind : (r ++ t).length - e.rest.length = r.length := by simp [rest]
  rw [List.cons_append] at found ⊢
  rw [searchFrom, found]
  simp only [behind, searchFrom_skip, past_cons]

theorem exists_of_mem_searchFrom {before : Option Char} {s : List Char} {skip : Nat} {x : α}
    (member : x ∈ searchFrom find before s skip) : ∃ a e, find a = some (x, e) := by
  induction s generalizing before skip with
  | nil =>
    rw [searchFrom] at member
    cases member
  | cons c r ih =>
    cases skip with
    | succ skip => exact ih member
    | zero =>
      cases found : find ⟨before, c :: r⟩ with
      | none =>
        rw [searchFrom_none found] at member
        exact ih member
      | some taken =>
        rw [searchFrom, found] at member
        cases List.mem_cons.1 member with
        | inl first => exact ⟨_, taken.2, by rw [found, first]⟩
        | inr later => exact ih later

end Search

end FrontendSurvey.Text
