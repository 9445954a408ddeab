import FrontendSurvey.Proofs.Text.Search
import Mathlib

set_option autoImplicit false

namespace FrontendSurvey.Text

inductive Repeats (matched : Option Char → List Char → List Char → Prop) :
    Option Char → List Char → List Char → Prop where
  | none (before : Option Char) (rest : List Char) : Repeats matched before [] rest
  | more {before : Option Char} {s t rest : List Char} (first : matched before s (t ++ rest))
      (others : Repeats matched (past before s) t rest) : Repeats matched before (s ++ t) rest

theorem Cursor.afterWordChar_eq (before : Option Char) (rest : List Char) :
    Cursor.afterWordChar ⟨before, rest⟩ = before.any isWordChar := by
  cases before <;> rfl

theorem Cursor.beforeWordChar_eq (before : Option Char) (rest : List Char) :
    Cursor.beforeWordChar ⟨before, rest⟩ = rest.head?.any isWordChar := by
  cases rest <;> rfl

namespace Pattern

def Matches : Pattern → Option Char → List Char → List Char → Prop
  | char ok, _, s, _ => ∃ a, s = [a] ∧ ok a = true
  | look ok, before, s, rest => s = [] ∧ ok ⟨before, rest⟩ = true
  | seq p q, before, s, rest =>
    ∃ u v, s = u ++ v ∧ p.Matches before u (v ++ rest) ∧ q.Matches (past before u) v rest
  | alt p q, before, s, rest => p.Matches before s rest ∨ q.Matches before s rest
  | run ok, _, s, _ => ∀ c ∈ s, ok c = true
  | shortRun ok, _, s, _ => ∀ c ∈ s, ok c = true
  | many p, before, s, rest => Repeats p.Matches before s rest

section

variable {ok : Char → Bool} {before : Option Char} {s t rest : List Char}

@[simp] theorem matches_char : (char ok).Matches before s rest ↔ ∃ a, s = [a] ∧ ok a = true := Iff.rfl

@[simp] theorem matches_look {ok : Cursor → Bool} :
    (look ok).Matches before s rest ↔ s = [] ∧ ok ⟨before, rest⟩ = true := Iff.rfl

theorem matches_append {p q : Pattern} : (p ++ q).Matches before s rest ↔
    ∃ u v, s = u ++ v ∧ p.Matches before u (v ++ rest) ∧ q.Matches (past before u) v rest := Iff.rfl

@[simp] theorem matches_run : (run ok).Matches before s rest ↔ ∀ c ∈ s, ok c = true := Iff.rfl

@[simp] theorem matches_is {a : Char} : (is a).Matches before s rest ↔ s = [a] := by
  simp [is]

theorem matches_literal {word : List Char} : (literal word).Matches before s rest ↔ s = word := by
  induction word using literal.induct generalizing before s rest with
  | case1 => simp [literal]
  | case2 a => simp [literal]
  | case3 a r other ih =>
    rw [literal]
    · simp only [matches_append, matches_is, ih]
      constructor
      · rintro ⟨_, _, rfl, rfl, rfl⟩
        rfl
      · rintro rfl
        exact ⟨[a], r, rfl, rfl, rfl⟩
    · exact other

theorem matches_some {ok : Char → Bool} :
    (char ok ++ run ok).Matches before s rest ↔ s ≠ [] ∧ ∀ c ∈ s, ok c = true := by
  simp only [matches_append, matches_char, matches_run]
  constructor
  · rintro ⟨_, v, rfl, ⟨a, rfl, first⟩, others⟩
    exact ⟨by simp, List.forall_mem_cons.2 ⟨first, others⟩⟩
  · rintro ⟨begun, all⟩
    obtain ⟨a, r, rfl⟩ := List.exists_cons_of_ne_nil begun
    obtain ⟨first, others⟩ := List.forall_mem_cons.1 all
    exact ⟨[a], r, rfl, ⟨a, rfl, first⟩, others⟩

theorem matches_boundary {c : Char} (inside : isWordChar c = true) (r : List Char) :
    boundary.Matches before s (c :: r) ↔ s = [] ∧ before.any isWordChar = false := by
  cases before <;> simp [boundary, Cursor.afterWordChar, Cursor.beforeWordChar, inside]

end

theorem mem_runEnds_iff {ok : Char → Bool} {before : Option Char} {s : List Char} {e : Cursor} :
    e ∈ runEnds ok before s ↔
      ∃ t rest, s = t ++ rest ∧ e = ⟨past before t, rest⟩ ∧ ∀ c ∈ t, ok c = true := by
  induction s generalizing before with
  | nil =>
    constructor
    · intro member
      exact ⟨[], [], rfl, List.mem_singleton.1 member, by simp⟩
    · rintro ⟨t, rest, split, rfl, -⟩
      obtain ⟨rfl, rfl⟩ := List.append_eq_nil_iff.1 split.symm
      simp [runEnds]
  | cons a r ih =>
    rw [runEnds, List.mem_cons]
    constructor
    · rintro (rfl | later)
      · exact ⟨[], a :: r, rfl, rfl, by simp⟩
      · split at later
        next inside =>
          obtain ⟨t, rest, rfl, rfl, within⟩ := ih.1 later
          exact ⟨a :: t, rest, rfl, rfl, List.forall_mem_cons.2 ⟨inside, within⟩⟩
        next => cases later
    · rintro ⟨_ | ⟨b, t⟩, rest, split, rfl, within⟩
      · exact .inl (by rw [split]; rfl)
      · obtain ⟨rfl, rfl⟩ := List.cons.inj split
        obtain ⟨inside, within⟩ := List.forall_mem_cons.1 within
        rw [if_pos inside]
        exact .inr (ih.2 ⟨t, rest, rfl, rfl, within⟩)

section Many

variable {step : Cursor → List Cursor} {matched : Option Char → List Char → List Char → Prop}

def Steps (step : Cursor → List Cursor) (matched : Option Char → List Char → List Char → Prop) : Prop :=
  ∀ before s e, e ∈ step ⟨before, s⟩ ↔
    ∃ t rest, s = t ++ rest ∧ e = ⟨past before t, rest⟩ ∧ matched before t rest

theorem Steps.of_mem_manyEnds (steps : Steps step matched) {n : Nat} {before : Option Char} {s : List Char}
    {e : Cursor} (member : e ∈ manyEnds step n ⟨before, s⟩) :
    ∃ t rest, s = t ++ rest ∧ e = ⟨past before t, rest⟩ ∧ Repeats matched before t rest := by
  induction n generalizing before s with
  | zero => exact ⟨[], s, rfl, List.mem_singleton.1 member, .none before s⟩
  | succ n ih =>
    rw [manyEnds, List.mem_append, List.mem_flatMap] at member
    rcases member with ⟨mid, first, later⟩ | stop
    · obtain ⟨t, rest, rfl, rfl, here⟩ := (steps before s mid).1 first
      obtain ⟨u, rest, rfl, rfl, others⟩ := ih later
      exact ⟨t ++ u, rest, by simp, by simp, .more here others⟩
    · exact ⟨[], s, rfl, List.mem_singleton.1 stop, .none before s⟩

-- Only the stretches that are not empty use the count up.
theorem Steps.mem_manyEnds (steps : Steps step matched) {before : Option Char} {t rest : List Char}
    (repeats : Repeats matched before t rest) {n : Nat} (enough : t.length ≤ n) :
    ⟨past before t, rest⟩ ∈ manyEnds step n ⟨before, t ++ rest⟩ := by
  induction repeats generalizing n with
  | none before rest => cases n <;> simp [manyEnds]
  | @more before s t rest first others ih =>
    have here : ⟨past before s, t ++ rest⟩ ∈ step ⟨before, s ++ (t ++ rest)⟩ :=
      (steps _ _ _).2 ⟨s, t ++ rest, rfl, rfl, first⟩
    rw [List.length_append] at enough
    rw [List.append_assoc, past_append]
    cases s with
    | nil => exact ih (by simpa using enough)
    | cons a r =>
      obtain ⟨m, rfl⟩ : ∃ m, n = m + 1 := ⟨n - 1, by simp at enough; omega⟩
      rw [manyEnds, List.mem_append, List.mem_flatMap]
      exact .inl ⟨_, here, ih (by simp at enough; omega)⟩

end Many

theorem mem_ends_iff {p : Pattern} {before : Option Char} {s : List Char} {e : Cursor} :
    e ∈ p.ends ⟨before, s⟩ ↔
      ∃ t rest, s = t ++ rest ∧ e = ⟨past before t, rest⟩ ∧ p.Matches before t rest := by
  induction p generalizing before s e with
  | char ok =>
    cases s with
    | nil => simp
    | cons a r =>
      rw [ends_char_cons]
      constructor
      · intro member
        split at member
        next inside => exact ⟨[a], r, rfl, List.mem_singleton.1 member, a, rfl, inside⟩
        next => cases member
      · rintro ⟨_, rest, split, rfl, b, rfl, inside⟩
        obtain ⟨rfl, rfl⟩ := List.cons.inj split
        simp [inside]
  | look ok =>
    rw [ends_look]
    constructor
    · intro member
      split at member
      next holds => exact ⟨[], s, rfl, List.mem_singleton.1 member, rfl, holds⟩
      next => cases member
    · rintro ⟨_, rest, rfl, rfl, rfl, holds⟩
      simpa using holds
  | seq p q first second =>
    rw [ends, List.mem_flatMap]
    constructor
    · rintro ⟨mid, here, later⟩
      obtain ⟨u, _, rfl, rfl, left⟩ := first.1 here
      obtain ⟨v, rest, rfl, rfl, right⟩ := second.1 later
      exact ⟨u ++ v, rest, by simp, by simp, u, v, rfl, left, right⟩
    · rintro ⟨_, rest, rfl, rfl, u, v, rfl, left, right⟩
      exact ⟨⟨past before u, v ++ rest⟩, first.2 ⟨u, v ++ rest, by simp, rfl, left⟩,
        second.2 ⟨v, rest, rfl, by simp, right⟩⟩
  | alt p q first second =>
    rw [ends_alt, List.mem_append, first, second]
    constructor
    · rintro (⟨t, rest, split, rfl, matched⟩ | ⟨t, rest, split, rfl, matched⟩)
      · exact ⟨t, rest, split, rfl, .inl matched⟩
      · exact ⟨t, rest, split, rfl, .inr matched⟩
    · rintro ⟨t, rest, split, rfl, matched | matched⟩
      · exact .inl ⟨t, rest, split, rfl, matched⟩
      · exact .inr ⟨t, rest, split, rfl, matched⟩
  | run ok => exact List.mem_reverse.trans mem_runEnds_iff
  | shortRun ok => exact mem_runEnds_iff
  | many p ih =>
    have steps : Steps p.ends p.Matches := fun before s e => ih
    constructor
    · exact steps.of_mem_manyEnds
    · rintro ⟨t, rest, rfl, rfl, repeats⟩
      exact steps.mem_manyEnds repeats (by simp)

theorem find?_eq_none_iff {p : Pattern} {before : Option Char} {s : List Char} :
    p.find? ⟨before, s⟩ = none ↔ ∀ t rest, s = t ++ rest → ¬ p.Matches before t rest := by
  rw [find?, Option.map_eq_none_iff, List.head?_eq_none_iff, List.eq_nil_iff_forall_not_mem]
  constructor
  · intro nothing t rest split matched
    exact nothing _ (mem_ends_iff.2 ⟨t, rest, split, rfl, matched⟩)
  · intro nothing e member
    obtain ⟨t, rest, split, -, matched⟩ := mem_ends_iff.1 member
    exact nothing t rest split matched

theorem matches_of_find? {p : Pattern} {before : Option Char} {s found : List Char} {e : Cursor}
    (here : p.find? ⟨before, s⟩ = some (found, e)) :
    s = found ++ e.rest ∧ p.Matches before found e.rest := by
  obtain ⟨stop, first, same⟩ := Option.map_eq_some_iff.1 here
  obtain ⟨t, rest, rfl, rfl, matched⟩ := mem_ends_iff.1 (List.mem_of_head? first)
  obtain ⟨rfl, rfl⟩ := Prod.mk.inj same
  rw [Cursor.upTo_eq rfl]
  exact ⟨rfl, matched⟩

end Pattern

end FrontendSurvey.Text
