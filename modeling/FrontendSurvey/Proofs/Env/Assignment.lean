import FrontendSurvey.Env
import FrontendSurvey.Proofs.Text.Search
import Mathlib

set_option autoImplicit false

namespace FrontendSurvey.Env

open Text Pattern

def assigned? (s : List Char) : Option (List Char × List Char) :=
  let named := s.dropWhile isBlank
  match (named.dropWhile isKeyChar).dropWhile isBlank with
  | '=' :: rest =>
    if named.takeWhile isKeyChar = [] then none else some (named.takeWhile isKeyChar, rest)
  | _ => none

theorem not_isBlank_of_isKeyChar {c : Char} (key : isKeyChar c = true) : isBlank c = false := by
  apply not_isBlank_of_isWordChar
  simp only [isKeyChar, Bool.or_eq_true] at key
  simp only [isWordChar, Char.isAlphanum, Char.isAlpha, Bool.or_eq_true]
  rcases key with (upper | digit) | underscore <;> simp [*]

theorem not_isKeyChar_of_isBlank {c : Char} (blank : isBlank c = true) : isKeyChar c = false := by
  cases key : isKeyChar c with
  | false => rfl
  | true => rw [not_isBlank_of_isKeyChar key] at blank; cases blank

theorem parts_of_assigned? {s key rest : List Char} (found : assigned? s = some (key, rest)) :
    ∃ lead trail, s = lead ++ key ++ trail ++ '=' :: rest ∧ key ≠ [] ∧
      (∀ c ∈ lead, isBlank c = true) ∧ (∀ c ∈ key, isKeyChar c = true) ∧
        ∀ c ∈ trail, isBlank c = true := by
  simp only [assigned?] at found
  split at found
  next r behind =>
    split at found
    next => cases found
    next some =>
      obtain ⟨rfl, rfl⟩ := Prod.mk.inj (Option.some.inj found)
      refine ⟨s.takeWhile isBlank, ((s.dropWhile isBlank).dropWhile isKeyChar).takeWhile isBlank,
        ?_, some, ?_, ?_, ?_⟩
      · rw [← behind, List.append_assoc, List.append_assoc, List.takeWhile_append_dropWhile,
          List.takeWhile_append_dropWhile, List.takeWhile_append_dropWhile]
      all_goals exact List.all_eq_true.1 List.all_takeWhile
  next => cases found

theorem ends_equals (c : Cursor) : assignment.trail.ends c =
    match c.rest.dropWhile isBlank with
    | '=' :: rest => [⟨some '=', rest⟩]
    | _ => [] := by
  have apart (before : Option Char) (a : Char) (r : List Char) (blank : isBlank a = true) :
      (is '=').ends ⟨before, a :: r⟩ = [] := by
    have other : a ≠ '=' := by
      rintro rfl
      exact absurd blank (by decide)
    simp [is, other]
  have run := flatMap_run apart c.before c.rest
  have trail : assignment.trail.ends c = (runEnds isBlank c.before c.rest).reverse.flatMap
    (is '=').ends := rfl
  rw [trail, run]
  split
  next rest behind => simp [behind, is]
  next other =>
    cases behind : c.rest.dropWhile isBlank with
    | nil => rfl
    | cons a r =>
      have differ : a ≠ '=' := by
        rintro rfl
        exact other r behind
      simp [is, differ]

theorem findSome?_body (a : Cursor) :
    ((assignment.body.ends a).findSome? fun b =>
      (assignment.trail.ends b).head?.map fun e => (a.upTo b, e)) =
      match (a.rest.dropWhile isKeyChar).dropWhile isBlank with
      | '=' :: rest =>
        if a.rest.takeWhile isKeyChar = [] then none
        else some (a.rest.takeWhile isKeyChar, ⟨some '=', rest⟩)
      | _ => none := by
  obtain ⟨before, s⟩ := a
  cases s with
  | nil => rfl
  | cons k r =>
    by_cases key : isKeyChar k = true
    · have body : assignment.body.ends ⟨before, k :: r⟩ =
          (runEnds isKeyChar (some k) r).reverse := by
        simp [assignment, key, ends]
      have whole (b : Cursor) (rest : b.rest = r.dropWhile isKeyChar) :
          Cursor.upTo ⟨before, k :: r⟩ b = k :: r.takeWhile isKeyChar :=
        Cursor.upTo_eq (by simp [rest])
      rw [body, findSome?_run, ends_equals, List.dropWhile_cons_of_pos key,
        List.takeWhile_cons_of_pos key, whole _ rfl]
      · split <;> simp_all
      · -- a shorter name would have a character of the name behind it
        intro before k' r' key'
        have other : k' ≠ '=' := by
          rintro rfl
          exact absurd key' (by decide)
        rw [ends_equals, List.dropWhile_cons_of_neg (by simp [not_isBlank_of_isKeyChar key'])]
        simp [other]
    · have body : assignment.body.ends ⟨before, k :: r⟩ = [] := by simp [assignment, key]
      rw [body, List.takeWhile_cons_of_neg key]
      split <;> rfl

theorem find?_assignment (before : Option Char) (s : List Char) :
    assignment.find? ⟨before, s⟩ = if before.all (· == '\n') then
      (assigned? s).map fun found => (found.1, ⟨some '=', found.2⟩) else none := by
  have lead : assignment.lead.ends ⟨before, s⟩ =
      if before.all (· == '\n') then (runEnds isBlank before s).reverse else [] := by
    rw [assignment, ends_append, lineStart, ends_look]
    split
    · exact List.append_nil _
    · rfl
  rw [Extractor.find?, lead]
  split
  next start =>
    rw [findSome?_run]
    · rw [findSome?_body, assigned?]
      split
      · split <;> simp_all
      · simp_all
    · intro before a r blank
      have other : ¬ isKeyChar a = true := by simp [not_isKeyChar_of_isBlank blank]
      rw [findSome?_body, List.takeWhile_cons_of_neg other]
      split <;> rfl
  next => rfl

end FrontendSurvey.Env
