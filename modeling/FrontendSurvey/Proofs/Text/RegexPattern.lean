import FrontendSurvey.Proofs.Text.Regex
import FrontendSurvey.Proofs.Text.Joined
import FrontendSurvey.Proofs.Text.Onward

set_option autoImplicit false

namespace FrontendSurvey.Text

open Pattern

variable {α β : Type} {s u : List Char} {e : Cursor} {p q : Pattern} {fuel least : Nat}

theorem findSome?_congr {xs : List α} {f g : α → Option β} (same : ∀ x ∈ xs, f x = g x) :
    xs.findSome? f = xs.findSome? g := by
  induction xs with
  | nil => rfl
  | cons x xs ih =>
    rw [List.findSome?_cons, List.findSome?_cons, same x (by simp), ih fun y member => same y (by simp [member])]

theorem findSome?_some (xs : List α) (f : α → β) : xs.findSome? (fun x => some (f x)) = xs.head?.map f := by
  cases xs <;> rfl

def Stands (s : List Char) (e : Cursor) : Prop := ∃ u, e.before = past none u ∧ s = u ++ e.rest

def place (s : List Char) (e : Cursor) : Nat := s.length - e.rest.length

theorem place_eq (split : s = u ++ e.rest) : place s e = u.length := by
  rw [place, split, List.length_append, Nat.add_sub_cancel]

theorem Stands.place_add (stands : Stands s e) : place s e + e.rest.length = s.length := by
  obtain ⟨u, -, split⟩ := stands
  rw [place_eq split, split, List.length_append]

theorem stands_start (s : List Char) : Stands s ⟨none, s⟩ := ⟨[], rfl, rfl⟩

theorem Stands.next {a : Char} {r : List Char} {before : Option Char} (stands : Stands s ⟨before, a :: r⟩) :
    Stands s ⟨some a, r⟩ := by
  obtain ⟨u, -, split⟩ := stands
  exact ⟨u ++ [a], by simp, by simpa using split⟩

theorem Stands.place_next {a : Char} {r : List Char} {before : Option Char} (stands : Stands s ⟨before, a :: r⟩) :
    place s ⟨some a, r⟩ = place s ⟨before, a :: r⟩ + 1 := by
  have here : _ + (r.length + 1) = _ := stands.place_add
  have next : _ + r.length = _ := stands.next.place_add
  omega

theorem Stands.ends {e' : Cursor} (stands : Stands s e) (member : e' ∈ p.ends e) :
    Stands s e' ∧ ∃ t, e.rest = t ++ e'.rest ∧ e'.before = past e.before t ∧ p.Matches e.before t e'.rest := by
  obtain ⟨u, before, split⟩ := stands
  obtain ⟨t, rest, behind, rfl, matched⟩ := mem_ends_iff.1 member
  refine ⟨⟨u ++ t, by rw [before, past_append], ?_⟩, t, behind, rfl, matched⟩
  rw [split, behind, List.append_assoc]

theorem Stands.rest_lt {e' : Cursor} (stands : Stands s e) (solid : p.Solid) (member : e' ∈ p.ends e) :
    e'.rest.length < e.rest.length := by
  obtain ⟨-, t, split, -, matched⟩ := stands.ends member
  have some := List.length_pos_iff.2 (solid _ _ _ matched)
  rw [split, List.length_append]
  omega

namespace Regex

def copies (p : Pattern) : Nat → Pattern
  | 0 => .many p
  | n + 1 => p ++ copies p n

def pattern : Regex → Pattern
  | empty => look fun _ => true
  | unit outside items => char fun c => (items.any (holds isBlankCode c.toNat)) != outside
  | edge => boundary
  | seq r s => r.pattern ++ s.pattern
  | many least r => copies r.pattern least

def takesUp : Regex → Bool
  | empty | edge => false
  | unit _ _ => true
  | seq r s => r.takesUp || s.takesUp
  | many least r => least != 0 && r.takesUp

def regular : Regex → Bool
  | empty | edge | unit _ _ => true
  | seq r s => r.regular && s.regular
  | many _ r => r.takesUp && r.regular

theorem solid_front (solid : p.Solid) (q : Pattern) : (p ++ q).Solid := by
  intro before t rest matched
  obtain ⟨u, v, split, first, -⟩ := matches_append.1 matched
  have some := solid _ _ _ first
  simp [split, some]

theorem solid_pattern {r : Regex} (takes : r.takesUp = true) : r.pattern.Solid := by
  induction r with
  | empty | edge => cases takes
  | unit outside items =>
    rintro before t rest ⟨a, rfl, -⟩
    simp
  | seq r s first second =>
    rcases Bool.or_eq_true_iff.1 takes with left | right
    · exact solid_front (first left) s.pattern
    · exact (second right).behind r.pattern
  | many least r ih =>
    obtain ⟨some, takes⟩ := Bool.and_eq_true_iff.1 takes
    cases least with
    | zero => simp at some
    | succ least => exact solid_front (ih takes) (copies r.pattern least)

theorem isWordUnit_toNat (c : Char) : isWordUnit c.toNat = isWordChar c := by
  rw [Bool.eq_iff_iff]
  delta isWordUnit isWordChar Char.isAlphanum Char.isAlpha Char.isUpper Char.isLower Char.isDigit
  have mark : c = '_' ↔ c.toNat = 0x5F := ⟨fun same => same ▸ rfl, fun same => Char.toNat_inj.1 same⟩
  simp only [Bool.or_eq_true, Bool.and_eq_true, decide_eq_true_eq, beq_iff_eq, ge_iff_le, UInt32.le_iff_toNat_le, mark]
  change _ ↔ (((65 ≤ c.toNat ∧ c.toNat ≤ 90) ∨ (97 ≤ c.toNat ∧ c.toNat ≤ 122)) ∨ (48 ≤ c.toNat ∧ c.toNat ≤ 57)) ∨ _
  omega

theorem units_eq {text : String} (basic : ∀ c ∈ text.toList, c.toNat < 0x10000) :
    units text = text.toList.map Char.toNat := by
  rw [units, ← List.flatMap_singleton' (text.toList.map Char.toNat), List.flatMap_map]
  apply List.flatMap_congr
  intro c member
  rw [utf16, if_pos (basic c member)]

theorem unit_place (stands : Stands s e) : (s.map Char.toNat)[place s e]? = e.rest.head?.map Char.toNat := by
  obtain ⟨u, -, split⟩ := stands
  rw [place_eq split, split, List.map_append, List.getElem?_append_right (by simp)]
  simp [List.head?_eq_getElem?]

theorem wordAt_place (stands : Stands s e) : wordAt (s.map Char.toNat) (place s e) = e.beforeWordChar := by
  rw [wordAt, unit_place stands]
  cases e with
  | mk before rest => cases rest <;> simp [Cursor.beforeWordChar, isWordUnit_toNat]

theorem edgeAt_place (stands : Stands s e) :
    edgeAt (s.map Char.toNat) (place s e) = (e.afterWordChar != e.beforeWordChar) := by
  rw [edgeAt, wordAt_place stands]
  obtain ⟨u, before, split⟩ := stands
  rw [Cursor.afterWordChar, before, place_eq split, split]
  congr 1
  cases u using List.reverseRecOn with
  | nil => rfl
  | append_singleton u a => simp [wordAt, isWordUnit_toNat]

def Runs (s : List Char) (matcher : Matcher) (ends : Cursor → List Cursor) : Prop :=
  ∀ e, Stands s e → ∀ next, matcher (place s e) next = (ends e).findSome? fun e' => next (place s e')

variable {once later : Matcher}

theorem Runs.seq (first : Runs s once p.ends) (second : Runs s later q.ends) :
    Runs s (fun i next => once i fun j => later j next) (p ++ q).ends := by
  intro e stands next
  beta_reduce
  rw [first e stands, ends_append, findSome?_flatMap]
  exact findSome?_congr fun e' member => second e' (stands.ends member).1 next

-- Each repetition takes up text, so none is refused, and there is one left to try for each character.
theorem repeatFrom_zero (runs : Runs s once p.ends) (solid : p.Solid) (stands : Stands s e)
    (enough : e.rest.length < fuel) {n : Nat} (most : e.rest.length ≤ n) (next : Nat → Option Nat) :
    repeatFrom once fuel 0 (place s e) next = (manyEnds p.ends n e).findSome? fun e' => next (place s e') := by
  induction fuel generalizing e n with
  | zero => omega
  | succ fuel ih =>
    rw [repeatFrom, runs e stands]
    cases n with
    | zero =>
      have none : p.ends e = [] := by
        rw [List.eq_nil_iff_forall_not_mem]
        intro e' member
        have := stands.rest_lt solid member
        omega
      simp [manyEnds, none]
    | succ n =>
      rw [manyEnds, List.findSome?_append, findSome?_flatMap]
      congr 1
      · apply findSome?_congr
        intro e' member
        have less := stands.rest_lt solid member
        have stands' := (stands.ends member).1
        have := stands.place_add
        have := stands'.place_add
        rw [if_neg (by omega)]
        exact ih stands' (by omega) (by omega)
      · simp

theorem repeatFrom_eq (runs : Runs s once p.ends) (solid : p.Solid) (stands : Stands s e)
    (enough : least + e.rest.length < fuel) (next : Nat → Option Nat) :
    repeatFrom once fuel least (place s e) next = ((copies p least).ends e).findSome? fun e' => next (place s e') := by
  induction least generalizing e fuel with
  | zero => exact repeatFrom_zero runs solid stands (by omega) (Nat.le_refl _) next
  | succ least ih =>
    obtain ⟨fuel, rfl⟩ : ∃ k, fuel = k + 1 := ⟨fuel - 1, by omega⟩
    rw [repeatFrom, runs e stands, copies, ends_append, findSome?_flatMap]
    apply findSome?_congr
    intro e' member
    have less := stands.rest_lt solid member
    exact ih (stands.ends member).1 (by omega)

theorem runs_pattern {r : Regex} (regular : r.regular = true) (s : List Char) :
    Runs s (r.run isBlankCode (s.map Char.toNat)) r.pattern.ends := by
  induction r with
  | empty =>
    intro e stands next
    simp [run, pattern]
  | unit outside items =>
    intro e stands next
    rw [run, unit_place stands]
    cases e with
    | mk before rest =>
      cases rest with
      | nil => rfl
      | cons a r =>
        simp only [List.head?_cons, Option.map_some, pattern, ends_char_cons]
        split <;> simp [stands.place_next]
  | edge =>
    intro e stands next
    rw [run, edgeAt_place stands, pattern, boundary, ends_look]
    split <;> simp
  | seq r s first second =>
    obtain ⟨left, right⟩ := Bool.and_eq_true_iff.1 regular
    exact (first left).seq (second right)
  | many least r ih =>
    obtain ⟨takes, regular⟩ := Bool.and_eq_true_iff.1 regular
    intro e stands next
    have := stands.place_add
    rw [run, List.length_map]
    exact repeatFrom_eq (ih regular) (solid_pattern takes) stands (by omega) next

section

variable {r : Regex} (regular : r.regular = true) (takes : r.takesUp = true)
include regular

theorem run_place (stands : Stands s e) : r.run isBlankCode (s.map Char.toNat) (place s e) some =
    (r.pattern.ends e).head?.map (place s) := by
  rw [runs_pattern regular s e stands, findSome?_some]

theorem exec_place {b : Option Char} {a : Char} {t : List Char} (stands : Stands s ⟨b, a :: t⟩) :
    r.exec isBlankCode (s.map Char.toNat) (place s ⟨b, a :: t⟩) =
      match (r.pattern.ends ⟨b, a :: t⟩).head? with
      | some e => some (place s ⟨b, a :: t⟩, place s e)
      | none => r.exec isBlankCode (s.map Char.toNat) (place s ⟨some a, t⟩) := by
  have places : (s.map Char.toNat).length + 1 - place s ⟨b, a :: t⟩ =
      ((s.map Char.toNat).length + 1 - place s ⟨some a, t⟩) + 1 := by
    have next := stands.place_next
    have within := stands.next.place_add
    rw [List.length_map]
    omega
  rw [exec, places, List.range'_succ, List.findSome?_cons, run_place regular stands, exec, stands.place_next]
  cases (r.pattern.ends ⟨b, a :: t⟩).head? <;> rfl

include takes

theorem exec_end {b : Option Char} (stands : Stands s ⟨b, []⟩) :
    r.exec isBlankCode (s.map Char.toNat) (place s ⟨b, []⟩) = none := by
  have none : r.pattern.ends ⟨b, []⟩ = [] := by
    rw [List.eq_nil_iff_forall_not_mem]
    intro e member
    have := stands.rest_lt (solid_pattern takes) member
    simp at this
  have last : (s.map Char.toNat).length + 1 - place s ⟨b, []⟩ = 1 := by simp [place]
  rw [exec, last, List.range'_one, List.findSome?_singleton, run_place regular stands, none]
  rfl

theorem length_matchesFrom (stands : Stands s e) (enough : e.rest.length < fuel) :
    (r.matchesFrom isBlankCode (s.map Char.toNat) fuel (place s e)).length =
      (searchFrom r.pattern.find? e.before e.rest 0).length := by
  induction length : e.rest.length using Nat.strong_induction_on generalizing e fuel with
  | _ n ih =>
    subst length
    obtain ⟨fuel, rfl⟩ : ∃ k, fuel = k + 1 := ⟨fuel - 1, by omega⟩
    obtain ⟨b, rest⟩ := e
    cases rest with
    | nil => simp [matchesFrom, exec_end regular takes stands]
    | cons a t =>
      rw [matchesFrom, exec_place regular stands]
      cases first : (r.pattern.ends ⟨b, a :: t⟩).head? with
      | none =>
        have left : t.length < fuel + 1 := Nat.lt_of_succ_lt enough
        have later := ih t.length (Nat.lt_succ_self _) stands.next left rfl
        rw [matchesFrom] at later
        rw [searchFrom_none (by rw [find?, first]; rfl)]
        exact later
      | some e =>
        have member := List.mem_of_head? first
        obtain ⟨stands', x, split, before, matched⟩ := stands.ends member
        have split : a :: t = x ++ e.rest := split
        have less : e.rest.length < t.length + 1 := stands.rest_lt (solid_pattern takes) member
        have onward : place s e ≠ place s ⟨b, a :: t⟩ := by
          have here : _ + (t.length + 1) = _ := stands.place_add
          have there := stands'.place_add
          omega
        have found : r.pattern.find? ⟨b, a :: t⟩ = some (x, e) := by
          rw [find?, first, Option.map_some, Cursor.upTo_eq split]
        have search : searchFrom r.pattern.find? b (a :: t) 0 = x :: searchFrom r.pattern.find? e.before e.rest 0 := by
          rw [split] at found ⊢
          rw [searchFrom_some (solid_pattern takes _ _ _ matched) found rfl, before]
        have left : e.rest.length < fuel := Nat.lt_of_lt_of_le less (Nat.le_of_lt_succ enough)
        have later := ih e.rest.length less stands' left rfl
        rw [search]
        simp only [if_neg onward, List.length_cons, later]

theorem length_matchAll {text : String} (basic : ∀ c ∈ text.toList, c.toNat < 0x10000) :
    (r.matchAll isBlankCode (units text)).length = r.pattern.count text := by
  have start : place text.toList ⟨none, text.toList⟩ = 0 := Nat.sub_self _
  have found := length_matchesFrom regular takes (stands_start text.toList) (Nat.lt_succ_self _)
  rw [start] at found
  rw [matchAll, units_eq basic, List.length_map, found]
  simp [count, occurrences, search]

end

variable {space space' : Nat → Bool} {input : List Nat}

theorem run_congr (same : ∀ u ∈ input, space u = space' u) (r : Regex) : r.run space input = r.run space' input := by
  induction r with
  | empty | edge => rfl
  | unit outside items =>
    funext i next
    simp only [run]
    cases here : input[i]? with
    | none => rfl
    | some u =>
      have alike : holds space u = holds space' u := by
        funext item
        cases item <;> simp [holds, same u (List.mem_of_getElem? here)]
      simp only [alike]
  | seq r s first second =>
    funext i next
    simp only [run, first, second]
  | many least r ih =>
    funext i next
    simp only [run, ih]

theorem matchAll_congr (same : ∀ u ∈ input, space u = space' u) (r : Regex) :
    r.matchAll space input = r.matchAll space' input := by
  have each (fuel i : Nat) : r.matchesFrom space input fuel i = r.matchesFrom space' input fuel i := by
    induction fuel generalizing i with
    | zero => rfl
    | succ fuel ih => simp only [matchesFrom, exec, run_congr same r, ih]
  exact each _ 0

end Regex

end FrontendSurvey.Text
