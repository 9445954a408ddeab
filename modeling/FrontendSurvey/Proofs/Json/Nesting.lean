import FrontendSurvey.Json.Basic
import Mathlib

set_option autoImplicit false

namespace FrontendSurvey.Json

mutual

def nesting : Json → Nat
  | arr items => nestingOfItems items + 1
  | obj fields => nestingOfFields fields + 1
  | _ => 0

def nestingOfItems : List Json → Nat
  | [] => 0
  | x :: xs => max x.nesting (nestingOfItems xs)

def nestingOfFields : List (String × Json) → Nat
  | [] => 0
  | (_, v) :: xs => max v.nesting (nestingOfFields xs)

end

mutual

def Exact : Json → Prop
  | int n => -2 ^ 63 ≤ n ∧ n < 2 ^ 64
  | decimal _ => False
  | arr items => ExactItems items
  | obj fields => ExactFields fields
  | _ => True

def ExactItems : List Json → Prop
  | [] => True
  | x :: xs => x.Exact ∧ ExactItems xs

def ExactFields : List (String × Json) → Prop
  | [] => True
  | (_, v) :: xs => v.Exact ∧ ExactFields xs

end

theorem nestingOfItems_le_iff {n : Nat} {xs : List Json} :
    nestingOfItems xs ≤ n ↔ ∀ x ∈ xs, x.nesting ≤ n := by
  induction xs with
  | nil => simp [nestingOfItems]
  | cons x xs ih => simp [nestingOfItems, ih]

theorem nestingOfFields_le_iff {n : Nat} {xs : List (String × Json)} :
    nestingOfFields xs ≤ n ↔ ∀ x ∈ xs, x.2.nesting ≤ n := by
  induction xs with
  | nil => simp [nestingOfFields]
  | cons x xs ih => simp [nestingOfFields, ih]

theorem exactItems_iff {xs : List Json} : ExactItems xs ↔ ∀ x ∈ xs, x.Exact := by
  induction xs with
  | nil => simp [ExactItems]
  | cons x xs ih => simp [ExactItems, ih]

theorem exactFields_iff {xs : List (String × Json)} : ExactFields xs ↔ ∀ x ∈ xs, x.2.Exact := by
  induction xs with
  | nil => simp [ExactFields]
  | cons x xs ih => simp [ExactFields, ih]

structure Within (n : Nat) (j : Json) : Prop where
  nested : j.nesting ≤ n
  exact : j.Exact

theorem within_arr_iff {n : Nat} {xs : List Json} :
    (arr xs).Within (n + 1) ↔ ∀ x ∈ xs, x.Within n := by
  constructor
  · rintro ⟨nested, exact⟩ x member
    rw [nesting, Nat.add_le_add_iff_right, nestingOfItems_le_iff] at nested
    rw [Exact, exactItems_iff] at exact
    exact ⟨nested x member, exact x member⟩
  · intro within
    constructor
    · rw [nesting, Nat.add_le_add_iff_right, nestingOfItems_le_iff]
      exact fun x member => (within x member).nested
    · rw [Exact, exactItems_iff]
      exact fun x member => (within x member).exact

theorem within_obj_iff {n : Nat} {xs : List (String × Json)} :
    (obj xs).Within (n + 1) ↔ ∀ x ∈ xs, x.2.Within n := by
  constructor
  · rintro ⟨nested, exact⟩ x member
    rw [nesting, Nat.add_le_add_iff_right, nestingOfFields_le_iff] at nested
    rw [Exact, exactFields_iff] at exact
    exact ⟨nested x member, exact x member⟩
  · intro within
    constructor
    · rw [nesting, Nat.add_le_add_iff_right, nestingOfFields_le_iff]
      exact fun x member => (within x member).nested
    · rw [Exact, exactFields_iff]
      exact fun x member => (within x member).exact

@[simp] theorem within_null (n : Nat) : null.Within n :=
  ⟨Nat.zero_le n, trivial⟩

@[simp] theorem within_bool (n : Nat) (b : Bool) : (bool b).Within n :=
  ⟨Nat.zero_le n, trivial⟩

@[simp] theorem within_str (n : Nat) (s : String) : (str s).Within n :=
  ⟨Nat.zero_le n, trivial⟩

@[simp] theorem within_count {n k : Nat} : (count k).Within n ↔ FitsWord k := by
  constructor
  · rintro ⟨-, -, high⟩
    exact Int.ofNat_lt.mp high
  · intro fits
    exact ⟨Nat.zero_le n, by omega, Int.ofNat_lt.mpr fits⟩

end FrontendSurvey.Json
