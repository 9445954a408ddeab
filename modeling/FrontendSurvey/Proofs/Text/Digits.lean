import FrontendSurvey.Text.Digit
import Mathlib

set_option autoImplicit false

namespace FrontendSurvey.Text

theorem toDigits_induction {P : Nat → Prop} (digit : ∀ n < 10, P n)
    (more : ∀ n, 10 ≤ n → P (n / 10) → P n) (n : Nat) : P n := by
  induction n using Nat.strongRecOn with
  | ind n ih =>
    by_cases single : n < 10
    · exact digit n single
    · exact more n (by omega) (ih (n / 10) (by omega))

theorem hexValue?_decimal : ∀ n < 10, hexValue? (Nat.digitChar n) = some n := by
  decide

theorem numeral_toDigits (n : Nat) : numeral 10 (Nat.toDigits 10 n) = n := by
  induction n using toDigits_induction with
  | digit n single =>
    simp [Nat.toDigits_of_lt_base single, numeral, hexValue?_decimal n single]
  | more n several ih =>
    rw [Nat.toDigits_of_base_le (by decide) several]
    rw [numeral] at ih
    simp only [numeral, List.foldl_append, ih, List.foldl_cons, List.foldl_nil,
      hexValue?_decimal (n % 10) (by omega), Option.getD_some]
    omega

theorem isDigit_of_mem (n : Nat) : ∀ c ∈ Nat.toDigits 10 n, c.isDigit = true :=
  fun _ member => Nat.isDigit_of_mem_toDigits (by decide) (by decide) member

theorem exists_toDigits (n : Nat) :
    ∃ c digits, Nat.toDigits 10 n = c :: digits ∧ c.isDigit = true := by
  cases same : Nat.toDigits 10 n with
  | nil => exact absurd same Nat.toDigits_ne_nil
  | cons c digits => exact ⟨c, digits, rfl, isDigit_of_mem n c (by simp [same])⟩

theorem eq_zero_of_head (n : Nat) (zero : (Nat.toDigits 10 n).head? = some '0') : n = 0 := by
  -- a number starts with the same digit as its tenth part
  induction n using toDigits_induction with
  | digit n single =>
    simpa [Nat.toDigits_of_lt_base single] using zero
  | more n several ih =>
    obtain ⟨c, digits, same, -⟩ := exists_toDigits (n / 10)
    rw [Nat.toDigits_of_base_le (by decide) several, same] at zero
    have := ih (by rw [same]; exact zero)
    omega

end FrontendSurvey.Text
