set_option autoImplicit false

namespace FrontendSurvey.Text

def isBlankCode (n : Nat) : Bool :=
  (0x09 ≤ n && n ≤ 0x0D) || n == 0x20 || n == 0x85 || n == 0xA0 || n == 0x1680 ||
    (0x2000 ≤ n && n ≤ 0x200A) || n == 0x2028 || n == 0x2029 || n == 0x202F || n == 0x205F ||
    n == 0x3000 || n == 0xFEFF

def isBlank (c : Char) : Bool := isBlankCode c.toNat

def isWordChar (c : Char) : Bool :=
  c.isAlphanum || c == '_'

def foldCase (c : Char) : Char :=
  -- letters that differ in case only have the same fold; the long s and the Kelvin sign are variants of ASCII letters
  if c = '\u017f' then 's' else if c = '\u212a' then 'k' else c.toLower

theorem not_isBlank_of_isWordChar {c : Char} (h : isWordChar c = true) : isBlank c = false := by
  have range : 48 ≤ c.toNat ∧ c.toNat ≤ 122 := by
    delta isWordChar Char.isAlphanum Char.isAlpha Char.isUpper Char.isLower Char.isDigit at h
    simp only [Bool.or_eq_true, Bool.and_eq_true, decide_eq_true_eq, beq_iff_eq, ge_iff_le,
      UInt32.le_iff_toNat_le] at h
    change (((65 ≤ c.toNat ∧ c.toNat ≤ 90) ∨ (97 ≤ c.toNat ∧ c.toNat ≤ 122)) ∨
      (48 ≤ c.toNat ∧ c.toNat ≤ 57)) ∨ c = '_' at h
    rcases h with h | rfl
    · omega
    · decide
  simp only [isBlank, isBlankCode, Bool.or_eq_false_iff, Bool.and_eq_false_iff,
    decide_eq_false_iff_not, beq_eq_false_iff_ne]
  omega

theorem not_isWordChar_of_isBlank {c : Char} (blank : isBlank c = true) : isWordChar c = false := by
  cases word : isWordChar c with
  | false => rfl
  | true => rw [not_isBlank_of_isWordChar word] at blank; cases blank

end FrontendSurvey.Text
