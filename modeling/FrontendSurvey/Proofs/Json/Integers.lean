import FrontendSurvey.Json.Reader
import FrontendSurvey.Proofs.Text.Digits
import Mathlib

set_option autoImplicit false

namespace FrontendSurvey.Json

open Text

def Ends : List Char → Prop
  | [] => True
  | c :: _ => c.isDigit = false ∧ c ≠ '.' ∧ c ≠ 'e' ∧ c ≠ 'E'

theorem dropWhile_of_ends {rest : List Char} (ends : Ends rest) :
    rest.takeWhile Char.isDigit = [] ∧ rest.dropWhile Char.isDigit = rest := by
  cases rest with
  | nil => exact ⟨rfl, rfl⟩
  | cons c rest => simp [ends.1]

theorem readSomeDigits_toDigits (n : Nat) {rest : List Char} (ends : Ends rest) :
    readSomeDigits (Nat.toDigits 10 n ++ rest) = some (Nat.toDigits 10 n, rest) := by
  obtain ⟨taken, dropped⟩ := dropWhile_of_ends ends
  rw [readSomeDigits, List.takeWhile_append_of_pos (isDigit_of_mem n),
    List.dropWhile_append_of_pos (isDigit_of_mem n), taken, dropped, List.append_nil]
  obtain ⟨c, digits, same, -⟩ := exists_toDigits n
  rw [same]

theorem readWhole_toDigits (n : Nat) {rest : List Char} (ends : Ends rest) :
    readWhole (Nat.toDigits 10 n ++ rest) = some (Nat.toDigits 10 n, rest) := by
  have noLeadingZero :
      ¬ ((Nat.toDigits 10 n).head? = some '0' ∧ (Nat.toDigits 10 n).length ≠ 1) := by
    rintro ⟨zero, several⟩
    obtain rfl := eq_zero_of_head n zero
    exact several (by simp [Nat.toDigits_zero])
  simp only [readWhole, readSomeDigits_toDigits n ends, bind, Option.bind, if_neg noLeadingZero]

theorem readFraction_of_ends {rest : List Char} (ends : Ends rest) :
    readFraction rest = some (none, rest) := by
  unfold readFraction
  split
  · exact absurd rfl ends.2.1
  · rfl

theorem readExponent_of_ends {rest : List Char} (ends : Ends rest) :
    readExponent rest = some (none, rest) := by
  cases rest with
  | nil => rfl
  | cons c rest => simp [readExponent, ends.2.2.1, ends.2.2.2]

theorem readNumber_toDigits (n : Nat) (fits : n < 2 ^ 64) {rest : List Char} (ends : Ends rest) :
    readNumber (Nat.toDigits 10 n ++ rest) = some (int n, rest) := by
  have unsigned : (Nat.toDigits 10 n ++ rest).head? ≠ some '-' := by
    obtain ⟨c, digits, same, isDigit⟩ := exists_toDigits n
    rw [same]
    rintro minus
    cases minus
    exact absurd isDigit (by decide)
  have value : NumberText.toJson? ⟨false, Nat.toDigits 10 n, none, none⟩ = some (int n) := by
    have word : n < UInt64.size := fits
    simp only [NumberText.toJson?, NumberText.integer?, numeral_toDigits, Bool.false_eq_true,
      if_false, if_pos word]
  simp only [readNumber, unsigned, decide_false, if_false,
    readWhole_toDigits n ends, readFraction_of_ends ends, readExponent_of_ends ends, value, bind,
    Option.bind]

theorem readNumber_minus (n : Nat) (positive : 0 < n) (fits : n ≤ 2 ^ 63) {rest : List Char}
    (ends : Ends rest) : readNumber ('-' :: (Nat.toDigits 10 n ++ rest)) = some (int (-n), rest) := by
  have value : NumberText.toJson? ⟨true, Nat.toDigits 10 n, none, none⟩ = some (int (-n)) := by
    have low : n ≤ Nat.pow 2 63 := fits
    simp only [NumberText.toJson?, NumberText.integer?, numeral_toDigits, if_true,
      if_pos (And.intro positive low)]
  simp only [readNumber, List.head?_cons, List.tail_cons, decide_true, if_true,
    readWhole_toDigits n ends, readFraction_of_ends ends, readExponent_of_ends ends, value, bind,
    Option.bind]

theorem toList_negSucc (n : Nat) :
    (toString (Int.negSucc n)).toList = '-' :: Nat.toDigits 10 (n + 1) := by
  show ("-" ++ Nat.repr (n + 1)).toList = _
  rw [String.toList_append, Nat.toList_repr]
  rfl

theorem readNumber_toString (n : Int) (low : -2 ^ 63 ≤ n) (high : n < 2 ^ 64) {rest : List Char}
    (ends : Ends rest) : readNumber ((toString n).toList ++ rest) = some (int n, rest) := by
  cases n with
  | ofNat n =>
    have digits : (toString (Int.ofNat n)).toList = Nat.toDigits 10 n := Nat.toList_repr
    rw [digits]
    exact readNumber_toDigits n (by simp at high; omega) ends
  | negSucc n =>
    rw [toList_negSucc]
    exact readNumber_minus (n + 1) (by omega) (by omega) ends

def startsNumber (c : Char) : Bool := c.isDigit || c == '-'

theorem ne_of_startsNumber {c d : Char} (lead : startsNumber c = true)
    (other : startsNumber d = false) : c ≠ d := by
  rintro rfl
  exact absurd lead (by simp [other])

theorem isSpace_of_startsNumber {c : Char} (lead : startsNumber c = true) : isSpace c = false := by
  have other := fun d => ne_of_startsNumber (d := d) lead
  simp [isSpace, other, startsNumber]

theorem exists_toString (n : Int) :
    ∃ c digits, (toString n).toList = c :: digits ∧ startsNumber c = true := by
  cases n with
  | ofNat n =>
    obtain ⟨c, digits, same, digit⟩ := exists_toDigits n
    exact ⟨c, digits, Nat.toList_repr.trans same, by simp [startsNumber, digit]⟩
  | negSucc n =>
    exact ⟨'-', Nat.toDigits 10 (n + 1), toList_negSucc n, rfl⟩

theorem readScalar_toString (n : Int) (low : -2 ^ 63 ≤ n) (high : n < 2 ^ 64) {rest : List Char}
    (ends : Ends rest) : readScalar ((toString n).toList ++ rest) = some (int n, rest) := by
  have number := readNumber_toString n low high ends
  obtain ⟨c, digits, same, lead⟩ := exists_toString n
  have other := fun d => ne_of_startsNumber (d := d) lead
  rw [same, List.cons_append] at number ⊢
  rw [readScalar.eq_def]
  split
  case h_5 => exact number
  -- no word and no quote starts as a number does
  all_goals
    rename_i start
    exact absurd (List.cons.inj start).1 (other _ (by decide))

end FrontendSurvey.Json
