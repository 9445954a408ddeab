import FrontendSurvey.Json.Printer
import FrontendSurvey.Json.Reader

set_option autoImplicit false

namespace FrontendSurvey.Json

open Text

theorem hexValue?_digitChar : ∀ n < 16, hexValue? (Nat.digitChar n) = some n := by
  decide

theorem hexValue4?_control (c : Char) (control : c.toNat < 0x20) :
    hexValue4? '0' '0' (hexDigit (c.toNat / 16)) (hexDigit c.toNat) = some c.toNat := by
  -- below 32 the two digits in front are zero
  have zero : hexValue? '0' = some 0 := by decide
  have high := hexValue?_digitChar (c.toNat / 16 % 16) (by omega)
  have low := hexValue?_digitChar (c.toNat % 16) (by omega)
  simp only [hexValue4?, hexDigit, zero, high, low, bind, Option.bind, Option.some.injEq]
  omega

theorem readText_control (c : Char) (control : c.toNat < 0x20) (rest : List Char) :
    readText ('\\' :: 'u' :: '0' :: '0' :: hexDigit (c.toNat / 16) :: hexDigit c.toNat :: rest) =
      (readText rest).map fun (s, r) => (c :: s, r) := by
  have notHigh : isHighSurrogate c.toNat = false := by
    simp only [isHighSurrogate, Bool.and_eq_false_iff, decide_eq_false_iff_not]
    omega
  have notLow : isLowSurrogate c.toNat = false := by
    simp only [isLowSurrogate, Bool.and_eq_false_iff, decide_eq_false_iff_not]
    omega
  simp [readText, hexValue4?_control c control, notHigh, notLow]

theorem readText_plain (c : Char) (noQuote : c ≠ '"') (noBackslash : c ≠ '\\')
    (visible : ¬ c.toNat < 0x20) (rest : List Char) :
    readText (c :: rest) = (readText rest).map fun (s, r) => (c :: s, r) := by
  rw [readText.eq_def]
  split
  case h_5 same =>
    obtain ⟨rfl, rfl⟩ := List.cons.inj same
    rw [if_neg visible]
  all_goals simp_all

theorem readText_escapeChar (c : Char) (rest : List Char) :
    readText (escapeChar c ++ rest) = (readText rest).map fun (s, r) => (c :: s, r) := by
  unfold escapeChar
  split
  case h_8 noQuote noBackslash _ _ _ _ _ =>
    split
    case isTrue control => exact readText_control c control rest
    case isFalse visible => exact readText_plain c noQuote noBackslash visible rest
  -- the seven characters with a short escape
  all_goals simp [readText, escaped?]

theorem readText_escaped (s rest : List Char) :
    readText (s.flatMap escapeChar ++ '"' :: rest) = some (s, rest) := by
  induction s with
  | nil => simp [readText]
  | cons c s ih =>
    rw [List.flatMap_cons, List.append_assoc, readText_escapeChar, ih]
    rfl

theorem readScalar_quote (s : String) (rest : List Char) :
    readScalar (quote s ++ rest) = some (str s, rest) := by
  simp [quote, readScalar, readText_escaped]

end FrontendSurvey.Json
