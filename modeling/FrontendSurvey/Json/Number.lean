import FrontendSurvey.Json.Basic
import FrontendSurvey.Text.Digit

set_option autoImplicit false

namespace FrontendSurvey.Json

open Text

structure NumberText where
  negative : Bool
  whole : List Char
  fraction : Option (List Char)
  -- the digits of the exponent, after whether it is negative
  exponent : Option (Bool × List Char)

/-- Reads digits on as long as the number has 64 bits; the rest of the digits is only counted. -/
def readDigits : Nat → List Char → Nat × Nat
  | n, [] => (n, 0)
  | n, c :: r =>
    if n * 10 + digitValue c < UInt64.size then readDigits (n * 10 + digitValue c) r
    else (n, r.length + 1)

def roundTo53 (n : Nat) : Nat :=
  -- the nearest number with 53 significant bits; a tie goes to the even one
  let extra := n.log2 + 1 - 53
  let unit := Nat.pow 2 extra
  let q := n / unit
  let r := n % unit
  (if 2 * r > unit ∨ (2 * r = unit ∧ q % 2 = 1) then q + 1 else q) * unit

/-- The least number that rounds to infinity. -/
def binary64Limit : Nat := Nat.pow 2 1024 - Nat.pow 2 970

def overflows (significand : Nat) (scale : Int) : Bool :=
  significand ≠ 0 ∧
    (scale > 308 ∨
      (scale ≥ 0 ∧ roundTo53 significand * roundTo53 (Nat.pow 10 scale.toNat) ≥ binary64Limit))

namespace NumberText

def significand (t : NumberText) : Nat × Int :=
  -- the significant digits kept and the power of ten that belongs to them, without the exponent
  let (n, beyond) := readDigits 0 t.whole
  match t.fraction with
  | none => (n, beyond)
  | some digits =>
    let (n, ignored) := readDigits n digits
    (n, (beyond : Int) - ((digits.length - ignored : Nat) : Int))

def tooLarge (t : NumberText) : Bool :=
  let (n, scale) := t.significand
  match t.exponent with
  | none => overflows n scale
  | some (false, digits) =>
    let e := numeral 10 digits
    if e < Nat.pow 2 31 then overflows n (scale + e) else n ≠ 0
  | some (true, digits) =>
    let e := numeral 10 digits
    e < Nat.pow 2 31 ∧ overflows n (scale - e)

def text (t : NumberText) : List Char :=
  (if t.negative then ['-'] else []) ++ t.whole ++
    (match t.fraction with
      | none => []
      | some digits => '.' :: digits) ++
    (match t.exponent with
      | none => []
      | some (negative, digits) => 'e' :: (if negative then ['-'] else []) ++ digits)

def integer? (t : NumberText) : Option Int :=
  match t.fraction, t.exponent with
  | none, none =>
    let n := numeral 10 t.whole
    if t.negative then
      if 0 < n ∧ n ≤ Nat.pow 2 63 then some (-n) else none
    else
      if n < UInt64.size then some n else none
  | _, _ => none

def toJson? (t : NumberText) : Option Json :=
  match t.integer? with
  | some n => some (int n)
  | none => if t.tooLarge then none else some (decimal (String.ofList t.text))

end NumberText

end FrontendSurvey.Json
