import FrontendSurvey.Toml.Text
import FrontendSurvey.Toml.Table
import FrontendSurvey.Json.Number

set_option autoImplicit false

namespace FrontendSurvey.Toml

open FrontendSurvey.Text

def joinDigits (ok : Char → Bool) : List Char → Option (List Char)
  -- digits with single underscores between them, without the underscores
  | [] => none
  | [c] => if ok c then some [c] else none
  | c :: '_' :: r => if ok c then (joinDigits ok r).map (c :: ·) else none
  | c :: r => if ok c then (joinDigits ok r).map (c :: ·) else none

def isOctal (c : Char) : Bool := '0' ≤ c && c ≤ '7'

def isBinary (c : Char) : Bool := c == '0' || c == '1'

def wholeDigits (s : List Char) : Option (List Char) := do
  -- decimal digits without a zero in front of others
  let digits ← joinDigits Char.isDigit s
  if digits.head? = some '0' ∧ digits.length ≠ 1 then none else some digits

def splitSign : List Char → Option Bool × List Char
  | '+' :: r => (some false, r)
  | '-' :: r => (some true, r)
  | r => (none, r)

def fits (n : Int) : Option Int :=
  if -Nat.pow 2 127 ≤ n ∧ n < Nat.pow 2 128 then some n else none

def readInteger? (s : List Char) : Option Int :=
  -- only decimal integers take a sign
  match s with
  | '0' :: 'x' :: r => (joinDigits isHex r).bind fun digits => fits (numeral 16 digits)
  | '0' :: 'o' :: r => (joinDigits isOctal r).bind fun digits => fits (numeral 8 digits)
  | '0' :: 'b' :: r => (joinDigits isBinary r).bind fun digits => fits (numeral 2 digits)
  | s =>
    let (sign, r) := splitSign s
    (wholeDigits r).bind fun digits =>
      let n : Int := numeral 10 digits
      fits (if sign = some true then -n else n)

def beyondBinary64 (digits : List Char) (scale : Int) : Bool :=
  -- whether `digits * 10 ^ scale` rounds to infinity. The bounds keep the powers small
  let n := numeral 10 digits
  let magnitude := (Nat.toDigits 10 n).length + scale
  n ≠ 0 ∧ magnitude > 308 ∧
    (magnitude > 310 ∨
      if scale ≥ 0 then n * Nat.pow 10 scale.toNat ≥ Json.binary64Limit
      else n ≥ Json.binary64Limit * Nat.pow 10 (-scale).toNat)

def readExponent? (s : List Char) : Option Int := do
  let (sign, r) := splitSign s
  let digits ← joinDigits Char.isDigit r
  let n : Int := numeral 10 digits
  some (if sign = some true then -n else n)

def cutAt (marks : List Char) (s : List Char) : List Char × Option (List Char) :=
  let front := s.takeWhile (!marks.contains ·)
  match s.dropWhile (!marks.contains ·) with
  | [] => (front, none)
  | _ :: r => (front, some r)

def isFiniteFloat (s : List Char) : Bool :=
  let (_, unsigned) := splitSign s
  let (mantissa, exponent) := cutAt ['e', 'E'] unsigned
  let (whole, fraction) := cutAt ['.'] mantissa
  match wholeDigits whole, fraction, exponent with
  | none, _, _ => false
  | some _, none, none => false
  | some whole, none, some e => (readExponent? e).any fun e => !beyondBinary64 whole e
  | some whole, some f, none =>
    (joinDigits Char.isDigit f).any fun f => !beyondBinary64 (whole ++ f) (-f.length)
  | some whole, some f, some e =>
    (joinDigits Char.isDigit f).any fun f =>
      (readExponent? e).any fun e => !beyondBinary64 (whole ++ f) (e - f.length)

def isFloat (s : List Char) : Bool :=
  let (_, unsigned) := splitSign s
  unsigned == ['i', 'n', 'f'] || unsigned == ['n', 'a', 'n'] || isFiniteFloat s

def twoDigits : List Char → Option (Nat × List Char)
  | a :: b :: r => if a.isDigit && b.isDigit then some (numeral 10 [a, b], r) else none
  | _ => none

def fourDigits (s : List Char) : Option (Nat × List Char) := do
  let (high, r) ← twoDigits s
  let (low, r) ← twoDigits r
  some (high * 100 + low, r)

def readMark (mark : Char) : List Char → Option (List Char)
  | c :: r => if c = mark then some r else none
  | [] => none

def daysIn (year month : Nat) : Nat :=
  if month = 2 then
    if year % 4 = 0 ∧ (year % 100 ≠ 0 ∨ year % 400 = 0) then 29 else 28
  else if month = 4 ∨ month = 6 ∨ month = 9 ∨ month = 11 then 30
  else 31

def afterDate (s : List Char) : Option (List Char) := do
  let (year, r) ← fourDigits s
  let (month, r) ← twoDigits (← readMark '-' r)
  let (day, r) ← twoDigits (← readMark '-' r)
  if 1 ≤ month ∧ month ≤ 12 ∧ 1 ≤ day ∧ day ≤ daysIn year month then some r else none

def afterFraction : List Char → Option (List Char)
  | '.' :: c :: r => if c.isDigit then some (r.dropWhile Char.isDigit) else none
  | '.' :: [] => none
  | r => some r

def afterTime (s : List Char) : Option (List Char) := do
  -- what follows a time of day. The seconds may be left out, and 60 is the leap second
  let (hour, r) ← twoDigits s
  let (minute, r) ← twoDigits (← readMark ':' r)
  if hour > 23 ∨ minute > 59 then none
  else
    match r with
    | ':' :: r => do
      let (second, r) ← twoDigits r
      if second > 60 then none else afterFraction r
    | r => some r

def isOffset : List Char → Bool
  | [] => true
  | ['Z'] => true
  | ['z'] => true
  | c :: r =>
    (c == '+' || c == '-') &&
      match twoDigits r with
      | some (hour, ':' :: r) =>
        hour ≤ 23 &&
          match twoDigits r with
          | some (minute, []) => minute ≤ 59
          | _ => false
      | _ => false

def isTime (s : List Char) : Bool :=
  match afterDate s with
  | some [] => true
  | some (c :: r) => (c == 'T' || c == 't' || c == ' ') && (afterTime r).any isOffset
  | none => afterTime s == some []

def scalar? (s : List Char) : Option Value :=
  if s = ['t', 'r', 'u', 'e'] ∨ s = ['f', 'a', 'l', 's', 'e'] then some .boolean
  else if isTime s then some .time
  else if isFloat s then some .float
  else (readInteger? s).map .integer

def endsScalar (c : Char) : Bool :=
  isBlank c || c == '\n' || c == '\r' || c == ',' || c == ']' || c == '\x7d' || c == '#'

def readScalar (s : List Char) : Option (Value × List Char) :=
  -- an unquoted value. A date goes on behind a single blank if a digit follows it
  let front := s.takeWhile (!endsScalar ·)
  match afterDate front, s.dropWhile (!endsScalar ·) with
  | some [], ' ' :: c :: r =>
    if c.isDigit then
      (scalar? (front ++ ' ' :: (c :: r).takeWhile (!endsScalar ·))).map
        (·, (c :: r).dropWhile (!endsScalar ·))
    else some (.time, ' ' :: c :: r)
  | _, r => (scalar? front).map (·, r)

end FrontendSurvey.Toml
