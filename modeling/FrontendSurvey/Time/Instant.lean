import FrontendSurvey.Time.Calendar

set_option autoImplicit false

namespace FrontendSurvey

structure Instant where
  seconds : Int
  nanos : Nat
  in_range : -8334601228800 ≤ seconds ∧ seconds ≤ 8210266876799
  nanos_lt : nanos < 1000000000 ∨ (nanos < 2000000000 ∧ seconds % 60 = 59)
  deriving DecidableEq

namespace Instant

def ofUnix? (seconds : Int) (nanos : Nat) : Option Instant :=
  if in_range : -8334601228800 ≤ seconds ∧ seconds ≤ 8210266876799 then
    if nanos_lt : nanos < 1000000000 ∨ (nanos < 2000000000 ∧ seconds % 60 = 59) then
      some ⟨seconds, nanos, in_range, nanos_lt⟩
    else none
  else none

def millis (t : Instant) : Int := t.seconds * 1000 + (t.nanos / 1000000 : Nat)

def ofMillis? (ms : Int) : Option Instant :=
  ofUnix? (ms / 1000) ((ms % 1000).toNat * 1000000)

def padded (width n : Nat) : List Char :=
  let digits := Nat.toDigits 10 n
  List.replicate (width - digits.length) '0' ++ digits

def yearText (year : Int) : List Char :=
  -- four digits, with a sign outside the years 0 to 9999
  if 0 ≤ year ∧ year ≤ 9999 then padded 4 year.toNat
  else (if year < 0 then '-' else '+') :: padded 4 year.natAbs

-- Date and time to the millisecond; what is finer is cut off. A leap second is second 60.
def iso (t : Instant) : String :=
  let date := Date.ofDays (t.seconds / 86400)
  let second := (t.seconds % 86400).toNat
  String.ofList <|
    yearText date.year ++ '-' :: padded 2 date.month ++ '-' :: padded 2 date.day ++
    'T' :: padded 2 (second / 3600) ++ ':' :: padded 2 (second / 60 % 60) ++
    ':' :: padded 2 (second % 60 + t.nanos / 1000000000) ++
    '.' :: padded 3 (t.nanos % 1000000000 / 1000000) ++ ['Z']

def start2025 : Instant := ⟨1735689600, 0, by decide, by decide⟩

end Instant

end FrontendSurvey
