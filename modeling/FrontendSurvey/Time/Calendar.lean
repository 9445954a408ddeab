set_option autoImplicit false

namespace FrontendSurvey

structure Date where
  year : Int
  month : Nat
  day : Nat
  deriving DecidableEq, Repr

namespace Date

def daysPerEra : Int := 146097

/-- The era of 400 years starts on the first of March, so that a leap day is the last of its year. -/
def ofDays (days : Int) : Date :=
  let fromEraStart := days + 719468
  let era := fromEraStart / daysPerEra
  let dayOfEra := (fromEraStart % daysPerEra).toNat
  let yearOfEra := (dayOfEra - dayOfEra / 1460 + dayOfEra / 36524 - dayOfEra / 146096) / 365
  let dayOfYear := dayOfEra - (365 * yearOfEra + yearOfEra / 4 - yearOfEra / 100)
  let monthFromMarch := (5 * dayOfYear + 2) / 153
  let month := if monthFromMarch < 10 then monthFromMarch + 3 else monthFromMarch - 9
  { year := yearOfEra + era * 400 + if month ≤ 2 then 1 else 0
    month := month
    day := dayOfYear - (153 * monthFromMarch + 2) / 5 + 1 }

def toDays (d : Date) : Int :=
  let year := if d.month ≤ 2 then d.year - 1 else d.year
  let yearOfEra := (year % 400).toNat
  let monthFromMarch := if d.month > 2 then d.month - 3 else d.month + 9
  let dayOfYear := (153 * monthFromMarch + 2) / 5 + d.day - 1
  let dayOfEra := yearOfEra * 365 + yearOfEra / 4 - yearOfEra / 100 + dayOfYear
  year / 400 * daysPerEra + dayOfEra - 719468

end Date

end FrontendSurvey
