import FrontendSurvey.Time.Calendar
import Mathlib

set_option autoImplicit false

namespace FrontendSurvey.Date

def Leap (year : Int) : Prop := year % 4 = 0 ∧ (year % 100 = 0 → year % 400 = 0)

instance : DecidablePred Leap := fun year =>
  inferInstanceAs (Decidable (year % 4 = 0 ∧ (year % 100 = 0 → year % 400 = 0)))

def monthLength (year : Int) (month : Nat) : Nat :=
  if month = 2 then if Leap year then 29 else 28
  else if month ∈ [4, 6, 9, 11] then 30 else 31

structure Valid (d : Date) : Prop where
  month : 1 ≤ d.month ∧ d.month ≤ 12
  day : 1 ≤ d.day ∧ d.day ≤ monthLength d.year d.month

def next (d : Date) : Date :=
  if d.day < monthLength d.year d.month then ⟨d.year, d.month, d.day + 1⟩
  else if d.month < 12 then ⟨d.year, d.month + 1, 1⟩
  else ⟨d.year + 1, 1, 1⟩

inductive Numbered : Date → Int → Prop where
  | start : Numbered ⟨1970, 1, 1⟩ 0
  | next {d : Date} {n : Int} (here : Numbered d n) : Numbered d.next (n + 1)
  | back {d : Date} {n : Int} (valid : d.Valid) (later : Numbered d.next (n + 1)) : Numbered d n

theorem one_le_monthLength (year : Int) (month : Nat) : 1 ≤ monthLength year month := by
  rw [monthLength]
  split_ifs <;> omega

theorem Valid.next {d : Date} (valid : d.Valid) : d.next.Valid := by
  obtain ⟨month, day⟩ := valid
  rw [Date.next]
  split
  next within =>
    have later : 1 ≤ d.day + 1 := by omega
    exact ⟨month, later, within⟩
  next =>
    split
    next early =>
      have later : 1 ≤ d.month + 1 := by omega
      exact ⟨⟨later, early⟩, Nat.le_refl 1, one_le_monthLength _ _⟩
    next => exact ⟨⟨Nat.le_refl 1, Nat.le_add_left 1 11⟩, Nat.le_refl 1, one_le_monthLength _ _⟩

def yearStart (year : Int) : Int := 365 * year + year / 4 - year / 100 + year / 400 - 719468

def fromMarch (year : Int) (dayOfYear : Nat) : Date :=
  let monthFromMarch := (5 * dayOfYear + 2) / 153
  let month := if monthFromMarch < 10 then monthFromMarch + 3 else monthFromMarch - 9
  { year := year + if month ≤ 2 then 1 else 0
    month := month
    day := dayOfYear - (153 * monthFromMarch + 2) / 5 + 1 }

def InYear (year : Int) (dayOfYear : Nat) : Prop :=
  dayOfYear ≤ 365 ∧ (dayOfYear = 365 → Leap (year + 1))

def marchYear (d : Date) : Int := if d.month ≤ 2 then d.year - 1 else d.year

def monthFromMarch (d : Date) : Nat := if d.month > 2 then d.month - 3 else d.month + 9

def dayOfYear (d : Date) : Nat := (153 * d.monthFromMarch + 2) / 5 + d.day - 1

theorem toDays_eq (d : Date) : d.toDays = yearStart d.marchYear + d.dayOfYear := by
  have start (year : Int) : year / 400 * daysPerEra +
      ((year % 400).toNat * 365 + (year % 400).toNat / 4 - (year % 400).toNat / 100 : Nat) - 719468 =
      yearStart year := by
    simp only [yearStart, daysPerEra]
    omega
  simp only [toDays, ← start]
  rw [marchYear, dayOfYear, monthFromMarch]
  push_cast
  omega

theorem yearStart_succ (year : Int) :
    yearStart (year + 1) = yearStart year + 365 + if Leap (year + 1) then 1 else 0 := by
  by_cases leap : Leap (year + 1)
  next =>
    rw [if_pos leap]
    simp only [Leap] at leap
    simp only [yearStart]
    omega
  next =>
    rw [if_neg leap]
    simp only [Leap] at leap
    simp only [yearStart]
    omega

theorem yearStart_mono {y z : Int} (le : y ≤ z) : yearStart y ≤ yearStart z := by
  simp only [yearStart]
  omega

theorem InYear.lt {y : Int} {n : Nat} (inYear : InYear y n) : yearStart y + n < yearStart (y + 1) := by
  obtain ⟨most, last⟩ := inYear
  rw [yearStart_succ]
  by_cases leap : Leap (y + 1)
  next =>
    rw [if_pos leap]
    omega
  next =>
    have inner : n ≠ 365 := fun end' => leap (last end')
    rw [if_neg leap]
    omega

theorem InYear.unique {y z : Int} {n m : Nat} (left : InYear y n) (right : InYear z m)
    (same : yearStart y + n = yearStart z + m) : y = z ∧ n = m := by
  have first := left.lt
  have second := right.lt
  rcases lt_trichotomy y z with less | rfl | greater
  · have := yearStart_mono (show y + 1 ≤ z from less)
    omega
  · exact ⟨rfl, by omega⟩
  · have := yearStart_mono (show z + 1 ≤ y from greater)
    omega

structure InEra (century quad year day : Nat) : Prop where
  centuries : century ≤ 3
  quads : quad ≤ 24
  years : year ≤ 3
  days : day ≤ 365
  last : day = 365 → year = 3 ∧ (quad = 24 → century = 3)

variable {c q r k : Nat}

theorem exists_inEra {dayOfEra : Nat} (inside : dayOfEra < 146097) :
    ∃ c q r k, dayOfEra = 36524 * c + 1461 * q + 365 * r + k ∧ InEra c q r k := by
  -- a century, a group and a year may be one day longer if they are the last ones
  obtain ⟨c, s, century, most, bound, last⟩ :
      ∃ c s, dayOfEra = 36524 * c + s ∧ c ≤ 3 ∧ s ≤ 36524 ∧ (s = 36524 → c = 3) := by
    by_cases last : dayOfEra = 146096
    next => exact ⟨3, 36524, by omega⟩
    next => exact ⟨dayOfEra / 36524, dayOfEra % 36524, by omega⟩
  obtain ⟨q, t, quad, most', bound', last'⟩ :
      ∃ q t, s = 1461 * q + t ∧ q ≤ 24 ∧ t ≤ 1460 ∧ (t = 1460 → q = 24 → s = 36524) :=
    ⟨s / 1461, s % 1461, by omega⟩
  obtain ⟨r, k, year, most'', bound'', last''⟩ :
      ∃ r k, t = 365 * r + k ∧ r ≤ 3 ∧ k ≤ 365 ∧ (k = 365 → t = 1460) := by
    by_cases last : t = 1460
    next => exact ⟨3, 365, by omega⟩
    next => exact ⟨t / 365, t % 365, by omega⟩
  exact ⟨c, q, r, k, by omega, most, most', most'', bound'', by omega⟩

theorem InEra.year_eq (inEra : InEra c q r k) {dayOfEra : Nat}
    (parts : dayOfEra = 36524 * c + 1461 * q + 365 * r + k) :
    (dayOfEra - dayOfEra / 1460 + dayOfEra / 36524 - dayOfEra / 146096) / 365 = 100 * c + 4 * q + r := by
  obtain ⟨century, quad, year, day, last⟩ := inEra
  obtain ⟨leaps, first, low, high⟩ :
      ∃ leaps, dayOfEra / 1460 = 25 * c + q + leaps ∧ leaps ≤ k ∧ k ≤ 364 + leaps := by
    refine ⟨(24 * c + q + 365 * r + k) / 1460, ?_, by omega, by omega⟩
    rw [parts, ← Nat.mul_add_div (by decide)]
    congr 1
    omega
  have second : dayOfEra / 36524 = c + dayOfEra / 146096 := by
    by_cases end' : dayOfEra = 146096
    next => omega
    next =>
      have whole : dayOfEra / 36524 = c := by omega
      omega
  have days : dayOfEra - dayOfEra / 1460 + dayOfEra / 36524 - dayOfEra / 146096 =
      365 * (100 * c + 4 * q + r) + (k - leaps) := by
    rw [second, first]
    generalize dayOfEra / 146096 = more
    clear last first second
    omega
  rw [days]
  clear last first second days parts
  omega

theorem InEra.yearStart_eq (inEra : InEra c q r k) (era : Int) :
    yearStart (era * 400 + (100 * c + 4 * q + r : Nat)) =
      era * daysPerEra + (36524 * c + 1461 * q + 365 * r : Nat) - 719468 := by
  obtain ⟨century, quad, year, -, -⟩ := inEra
  have eras : (era * 400 + (100 * c + 4 * q + r : Nat)) / 400 = era := by omega
  have centuries : (era * 400 + (100 * c + 4 * q + r : Nat)) / 100 = 4 * era + c := by omega
  have quads : (era * 400 + (100 * c + 4 * q + r : Nat)) / 4 = 100 * era + 25 * c + q := by omega
  rw [yearStart, eras, centuries, quads, daysPerEra]
  push_cast
  ring

theorem InEra.inYear (inEra : InEra c q r k) (era : Int) :
    InYear (era * 400 + (100 * c + 4 * q + r : Nat)) k := by
  refine ⟨inEra.days, fun last => ?_⟩
  obtain ⟨year, whole⟩ := inEra.last last
  obtain ⟨century, quad, -, -, -⟩ := inEra
  constructor
  · omega
  · omega

theorem InEra.daysBefore_eq (inEra : InEra c q r k) :
    365 * (100 * c + 4 * q + r) + (100 * c + 4 * q + r) / 4 - (100 * c + 4 * q + r) / 100 =
      36524 * c + 1461 * q + 365 * r := by
  obtain ⟨century, quad, year, -, -⟩ := inEra
  omega

theorem ofDays_parts (days : Int) : ∃ y n, InYear y n ∧ days = yearStart y + n ∧ ofDays days = fromMarch y n := by
  have inside : ((days + 719468) % daysPerEra).toNat < 146097 := by
    simp only [daysPerEra]
    omega
  have whole : days + 719468 =
      (days + 719468) / daysPerEra * daysPerEra + ((days + 719468) % daysPerEra).toNat := by
    simp only [daysPerEra]
    omega
  obtain ⟨c, q, r, k, parts, inEra⟩ := exists_inEra inside
  refine ⟨_, k, inEra.inYear ((days + 719468) / daysPerEra), ?_, ?_⟩
  · rw [inEra.yearStart_eq]
    omega
  · have dayOfYear : ((days + 719468) % daysPerEra).toNat - (36524 * c + 1461 * q + 365 * r) = k := by omega
    simp only [ofDays, inEra.year_eq parts, inEra.daysBefore_eq, dayOfYear, fromMarch]
    congr 1
    ring

variable {y : Int} {n : Nat} {d : Date}

theorem valid_fromMarch (inYear : InYear y n) : (fromMarch y n).Valid := by
  obtain ⟨most, last⟩ := inYear
  obtain ⟨m, month⟩ : ∃ m, (5 * n + 2) / 153 = m := ⟨_, rfl⟩
  rw [fromMarch, month]
  rcases (by omega : m ≤ 10 ∨ m = 11) with early | rfl
  next =>
    interval_cases m
    all_goals
      refine ⟨by simp, Nat.le_add_left 1 _, ?_⟩
      simp [monthLength]
      omega
  next =>
    refine ⟨by simp, Nat.le_add_left 1 _, ?_⟩
    show n - 337 + 1 ≤ if Leap (y + 1) then 29 else 28
    by_cases leap : Leap (y + 1)
    next =>
      rw [if_pos leap]
      omega
    next =>
      have inner : n ≠ 365 := fun end' => leap (last end')
      rw [if_neg leap]
      omega

theorem parts_fromMarch (inYear : InYear y n) : (fromMarch y n).marchYear = y ∧ (fromMarch y n).dayOfYear = n := by
  have most := inYear.1
  obtain ⟨m, month⟩ : ∃ m, (5 * n + 2) / 153 = m := ⟨_, rfl⟩
  have bound : m ≤ 11 := by omega
  rw [fromMarch, month]
  simp only [marchYear, dayOfYear]
  interval_cases m
  all_goals simp [monthFromMarch]
  all_goals omega

theorem Valid.day_le (valid : d.Valid) :
    d.day ≤ 31 ∧ (d.month = 2 → d.day ≤ 29) ∧ (d.month ∈ [4, 6, 9, 11] → d.day ≤ 30) := by
  have most := valid.day.2
  rw [monthLength] at most
  split_ifs at most <;> simp_all <;> omega

theorem Valid.monthFromMarch_eq (valid : d.Valid) : (5 * d.dayOfYear + 2) / 153 = d.monthFromMarch := by
  obtain ⟨low, high⟩ := valid.month
  have first := valid.day.1
  have most := valid.day_le
  obtain ⟨year, month, day⟩ := d
  simp only [dayOfYear, monthFromMarch] at *
  interval_cases month
  all_goals
    simp at most ⊢
    omega

theorem Valid.inYear (valid : d.Valid) : InYear d.marchYear d.dayOfYear := by
  have bounds := valid.day_le
  have most : d.dayOfYear ≤ 365 ∧ (d.dayOfYear = 365 → d.month = 2 ∧ d.day = 29) := by
    obtain ⟨low, high⟩ := valid.month
    obtain ⟨year, month, day⟩ := d
    simp only [dayOfYear, monthFromMarch] at *
    interval_cases month
    all_goals simp at bounds ⊢
    all_goals omega
  refine ⟨most.1, fun last => ?_⟩
  obtain ⟨february, leapDay⟩ := most.2 last
  rw [marchYear, if_pos (Nat.le_of_eq february), Int.sub_add_cancel]
  by_contra common
  have within := valid.day.2
  rw [monthLength, if_pos february, if_neg common] at within
  omega

theorem Valid.fromMarch_eq (valid : d.Valid) : fromMarch d.marchYear d.dayOfYear = d := by
  have first := valid.day.1
  have bounds := valid.month
  rw [fromMarch, valid.monthFromMarch_eq]
  obtain ⟨year, month, day⟩ := d
  simp only [marchYear, dayOfYear, monthFromMarch] at *
  by_cases early : month ≤ 2
  next =>
    have later : ¬ 2 < month := by omega
    have far : ¬ month + 9 < 10 := by omega
    simp [early, later, far]
    omega
  next =>
    have later : 2 < month := by omega
    have near : month - 3 < 10 := by omega
    have back : month - 3 + 3 = month := by omega
    simp [early, later, near, back]
    omega

theorem toDays_next (valid : d.Valid) : d.next.toDays = d.toDays + 1 := by
  obtain ⟨⟨low, high⟩, first, last⟩ := valid
  rw [toDays_eq, toDays_eq, next]
  obtain ⟨year, month, day⟩ := d
  simp only at *
  by_cases within : day < monthLength year month
  next =>
    rw [if_pos within]
    simp only [marchYear, dayOfYear, monthFromMarch]
    omega
  next =>
    have final : day = monthLength year month := by omega
    -- the year that starts in March ends with February
    have start := yearStart_succ (year - 1)
    rw [Int.sub_add_cancel] at start
    rw [if_neg within, final]
    simp only [marchYear, dayOfYear, monthFromMarch, monthLength]
    split at start
    next leap =>
      interval_cases month
      all_goals simp [leap]
      all_goals omega
    next common =>
      interval_cases month
      all_goals simp [common]
      all_goals omega

theorem valid_ofDays (days : Int) : (ofDays days).Valid := by
  obtain ⟨y, n, inYear, -, same⟩ := ofDays_parts days
  rw [same]
  exact valid_fromMarch inYear

theorem toDays_ofDays (days : Int) : (ofDays days).toDays = days := by
  obtain ⟨y, n, inYear, number, same⟩ := ofDays_parts days
  obtain ⟨year, day⟩ := parts_fromMarch inYear
  rw [same, toDays_eq, year, day, number]

theorem Valid.ofDays_toDays (valid : d.Valid) : ofDays d.toDays = d := by
  obtain ⟨y, n, inYear, number, same⟩ := ofDays_parts d.toDays
  rw [toDays_eq] at number
  obtain ⟨year, day⟩ := valid.inYear.unique inYear number
  rw [same, ← year, ← day, valid.fromMarch_eq]

theorem ofDays_succ (days : Int) : ofDays (days + 1) = (ofDays days).next := by
  have valid := valid_ofDays days
  rw [← valid.next.ofDays_toDays, toDays_next valid, toDays_ofDays]

theorem Numbered.valid_toDays {number : Int} (numbered : Numbered d number) : d.Valid ∧ d.toDays = number := by
  induction numbered with
  | start => exact ⟨⟨by decide, by decide⟩, by decide⟩
  | next here ih => exact ⟨ih.1.next, by rw [toDays_next ih.1, ih.2]⟩
  | back valid later ih =>
    have after := ih.2
    rw [toDays_next valid] at after
    exact ⟨valid, by omega⟩

theorem Numbered.unique {number other : Int} (numbered : Numbered d number) (again : Numbered d other) :
    number = other :=
  numbered.valid_toDays.2.symm.trans again.valid_toDays.2

theorem numbered_ofDays (days : Int) : Numbered (ofDays days) days := by
  induction days using Int.induction_on with
  | zero => exact .start
  | succ n ih =>
    rw [ofDays_succ]
    exact .next ih
  | pred n ih =>
    have after : ofDays (-n) = (ofDays (-n - 1)).next := by rw [← ofDays_succ, Int.sub_add_cancel]
    rw [after] at ih
    exact .back (valid_ofDays _) (by rwa [Int.sub_add_cancel])

end FrontendSurvey.Date
