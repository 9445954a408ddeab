import FrontendSurvey.Time.ScanWindow
import FrontendSurvey.Proofs.Text.Digits
import FrontendSurvey.Proofs.Time.Calendar
import Mathlib

set_option autoImplicit false

namespace FrontendSurvey

open Text

structure Timestamp where
  date : Date
  hour : Nat
  minute : Nat
  second : Nat
  milli : Nat
  deriving DecidableEq, Repr

namespace Timestamp

def digits? (width : Nat) (text : List Char) : Option (Nat × List Char) :=
  if (text.take width).length = width ∧ ∀ c ∈ text.take width, c.isDigit = true then
    some (numeral 10 (text.take width), text.drop width)
  else none

def year? : List Char → Option (Int × List Char)
  | '-' :: text => (digits? (max 4 (text.takeWhile Char.isDigit).length) text).map fun (n, rest) => (-n, rest)
  | '+' :: text => (digits? (max 4 (text.takeWhile Char.isDigit).length) text).map fun (n, rest) => (n, rest)
  | text => (digits? 4 text).map fun (n, rest) => (n, rest)

/-- What follows a year: month, day, hour, minute, second, millisecond, each a mark and so many digits. -/
def layout : List (Char × Nat) := [('-', 2), ('-', 2), ('T', 2), (':', 2), (':', 2), ('.', 3)]

def numbers? : List (Char × Nat) → List Char → Option (List Nat)
  | [], text => if text = ['Z'] then some [] else none
  | _ :: _, [] => none
  | (mark, width) :: parts, c :: text =>
    if c = mark then do
      let (n, rest) ← digits? width text
      let numbers ← numbers? parts rest
      some (n :: numbers)
    else none

def ofText? (text : String) : Option Timestamp := do
  let (year, rest) ← year? text.toList
  match ← numbers? layout rest with
  | [month, day, hour, minute, second, milli] => some ⟨⟨year, month, day⟩, hour, minute, second, milli⟩
  | _ => none

structure InDay (stamp : Timestamp) : Prop where
  hour : stamp.hour < 24
  minute : stamp.minute < 60
  second : stamp.second < 60
  milli : stamp.milli < 1000

def Denotes (text : String) (millis : Int) : Prop :=
  ∃ stamp days, ofText? text = some stamp ∧ stamp.date.Numbered days ∧ stamp.InDay ∧
    millis = (((days * 24 + stamp.hour) * 60 + stamp.minute) * 60 + stamp.second) * 1000 + stamp.milli

theorem Denotes.unique {text : String} {a b : Int} (left : Denotes text a) (right : Denotes text b) : a = b := by
  obtain ⟨stamp, days, read, numbered, -, rfl⟩ := left
  obtain ⟨other, number, again, renumbered, -, rfl⟩ := right
  obtain rfl := Option.some.inj (read.symm.trans again)
  rw [numbered.unique renumbered]

theorem digits?_append {digits : List Char} (all : ∀ c ∈ digits, c.isDigit = true) (rest : List Char) :
    digits? digits.length (digits ++ rest) = some (numeral 10 digits, rest) := by
  rw [digits?, List.take_left, List.drop_left, if_pos ⟨rfl, all⟩]

theorem isDigit_of_mem_padded (width n : Nat) : ∀ c ∈ Instant.padded width n, c.isDigit = true := by
  intro c member
  rw [Instant.padded, List.mem_append] at member
  rcases member with zero | digit
  · rw [List.eq_of_mem_replicate zero]
    rfl
  · exact isDigit_of_mem n c digit

theorem length_padded (width n : Nat) :
    (Instant.padded width n).length = max width (Nat.toDigits 10 n).length := by
  rw [Instant.padded, List.length_append, List.length_replicate]
  omega

theorem numeral_padded (width n : Nat) : numeral 10 (Instant.padded width n) = n := by
  have zeros (k : Nat) : numeral 10 (List.replicate k '0') = 0 := by
    induction k with
    | zero => rfl
    | succ k ih =>
      rw [List.replicate_succ', numeral, List.foldl_append]
      rw [numeral] at ih
      rw [ih]
      rfl
  have first := zeros (width - (Nat.toDigits 10 n).length)
  rw [numeral] at first
  rw [Instant.padded, numeral, List.foldl_append, first]
  exact numeral_toDigits n

theorem digits?_padded {width n : Nat} (some' : 0 < width) (fits : n < 10 ^ width) (rest : List Char) :
    digits? width (Instant.padded width n ++ rest) = some (n, rest) := by
  have digits := (Nat.length_toDigits_le_iff (by decide) some').2 fits
  have length : (Instant.padded width n).length = width := by
    rw [length_padded]
    exact Nat.max_eq_left digits
  have read := digits?_append (isDigit_of_mem_padded width n) rest
  rwa [length, numeral_padded] at read

def written : List (Char × Nat) → List Nat → List Char
  | (mark, width) :: parts, n :: numbers => mark :: (Instant.padded width n ++ written parts numbers)
  | _, _ => ['Z']

theorem numbers?_written {parts : List (Char × Nat)} {numbers : List Nat}
    (fit : List.Forall₂ (fun part n => 0 < part.2 ∧ n < 10 ^ part.2) parts numbers) :
    numbers? parts (written parts numbers) = some numbers := by
  induction fit with
  | nil => rfl
  | cons fits _ ih =>
    obtain ⟨some', small⟩ := fits
    simp only [written, numbers?, if_true, digits?_padded some' small, ih, bind, Option.bind]

theorem year?_yearText (year : Int) {rest : List Char} (ends : rest.takeWhile Char.isDigit = []) :
    year? (Instant.yearText year ++ rest) = some (year, rest) := by
  have digits (n : Nat) : digits? (max 4 ((Instant.padded 4 n ++ rest).takeWhile Char.isDigit).length)
      (Instant.padded 4 n ++ rest) = some (n, rest) := by
    have all := isDigit_of_mem_padded 4 n
    have most : max 4 (Instant.padded 4 n).length = (Instant.padded 4 n).length := by
      rw [length_padded]
      omega
    rw [List.takeWhile_append_of_pos all, ends, List.append_nil, most, digits?_append all, numeral_padded]
  rw [Instant.yearText]
  split
  next plain =>
    have small : year.toNat < 10 ^ 4 := by omega
    have read := digits?_padded (by decide) small rest
    unfold year?
    split
    next text signed => simp [signed, digits?] at read
    next text signed => simp [signed, digits?] at read
    next text _ _ => simp only [read, Option.map_some, Int.toNat_of_nonneg plain.1]
  next =>
    split
    next negative =>
      have whole : -(year.natAbs : Int) = year := by omega
      simp only [List.cons_append, year?, digits, Option.map_some, whole]
    next positive =>
      have whole : (year.natAbs : Int) = year := by omega
      simp only [List.cons_append, year?, digits, Option.map_some, whole]

def numbers (stamp : Timestamp) : List Nat :=
  [stamp.date.month, stamp.date.day, stamp.hour, stamp.minute, stamp.second, stamp.milli]

theorem ofText?_written {stamp : Timestamp} (date : stamp.date.Valid) (time : stamp.InDay) :
    ofText? (String.ofList (Instant.yearText stamp.date.year ++ written layout stamp.numbers)) = some stamp := by
  have month := date.month.2
  have day := date.day_le.1
  obtain ⟨hour, minute, second, milli⟩ := time
  have fit : List.Forall₂ (fun part n => 0 < part.2 ∧ n < 10 ^ part.2) layout stamp.numbers := by
    simp [layout, numbers]
    omega
  have ends : (written layout stamp.numbers).takeWhile Char.isDigit = [] := rfl
  rw [ofText?, String.toList_ofList, year?_yearText _ ends]
  simp only [bind, Option.bind, numbers?_written fit]
  rfl

def ofInstant (t : Instant) : Timestamp where
  date := Date.ofDays (t.seconds / 86400)
  hour := (t.seconds % 86400).toNat / 3600
  minute := (t.seconds % 86400).toNat / 60 % 60
  second := (t.seconds % 86400).toNat % 60
  milli := t.nanos / 1000000

theorem denotes_iso {t : Instant} (whole : t.nanos < 1000000000) : Denotes t.iso t.millis := by
  have text : t.iso = String.ofList (Instant.yearText (ofInstant t).date.year ++
      written layout (ofInstant t).numbers) := by
    have second : t.nanos / 1000000000 = 0 := by omega
    have rest : t.nanos % 1000000000 = t.nanos := by omega
    simp [Instant.iso, second, rest, written, layout, numbers, ofInstant]
  have valid : (ofInstant t).date.Valid := Date.valid_ofDays _
  have time : (ofInstant t).InDay := by
    constructor
    all_goals
      simp only [ofInstant]
      omega
  refine ⟨ofInstant t, t.seconds / 86400, ?_, Date.numbered_ofDays _, time, ?_⟩
  · rw [text]
    exact ofText?_written valid time
  · simp only [ofInstant, Instant.millis]
    omega

end Timestamp

namespace Instant

/-- Nanoseconds from the start of 1970; those of a leap second run into the next second. -/
def sinceEpoch (t : Instant) : Int := t.seconds * 1000000000 + t.nanos

def LastLeap (t : Instant) : Prop := t.seconds = 8210266876799 ∧ 1000000000 ≤ t.nanos

theorem millis_eq (t : Instant) : t.millis = t.sinceEpoch / 1000000 := by
  rw [millis, sinceEpoch]
  omega

theorem ofMillis?_eq {ms : Int} (low : -8334601228800 ≤ ms / 1000) (high : ms / 1000 ≤ 8210266876799) :
    ∃ t, ofMillis? ms = some t ∧ t.millis = ms ∧ t.nanos < 1000000000 := by
  have fine : (ms % 1000).toNat * 1000000 < 1000000000 := by omega
  refine ⟨⟨ms / 1000, (ms % 1000).toNat * 1000000, ⟨low, high⟩, .inl fine⟩, ?_, ?_, fine⟩
  · rw [ofMillis?, ofUnix?, dif_pos ⟨low, high⟩, dif_pos (.inl fine)]
  · simp only [millis]
    omega

end Instant

namespace ScanWindow

open Instant Timestamp

theorem cut_eq {t : Instant} (inside : ¬ t.LastLeap) : (cut t).millis = t.millis ∧ (cut t).nanos < 1000000000 := by
  obtain ⟨low, high⟩ := t.in_range
  have bound := t.nanos_lt
  have range : -8334601228800 ≤ t.millis / 1000 ∧ t.millis / 1000 ≤ 8210266876799 := by
    rw [LastLeap] at inside
    rw [Instant.millis]
    omega
  obtain ⟨whole, made, millis, fine⟩ := ofMillis?_eq range.1 range.2
  rw [cut, made]
  exact ⟨millis, fine⟩

theorem denotes_cut {t : Instant} (inside : ¬ t.LastLeap) (ms : Int) : Denotes (cut t).iso ms ↔ ms = t.millis := by
  obtain ⟨same, fine⟩ := cut_eq inside
  have denotes := denotes_iso fine
  rw [same] at denotes
  constructor
  · exact fun other => other.unique denotes
  · rintro rfl
    exact denotes

theorem between_consistent (started ended : Instant) (first : ¬ started.LastLeap) (last : ¬ ended.LastLeap) :
    (started.millis = started.sinceEpoch / 1000000 ∧ ended.millis = ended.sinceEpoch / 1000000) ∧
    (∀ ms, Denotes (between started ended).started ms ↔ ms = started.millis) ∧
    (∀ ms, Denotes (between started ended).ended ms ↔ ms = ended.millis) ∧
    ∀ a b, Denotes (between started ended).started a → Denotes (between started ended).ended b →
      ((between started ended).millis : Int) = if 0 ≤ b - a then b - a else 0 := by
  refine ⟨⟨millis_eq started, millis_eq ended⟩, denotes_cut first, denotes_cut last, fun a b start stop => ?_⟩
  obtain rfl := (denotes_cut first a).1 start
  obtain rfl := (denotes_cut last b).1 stop
  rw [between]
  split
  next forwards => exact Int.toNat_of_nonneg forwards
  next backwards =>
    dsimp only
    omega

-- in a leap second at the end of 1969
def leap1969 : Instant := ⟨-1, 1999999999, by decide, by decide⟩

def start10000 : Instant := ⟨253402300800, 1500000, by decide, by decide⟩

theorem between_consistent_leap :
    (¬ leap1969.LastLeap ∧ ¬ start10000.LastLeap) ∧
    Denotes "1970-01-01T00:00:00.999Z" 999 ∧ Denotes "+10000-01-01T00:00:00.001Z" 253402300800001 ∧
    (between leap1969 start10000).millis = 253402300799002 := by
  have first : ¬ leap1969.LastLeap := fun leap => absurd leap.1 (by decide)
  have last : ¬ start10000.LastLeap := fun leap => absurd leap.1 (by decide)
  obtain ⟨-, start, stop, duration⟩ := between_consistent leap1969 start10000 first last
  have denotesStart := (start _).2 rfl
  have denotesStop := (stop _).2 rfl
  have length := duration _ _ denotesStart denotesStop
  have startText : (between leap1969 start10000).started = "1970-01-01T00:00:00.999Z" := by decide +kernel
  have stopText : (between leap1969 start10000).ended = "+10000-01-01T00:00:00.001Z" := by decide +kernel
  rw [startText] at denotesStart
  rw [stopText] at denotesStop
  exact ⟨⟨first, last⟩, denotesStart, denotesStop, Int.ofNat_inj.1 (length.trans (by decide))⟩

end ScanWindow

end FrontendSurvey
