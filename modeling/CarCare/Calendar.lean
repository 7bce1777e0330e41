import CarCare.Text.Digits

/-!
Days and moments. A day is its number in the calendar of leap years extended to year 1, so that
days compare and move as numbers; its year, month and day are computed from that. Days are read in
the three basic and extended forms of the international standard: by month and day, by week, and
by week and weekday.
-/
namespace CarCare

/-- A day, counted from the first of January of year 1, which is day 1. -/
structure Date where
  ordinal : Nat
deriving DecidableEq, Repr

namespace Date

instance : LE Date := ⟨fun a b => a.ordinal ≤ b.ordinal⟩

instance (a b : Date) : Decidable (a ≤ b) := inferInstanceAs (Decidable (a.ordinal ≤ b.ordinal))

/-- Every fourth year is a leap year, but of the centuries only every fourth. -/
def isLeap (year : Nat) : Bool :=
  year % 4 == 0 && (year % 100 != 0 || year % 400 == 0)

def daysBeforeYear (year : Nat) : Nat :=
  let past := year - 1
  past * 365 + past / 4 - past / 100 + past / 400

def monthLengths (year : Nat) : List Nat :=
  [31, if isLeap year then 29 else 28, 31, 30, 31, 30, 31, 31, 30, 31, 30, 31]

def lastYear : Nat := 9999

/-- The day of a year, a month and a day of the month, if there is such a day. -/
def ofCivil? (year month day : Nat) : Option Date :=
  if 1 ≤ year ∧ year ≤ lastYear ∧ 1 ≤ month ∧ 1 ≤ day then
    match (monthLengths year)[month - 1]? with
    | some length =>
      if day ≤ length then
        some ⟨daysBeforeYear year + ((monthLengths year).take (month - 1)).foldl (· + ·) 0 + day⟩
      else none
    | none => none
  else none

/-- The month and day of the month, for a number of days after the first of January. -/
def monthAndDay : (lengths : List Nat) → (month rest : Nat) → Nat × Nat
  | [], month, rest => (month, rest + 1)
  | length :: lengths, month, rest =>
    if rest < length then (month, rest + 1) else monthAndDay lengths (month + 1) (rest - length)

/-- The year that a day falls into: the last one that begins no later. -/
def year (d : Date) : Nat :=
  let guess := (d.ordinal - 1) / 366 + 1
  let candidates := (List.range ((d.ordinal - 1) / 365 + 2 - guess)).map (guess + ·)
  (candidates.reverse.find? fun y => daysBeforeYear y < d.ordinal).getD guess

def civil (d : Date) : Nat × Nat × Nat :=
  let (month, day) := monthAndDay (monthLengths d.year) 1 (d.ordinal - 1 - daysBeforeYear d.year)
  (d.year, month, day)

/-- The text of a day: year, month and day, parted by hyphens. -/
def text (d : Date) : String :=
  let (year, month, day) := d.civil
  Text.padded 4 year ++ "-" ++ Text.padded 2 month ++ "-" ++ Text.padded 2 day

def weekday (d : Date) : Nat := (d.ordinal + 6) % 7

/-- The Monday of the first week of a year: the week that holds the year's first Thursday. -/
def firstMonday (year : Nat) : Nat :=
  let newYear : Date := ⟨daysBeforeYear year + 1⟩
  if newYear.weekday ≤ 3 then newYear.ordinal - newYear.weekday
  else newYear.ordinal + 7 - newYear.weekday

/-- Whether a year has 53 weeks: it begins on a Thursday, or on a Wednesday in a leap year. -/
def hasLongWeekYear (year : Nat) : Bool :=
  let first := Date.weekday ⟨daysBeforeYear year + 1⟩
  first == 3 || (first == 2 && isLeap year)

/-- The day of a week year, a week and a weekday from 1 to 7. -/
def ofWeek? (year week day : Nat) : Option Date :=
  let weeks := if hasLongWeekYear year then 53 else 52
  if 1 ≤ year ∧ year ≤ lastYear ∧ 1 ≤ week ∧ week ≤ weeks ∧ 1 ≤ day ∧ day ≤ 7 then
    let ordinal := firstMonday year + (week - 1) * 7 + (day - 1)
    if 1 ≤ ordinal ∧ ordinal ≤ daysBeforeYear (lastYear + 1) then some ⟨ordinal⟩ else none
  else none

/-- Reads exactly `count` digits. -/
def takeDigits? (count : Nat) (s : List Char) : Option (Nat × List Char) :=
  if (s.take count).length = count then
    (Text.ofDigits? 10 (s.take count)).map (·, s.drop count)
  else none

/-- Reads a hyphen if the text is written with hyphens, and nothing otherwise. -/
def takeHyphen? (hyphens : Bool) (s : List Char) : Option (List Char) :=
  match hyphens, s with
  | false, s => some s
  | true, '-' :: rest => some rest
  | true, _ => none

/-- Reads the part of a week date after its W. Without a weekday the week's Monday is meant. -/
def readWeek? (hyphens : Bool) (year : Nat) (s : List Char) : Option Date := do
  let (week, rest) ← takeDigits? 2 s
  if rest.isEmpty then ofWeek? year week 1
  else
    let rest ← takeHyphen? hyphens rest
    let (day, _) ← takeDigits? 1 rest
    ofWeek? year week day

/-- Reads a day of 7, 8 or 10 bytes in a basic or extended form. A text of such a length whose
digits are complete earlier is read by those digits. -/
def read? (s : String) : Option Date :=
  if [7, 8, 10].contains s.utf8ByteSize then do
    let (year, rest) ← takeDigits? 4 s.toList
    let hyphens := rest.head? == some '-'
    let rest ← takeHyphen? hyphens rest
    match rest with
    | 'W' :: rest => readWeek? hyphens year rest
    | rest => do
      let (month, rest) ← takeDigits? 2 rest
      let rest ← takeHyphen? hyphens rest
      let (day, _) ← takeDigits? 2 rest
      ofCivil? year month day
  else none

def daysAgo? (d : Date) (days : Nat) : Option Date :=
  if days < d.ordinal then some ⟨d.ordinal - days⟩ else none

end Date

/-- A moment of a day's clock, counted in seconds from the start of day 0. -/
structure Timestamp where
  seconds : Nat
deriving DecidableEq, Repr

namespace Timestamp

def secondsPerDay : Nat := 86400

/-- The moment so many seconds after the start of a day. -/
def after (d : Date) (seconds : Nat) : Timestamp := ⟨d.ordinal * secondsPerDay + seconds⟩

def date (t : Timestamp) : Date := ⟨t.seconds / secondsPerDay⟩

/-- Date and time of day to the second, joined by the letter T. -/
def text (t : Timestamp) : String :=
  let s := t.seconds % secondsPerDay
  t.date.text ++ "T" ++ Text.padded 2 (s / 3600) ++ ":" ++ Text.padded 2 (s / 60 % 60) ++ ":"
    ++ Text.padded 2 (s % 60)

end Timestamp

end CarCare
