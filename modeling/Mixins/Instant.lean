/-!
# Instants

A point in time is a number of milliseconds since 1970-01-01 in UTC. Its text is the date and the
time of day in the proleptic Gregorian calendar, as RFC 3339 writes them, with milliseconds only if
they are not zero. Years outside 0 to 9999 carry a sign; years outside -262143 to 262142 have no
text.
-/

namespace Mixins.Instant

structure Date where
  year : Int
  month : Nat
  day : Nat
  deriving DecidableEq, Repr

/-- The date `days` after 1970-01-01. Years are counted from March, so that a leap day comes last; a
cycle of the calendar is 400 years or 146097 days. -/
def dateOf (days : Int) : Date :=
  let shifted := days + 719468
  let cycle := shifted.fdiv 146097
  let dayOfCycle := (shifted.fmod 146097).toNat
  let yearOfCycle :=
    (dayOfCycle - dayOfCycle / 1460 + dayOfCycle / 36524 - dayOfCycle / 146096) / 365
  let dayOfYear := dayOfCycle - (365 * yearOfCycle + yearOfCycle / 4 - yearOfCycle / 100)
  let monthFromMarch := (5 * dayOfYear + 2) / 153
  let day := dayOfYear - (153 * monthFromMarch + 2) / 5 + 1
  let month := if monthFromMarch < 10 then monthFromMarch + 3 else monthFromMarch - 9
  let year := (yearOfCycle : Int) + cycle * 400 + (if month ≤ 2 then 1 else 0)
  ⟨year, month, day⟩

/-- At least `width` decimal digits. -/
def padded (width n : Nat) : String :=
  let digits := toString n
  String.ofList (List.replicate (width - digits.length) '0') ++ digits

def yearText (year : Int) : String :=
  if year < 0 then "-" ++ padded 4 year.natAbs
  else if year ≤ 9999 then padded 4 year.natAbs
  else "+" ++ padded 4 year.natAbs

def text? (milliseconds : Int) : Option String :=
  let seconds := milliseconds.fdiv 1000
  let fraction := (milliseconds.fmod 1000).toNat
  let date := dateOf (seconds.fdiv 86400)
  let second := (seconds.fmod 86400).toNat
  if date.year < -262143 || 262142 < date.year then none
  else
    let clock := padded 2 (second / 3600) ++ ":" ++ padded 2 (second / 60 % 60) ++ ":"
      ++ padded 2 (second % 60)
    let decimals := if fraction = 0 then "" else "." ++ padded 3 fraction
    let day := yearText date.year ++ "-" ++ padded 2 date.month ++ "-" ++ padded 2 date.day
    some (day ++ "T" ++ clock ++ decimals ++ "+00:00")

end Mixins.Instant
