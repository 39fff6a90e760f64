import MyNet.Base.Runtime

/-!
# `gmtime_r` and `strftime`

Seconds since 1970 in the proleptic Gregorian calendar, and the one format the log files
use. The days are counted from 1 March of year 0, so that a leap day is the last day
of its year.
-/
namespace MyNet.Base

structure Tm where
  year : Int
  month : Int
  day : Int
  hour : Int
  minute : Int
  second : Int
  deriving DecidableEq

/-- Days before 1970-01-01 since 0000-03-01. -/
def epochShift : Int := 719468

def gmtime (t : Int) : Tm :=
  let days := t / 86400 + epochShift
  let era := days / 146097
  let dayOfEra := days % 146097
  let yearOfEra := (dayOfEra - dayOfEra / 1460 + dayOfEra / 36524 - dayOfEra / 146096) / 365
  let dayOfYear := dayOfEra - (365 * yearOfEra + yearOfEra / 4 - yearOfEra / 100)
  let fromMarch := (5 * dayOfYear + 2) / 153
  let month := if fromMarch < 10 then fromMarch + 3 else fromMarch - 9
  let second := t % 86400
  { year := yearOfEra + era * 400 + (if month ≤ 2 then 1 else 0)
    month := month
    day := dayOfYear - (153 * fromMarch + 2) / 5 + 1
    hour := second / 3600
    minute := second % 3600 / 60
    second := second % 60 }

/-- The time of day is what is left of the seconds after whole days. -/
theorem gmtime_clock (t : Int) :
    (gmtime t).hour * 3600 + (gmtime t).minute * 60 + (gmtime t).second = t % 86400 ∧
      0 ≤ (gmtime t).hour ∧ (gmtime t).hour < 24 ∧
      0 ≤ (gmtime t).minute ∧ (gmtime t).minute < 60 ∧
      0 ≤ (gmtime t).second ∧ (gmtime t).second < 60 := by
  simp only [gmtime]
  omega

example : gmtime 1425302400 = ⟨2015, 3, 2, 13, 20, 0⟩ := by decide
example : gmtime (-1) = ⟨1969, 12, 31, 23, 59, 59⟩ := by decide

/-- `%d` and its like in `strftime`: two digits. -/
def twoDigits (i : Int) : List Byte := ascii (toString (i / 10)) ++ ascii (toString (i % 10))

/-- `strftime` with the format `.%Y%m%d-%H%M%S.` -/
def strftime (tm : Tm) : List Byte :=
  ascii "." ++ ascii (toString tm.year) ++ twoDigits tm.month ++ twoDigits tm.day ++ ascii "-" ++
    twoDigits tm.hour ++ twoDigits tm.minute ++ twoDigits tm.second ++ ascii "."

end MyNet.Base
