import LiveProgress.Quantity.Timestamp

/-!
# The calendar, month by month

The proleptic Gregorian calendar as its rules are told: the lengths of years and months
are summed up to a date. The leap-year rule holds for every year, for the year 0 and
those before it too.
-/

namespace LiveProgress

namespace Calendar

def isLeapYear (year : Int) : Bool :=
  year % 4 == 0 && (year % 100 != 0 || year % 400 == 0)

def yearLength (year : Int) : Int := if isLeapYear year then 366 else 365

/-- The days of a month; there are no others than the months 1 to 12. -/
def monthLength (year month : Int) : Int :=
  if month = 2 then (if isLeapYear year then 29 else 28)
  else if month = 4 ∨ month = 6 ∨ month = 9 ∨ month = 11 then 30
  else 31

/-- The days of `count` years, the first of which is given. -/
def daysOfYears (year : Int) : Nat → Int
  | 0 => 0
  | count + 1 => daysOfYears year count + yearLength (year + count)

/-- The days of the first `count` months of a year. -/
def daysOfMonths (year : Int) : Nat → Int
  | 0 => 0
  | count + 1 => daysOfMonths year count + monthLength year (count + 1)

/-- The days from 1 January 1970 to the first day of a year. -/
def yearStart (year : Int) : Int :=
  if 1970 ≤ year then daysOfYears 1970 (year - 1970).toNat
  else - daysOfYears year (1970 - year).toNat

end Calendar

/-- Dates that exist. -/
structure Date.Valid (d : Date) : Prop where
  month_pos : 1 ≤ d.month
  month_le : d.month ≤ 12
  day_pos : 1 ≤ d.day
  day_le : d.day ≤ Calendar.monthLength d.year d.month

/-- The days from 1 January 1970 to a date. -/
def Date.epochDays (d : Date) : Int :=
  Calendar.yearStart d.year + Calendar.daysOfMonths d.year (d.month - 1).toNat + (d.day - 1)

/-- Dates with a time of day that exists; there are no leap seconds. -/
structure DateTime.Valid (t : DateTime) : Prop where
  date : t.date.Valid
  hour_nonneg : 0 ≤ t.hour
  hour_lt : t.hour < 24
  minute_nonneg : 0 ≤ t.minute
  minute_lt : t.minute < 60
  second_nonneg : 0 ≤ t.second
  second_lt : t.second < 60
  nanosecond_nonneg : 0 ≤ t.nanosecond
  nanosecond_lt : t.nanosecond < 1000000000

/-- The nanoseconds from the epoch to a date and time of day. -/
def DateTime.epochNanos (t : DateTime) : Int :=
  (t.date.epochDays * 86400 + t.hour * 3600 + t.minute * 60 + t.second) * 1000000000 +
    t.nanosecond

end LiveProgress
