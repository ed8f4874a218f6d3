import LiveProgress.Text.Units

/-!
# Timestamps

A point in time, counted in nanoseconds since the epoch, as date and time of day in
the proleptic Gregorian calendar. The calendar repeats in eras of 400 years; inside an
era the years are taken to begin in March, so that the leap day is the last of its year.
-/

namespace LiveProgress

structure Date where
  year : Int
  month : Int
  day : Int
deriving DecidableEq, Repr

structure DateTime where
  date : Date
  hour : Int
  minute : Int
  second : Int
  nanosecond : Int
deriving DecidableEq, Repr

/-- A number that is not negative, filled with zeros on the left to `width` digits. -/
def padded (width : Nat) (n : Int) : String := Text.padLeft width '0' (toString n.natAbs)

/-- Division that rounds down, by way of the one that drops what is behind the point. -/
def floorDiv (a b : Int) : Int :=
  let quotient := a.tdiv b
  if a.tmod b ≠ 0 ∧ decide (a < 0) ≠ decide (b < 0) then quotient - 1 else quotient

namespace Date

/-- The date `days` days after 1 January 1970. -/
def ofEpochDays (days : Int) : Date :=
  -- Day 0 of era 0 is 1 March of the year 0.
  let shifted := days + 719468
  let era := floorDiv shifted 146097
  let dayOfEra := shifted - era * 146097
  let yearOfEra :=
    (dayOfEra - dayOfEra.tdiv 1460 + dayOfEra.tdiv 36524 - dayOfEra.tdiv 146096).tdiv 365
  let dayOfYear := dayOfEra - (365 * yearOfEra + yearOfEra.tdiv 4 - yearOfEra.tdiv 100)
  let monthIndex := (5 * dayOfYear + 2).tdiv 153
  let month := if monthIndex < 10 then monthIndex + 3 else monthIndex - 9
  { year := yearOfEra + era * 400 + if month ≤ 2 then 1 else 0
    month
    day := dayOfYear - (153 * monthIndex + 2).tdiv 5 + 1 }

/-- `YYYY-MM-DD`. Years beyond 9999 take the digits they need and years before 0 a
minus. -/
def text (d : Date) : String :=
  (if d.year < 0 then "-" else "") ++ padded 4 d.year ++ "-" ++ padded 2 d.month ++ "-" ++
    padded 2 d.day

end Date

namespace DateTime

def ofEpochNanos (nanos : Int) : DateTime :=
  let seconds := floorDiv nanos 1000000000
  let days := floorDiv seconds 86400
  let secondOfDay := seconds - days * 86400
  { date := .ofEpochDays days
    hour := secondOfDay.tdiv 3600
    minute := (secondOfDay.tmod 3600).tdiv 60
    second := secondOfDay.tmod 60
    nanosecond := nanos - seconds * 1000000000 }

/-- The time of day as `HH:MM:SS`. -/
def clockText (t : DateTime) : String :=
  padded 2 t.hour ++ ":" ++ padded 2 t.minute ++ ":" ++ padded 2 t.second

def text (t : DateTime) : String :=
  t.date.text ++ "T" ++ t.clockText ++ "." ++ padded 9 t.nanosecond ++ "Z"

end DateTime

/-- The text of a point in time, `YYYY-MM-DDTHH:MM:SS.nnnnnnnnnZ`. -/
def timestampText (epochNanos : Int) : String := (DateTime.ofEpochNanos epochNanos).text

end LiveProgress
