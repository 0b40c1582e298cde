import ProfinetRsi.Text.Numeral

/-!
# `ProfinetRsi.Capture.Timestamp`: when a frame was captured

Seconds since 1970 and nanoseconds, printed in the Gregorian calendar. A second
may be a leap second, which only the last second of a minute can be followed by:
it is written as nanoseconds from 1 000 000 000 on and printed as second 60.
-/

set_option autoImplicit false

namespace ProfinetRsi

/-- A point in time, in universal time. -/
structure Timestamp where
  /-- Seconds since the start of 1970. -/
  seconds : Nat
  /-- Nanoseconds; a leap second counts on beyond a full second. -/
  nanoseconds : Nat
deriving DecidableEq, Repr

namespace Timestamp

/-- The start of 1970. -/
def epoch : Timestamp := ⟨0, 0⟩

/-- The point in time that a file gives by its parts. Parts that name none stand
for the start of 1970. -/
def ofParts (seconds nanoseconds : Nat) : Timestamp :=
  if nanoseconds < 1000000000 ∨ (nanoseconds < 2000000000 ∧ seconds % 60 = 59) then
    ⟨seconds, nanoseconds⟩
  else epoch

/-- A day of the Gregorian calendar. -/
structure Date where
  year : Nat
  month : Nat
  day : Nat
deriving DecidableEq, Repr

/-- The date of a number of days since the start of 1970.

Days are counted from the first of March of year 0, so that a leap day is the
last day of its year. Four centuries have 146097 days; within them, the terms
of the quotient skip the leap days of the years before. -/
def Date.ofDays (days : Nat) : Date :=
  let shifted := days + 719468
  let era := shifted / 146097
  let dayOfEra := shifted % 146097
  let yearOfEra := (dayOfEra - dayOfEra / 1460 + dayOfEra / 36524 - dayOfEra / 146096) / 365
  let dayOfYear := dayOfEra - (365 * yearOfEra + yearOfEra / 4 - yearOfEra / 100)
  let month := (5 * dayOfYear + 2) / 153
  { year := era * 400 + yearOfEra + (if month < 10 then 0 else 1)
    month := if month < 10 then month + 3 else month - 9
    day := dayOfYear - (153 * month + 2) / 5 + 1 }

example : Date.ofDays 0 = ⟨1970, 1, 1⟩ := by decide
example : Date.ofDays 11016 = ⟨2000, 2, 29⟩ := by decide
example : Date.ofDays 49710 = ⟨2106, 2, 7⟩ := by decide

/-- The date. -/
def date (time : Timestamp) : Date :=
  .ofDays (time.seconds / 86400)

/-- How many digits of the fraction of a second are printed. -/
inductive Precision where
  /-- None, three, six or nine: as few as hold the fraction. -/
  | shortest
  /-- Six; further digits are cut off. -/
  | micros
deriving DecidableEq, Repr

/-- The fraction of a second behind a point. -/
def fractionText (precision : Precision) (nanoseconds : Nat) : String :=
  match precision with
  | .micros => "." ++ Numeral.zeroPadded 6 (nanoseconds / 1000)
  | .shortest =>
    if nanoseconds = 0 then ""
    else if nanoseconds % 1000000 = 0 then "." ++ Numeral.zeroPadded 3 (nanoseconds / 1000000)
    else if nanoseconds % 1000 = 0 then "." ++ Numeral.zeroPadded 6 (nanoseconds / 1000)
    else "." ++ Numeral.zeroPadded 9 nanoseconds

/-- Date and time of day, followed by the sign for universal time. -/
def text (precision : Precision) (zone : String) (time : Timestamp) : String :=
  let date := time.date
  let daytime := time.seconds % 86400
  let pad := Numeral.zeroPadded 2
  Numeral.zeroPadded 4 date.year ++ "-" ++ pad date.month ++ "-" ++ pad date.day
    ++ "T" ++ pad (daytime / 3600) ++ ":" ++ pad (daytime / 60 % 60) ++ ":"
    ++ pad (daytime % 60 + time.nanoseconds / 1000000000)
    ++ fractionText precision (time.nanoseconds % 1000000000) ++ zone

-- The fraction has as few groups of three digits as hold it; a leap second is
-- the second 60.
example : text .shortest "Z" ⟨0, 0⟩ = "1970-01-01T00:00:00Z" := by decide
example : text .shortest "Z" ⟨86399, 1500000⟩ = "1970-01-01T23:59:59.001500Z" := by decide
example : text .micros "Z" ⟨59, 1500000000⟩ = "1970-01-01T00:00:60.500000Z" := by decide

end Timestamp

end ProfinetRsi
