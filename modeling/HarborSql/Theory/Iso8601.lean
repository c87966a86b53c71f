import HarborSql.Theory.Decimal

/-! The texts of ISO 8601 of dates of the proleptic Gregorian calendar and of times of day. -/

namespace HarborSql.Iso8601

/-- Year, month and day of a day, counted from 1970-01-01. The years start in March here, so that
the leap day ends one. -/
def civil (days : Int) : Int × Nat × Nat :=
  let era := (days + 719468) / 146097
  let day := ((days + 719468) % 146097).toNat
  let year := (day - day / 1460 + day / 36524 - day / 146096) / 365
  let dayOfYear := day - (365 * year + year / 4 - year / 100)
  let month := (5 * dayOfYear + 2) / 153
  let leapYear := if month < 10 then 0 else 1
  (year + era * 400 + leapYear, if month < 10 then month + 3 else month - 9,
    dayOfYear - (153 * month + 2) / 5 + 1)

example : civil 0 = (1970, 1, 1) ∧ civil 19724 = (2024, 1, 2) ∧ civil (-1) = (1969, 12, 31) := by
  decide

/-- Four digits, with a sign when they do not suffice. -/
def yearText (year : Int) : List Char :=
  if 0 ≤ year ∧ year ≤ 9999 then paddedDigits 4 year.toNat
  else (if year < 0 then '-' else '+') :: paddedDigits 4 year.natAbs

/-- `YYYY-MM-DD`. -/
def date (days : Int) : List Char :=
  let (year, month, day) := civil days
  yearText year ++ '-' :: (paddedDigits 2 month ++ '-' :: paddedDigits 2 day)

/-- The fraction of a second, in three, six or nine digits. -/
def fraction (nanos : Nat) : List Char :=
  if nanos = 0 then []
  else if nanos % 1000000 = 0 then '.' :: paddedDigits 3 (nanos / 1000000)
  else if nanos % 1000 = 0 then '.' :: paddedDigits 6 (nanos / 1000)
  else '.' :: paddedDigits 9 nanos

/-- `HH:MM:SS[.fraction]`, of the seconds of a day and the nanoseconds of the second. -/
def time (secs nanos : Nat) : List Char :=
  paddedDigits 2 (secs / 3600) ++ ':' :: (paddedDigits 2 (secs / 60 % 60) ++
    ':' :: (paddedDigits 2 (secs % 60) ++ fraction nanos))

theorem space_not_mem_paddedDigits (width n : Nat) : ' ' ∉ paddedDigits width n :=
  fun h => absurd (isDigit_of_mem_paddedDigits h) (by decide)

theorem space_not_mem_date (days : Int) : ' ' ∉ date days := by
  have hyear : ' ' ∉ yearText (civil days).1 := by
    unfold yearText
    split
    · exact space_not_mem_paddedDigits _ _
    · split <;> simp [space_not_mem_paddedDigits]
  simp [date, hyear, space_not_mem_paddedDigits]

theorem space_not_mem_time (secs nanos : Nat) : ' ' ∉ time secs nanos := by
  have hfraction : ' ' ∉ fraction nanos := by
    unfold fraction
    split
    · simp
    · split
      · simp [space_not_mem_paddedDigits]
      · split <;> simp [space_not_mem_paddedDigits]
  simp [time, hfraction, space_not_mem_paddedDigits]

end HarborSql.Iso8601
