import HarborSql.Arrow

/-! The conversions of Arrow dates and timestamps to a date and time
(`arrow::temporal_conversions`), which `chrono` gives for the years -262143 to 262142. -/

namespace HarborSql

/-- `chrono::NaiveDateTime`: seconds since the epoch and the nanoseconds of the second. -/
structure NaiveDateTime where
  secs : Int
  nanos : Nat
  deriving DecidableEq, Repr

namespace NaiveDateTime

/-- The first and the last second of the calendar. -/
def minSecs : Int := -8334601228800
def maxSecs : Int := 8210266876799

/-- The date, in days since the epoch. -/
def date (t : NaiveDateTime) : Int := t.secs / 86400

/-- `DateTime::from_timestamp`. -/
def fromTimestamp (secs : Int) (nanos : Nat) : Option NaiveDateTime :=
  if minSecs ≤ secs ∧ secs ≤ maxSecs then some ⟨secs, nanos⟩ else none

end NaiveDateTime

open NaiveDateTime (fromTimestamp)

/-- `div_euclid` and `rem_euclid`. -/
def splitSecond (v base : Int) : Int × Nat := (v / base, (v % base).toNat)

def date32ToDatetime (days : Int32) : Option NaiveDateTime := fromTimestamp (days.toInt * 86400) 0

def date64ToDatetime (millis : Int64) : Option NaiveDateTime :=
  let (secs, milli) := splitSecond millis.toInt 1000
  fromTimestamp secs (milli * 1000000)

def timestampSToDatetime (v : Int64) : Option NaiveDateTime := fromTimestamp v.toInt 0

def timestampMsToDatetime (v : Int64) : Option NaiveDateTime := date64ToDatetime v

def timestampUsToDatetime (v : Int64) : Option NaiveDateTime :=
  let (secs, micro) := splitSecond v.toInt 1000000
  fromTimestamp secs (micro * 1000)

def timestampNsToDatetime (v : Int64) : Option NaiveDateTime :=
  let (secs, nano) := splitSecond v.toInt 1000000000
  fromTimestamp secs nano

def timestampToDatetime : TimeUnit → Int64 → Option NaiveDateTime
  | .second => timestampSToDatetime
  | .millisecond => timestampMsToDatetime
  | .microsecond => timestampUsToDatetime
  | .nanosecond => timestampNsToDatetime

end HarborSql
