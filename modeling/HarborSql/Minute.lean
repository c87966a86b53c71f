import Mathlib.Algebra.Group.Int.Defs
import HarborSql.Temporal
import HarborSql.Udf

/-! The function for `EXTRACT(MINUTE FROM ..)` (`udf.rs`): its path of its own for timestamps
without a zone or in UTC, and `date_part` for all other arrays. -/

namespace HarborSql.Minute

open Sql (extractMinuteUdf)

/-- Why a call did not return `Ok`. -/
inductive Failure where
  | error (e : DataFusionError)
  | panicked

/-! ## Arithmetic of `i64` -/

/-- The result of an operation, which panics when it is no `i64`. -/
def checkedI64 (n : Int) : Except Failure Int64 :=
  if -2 ^ 63 ≤ n ∧ n < 2 ^ 63 then .ok (.ofInt n) else .error .panicked

/-- `div_euclid`. -/
def divEuclid (left right : Int64) : Except Failure Int64 :=
  if right = 0 then .error .panicked else checkedI64 (left.toInt / right.toInt)

/-- `rem_euclid`. -/
def remEuclid (left right : Int64) : Except Failure Int64 :=
  if right = 0 ∨ (left = Int64.minValue ∧ right = -1) then .error .panicked
  else checkedI64 (left.toInt % right.toInt)

/-- The operator `/`. -/
def quotient (left right : Int64) : Except Failure Int64 :=
  if right = 0 then .error .panicked else checkedI64 (left.toInt.tdiv right.toInt)

/-! ## Arguments and results -/

/-- An `ArrayRef`; `A` are the arrays of the other types. -/
inductive ArrayRef (A : Type) where
  | timestamp (unit : TimeUnit) (timezone : Option String) (values : List (Option Int64))
  | int32 (values : List (Option Int32))
  | other (array : A)

/-- A `ScalarValue`; `S` are those of the other types. -/
inductive Scalar (S : Type) where
  | timestamp (unit : TimeUnit) (timezone : Option String) (value : Option Int64)
  | int32 (value : Option Int32)
  | other (scalar : S)

inductive Columnar (A S : Type) where
  | scalar (value : Scalar S)
  | array (values : ArrayRef A)

/-- What the function uses of `arrow` and of DataFusion. -/
structure Crates (A S : Type) where
  /-- `date_part` for `DatePart::Minute`, with its error as a `DataFusionError`. -/
  datePartMinute : ArrayRef A → Except DataFusionError (ArrayRef A)
  toArray : S → Except DataFusionError (ArrayRef A)
  tryFromArray : A → Nat → Except DataFusionError (Scalar S)

variable {A S : Type} (crates : Crates A S)

/-- `?` on a result of another crate. -/
def ofResult {α : Type} : Except DataFusionError α → Except Failure α
  | .ok x => .ok x
  | .error e => .error (.error e)

/-- `ScalarValue::to_array`. -/
def toArray : Scalar S → Except Failure (ArrayRef A)
  | .timestamp unit timezone value => .ok (.timestamp unit timezone [value])
  | .int32 value => .ok (.int32 [value])
  | .other scalar => ofResult (crates.toArray scalar)

/-- `ScalarValue::try_from_array`. -/
def tryFromArray (array : ArrayRef A) (i : Nat) : Except Failure (Scalar S) :=
  match array with
  | .timestamp unit timezone values =>
    match values[i]? with
    | some value => .ok (.timestamp unit timezone value)
    | none => .error .panicked
  | .int32 values =>
    match values[i]? with
    | some value => .ok (.int32 value)
    | none => .error .panicked
  | .other array => ofResult (crates.tryFromArray array i)

/-! ## The function -/

def isUtcTimezone (timezone : Option String) : Bool :=
  timezone.all fun timezone => eqIgnoreAsciiCase timezone "UTC"

/-- `as_primitive`, for the timestamps of a unit. -/
def asPrimitive (unit : TimeUnit) : ArrayRef A → Except Failure (List (Option Int64))
  | .timestamp unit' _ values => if unit' = unit then .ok values else .error .panicked
  | _ => .error .panicked

/-- The minute of a value, in the closure of `unary_opt`. -/
def timestampMinute (unitsPerSecond value : Int64) : Except Failure (Option Int32) := do
  let second ← divEuclid value unitsPerSecond
  let remainder ← remEuclid second (60 * 60)
  let minute ← quotient remainder 60
  return some minute.toInt32

/-- `unary_opt`: what is null stays null. -/
def unaryOpt (op : Int64 → Except Failure (Option Int32)) (values : List (Option Int64)) :
    Except Failure (List (Option Int32)) :=
  values.mapM fun value => match value with
    | none => .ok none
    | some value => op value

/-- `extract_timestamp_minute::<T>`, where `T` are the timestamps of `unit`. -/
def extractTimestampMinute (unit : TimeUnit) (array : ArrayRef A) (unitsPerSecond : Int64) :
    Except Failure (ArrayRef A) := do
  let values ← asPrimitive unit array
  let minutes ← unaryOpt (timestampMinute unitsPerSecond) values
  return .int32 minutes

def extractMinuteArray (array : ArrayRef A) : Except Failure (ArrayRef A) :=
  match array with
  | .timestamp unit timezone _ =>
    if isUtcTimezone timezone then
      match unit with
      | .second => extractTimestampMinute .second array 1
      | .millisecond => extractTimestampMinute .millisecond array 1000
      | .microsecond => extractTimestampMinute .microsecond array 1000000
      | .nanosecond => extractTimestampMinute .nanosecond array 1000000000
    else ofResult (crates.datePartMinute array)
  | _ => ofResult (crates.datePartMinute array)

/-- `ExtractMinuteFunc::invoke_with_args`. -/
def invokeWithArgs (args : List (Columnar A S)) : Except Failure (Columnar A S) :=
  match args with
  | [.scalar scalar] => do
    let input ← toArray crates scalar
    let output ← extractMinuteArray crates input
    .scalar <$> tryFromArray crates output 0
  | [.array array] => .array <$> extractMinuteArray crates array
  | _ => .error (.error (executionError s!"{extractMinuteUdf} expects one argument"))

end HarborSql.Minute
