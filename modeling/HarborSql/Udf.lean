import HarborSql.Theory.Replacement
import HarborSql.Engine.Planning
import HarborSql.Engine.Rewrite

/-! The function that stands for `regexp_replace` with one group as its replacement (`udf.rs`). -/

namespace HarborSql

open Replacement
open Sql (regexpReplaceCaptureUdf)

/-- A `ScalarValue`. The other ones, by a text. -/
inductive ScalarValue where
  | utf8 (value : Option String)
  | largeUtf8 (value : Option String)
  | utf8View (value : Option String)
  | int64 (value : Option Int)
  | other (text : String)

/-- An `ArrayRef`. The other ones, by the text of their type. -/
inductive ColumnArray where
  | utf8 (values : List (Option String))
  | largeUtf8 (values : List (Option String))
  | utf8View (values : List (Option String))
  | other (dataType : String)

inductive ColumnarValue where
  | scalar (value : ScalarValue)
  | array (values : ColumnArray)

/-- The `Debug` texts of other crates that are part of errors, and `Regex::new`. -/
structure UdfCrates where
  columnarDebug : ColumnarValue → String
  scalarDebug : ScalarValue → String
  regexNew : String → Except String Regex

/-- `DataFusionError::Execution`. -/
def executionError (message : String) : DataFusionError := ⟨s!"Execution error: {message}", none⟩

def scalarStringArg (crates : UdfCrates) (arg : ColumnarValue) (name : String) :
    Except DataFusionError String :=
  match arg with
  | .scalar (.utf8 (some value)) | .scalar (.largeUtf8 (some value))
  | .scalar (.utf8View (some value)) => .ok value
  | .scalar (.utf8 none) | .scalar (.largeUtf8 none) | .scalar (.utf8View none) =>
    .error (executionError s!"{regexpReplaceCaptureUdf} {name} cannot be NULL")
  | other => .error (executionError
      (s!"{regexpReplaceCaptureUdf} expects scalar string {name}, " ++
        s!"got {crates.columnarDebug other}"))

def scalarI64Arg (crates : UdfCrates) (arg : ColumnarValue) (name : String) :
    Except DataFusionError Int :=
  match arg with
  | .scalar (.int64 (some value)) => .ok value
  | .scalar (.int64 none) =>
    .error (executionError s!"{regexpReplaceCaptureUdf} {name} cannot be NULL")
  | other => .error (executionError
      (s!"{regexpReplaceCaptureUdf} expects scalar Int64 {name}, " ++
        s!"got {crates.columnarDebug other}"))

def replaceCapture (value : String) (regex : Regex) (captureIndex : Nat) : String :=
  match regex.captures value.toList with
  | none => value
  | some captures =>
    match captures.get 0 with
    | none => value
    | some fullMatch =>
      let capture := ((captures.get captureIndex).map (·.slice value.toList)).getD []
      .ofList (value.toList.take fullMatch.start ++ capture ++ value.toList.drop fullMatch.stop)

def replaceScalar (crates : UdfCrates) (scalar : ScalarValue) (regex : Regex)
    (captureIndex : Nat) : Except DataFusionError ScalarValue :=
  let replace := fun value : Option String =>
    value.map fun value => replaceCapture value regex captureIndex
  match scalar with
  | .utf8 value => .ok (.utf8 (replace value))
  | .largeUtf8 value => .ok (.largeUtf8 (replace value))
  | .utf8View value => .ok (.utf8View (replace value))
  | other => .error (executionError
      (s!"{regexpReplaceCaptureUdf} expects a string source, " ++
        s!"got {crates.scalarDebug other}"))

def replaceArray (array : ColumnArray) (regex : Regex) (captureIndex : Nat) :
    Except DataFusionError ColumnArray :=
  let replace := fun values : List (Option String) =>
    values.map fun value => value.map fun value => replaceCapture value regex captureIndex
  match array with
  | .utf8 values => .ok (.utf8 (replace values))
  | .largeUtf8 values => .ok (.largeUtf8 (replace values))
  | .utf8View values => .ok (.utf8View (replace values))
  | .other dataType => .error (executionError
      s!"{regexpReplaceCaptureUdf} expects a string array, got {dataType}")

/-- `RegexpReplaceCaptureFunc::invoke_with_args`. -/
def invokeWithArgs (crates : UdfCrates) (args : List ColumnarValue) :
    Except DataFusionError ColumnarValue :=
  match args with
  | [source, pattern, captureIndex] => do
    let pattern ← scalarStringArg crates pattern "pattern"
    let captureIndex ← scalarI64Arg crates captureIndex "capture_index"
    if captureIndex < 0 then
      throw (executionError
        s!"{regexpReplaceCaptureUdf} capture index must be non-negative")
    let regex ← (crates.regexNew pattern).mapError fun err =>
      ⟨s!"External error: {err}", some (.other err none)⟩
    let captureIndex := captureIndex.toNat
    match source with
    | .scalar scalar => .scalar <$> replaceScalar crates scalar regex captureIndex
    | .array array => .array <$> replaceArray array regex captureIndex
  | _ => .error (executionError s!"{regexpReplaceCaptureUdf} expects three arguments")

end HarborSql
