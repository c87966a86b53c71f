import HarborSql.Udf
import HarborSql.Arrow

/-! The function `length` (`udf.rs`): the type it declares, and its paths over scalars and over
arrays. -/

namespace HarborSql.Length

/-- The types that `length` declares a result for. -/
def accepts : DataType → Bool
  | .utf8 | .utf8View | .binary | .binaryView | .fixedSizeBinary _ | .null | .largeUtf8
  | .largeBinary => true
  | .dictionary _ value => accepts value
  | _ => false

/-- A `ScalarValue`, among the arguments and the results of `length`. -/
inductive Scalar where
  | null
  | utf8 (value : Option String)
  | utf8View (value : Option String)
  | largeUtf8 (value : Option String)
  | binary (value : Option (List UInt8))
  | binaryView (value : Option (List UInt8))
  | fixedSizeBinary (size : Nat) (value : Option (List UInt8))
  | largeBinary (value : Option (List UInt8))
  | int32 (value : Option Int32)
  | int64 (value : Option Int64)
  | dictionary (keyType : DataType) (value : Scalar)
  | other (dataType : DataType) (h : accepts dataType = false)

/-- An `ArrayRef`. -/
inductive ArrayRef where
  | null (len : Nat)
  | utf8 (values : List (Option String))
  | utf8View (values : List (Option String))
  | largeUtf8 (values : List (Option String))
  | binary (values : List (Option (List UInt8)))
  | binaryView (values : List (Option (List UInt8)))
  | fixedSizeBinary (size : Nat) (values : List (Option (List UInt8)))
  | largeBinary (values : List (Option (List UInt8)))
  | int32 (values : List (Option Int32))
  | int64 (values : List (Option Int64))
  | dictionary (keyType : DataType) (keys : List (Option Nat)) (values : ArrayRef)
  | other (dataType : DataType) (h : accepts dataType = false)

def Scalar.dataType : Scalar → DataType
  | null => .null
  | utf8 _ => .utf8
  | utf8View _ => .utf8View
  | largeUtf8 _ => .largeUtf8
  | binary _ => .binary
  | binaryView _ => .binaryView
  | fixedSizeBinary size _ => .fixedSizeBinary size
  | largeBinary _ => .largeBinary
  | int32 _ => .int32
  | int64 _ => .int64
  | dictionary keyType value => .dictionary keyType value.dataType
  | other dataType _ => dataType

namespace ArrayRef

def dataType : ArrayRef → DataType
  | null _ => .null
  | utf8 _ => .utf8
  | utf8View _ => .utf8View
  | largeUtf8 _ => .largeUtf8
  | binary _ => .binary
  | binaryView _ => .binaryView
  | fixedSizeBinary size _ => .fixedSizeBinary size
  | largeBinary _ => .largeBinary
  | int32 _ => .int32
  | int64 _ => .int64
  | dictionary keyType _ values => .dictionary keyType values.dataType
  | other dataType _ => dataType

/-- The NULL of the type of an array. -/
def nullScalar : ArrayRef → Scalar
  | null _ => .null
  | utf8 _ => .utf8 none
  | utf8View _ => .utf8View none
  | largeUtf8 _ => .largeUtf8 none
  | binary _ => .binary none
  | binaryView _ => .binaryView none
  | fixedSizeBinary size _ => .fixedSizeBinary size none
  | largeBinary _ => .largeBinary none
  | int32 _ => .int32 none
  | int64 _ => .int64 none
  | dictionary keyType _ values => .dictionary keyType values.nullScalar
  | other dataType h => .other dataType h

def len : ArrayRef → Nat
  | null len => len
  | utf8 values | utf8View values | largeUtf8 values => values.length
  | binary values | binaryView values | fixedSizeBinary _ values | largeBinary values =>
    values.length
  | int32 values => values.length
  | int64 values => values.length
  | dictionary _ keys _ => keys.length
  | other .. => 0

/-- The keys of every dictionary are places in its values. -/
def WF : ArrayRef → Prop
  | dictionary _ keys values =>
    (∀ key ∈ keys, ∀ k, key = some k → k < values.len) ∧ values.WF
  | _ => True

/-- `ScalarValue::try_from_array`: an element as a scalar of the type of the array. -/
def element : ArrayRef → Nat → Option Scalar
  | null len, i => if i < len then some .null else none
  | utf8 values, i => values[i]?.map .utf8
  | utf8View values, i => values[i]?.map .utf8View
  | largeUtf8 values, i => values[i]?.map .largeUtf8
  | binary values, i => values[i]?.map .binary
  | binaryView values, i => values[i]?.map .binaryView
  | fixedSizeBinary size values, i => values[i]?.map (.fixedSizeBinary size)
  | largeBinary values, i => values[i]?.map .largeBinary
  | int32 values, i => values[i]?.map .int32
  | int64 values, i => values[i]?.map .int64
  | dictionary keyType keys values, i =>
    match keys[i]? with
    | none => none
    | some none => some (.dictionary keyType values.nullScalar)
    | some (some key) => (values.element key).map (.dictionary keyType)
  | other .., _ => none

end ArrayRef

/-- The `arrow` kernels, with their errors as `DataFusionError`s, and the texts in errors. -/
structure Crates where
  /-- `arrow::compute::kernels::length::length`. -/
  length : ArrayRef → Except DataFusionError ArrayRef
  take : ArrayRef → List (Option Nat) → Except DataFusionError ArrayRef
  scalarDebug : Scalar → String
  dataTypeToString : DataType → String

def lengthUdf : String := "length"

/-- `DataFusionError::Plan`. -/
def planError (message : String) : DataFusionError := ⟨s!"Error during planning: {message}", none⟩

def lengthReturnType (crates : Crates) : DataType → Except DataFusionError DataType
  | .utf8 | .utf8View | .binary | .binaryView | .fixedSizeBinary _ | .null => .ok .int32
  | .largeUtf8 | .largeBinary => .ok .int64
  | .dictionary _ value => lengthReturnType crates value
  | other => .error (planError
      s!"{lengthUdf} expects a string or binary argument, got {crates.dataTypeToString other}")

/-! ## Counts -/

def exceeded (type : String) : DataFusionError :=
  executionError s!"{lengthUdf} result exceeded {type}"

/-- `i32::try_from` of a count. -/
def countI32 (count : Nat) : Except DataFusionError Int32 :=
  if count < 2 ^ 31 then .ok (.ofNat count) else .error (exceeded "Int32")

def countI64 (count : Nat) : Except DataFusionError Int64 :=
  if count < 2 ^ 63 then .ok (.ofNat count) else .error (exceeded "Int64")

/-- A count of a value that may be NULL. -/
def optionalCount {α β : Type} (count : α → Except DataFusionError β) :
    Option α → Except DataFusionError (Option β)
  | none => .ok none
  | some value => some <$> count value

def optionalCharCountI32 : Option String → Except DataFusionError (Option Int32) :=
  optionalCount fun value => countI32 value.length

def optionalByteLenI32 : Option (List UInt8) → Except DataFusionError (Option Int32) :=
  optionalCount fun value => countI32 value.length

def optionalCharCountI64 : Option String → Except DataFusionError (Option Int64) :=
  optionalCount fun value => countI64 value.length

def optionalByteLenI64 : Option (List UInt8) → Except DataFusionError (Option Int64) :=
  optionalCount fun value => countI64 value.length

/-! ## The paths -/

def lengthScalar (crates : Crates) : Scalar → Except DataFusionError Scalar
  | .utf8 value | .utf8View value => .int32 <$> optionalCharCountI32 value
  | .largeUtf8 value => .int64 <$> optionalCharCountI64 value
  | .binary value | .binaryView value => .int32 <$> optionalByteLenI32 value
  | .fixedSizeBinary _ value => .int32 <$> optionalByteLenI32 value
  | .largeBinary value => .int64 <$> optionalByteLenI64 value
  | .null => .ok (.int32 none)
  | other => .error (executionError
      s!"{lengthUdf} expects a string or binary argument, got {crates.scalarDebug other}")

def stringLengthArrayI32 (values : List (Option String)) : Except DataFusionError ArrayRef :=
  .int32 <$> values.mapM optionalCharCountI32

def lengthArray (crates : Crates) : ArrayRef → Except DataFusionError ArrayRef
  | .dictionary _ keys values => do
    let lengths ← lengthArray crates values
    crates.take lengths keys
  | .utf8 values => stringLengthArrayI32 values
  | .largeUtf8 values => .int64 <$> values.mapM optionalCharCountI64
  | .utf8View values => stringLengthArrayI32 values
  | .binary values => crates.length (.binary values)
  | .largeBinary values => crates.length (.largeBinary values)
  | .binaryView values => crates.length (.binaryView values)
  | .fixedSizeBinary size values => crates.length (.fixedSizeBinary size values)
  | .null len => .ok (.int32 (List.replicate len none))
  | other => .error (executionError
      (s!"{lengthUdf} expects a string or binary array, " ++
        s!"got {crates.dataTypeToString other.dataType}"))

end HarborSql.Length
