import HarborSql.Engine.Results
import Mathlib.Data.List.Sort

/-! The encoding of query results as Thrift row sets (`thrift/result_encoding.rs`). The source
reads row `row` of an array; here a cell is the array's data type, the row and the value there.
A value that is not of the class that its array is cast to is the failed `downcast_ref`. -/

namespace HarborSql

open Writer

/-! ## Column encoders -/

inductive PhysicalType where
  | bool | i32 | i64 | f64 | string | binary
  deriving DecidableEq, Repr

structure ColumnEncoder where
  schemaType : Int32
  physicalType : PhysicalType
  decimal : Option (Int32 × Int32)
  deriving DecidableEq, Repr

inductive ThriftValue where
  | bool (value : Bool)
  | i32 (value : Int32)
  | i64 (value : Int64)
  | f64 (bits : UInt64)
  | string (value : String)
  | binary (value : Bytes)
  deriving DecidableEq

section
variable (F : Formatting)

/-- The schema type and the physical type of a column. -/
def columnTypes (dataType : DataType) : Result (Int32 × PhysicalType) :=
  match dataType with
  | .boolean => return (booleanType, .bool)
  | .int8 => return (tinyintType, .i32)
  | .int16 => return (smallintType, .i32)
  | .int32 => return (intType, .i32)
  | .int64 | .uint8 | .uint16 | .uint32 | .uint64 => return (bigintType, .i64)
  | .float32 => return (floatType, .f64)
  | .float64 => return (doubleType, .f64)
  | .utf8 | .largeUtf8 | .utf8View => return (stringType, .string)
  | .date32 | .date64 => return (dateType, .string)
  | .timestamp _ _ => return (timestampType, .string)
  | .binary | .largeBinary | .fixedSizeBinary _ => return (binaryType, .binary)
  | .decimal128 _ _ | .decimal256 _ _ => return (decimalType, .string)
  | .list _ | .largeList _ | .fixedSizeList _ _ | .listView _ | .largeListView _ =>
    return (arrayType, .string)
  | .map _ _ _ => return (mapType, .string)
  | .struct _ => return (structType, .string)
  | other =>
    throw (.unsupportedResultType s!"unsupported Arrow result type `{F.dataTypeToString other}`")

def columnEncoder (dataType : DataType) : Result ColumnEncoder := do
  let (schemaType, physicalType) ← columnTypes F dataType
  let decimal :=
    match dataType with
    | .decimal128 precision scale | .decimal256 precision scale =>
      some (precision.toUInt32.toInt32, scale.toInt32)
    | _ => none
  return { schemaType, physicalType, decimal }

def columnEncoders (result : QueryResult) : Result (List ColumnEncoder) := do
  if result.columns.length ≠ result.dataTypes.length then
    throw (.unsupportedResultType
      s!"result has {result.columns.length} columns but {result.dataTypes.length} Arrow data types")
  result.dataTypes.mapM (columnEncoder F)

/-! ## Values -/

def unexpectedValueType (actual : DataType) (expected : String) : HarborError :=
  .unsupportedResultType
    s!"expected Arrow value type {expected}, got `{F.dataTypeToString actual}`"

def arrowValueToBool (dt : DataType) : Value → Result Bool
  | .null => return false
  | .boolean value => return value
  | _ => throw (unexpectedValueType F dt "Boolean")

def arrowValueToI32 (dt : DataType) (v : Value) : Result Int32 :=
  match dt, v with
  | _, .null => return 0
  | .int8, .int8 value => return value.toInt32
  | .int8, _ => throw (unexpectedValueType F dt "Int8")
  | .int16, .int16 value => return value.toInt32
  | .int16, _ => throw (unexpectedValueType F dt "Int16")
  | .int32, .int32 value => return value
  | .int32, _ => throw (unexpectedValueType F dt "Int32")
  | other, _ => throw (unexpectedValueType F other "Int8/Int16/Int32")

def arrowValueToI64 (dt : DataType) (v : Value) : Result Int64 :=
  match dt, v with
  | _, .null => return 0
  | .int64, .int64 value => return value
  | .int64, _ => throw (unexpectedValueType F dt "Int64")
  | .uint8, .uint8 value => return value.toUInt64.toInt64
  | .uint8, _ => throw (unexpectedValueType F dt "UInt8")
  | .uint16, .uint16 value => return value.toUInt64.toInt64
  | .uint16, _ => throw (unexpectedValueType F dt "UInt16")
  | .uint32, .uint32 value => return value.toUInt64.toInt64
  | .uint32, _ => throw (unexpectedValueType F dt "UInt32")
  | .uint64, .uint64 value =>
    if value.toNat < 2 ^ 63 then return value.toInt64
    else throw (.unsupportedResultType "UInt64 result value exceeds signed BIGINT range")
  | .uint64, _ => throw (unexpectedValueType F dt "UInt64")
  | other, _ => throw (unexpectedValueType F other "Int64/UInt8/UInt16/UInt32/UInt64")

def arrowValueToF64 (dt : DataType) (v : Value) : Result UInt64 :=
  match dt, v with
  | _, .null => return 0
  | .float32, .float32 value => return f64FromF32 value
  | .float32, _ => throw (unexpectedValueType F dt "Float32")
  | .float64, .float64 value => return value
  | .float64, _ => throw (unexpectedValueType F dt "Float64")
  | other, _ => throw (unexpectedValueType F other "Float32/Float64")

def arrowValueToBinary (dt : DataType) (v : Value) : Result Bytes :=
  match dt, v with
  | _, .null => return []
  | .binary, .binary value => return value
  | .binary, _ => throw (unexpectedValueType F dt "Binary")
  | .largeBinary, .binary value => return value
  | .largeBinary, _ => throw (unexpectedValueType F dt "LargeBinary")
  | .fixedSizeBinary _, .binary value => return value
  | .fixedSizeBinary _, _ => throw (unexpectedValueType F dt "FixedSizeBinary")
  | other, _ => throw (unexpectedValueType F other "Binary/LargeBinary/FixedSizeBinary")

/-- `array_value_to_string`, with its error mapped. -/
def formatValue (dt : DataType) (v : Value) (kind : String) : Result String :=
  match F.arrayValueToString dt v with
  | .ok text => return text
  | .error err => throw (.unsupportedResultType s!"failed to format {kind} value: {err}")

/-- The date that `format_date_value` renders. -/
def dateValue (dt : DataType) (v : Value) : Result (Option NaiveDateTime) :=
  match dt, v with
  | .date32, .date32 days => return date32ToDatetime days
  | .date32, _ => throw (unexpectedValueType F dt "Date32")
  | .date64, .date64 millis => return date64ToDatetime millis
  | .date64, _ => throw (unexpectedValueType F dt "Date64")
  | other, _ => throw (unexpectedValueType F other "Date32/Date64")

def formatDateValue (dt : DataType) (row : Nat) (v : Value) : Result String := do
  match ← dateValue F dt v with
  | some dateTime => return F.dateToString dateTime.date
  | none => throw (.unsupportedResultType s!"date value at row {row} is outside supported range")

/-- The time that `format_timestamp_value` renders. -/
def timestampValue (dt : DataType) (v : Value) : Result (Option NaiveDateTime) :=
  match dt, v with
  | .timestamp .second _, .timestamp .second seconds => return timestampSToDatetime seconds
  | .timestamp .second _, _ => throw (unexpectedValueType F dt "TimestampSecond")
  | .timestamp .millisecond _, .timestamp .millisecond millis =>
    return timestampMsToDatetime millis
  | .timestamp .millisecond _, _ => throw (unexpectedValueType F dt "TimestampMillisecond")
  | .timestamp .microsecond _, .timestamp .microsecond micros =>
    return timestampUsToDatetime micros
  | .timestamp .microsecond _, _ => throw (unexpectedValueType F dt "TimestampMicrosecond")
  | .timestamp .nanosecond _, .timestamp .nanosecond nanos => return timestampNsToDatetime nanos
  | .timestamp .nanosecond _, _ => throw (unexpectedValueType F dt "TimestampNanosecond")
  | other, _ => throw (unexpectedValueType F other "Timestamp")

def formatTimestampValue (dt : DataType) (row : Nat) (v : Value) : Result String := do
  match ← timestampValue F dt v with
  | some dateTime => return F.dateTimeToString dateTime
  | none =>
    throw (.unsupportedResultType s!"timestamp value at row {row} is outside supported range")

/-- The arms of `arrow_value_to_string` for the three string types, apart from the others because
the nested values call them. -/
def stringArrayValue (dt : DataType) (v : Value) : Result String :=
  match dt, v with
  | _, .null => return ""
  | _, .string value => return value
  | .largeUtf8, _ => throw (unexpectedValueType F dt "LargeUtf8")
  | .utf8View, _ => throw (unexpectedValueType F dt "Utf8View")
  | _, _ => throw (unexpectedValueType F dt "Utf8")

/-! ## Nested values -/

/-- `[{}]`, around texts joined by commas. -/
def bracketed (texts : List String) : String := "[" ++ ",".intercalate texts ++ "]"

/-- `{{{}}}`, around texts joined by commas. -/
def braced (texts : List String) : String := "\x7b" ++ ",".intercalate texts ++ "\x7d"

/-- The key of a map entry: the text of a string, and what is displayed of any other value. -/
def mapKey (keys : DataType) (k : Value) (display : Result String) : Result String :=
  match k, keys with
  | .null, _ => return "null"
  | _, .utf8 | _, .largeUtf8 | _, .utf8View => stringArrayValue F keys k
  | _, _ => display

/-- The members of a map, sorted by their keys. `str::cmp` is the order of the code points. -/
def renderPairs (pairs : List (String × String)) : String :=
  braced <| (pairs.insertionSort fun left right => left.1 ≤ right.1).map fun (key, value) =>
    jsonString key ++ ":" ++ value

mutual

def databricksDisplayValue : DataType → Nat → Value → Result String
  | _, _, .null => return "null"
  | .boolean, _, v => return toString (← arrowValueToBool F .boolean v)
  | .int8, _, v => return toString (← arrowValueToI32 F .int8 v)
  | .int16, _, v => return toString (← arrowValueToI32 F .int16 v)
  | .int32, _, v => return toString (← arrowValueToI32 F .int32 v)
  | .int64, _, v => return toString (← arrowValueToI64 F .int64 v)
  | .uint8, _, v => return toString (← arrowValueToI64 F .uint8 v)
  | .uint16, _, v => return toString (← arrowValueToI64 F .uint16 v)
  | .uint32, _, v => return toString (← arrowValueToI64 F .uint32 v)
  | .uint64, _, v => return toString (← arrowValueToI64 F .uint64 v)
  | .float32, _, v => return F.f64ToString (← arrowValueToF64 F .float32 v)
  | .float64, _, v => return F.f64ToString (← arrowValueToF64 F .float64 v)
  | .utf8, _, v => return jsonString (← stringArrayValue F .utf8 v)
  | .largeUtf8, _, v => return jsonString (← stringArrayValue F .largeUtf8 v)
  | .utf8View, _, v => return jsonString (← stringArrayValue F .utf8View v)
  | .date32, row, v => formatDateValue F .date32 row v
  | .date64, row, v => formatDateValue F .date64 row v
  | .timestamp unit tz, row, v => formatTimestampValue F (.timestamp unit tz) row v
  | .decimal128 precision scale, _, v => formatValue F (.decimal128 precision scale) v "Decimal"
  | .decimal256 precision scale, _, v => formatValue F (.decimal256 precision scale) v "Decimal"
  | .binary, _, v => return jsonBytes (← arrowValueToBinary F .binary v)
  | .largeBinary, _, v => return jsonBytes (← arrowValueToBinary F .largeBinary v)
  | .fixedSizeBinary size, _, v => return jsonBytes (← arrowValueToBinary F (.fixedSizeBinary size) v)
  | .list item, _, .list values =>
    return bracketed (← values.zipIdx.mapM fun (v, row) => databricksDisplayValue item row v)
  | .list item, _, _ => throw (unexpectedValueType F (.list item) "List")
  | .largeList item, _, .list values =>
    return bracketed (← values.zipIdx.mapM fun (v, row) => databricksDisplayValue item row v)
  | .largeList item, _, _ => throw (unexpectedValueType F (.largeList item) "LargeList")
  | .fixedSizeList item _, _, .list values =>
    return bracketed (← values.zipIdx.mapM fun (v, row) => databricksDisplayValue item row v)
  | .fixedSizeList item size, _, _ =>
    throw (unexpectedValueType F (.fixedSizeList item size) "FixedSizeList")
  | .map keys values _, _, .map entries =>
    return renderPairs (← entries.zipIdx.mapM fun ((k, v), row) => do
      let key ← mapKey F keys k (databricksDisplayValue keys row k)
      let value ← databricksDisplayValue values row v
      return (key, value))
  | .map key value sorted, _, _ => throw (unexpectedValueType F (.map key value sorted) "Map")
  | .struct fields, row, .struct values => return braced (← databricksDisplayStruct fields row values)
  | .struct fields, _, _ => throw (unexpectedValueType F (.struct fields) "Struct")
  | other, _, _ => throw (unexpectedValueType F other "Databricks display-compatible Arrow type")

/-- The members of a struct, whose columns are as many as its fields. -/
def databricksDisplayStruct : List (String × DataType) → Nat → List Value → Result (List String)
  | (name, dt) :: fields, row, v :: values => do
    let text ← databricksDisplayValue dt row v
    let rendered ← databricksDisplayStruct fields row values
    return (jsonString name ++ ":" ++ text) :: rendered
  | _, _, _ => return []

end

def arrowValueToString (dt : DataType) (row : Nat) (v : Value) : Result String :=
  match dt, v with
  | _, .null => return ""
  | .utf8, _ | .largeUtf8, _ | .utf8View, _ => stringArrayValue F dt v
  | .date32, .date32 _ => formatValue F dt v "Date32"
  | .date32, _ => throw (unexpectedValueType F dt "Date32")
  | .date64, .date64 _ => formatValue F dt v "Date64"
  | .date64, _ => throw (unexpectedValueType F dt "Date64")
  | .timestamp _ _, _ => formatValue F dt v "Timestamp"
  | .decimal128 _ _, _ | .decimal256 _ _, _ => databricksDisplayValue F dt row v
  | .list _, _ | .largeList _, _ | .fixedSizeList _ _, _ | .listView _, _ | .largeListView _, _
  | .map _ _ _, _ | .struct _, _ => databricksDisplayValue F dt row v
  | other, _ =>
    throw (unexpectedValueType F other
      "Utf8/LargeUtf8/Utf8View/Date/Timestamp/Decimal/List/Map/Struct")

/-! ## Row sets -/

def nullBitset (batches : List RecordBatch) (columnIndex rowCount : Nat) : Bytes :=
  let set (nulls : Bytes) (pageRow : Nat) : Bytes :=
    nulls.modify (pageRow >>> 3) (· ||| 1 <<< (pageRow &&& 7).toUInt8)
  let column (state : Bytes × Nat) (array : ArrowArray) : Bytes × Nat :=
    array.values.foldl (fun (nulls, pageRow) v =>
      (if v.isNull then set nulls pageRow else nulls, pageRow + 1)) state
  (batches.filterMap (·.columns[columnIndex]?)).foldl column
    (List.replicate ((rowCount + 7) / 8) 0, 0) |>.1

/-- The bytes of a value. -/
def ThriftValue.write : ThriftValue → Bytes
  | bool value => writeBool value
  | i32 value => writeI32 value
  | i64 value => writeI64 value
  | f64 value => writeDouble value
  | string value => writeString value
  | binary value => writeBinary value

/-- The values of one batch of a page. -/
def writeBatchValues (columnIndex : Nat) (readValue : DataType → Nat → Value → Result ThriftValue)
    (batch : RecordBatch) : Result Bytes := do
  match batch.columns[columnIndex]? with
  | none => throw (.unsupportedResultType s!"result page is missing column index {columnIndex}")
  | some array =>
    let values ← array.values.zipIdx.mapM fun (v, row) => readValue array.dataType row v
    return values.flatMap ThriftValue.write

def writeColumnValues (valueType : UInt8) (page : QueryResultPage) (columnIndex : Nat)
    (readValue : DataType → Nat → Value → Result ThriftValue) : Result Bytes := do
  let nulls := nullBitset page.batches columnIndex page.rowCount
  let values ← writeFieldResult tList 1 do
    let values ← page.batches.mapM (writeBatchValues columnIndex readValue)
    return writeListBegin valueType page.rowCount ++ values.flatten
  return values ++ writeField tString 2 (writeBinary nulls) ++ writeStop

def writeColumn (encoder : ColumnEncoder) (columnIndex : Nat) (page : QueryResultPage) :
    Result Bytes := do
  let column ←
    match encoder.physicalType with
    | .bool => writeFieldResult tStruct 1 <|
      writeColumnValues tBool page columnIndex fun dt _ v => .bool <$> arrowValueToBool F dt v
    | .i32 => writeFieldResult tStruct 4 <|
      writeColumnValues tI32 page columnIndex fun dt _ v => .i32 <$> arrowValueToI32 F dt v
    | .i64 => writeFieldResult tStruct 5 <|
      writeColumnValues tI64 page columnIndex fun dt _ v => .i64 <$> arrowValueToI64 F dt v
    | .f64 => writeFieldResult tStruct 6 <|
      writeColumnValues tDouble page columnIndex fun dt _ v => .f64 <$> arrowValueToF64 F dt v
    | .string => writeFieldResult tStruct 7 <|
      writeColumnValues tString page columnIndex fun dt row v =>
        .string <$> arrowValueToString F dt row v
    | .binary => writeFieldResult tStruct 8 <|
      writeColumnValues tString page columnIndex fun dt _ v => .binary <$> arrowValueToBinary F dt v
  return column ++ writeStop

def writeRowSetWithEncoders (result : QueryResult) (page : QueryResultPage)
    (encoders : List ColumnEncoder) : Result Bytes := do
  let start := writeField tI64 1 (writeI64 page.startRowOffset)
  let rows := writeField tList 2 (writeListBegin tStruct 0)
  let columns ← writeFieldResult tList 3 do
    let columns ← encoders.zipIdx.mapM fun (encoder, columnIndex) =>
      writeColumn F encoder columnIndex page
    return writeListBegin tStruct result.columns.length ++ columns.flatten
  let columnCount := writeField tI32 5 (writeI32 (.ofNat result.columns.length))
  return start ++ rows ++ columns ++ columnCount ++ writeStop

def writeRowSet (result : QueryResult) (page : QueryResultPage) : Result Bytes := do
  let encoders ← columnEncoders F result
  writeRowSetWithEncoders F result page encoders

def requestedRowLimit (maxRows : Option Int64) : Nat :=
  match maxRows with
  | some value => if value ≤ 0 then 0 else min value.toInt.toNat maxFetchRows
  | none => defaultFetchRows

def rowPage (result : QueryResult) (startRowOffset : Int64) (maxRows : Option Int64) :
    QueryResultPage :=
  result.page startRowOffset (requestedRowLimit maxRows)

/-! ## Metadata -/

/-- `write_status` (`thrift.rs`). -/
def writeStatus (statusCode : Int32) (message : Option String) : Bytes :=
  let text :=
    match message with
    | some message =>
      writeField tString 5 (writeString message) ++ writeField tString 6 (writeString message)
    | none => []
  writeField tI32 1 (writeI32 statusCode) ++ text ++ writeStop

def writeDecimalTypeQualifiers (precision scale : Int32) : Bytes :=
  writeField tStruct 2 <|
    (writeField tMap 1 <|
      [tString, tStruct] ++ writeI32 2 ++
      writeString "precision" ++ writeField tI32 1 (writeI32 precision) ++ writeStop ++
      writeString "scale" ++ writeField tI32 1 (writeI32 scale) ++ writeStop) ++
    writeStop

def writeTypeDesc (encoder : ColumnEncoder) : Bytes :=
  let qualifiers :=
    match encoder.decimal with
    | some (precision, scale) => writeDecimalTypeQualifiers precision scale
    | none => []
  (writeField tList 1 <|
    writeListBegin tStruct 1 ++
    writeField tStruct 1 (writeField tI32 1 (writeI32 encoder.schemaType) ++ qualifiers ++ writeStop) ++
    writeStop) ++
  writeStop

def writeColumnDesc (column : Column) (encoder : ColumnEncoder) (position : Int32) : Bytes :=
  writeField tString 1 (writeString column.name) ++ writeField tStruct 2 (writeTypeDesc encoder) ++
    writeField tI32 3 (writeI32 position) ++ writeStop

def writeTableSchema (columns : List Column) (encoders : List ColumnEncoder) : Bytes :=
  (writeField tList 1 <|
    writeListBegin tStruct columns.length ++
    (columns.zip encoders).zipIdx.flatMap fun ((column, encoder), position) =>
      writeColumnDesc column encoder (.ofNat position)) ++
  writeStop

def writeResultSetMetadataResponseWithEncoders (columns : List Column)
    (encoders : List ColumnEncoder) (status : Int32) : Bytes :=
  writeField tStruct 1 (writeStatus status none) ++
    writeField tStruct 2 (writeTableSchema columns encoders) ++
    writeField tI32 1281 (writeI32 columnBasedSet) ++ writeField tBool 1282 (writeBool false) ++
    writeField tBool 1287 (writeBool false) ++ writeStop

def writeResultSetMetadataResponse (result : QueryResult) (status : Int32) : Result Bytes := do
  let encoders ← columnEncoders F result
  return writeResultSetMetadataResponseWithEncoders result.columns encoders status

def writeResultSetMetadataResponseWithError (status : Int32) (message : String) : Bytes :=
  writeField tStruct 1 (writeStatus status (some message)) ++
    writeField tStruct 2 (writeTableSchema [] []) ++
    writeField tI32 1281 (writeI32 columnBasedSet) ++ writeField tBool 1282 (writeBool false) ++
    writeStop

/-! ## Fetching -/

def writeFetchResultsResponseStruct (result : QueryResult) (includeMetadata : Bool)
    (startRowOffset : Int64) (maxRows : Option Int64) : Result Bytes := do
  let page := rowPage result startRowOffset maxRows
  let encoders ← columnEncoders F result
  let rowSet ← writeRowSetWithEncoders F result page encoders
  let metadata :=
    if includeMetadata then
      writeField tStruct 1281
        (writeResultSetMetadataResponseWithEncoders result.columns encoders successStatus)
    else []
  return writeField tStruct 1 (writeStatus successStatus none) ++
    writeField tBool 2 (writeBool page.hasMoreRows) ++ writeField tStruct 3 rowSet ++ metadata ++
    writeStop

end
end HarborSql
