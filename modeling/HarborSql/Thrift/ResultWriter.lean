import HarborSql.Thrift.Responses

/-! The responses with a result as the source writes them: to a `&mut Writer`, which keeps what was
written before an error (`thrift/result_encoding.rs`, `thrift.rs`). A call that cannot fail
appends its bytes. -/

namespace HarborSql

open Writer

/-- A function that takes a `&mut Writer` and returns a `Result`. -/
abbrev WriterM := ExceptT HarborError (StateM Bytes)

namespace WriterM

/-- The result of a call, and the buffer after it. -/
def call {α : Type} (m : WriterM α) (buffer : Bytes) : Result α × Bytes := (ExceptT.run m).run buffer

def write (bytes : Bytes) : WriterM Unit := modify (· ++ bytes)

/-- `?` on a value that is not written. -/
def liftResult {α : Type} : Result α → WriterM α
  | .ok value => pure value
  | .error err => throw err

/-- `Writer::new`, a call that takes it, and `into_inner`. -/
def written (m : WriterM Unit) : WriterM Bytes :=
  match m.call [] with
  | (.ok (), buffer) => pure buffer
  | (.error err, _) => throw err

def writeFieldResult (fieldType : UInt8) (fieldId : Int16) (value : WriterM Unit) :
    WriterM Unit := do
  write (fieldType :: writeI16 fieldId)
  value

section
variable (F : Formatting)

/-! ## Row sets -/

def writeColumnValues (valueType : UInt8) (page : QueryResultPage) (columnIndex : Nat)
    (readValue : DataType → Nat → Value → Result ThriftValue) : WriterM Unit := do
  let nulls := nullBitset page.batches columnIndex page.rowCount
  writeFieldResult tList 1 do
    write (writeListBegin valueType page.rowCount)
    page.batches.forM fun batch =>
      match batch.columns[columnIndex]? with
      | none => throw (.unsupportedResultType s!"result page is missing column index {columnIndex}")
      | some array => array.values.zipIdx.forM fun (v, row) => do
        let value ← liftResult (readValue array.dataType row v)
        write value.write
  write (writeField tString 2 (writeBinary nulls))
  write writeStop

def writeColumn (encoder : ColumnEncoder) (columnIndex : Nat) (page : QueryResultPage) :
    WriterM Unit := do
  match encoder.physicalType with
  | .bool => writeFieldResult tStruct 1 <|
    writeColumnValues tBool page columnIndex fun dt _ v => .bool <$> arrowValueToBool F dt v
  | .i32 => writeFieldResult tStruct 4 <|
    writeColumnValues tI32 page columnIndex fun dt _ v => .i32 <$> arrowValueToI32 F dt v
  | .i64 => writeFieldResult tStruct 5 <|
    writeColumnValues tI64 page columnIndex fun dt _ v => .i64 <$> arrowValueToI64 F dt v
  | .f64 => writeFieldResult tStruct 6 <|
    writeColumnValues tDouble page columnIndex fun dt _ v => .f64 <$> arrowValueToF64 F dt v
  | .string => writeFieldResult tStruct 7 <|
    writeColumnValues tString page columnIndex fun dt row v =>
      .string <$> arrowValueToString F dt row v
  | .binary => writeFieldResult tStruct 8 <|
    writeColumnValues tString page columnIndex fun dt _ v => .binary <$> arrowValueToBinary F dt v
  write writeStop

def writeRowSetWithEncoders (result : QueryResult) (page : QueryResultPage)
    (encoders : List ColumnEncoder) : WriterM Unit := do
  write (writeField tI64 1 (writeI64 page.startRowOffset))
  write (writeField tList 2 (writeListBegin tStruct 0))
  writeFieldResult tList 3 do
    write (writeListBegin tStruct result.columns.length)
    encoders.zipIdx.forM fun (encoder, columnIndex) => writeColumn F encoder columnIndex page
  write (writeField tI32 5 (writeI32 (.ofNat result.columns.length)))
  write writeStop

/-! ## Responses -/

def writeResultSetMetadataResponse (result : QueryResult) (status : Int32) : WriterM Unit := do
  let encoders ← liftResult (columnEncoders F result)
  write (writeResultSetMetadataResponseWithEncoders result.columns encoders status)

/-- The row set is written to a writer of its own. -/
def writeFetchResultsResponseStruct (result : QueryResult) (includeMetadata : Bool)
    (startRowOffset : Int64) (maxRows : Option Int64) : WriterM Unit := do
  let page := rowPage result startRowOffset maxRows
  let encoders ← liftResult (columnEncoders F result)
  let rowSet ← written (writeRowSetWithEncoders F result page encoders)
  let metadata :=
    if includeMetadata then
      some (writeResultSetMetadataResponseWithEncoders result.columns encoders successStatus)
    else none
  write (writeField tStruct 1 (writeStatus successStatus none))
  write (writeField tBool 2 (writeBool page.hasMoreRows))
  write (writeField tStruct 3 rowSet)
  if let some metadata := metadata then
    write (writeField tStruct 1281 metadata)
  write writeStop

/-- The closure goes on with the writer that has the head of the message. -/
def writeSuccessResponse (method : String) (seqid : Int32) (writeSuccess : Bytes → Bytes) : Bytes :=
  writeSuccess (writeMessageBegin method tMessageReply seqid ++ tStruct :: writeI16 0) ++ writeStop

def writeGetResultSetMetadataResponse (seqid : Int32) (result : QueryResult) : Bytes :=
  writeSuccessResponse "GetResultSetMetadata" seqid fun buffer =>
    match (writeResultSetMetadataResponse F result successStatus).call buffer with
    | (.ok (), buffer) => buffer
    | (.error err, buffer) => buffer ++
      writeResultSetMetadataResponseWithError errorStatus (thriftClientErrorMessage err)

def writeFetchResultsResponse (seqid : Int32) (result : QueryResult) (includeMetadata : Bool)
    (startRowOffset : Int64) (maxRows : Option Int64) : Bytes :=
  writeSuccessResponse "FetchResults" seqid fun buffer =>
    match (writeFetchResultsResponseStruct F result includeMetadata startRowOffset maxRows).call
        buffer with
    | (.ok (), buffer) => buffer
    | (.error err, buffer) => buffer ++ writeNoRows errorStatus (thriftClientErrorMessage err)

end
end WriterM
end HarborSql
