import HarborSql.Thrift.ResultEncoding
import HarborSql.Thrift.State

/-! The responses of the Thrift service (`thrift.rs`). -/

namespace HarborSql

open Writer

def writeSuccessResponse (method : String) (seqid : Int32) (success : Bytes) : Bytes :=
  writeMessageBegin method tMessageReply seqid ++ writeField tStruct 0 success ++ writeStop

def writeApplicationException (method : String) (seqid : Int32) (message : String) : Bytes :=
  writeMessageBegin method tMessageException seqid ++ writeField tString 1 (writeString message) ++
    writeField tI32 2 (writeI32 0) ++ writeStop

/-- The status that most responses are, or begin with. -/
def writeStatusField (statusCode : Int32) (message : Option String) : Bytes :=
  writeField tStruct 1 (writeStatus statusCode message)

def thriftClientErrorMessage (error : HarborError) : String := error.clientError.statusMessage

/-! ## Handles -/

def writeHandleIdentifier (guid secret : Bytes) : Bytes :=
  writeField tString 1 (writeBinary guid) ++ writeField tString 2 (writeBinary secret) ++ writeStop

def writeSessionHandle (guid secret : Bytes) : Bytes :=
  writeField tStruct 1 (writeHandleIdentifier guid secret) ++
    writeField tI32 3329 (writeI32 sparkCliServiceProtocolV7) ++ writeStop

def writeOperationHandleWithType (guid secret : Bytes) (hasResultSet : Bool)
    (operationType : Int32) : Bytes :=
  writeField tStruct 1 (writeHandleIdentifier guid secret) ++
    writeField tI32 2 (writeI32 operationType) ++ writeField tBool 3 (writeBool hasResultSet) ++
    writeStop

def writeOperationHandle (guid secret : Bytes) (hasResultSet : Bool) : Bytes :=
  writeOperationHandleWithType guid secret hasResultSet executeStatement

def writeNamespace (catalog schema : String) : Bytes :=
  writeField tString 1 (writeString catalog) ++ writeField tString 2 (writeString schema) ++
    writeStop

/-! ## GetInfo values -/

def getInfoString (infoType : Int32) (catalog : String) : String :=
  if infoType = cliDataSourceName then "HarborSQL"
  else if infoType = cliServerName then "HarborSQL"
  else if infoType = cliSearchPatternEscape then "\\"
  else if infoType = cliDbmsName then "Spark SQL"
  else if infoType = cliDbmsVer then "3.1.0"
  else if infoType = cliIdentifierQuoteChar then "\x60"
  else if infoType = cliUserName then ""
  else if infoType = cliCatalogName then catalog
  else if infoType = cliCollationSeq then ""
  else if infoType = cliSpecialCharacters then ""
  else ""

def getInfoLen (infoType : Int32) : Int64 :=
  if infoType ∈ [cliMaxColumnNameLen, cliMaxCursorNameLen, cliMaxSchemaNameLen,
    cliMaxCatalogNameLen, cliMaxTableNameLen, cliMaxUserNameLen, cliMaxIdentifierLen] then 128
  else 0

def getInfoFlag (infoType : Int32) : Int32 :=
  if infoType = cliFetchDirection then 1
  else if infoType = cliDataSourceReadOnly then 1
  else if infoType = cliIdentifierCase then 1
  else if infoType = cliOrderByColumnsInSelect then 1
  else if infoType = cliXopenCliYear then 2011
  else 0

def writeGetInfoStringValue (value : String) : Bytes :=
  writeField tString 1 (writeString value) ++ writeStop

def writeGetInfoValue (infoType : Int32) (catalog : String) : Bytes :=
  if infoType ∈ [cliDataSourceName, cliServerName, cliSearchPatternEscape, cliDbmsName, cliDbmsVer,
    cliIdentifierQuoteChar, cliUserName, cliCatalogName, cliCollationSeq, cliSpecialCharacters]
  then writeGetInfoStringValue (getInfoString infoType catalog)
  else if infoType ∈ [cliMaxDriverConnections, cliMaxConcurrentActivities, cliMaxColumnNameLen,
    cliMaxCursorNameLen, cliMaxSchemaNameLen, cliMaxCatalogNameLen, cliMaxTableNameLen,
    cliMaxIndexSize, cliMaxRowSize, cliMaxStatementLen, cliMaxTablesInSelect, cliMaxUserNameLen,
    cliMaxIdentifierLen]
  then writeField tI64 6 (writeI64 (getInfoLen infoType)) ++ writeStop
  else if infoType ∈ [cliFetchDirection, cliCursorCommitBehavior, cliDataSourceReadOnly,
    cliDefaultTxnIsolation, cliIdentifierCase, cliAccessibleTables, cliAccessibleProcedures,
    cliTxnCapable, cliIntegrity, cliNullCollation, cliOrderByColumnsInSelect, cliXopenCliYear,
    cliCursorSensitivity, cliDescribeParameter]
  then writeField tI32 4 (writeI32 (getInfoFlag infoType)) ++ writeStop
  else writeField tI32 3 (writeI32 0) ++ writeStop

/-! ## Sessions -/

def writeOpenSessionResponse (seqid : Int32) (guid secret : Bytes) (catalog schema : String)
    (getInfoTypes : List Int32) : Bytes :=
  let infoValues :=
    if getInfoTypes.isEmpty then []
    else writeField tList 1281 <| writeListBegin tStruct getInfoTypes.length ++
      getInfoTypes.flatMap fun infoType => writeGetInfoValue infoType catalog
  writeSuccessResponse "OpenSession" seqid <|
    writeStatusField successStatus none ++
      writeField tI32 2 (writeI32 sparkCliServiceProtocolV7) ++
      writeField tStruct 3 (writeSessionHandle guid secret) ++
      writeField tStruct 1284 (writeNamespace catalog schema) ++
      writeField tBool 1285 (writeBool true) ++ infoValues ++ writeStop

def writeOpenSessionError (seqid : Int32) (message : String) : Bytes :=
  writeSuccessResponse "OpenSession" seqid <|
    writeStatusField errorStatus (some message) ++ writeStop

def writeCloseSessionResponse (seqid : Int32) (valid : Bool) : Bytes :=
  writeSuccessResponse "CloseSession" seqid <|
    writeStatusField (if valid then successStatus else invalidHandleStatus)
      (if valid then none else some "invalid session handle") ++ writeStop

def writeGetInfoResponse (seqid infoType : Int32) (catalog : String) : Bytes :=
  writeSuccessResponse "GetInfo" seqid <|
    writeStatusField successStatus none ++
      writeField tStruct 2 (writeGetInfoValue infoType catalog) ++ writeStop

def writeGetInfoInvalid (seqid : Int32) : Bytes :=
  writeSuccessResponse "GetInfo" seqid <|
    writeStatusField invalidHandleStatus (some "invalid session handle") ++
      writeField tStruct 2 (writeGetInfoStringValue "") ++ writeStop

/-! ## New operations -/

def writeGetColumnsResponse (seqid : Int32) (guid secret : Bytes) : Bytes :=
  writeSuccessResponse "GetColumns" seqid <|
    writeStatusField successStatus none ++
      writeField tStruct 2 (writeOperationHandleWithType guid secret true getColumns) ++ writeStop

def writeGetColumnsError (seqid : Int32) (message : String) : Bytes :=
  writeSuccessResponse "GetColumns" seqid <|
    writeStatusField errorStatus (some message) ++ writeStop

def writeGetColumnsInvalid (seqid : Int32) (message : String) : Bytes :=
  writeSuccessResponse "GetColumns" seqid <|
    writeStatusField invalidHandleStatus (some message) ++ writeStop

def writeExecuteStatementResponse (seqid : Int32) (guid secret : Bytes) : Bytes :=
  writeSuccessResponse "ExecuteStatement" seqid <|
    writeStatusField successStatus none ++
      writeField tStruct 2 (writeOperationHandle guid secret true) ++ writeStop

def writeExecuteStatementError (seqid : Int32) (message : String) : Bytes :=
  writeSuccessResponse "ExecuteStatement" seqid <|
    writeStatusField errorStatus (some message) ++ writeStop

def writeExecuteStatementInvalid (seqid : Int32) (message : String) : Bytes :=
  writeSuccessResponse "ExecuteStatement" seqid <|
    writeStatusField invalidHandleStatus (some message) ++ writeStop

/-! ## Stored operations -/

def writeOperationStatusResponse (statusCode operationState : Int32) (hasResultSet : Bool)
    (message : Option String) : Bytes :=
  writeStatusField statusCode message ++ writeField tI32 2 (writeI32 operationState) ++
    writeField tBool 9 (writeBool hasResultSet) ++ writeStop

def writeGetOperationStatusResponse (seqid : Int32) (operation : OperationState) : Bytes :=
  writeSuccessResponse "GetOperationStatus" seqid <|
    writeOperationStatusResponse operation.state.statusCode operation.state.operationState
      operation.state.result.isSome operation.state.errorMessage

def writeGetOperationStatusInvalid (seqid : Int32) : Bytes :=
  writeSuccessResponse "GetOperationStatus" seqid <|
    writeOperationStatusResponse invalidHandleStatus errorState false
      (some "unknown operation handle")

def writeGetQueryIdResponse (seqid : Int32) (queryId : String) : Bytes :=
  writeSuccessResponse "GetQueryId" seqid <|
    writeField tString 1 (writeString queryId) ++ writeStop

def writeGetResultSetMetadataResponse (F : Formatting) (seqid : Int32) (result : QueryResult) :
    Bytes :=
  writeSuccessResponse "GetResultSetMetadata" seqid <|
    match writeResultSetMetadataResponse F result successStatus with
    | .ok response => response
    | .error err =>
      writeResultSetMetadataResponseWithError errorStatus (thriftClientErrorMessage err)

def writeGetResultSetMetadataInvalid (seqid : Int32) : Bytes :=
  writeSuccessResponse "GetResultSetMetadata" seqid <|
    writeResultSetMetadataResponseWithError invalidHandleStatus "unknown operation handle"

def writeGetResultSetMetadataNotReady (seqid : Int32) (message : Option String) : Bytes :=
  writeSuccessResponse "GetResultSetMetadata" seqid <|
    writeResultSetMetadataResponseWithError errorStatus
      (message.getD "operation is not finished")

/-- The struct of a response without rows. -/
def writeNoRows (statusCode : Int32) (message : String) : Bytes :=
  writeStatusField statusCode (some message) ++ writeField tBool 2 (writeBool false) ++ writeStop

def writeFetchResultsResponse (F : Formatting) (seqid : Int32) (result : QueryResult)
    (includeMetadata : Bool) (startRowOffset : Int64) (maxRows : Option Int64) : Bytes :=
  writeSuccessResponse "FetchResults" seqid <|
    match writeFetchResultsResponseStruct F result includeMetadata startRowOffset maxRows with
    | .ok response => response
    | .error err => writeNoRows errorStatus (thriftClientErrorMessage err)

def writeFetchResultsInvalid (seqid : Int32) : Bytes :=
  writeSuccessResponse "FetchResults" seqid <|
    writeNoRows invalidHandleStatus "unknown operation handle"

def writeFetchResultsNotReady (seqid : Int32) (message : Option String) : Bytes :=
  writeSuccessResponse "FetchResults" seqid <|
    writeNoRows errorStatus (message.getD "operation is not finished")

def writeCloseOperationResponse (seqid : Int32) (valid : Bool) : Bytes :=
  writeSuccessResponse "CloseOperation" seqid <|
    writeStatusField (if valid then successStatus else invalidHandleStatus)
      (if valid then none else some "unknown operation handle") ++ writeStop

def writeCancelOperationResponse (seqid : Int32) (valid : Bool) : Bytes :=
  writeSuccessResponse "CancelOperation" seqid <|
    writeStatusField (if valid then successStatus else invalidHandleStatus)
      (if valid then none else some "unknown operation handle") ++ writeStop

end HarborSql
