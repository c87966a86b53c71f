import HarborSql.Thrift.Reader
import HarborSql.Thrift.Service

/-! The decoding of the requests (`thrift.rs`). -/

namespace HarborSql

open Reader

structure Message where
  name : String
  messageType : UInt8
  seqid : Int32
  payload : Bytes

def decodeMessage : ReaderM Message := do
  let version := (← readI32).toUInt32
  if version &&& 0xffff0000 ≠ tBinaryVersion1 then
    thriftError "only strict binary Thrift messages are supported"
  else do
    let name ← readString
    let seqid ← readI32
    let reader ← get
    let payload ← slice reader.buffer reader.position reader.buffer.length
    return { name, messageType := (version &&& 0x000000ff).toUInt8, seqid, payload }

/-- The arguments of a call: the fields up to the struct `req`, and those behind it. -/
def argsLoop {α : Type} (parseReq : ReaderM α) : Nat → ReaderM α
  | 0 => throw .diverged
  | fuel + 1 => do
    let (fieldType, fieldId) ← readFieldBegin
    if fieldType = tStop then thriftError "Thrift RPC arguments did not include field \x60req\x60"
    else if fieldId = 1 ∧ fieldType = tStruct then do
      let request ← parseReq
      skipRemainingStructFields
      return request
    else do
      skip fieldType
      argsLoop parseReq fuel

def readArgs {α : Type} (parseReq : ReaderM α) : ReaderM α := do
  argsLoop parseReq (← loopFuel)

/-! ## Handles -/

def readHandleIdentifier : ReaderM (Option Handle) := do
  let (guid, secret) ← readFields (fun fieldType fieldId (guid, secret) =>
    if fieldId = 1 ∧ fieldType = tString then do
      let bytes ← readBinary
      return (if h : bytes.length = 16 then some (Uuid.mk bytes h).toString else none, secret)
    else if fieldId = 2 ∧ fieldType = tString then do
      let bytes ← readBinary
      return (guid, if bytes.length = 16 then some bytes else none)
    else do
      skip fieldType
      return (guid, secret)) (none, none)
  return match guid, secret with
    | some id, some secret => some { id, secret }
    | _, _ => none

/-- The last field 1 of a struct with nothing else to read. -/
def readFirstField {α : Type} (read : ReaderM (Option α)) : ReaderM (Option α) :=
  readFields (fun fieldType fieldId value =>
    if fieldId = 1 ∧ fieldType = tStruct then read
    else do
      skip fieldType
      return value) none

def readSessionHandle : ReaderM (Option Handle) := readFirstField readHandleIdentifier

def readOperationHandle : ReaderM (Option Handle) := readFirstField readHandleIdentifier

/-! ## Sessions -/

structure OpenSessionReq where
  catalog : Option String
  schema : Option String
  getInfoTypes : List Int32

def readNamespace : ReaderM (Option String × Option String) :=
  readFields (fun fieldType fieldId (catalog, schema) =>
    if fieldId = 1 ∧ fieldType = tString then do return (some (← readString), schema)
    else if fieldId = 2 ∧ fieldType = tString then do return (catalog, some (← readString))
    else do
      skip fieldType
      return (catalog, schema)) (none, none)

def readI32List : ReaderM (List Int32) := do
  let elementType ← readU8
  let len ← readI32
  if len < 0 then thriftError "negative i32 list size"
  else if elementType ≠ tI32 then do
    useSize len.toInt.toNat
    times (skip elementType) len.toInt.toNat
    return []
  else do
    -- `Vec::with_capacity(len as usize)`
    useSize len.toInt.toNat
    collect readI32 len.toInt.toNat

def openSessionField (fieldType : UInt8) (fieldId : Int16) (request : OpenSessionReq) :
    ReaderM OpenSessionReq :=
  if fieldId = 1281 ∧ fieldType = tList then do
    return { request with getInfoTypes := ← readI32List }
  else if fieldId = 1284 ∧ fieldType = tStruct then do
    let (catalog, schema) ← readNamespace
    return { request with catalog, schema }
  else do
    skip fieldType
    return request

def readOpenSessionReq : ReaderM OpenSessionReq :=
  readFields openSessionField { catalog := none, schema := none, getInfoTypes := [] }

def readCloseSessionReq : ReaderM (Option Handle) := readFirstField readSessionHandle

structure GetInfoReq where
  sessionHandle : Option Handle
  infoType : Int32

def readGetInfoReq : ReaderM GetInfoReq := do
  let (sessionHandle, infoType) ← readFields (fun fieldType fieldId (sessionHandle, infoType) =>
    if fieldId = 1 ∧ fieldType = tStruct then do return (← readSessionHandle, infoType)
    else if fieldId = 2 ∧ fieldType = tI32 then do return (sessionHandle, some (← readI32))
    else do
      skip fieldType
      return (sessionHandle, infoType)) (none, none)
  return { sessionHandle, infoType := infoType.getD cliDbmsName }

/-! ## Operations -/

structure GetColumnsReq where
  sessionHandle : Option Handle
  names : GetColumnsMetadataRequest

def readGetColumnsReq : ReaderM GetColumnsReq :=
  readFields (fun fieldType fieldId request =>
    if fieldId = 1 ∧ fieldType = tStruct then do
      return { request with sessionHandle := ← readSessionHandle }
    else if fieldId = 2 ∧ fieldType = tString then do
      return { request with names.catalog := some (← readString) }
    else if fieldId = 3 ∧ fieldType = tString then do
      return { request with names.schema := some (← readString) }
    else if fieldId = 4 ∧ fieldType = tString then do
      return { request with names.table := some (← readString) }
    else if fieldId = 5 ∧ fieldType = tString then do
      return { request with names.column := some (← readString) }
    else do
      skip fieldType
      return request) { sessionHandle := none, names := ⟨none, none, none, none⟩ }

structure ExecuteStatementReq where
  sessionHandle : Option Handle
  statement : String

def readExecuteStatementReq : ReaderM ExecuteStatementReq := do
  let (sessionHandle, statement) ← readFields (fun fieldType fieldId (sessionHandle, statement) =>
    if fieldId = 1 ∧ fieldType = tStruct then do return (← readSessionHandle, statement)
    else if fieldId = 2 ∧ fieldType = tString then do return (sessionHandle, some (← readString))
    else do
      skip fieldType
      return (sessionHandle, statement)) (none, none)
  match statement with
  | some statement => return { sessionHandle, statement }
  | none => thriftError "ExecuteStatement missing SQL"

def readOperationReq : ReaderM (Option Handle) := readFirstField readOperationHandle

structure FetchResultsReq where
  operationHandle : Option Handle
  startRowOffset : Option Int64
  maxRows : Option Int64

def readFetchResultsReq : ReaderM FetchResultsReq :=
  readFields (fun fieldType fieldId request =>
    if fieldId = 1 ∧ fieldType = tStruct then do
      return { request with operationHandle := ← readOperationHandle }
    else if fieldId = 3 ∧ fieldType = tI64 then do
      return { request with maxRows := some (← readI64) }
    else if fieldId = 1282 ∧ fieldType = tI64 then do
      return { request with startRowOffset := some (← readI64) }
    else do
      skip fieldType
      return request) { operationHandle := none, startRowOffset := none, maxRows := none }

/-! ## Calls -/

/-- The request of a call, by the name of its method. -/
def readCall (name : String) : Option (ReaderM RpcCall) :=
  match name with
  | "OpenSession" => some do
    let request ← readArgs readOpenSessionReq
    return .openSession request.catalog request.schema request.getInfoTypes
  | "CloseSession" => some do return .closeSession (← readArgs readCloseSessionReq)
  | "GetInfo" => some do
    let request ← readArgs readGetInfoReq
    return .session (.getInfo request.infoType) request.sessionHandle
  | "GetColumns" => some do
    let request ← readArgs readGetColumnsReq
    return .session (.getColumns request.names) request.sessionHandle
  | "ExecuteStatement" => some do
    let request ← readArgs readExecuteStatementReq
    return .session (.executeStatement request.statement) request.sessionHandle
  | "GetOperationStatus" => some do
    return .operation .getOperationStatus (← readArgs readOperationReq)
  | "GetQueryId" => some do return .operation .getQueryId (← readArgs readOperationReq)
  | "GetResultSetMetadata" => some do
    return .operation .getResultSetMetadata (← readArgs readOperationReq)
  | "FetchResults" => some do
    let request ← readArgs readFetchResultsReq
    return .operation (.fetchResults request.startRowOffset request.maxRows) request.operationHandle
  | "CloseOperation" => some do return .closeOperation (← readArgs readOperationReq)
  | "CancelOperation" => some do return .cancelOperation (← readArgs readOperationReq)
  | _ => none

/-- The call of a message; its arguments are read from the start of the payload. -/
def decodeCall (message : Message) : ReaderM RpcCall :=
  if message.messageType ≠ tMessageCall then return .notACall message.name
  else
    match readCall message.name with
    | none => return .unsupported message.name
    | some read => do
      modify fun reader => { reader with buffer := message.payload, position := 0 }
      read

/-- The request in the body of a `POST`. -/
def decodeRequest (bearerToken : String) : ReaderM RpcRequest := do
  let message ← decodeMessage
  let call ← decodeCall message
  return { bearerToken, seqid := message.seqid, call }

end HarborSql
