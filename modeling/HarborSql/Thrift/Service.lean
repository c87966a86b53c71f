import HarborSql.Theory.HashMap
import HarborSql.Theory.Interleaving
import HarborSql.Thrift.Responses

/-! The Thrift service (`thrift.rs`): the handlers of its RPCs, `query_history` and the cleanup
task as threads over the session and operation maps, one section for each time a lock is held
or another future is awaited. The tasks that run the operations, and the clock, are the
environment. -/

namespace HarborSql

/-! ## Requests -/

/-- The methods that ask `session_for` for their session. -/
inductive SessionMethod where
  | getInfo (infoType : Int32)
  | getColumns (request : GetColumnsMetadataRequest)
  | executeStatement (statement : String)

/-- The methods that read an operation through `with_operation`. -/
inductive OperationMethod where
  | getOperationStatus
  | getQueryId
  | getResultSetMetadata
  | fetchResults (startRowOffset maxRows : Option Int64)

/-- What the service is called for, once the message is decoded. -/
inductive RpcCall where
  | notACall (name : String)
  | unsupported (name : String)
  | openSession (catalog schema : Option String) (getInfoTypes : List Int32)
  | closeSession (handle : Option Handle)
  | session (method : SessionMethod) (handle : Option Handle)
  | operation (method : OperationMethod) (handle : Option Handle)
  | closeOperation (handle : Option Handle)
  | cancelOperation (handle : Option Handle)
  | queryHistory (queryId : String)
  | cleanupExpired

structure RpcRequest where
  bearerToken : String
  seqid : Int32
  call : RpcCall

/-- What a call returns: a message, or the answer of `query_history`. -/
inductive Reply where
  | response (bytes : Bytes)
  | history (history : Option QueryHistory)

/-- The handle a call names. -/
def RpcCall.handle : RpcCall → Option Handle
  | closeSession handle | session _ handle | operation _ handle | closeOperation handle
  | cancelOperation handle => handle
  | _ => none

/-- The response without a valid session. -/
def SessionMethod.invalid (seqid : Int32) : SessionMethod → Bytes
  | getInfo _ => writeGetInfoInvalid seqid
  | getColumns _ => writeGetColumnsInvalid seqid "invalid session handle"
  | executeStatement _ => writeExecuteStatementInvalid seqid "invalid session handle"

namespace OperationMethod

/-- The response without a valid operation. -/
def invalid (seqid : Int32) : OperationMethod → Bytes
  | getOperationStatus => writeGetOperationStatusInvalid seqid
  | getQueryId => writeGetQueryIdResponse seqid ""
  | getResultSetMetadata => writeGetResultSetMetadataInvalid seqid
  | fetchResults .. => writeFetchResultsInvalid seqid

/-- The response computed from the operation. -/
def write (F : Formatting) (seqid : Int32) (queryId : String) (operation : OperationState) :
    OperationMethod → Bytes
  | getOperationStatus => writeGetOperationStatusResponse seqid operation
  | getQueryId => writeGetQueryIdResponse seqid queryId
  | getResultSetMetadata =>
    match operation.state.result with
    | some result => writeGetResultSetMetadataResponse F seqid result
    | none => writeGetResultSetMetadataNotReady seqid operation.state.errorMessage
  | fetchResults startRowOffset maxRows =>
    match operation.state.result with
    | some result => writeFetchResultsResponse F seqid result true (startRowOffset.getD 0) maxRows
    | none => writeFetchResultsNotReady seqid operation.state.errorMessage

end OperationMethod

/-! ## The shared state -/

structure ServiceConfig where
  defaultCatalog : String
  defaultSchema : String
  maxSessions : Nat
  maxOperations : Nat
  idleSessionTimeout : Duration
  completedOperationTtl : Duration
  /-- `token_fingerprint`: SHA-256 of the token. -/
  tokenFingerprint : String → Bytes

/-- The gauges, once they were set. -/
structure Gauges where
  sessions : Option Nat
  operations : Option Nat
  activeOperations : Option Nat
  deriving DecidableEq, Repr

/-- The maps under the two locks, the tasks spawned so far, the gauges and the clock, and as
history the ids drawn for entries of the maps, the handles sent to clients, and the call that
took each removed session out of the map. -/
structure ServiceState where
  sessions : HashMap String SessionState
  operations : HashMap String OperationState
  tasks : List Task
  gauges : Gauges
  clock : Instant
  usedIds : List String
  issued : List Handle
  removedBy : HashMap String ThreadId

def SessionState.admits (session : SessionState) (handle : Handle) (fingerprint : Bytes) : Bool :=
  session.secret = handle.secret && session.tokenFingerprint = fingerprint

def OperationState.admits (op : OperationState) (handle : Handle) (fingerprint : Bytes) : Bool :=
  op.secret = handle.secret && op.tokenFingerprint = fingerprint

def abortOperations (ops : List OperationState) (tasks : List Task) : List Task :=
  ops.foldl (fun tasks op => op.abort tasks) tasks

namespace ServiceState

/-- `DatabricksThriftService::new`, at some time of the clock. -/
def new (clock : Instant) : ServiceState := ⟨∅, ∅, [], ⟨none, none, none⟩, clock, [], [], ∅⟩

variable (s : ServiceState)

def recordSessionGauge : ServiceState :=
  { s with gauges := { s.gauges with sessions := some s.sessions.len } }

def recordOperationGauges : ServiceState :=
  let active := s.operations.values.countP OperationState.isActive
  { s with gauges := { s.gauges with
      operations := some s.operations.len, activeOperations := some active } }

def modifyOperation (id : String) (f : OperationState → OperationState) : ServiceState :=
  { s with operations := HashMap.modify s.operations id f }

/-- Take an operation out of the map and abort it. -/
def eraseOperation (id : String) : ServiceState :=
  match s.operations.lookup id with
  | some op =>
    let s := { s with operations := s.operations.erase id, tasks := op.abort s.tasks }
    s.recordOperationGauges
  | none => s

/-- Keep the operations that satisfy `keep`, and abort the others. -/
def retainOperations (keep : OperationState → Bool) : ServiceState :=
  let s := { s with
    operations := s.operations.retain fun _ op => keep op
    tasks := abortOperations (s.operations.values.filter fun op => !keep op) s.tasks }
  s.recordOperationGauges

/-- Call `i` takes sessions out of the map. -/
def eraseSessions (ids : List String) (i : ThreadId) : ServiceState :=
  { s with
    sessions := HashMap.eraseAll s.sessions ids
    removedBy := HashMap.insertAll s.removedBy ids i }

def modifySession (id : String) (f : SessionState → SessionState) : ServiceState :=
  { s with sessions := HashMap.modify s.sessions id f }

/-- The sessions whose idle timeout has run out at `now`. -/
def expiredSessions (cfg : ServiceConfig) (now : Instant) : List String :=
  (s.sessions.entries.filter fun e => e.2.isExpired now cfg.idleSessionTimeout).map (·.1)

/-- Insert a new session; its id and its secret are fresh. -/
def insertSession (session : SessionState) : ServiceState :=
  let s := { s with
    sessions := s.sessions.insert session.id session
    usedIds := session.id :: s.usedIds
    issued := ⟨session.id, session.secret⟩ :: s.issued }
  s.recordSessionGauge

/-- Spawn a task and insert the operation that it runs; the task's address is
`s.tasks.length`. -/
def insertOperation (id : String) (op : OperationState) (kind : TaskKind) : ServiceState :=
  let s := { s with
    tasks := s.tasks ++ [Task.spawn kind]
    operations := s.operations.insert id op
    usedIds := id :: s.usedIds }
  s.recordOperationGauges

def issue (handle : Handle) : ServiceState := { s with issued := handle :: s.issued }

end ServiceState

/-! ## Sections -/

/-- The sections of the handlers, under the names of the functions they come from. Where a
function holds no lock but reads the clock, that is a section as well. -/
inductive Section where
  /-- `refresh_finished_operations`: collect the operations with a finished task. -/
  | listFinished
  /-- `refresh_operation`: `take_finished_task`, `task.await` and `finish_refresh`. -/
  | takeFinishedTask (id : String)
  | awaitTask (id : String) (started : Instant) (task : TaskId)
  | finishRefresh (id : String) (started : Instant) (result : Except JoinError OperationCompletion)
  /-- `cleanup_expired` after the refreshes: `now`, the sessions, the operations. -/
  | cleanupClock
  | cleanupSessions (now : Instant)
  | cleanupOperations (now : Instant) (expiredSessions : List String)
  | openSession (catalog schema : Option String) (getInfoTypes : List Int32)
  | removeSession (handle : Handle)
  /-- `remove_operations_for_session`, and what the call returns after it. -/
  | removeOperationsForSession (sessionId : String) (reply : Reply)
  /-- `session_for`: `now`, and the check of the session. -/
  | sessionClock (method : SessionMethod) (handle : Option Handle)
  | sessionFor (method : SessionMethod) (handle : Handle) (now : Instant)
  /-- `operation_started`, and the insertion. -/
  | getColumnsClock (session : SessionState) (request : GetColumnsMetadataRequest)
  | insertGetColumns (session : SessionState) (request : GetColumnsMetadataRequest)
    (operationStarted : Instant)
  | insertExecuteStatement (session : SessionState) (statement : String)
  | awaitOperationCompletion (operationId : Uuid) (secret : Uuid) (task : TaskId)
  | removeUnreturnedOperation (id : String) (errorMessage : String)
  | withOperation (method : OperationMethod) (handle : Handle)
  /-- `touch_session`, and what the call returns after it. -/
  | touchSession (sessionId : String) (reply : Reply)
  | removeOperation (handle : Handle)
  | cancelOperation (handle : Handle)
  | readHistory (queryId : String)

/-- Whether a section begins with an await: a lock, a task or a channel. -/
def Section.awaits : Section → Bool
  | .cleanupClock | .sessionClock .. | .getColumnsClock .. => false
  | _ => true

/-- What follows a section: other sections, or the end of the call. -/
inductive Next where
  | sections (sections : List Section)
  | reply (reply : Reply)

inductive RpcInput where
  | run
  /-- The iteration order of the operations map. -/
  | order (ids : List String)
  /-- `Uuid::new_v4`, twice. -/
  | uuids (id secret : Uuid)

/-- `cleanup_expired`. -/
def cleanupExpired : List Section := [.listFinished, .cleanupClock]

/-- The first sections of a call, or its answer when it takes none. -/
def RpcRequest.start (request : RpcRequest) : Next :=
  match request.call with
  | .notACall name =>
    .reply <| .response <|
      writeApplicationException name request.seqid "expected a Thrift CALL message"
  | .unsupported name =>
    .reply <| .response <| writeApplicationException name request.seqid
      ("unsupported Thrift method \x60" ++ name ++ "\x60")
  | .openSession catalog schema getInfoTypes =>
    .sections (cleanupExpired ++ [.openSession catalog schema getInfoTypes])
  | .closeSession none => .reply (.response (writeCloseSessionResponse request.seqid false))
  | .closeSession (some handle) => .sections [.removeSession handle]
  | .session (.getInfo infoType) handle => .sections [.sessionClock (.getInfo infoType) handle]
  | .session method handle => .sections (cleanupExpired ++ [.sessionClock method handle])
  | .operation method none => .reply (.response (method.invalid request.seqid))
  | .operation method (some handle) =>
    .sections (cleanupExpired ++ [.takeFinishedTask handle.id, .withOperation method handle])
  | .closeOperation none => .reply (.response (writeCloseOperationResponse request.seqid false))
  | .closeOperation (some handle) => .sections (cleanupExpired ++ [.removeOperation handle])
  | .cancelOperation none => .reply (.response (writeCancelOperationResponse request.seqid false))
  | .cancelOperation (some handle) => .sections (cleanupExpired ++ [.cancelOperation handle])
  | .queryHistory queryId =>
    .sections (cleanupExpired ++ [.takeFinishedTask queryId, .readHistory queryId])
  | .cleanupExpired => .sections cleanupExpired

section Sections
variable (cfg : ServiceConfig) (F : Formatting) (i : ThreadId) (request : RpcRequest)
variable (s : ServiceState)

/-! ### `refresh_operation` and `cleanup_expired` -/

def runTakeFinishedTask (id : String) : ServiceState × Next :=
  match (s.operations.lookup id).bind (OperationState.takeFinishedTask · s.tasks) with
  | some (op, started, task) =>
    (s.modifyOperation id fun _ => op, .sections [.awaitTask id started task])
  | none => (s, .sections [])

def runFinishRefresh (id : String) (started : Instant)
    (result : Except JoinError OperationCompletion) : ServiceState × Next :=
  ((s.modifyOperation id fun op => op.finishRefresh s.clock started result).recordOperationGauges,
    .sections [])

/-- The sessions that `cleanup_expired` removes; it does not set the session gauge. -/
def runCleanupSessions (now : Instant) : ServiceState × Next :=
  let expired := s.expiredSessions cfg now
  (s.eraseSessions expired i, .sections [.cleanupOperations now expired])

def runCleanupOperations (now : Instant) (expired : List String) : ServiceState × Next :=
  (s.retainOperations fun op =>
    !(expired.contains op.sessionId || op.isExpired now cfg.completedOperationTtl), .sections [])

/-! ### Sessions -/

def runOpenSession (catalog schema : Option String) (getInfoTypes : List Int32)
    (id secret : Uuid) : ServiceState × Next :=
  let catalog := catalog.getD cfg.defaultCatalog
  let schema := schema.getD cfg.defaultSchema
  if cfg.maxSessions ≤ s.sessions.len then
    (s, .reply (.response
      (writeOpenSessionError request.seqid "maximum session count exceeded")))
  else
    (s.insertSession
      { id := id.toString
        secret := secret.bytes
        tokenFingerprint := cfg.tokenFingerprint request.bearerToken
        catalog
        schema
        lastAccess := s.clock },
      .reply (.response
        (writeOpenSessionResponse request.seqid id.bytes secret.bytes catalog schema getInfoTypes)))

def runRemoveSession (handle : Handle) : ServiceState × Next :=
  let fingerprint := cfg.tokenFingerprint request.bearerToken
  if (s.sessions.lookup handle.id).any (·.admits handle fingerprint) then
    ((s.eraseSessions [handle.id] i).recordSessionGauge,
      .sections [.removeOperationsForSession handle.id
        (.response (writeCloseSessionResponse request.seqid true))])
  else (s, .reply (.response (writeCloseSessionResponse request.seqid false)))

/-- What a call does with its session. -/
def afterSession (session : SessionState) : SessionMethod → Next
  | .getInfo infoType =>
    .reply (.response (writeGetInfoResponse request.seqid infoType session.catalog))
  | .getColumns filters => .sections [.getColumnsClock session filters]
  | .executeStatement statement => .sections [.insertExecuteStatement session statement]

/-- `session_for`; an expired session is removed whoever asks, without setting the gauge. -/
def runSessionFor (method : SessionMethod) (handle : Handle) (now : Instant) :
    ServiceState × Next :=
  let fingerprint := cfg.tokenFingerprint request.bearerToken
  let invalid : Reply := .response (method.invalid request.seqid)
  match s.sessions.lookup handle.id with
  | none => (s, .reply invalid)
  | some session =>
    if session.isExpired now cfg.idleSessionTimeout then
      (s.eraseSessions [handle.id] i, .sections [.removeOperationsForSession handle.id invalid])
    else if session.admits handle fingerprint then
      (s.modifySession handle.id fun session => { session with lastAccess := now },
        afterSession request { session with lastAccess := now } method)
    else (s, .reply invalid)

/-! ### New operations -/

def runInsertGetColumns (session : SessionState) (filters : GetColumnsMetadataRequest)
    (operationStarted : Instant) (id secret : Uuid) : ServiceState × Next :=
  if cfg.maxOperations ≤ s.operations.len then
    (s, .reply (.response
      (writeGetColumnsError request.seqid "maximum operation count exceeded")))
  else
    let op : OperationState :=
      { secret := secret.bytes
        sessionId := session.id
        tokenFingerprint := cfg.tokenFingerprint request.bearerToken
        state := .running operationStarted s.tasks.length }
    (s.insertOperation id.toString op
        (.getColumns id.toString request.bearerToken filters session.catalog session.schema),
      .sections [.awaitOperationCompletion id secret s.tasks.length])

def runInsertExecuteStatement (session : SessionState) (statement : String) (id secret : Uuid) :
    ServiceState × Next :=
  if cfg.maxOperations ≤ s.operations.len then
    (s, .reply (.response
      (writeExecuteStatementError request.seqid "maximum operation count exceeded")))
  else
    let op : OperationState :=
      { secret := secret.bytes
        sessionId := session.id
        tokenFingerprint := cfg.tokenFingerprint request.bearerToken
        state := .running s.clock s.tasks.length }
    let statement := String.ofList (trim statement.toList)
    ((s.insertOperation id.toString op (.executeStatement id.toString request.bearerToken statement
        session.catalog session.schema)).issue ⟨id.toString, secret.bytes⟩,
      .reply (.response (writeExecuteStatementResponse request.seqid id.bytes secret.bytes)))

/-- What the receiver of a task's channel gets, once the task has sent or is gone. -/
def receivedOutcome (tasks : List Task) (task : TaskId) : Option OperationFinishOutcome :=
  (tasks[task]?).bind fun t =>
    match t.outcome with
    | some outcome => some outcome
    | none =>
      if t.isFinished then some (.failed ClientError.internal.statusMessage) else none

def runAwaitOperationCompletion (operationId secret : Uuid) (outcome : OperationFinishOutcome) :
    ServiceState × Next :=
  match outcome with
  | .succeeded =>
    (s.issue ⟨operationId.toString, secret.bytes⟩,
      .reply (.response
        (writeGetColumnsResponse request.seqid operationId.bytes secret.bytes)))
  | .failed errorMessage =>
    (s, .sections [.removeUnreturnedOperation operationId.toString errorMessage])

/-! ### Stored operations -/

def runWithOperation (method : OperationMethod) (handle : Handle) : ServiceState × Next :=
  let fingerprint := cfg.tokenFingerprint request.bearerToken
  match s.operations.lookup handle.id with
  | some op =>
    if op.admits handle fingerprint then
      (s, .sections [.touchSession op.sessionId
        (.response (method.write F request.seqid handle.id op))])
    else (s, .reply (.response (method.invalid request.seqid)))
  | none => (s, .reply (.response (method.invalid request.seqid)))

def runRemoveOperation (handle : Handle) : ServiceState × Next :=
  let fingerprint := cfg.tokenFingerprint request.bearerToken
  if (s.operations.lookup handle.id).any (·.admits handle fingerprint) then
    (s.eraseOperation handle.id, .reply (.response (writeCloseOperationResponse request.seqid true)))
  else (s, .reply (.response (writeCloseOperationResponse request.seqid false)))

/-- `cancel_operation`: the task of a running operation is aborted and its state replaced. -/
def runCancelOperation (handle : Handle) : ServiceState × Next :=
  let fingerprint := cfg.tokenFingerprint request.bearerToken
  match s.operations.lookup handle.id with
  | some op =>
    if op.admits handle fingerprint then
      let s := s.modifyOperation handle.id (·.cancel s.clock)
      ({ s with tasks := op.abort s.tasks }.recordOperationGauges,
        .reply (.response (writeCancelOperationResponse request.seqid true)))
    else (s, .reply (.response (writeCancelOperationResponse request.seqid false)))
  | none => (s, .reply (.response (writeCancelOperationResponse request.seqid false)))

def runReadHistory (queryId : String) : ServiceState × Next :=
  match (s.operations.lookup queryId).filter fun op =>
    op.tokenFingerprint = cfg.tokenFingerprint request.bearerToken with
  | some op =>
    (s, .sections [.touchSession op.sessionId (.history (some
      ⟨queryId, op.state.historyStatus, op.state.durationMs s.clock⟩))])
  | none => (s, .reply (.history none))

/-- Whether `ids` are the operations with a finished task, in some order. -/
def listsFinished (ids : List String) : Bool :=
  ids.isPerm ((s.operations.entries.filter fun e => e.2.hasFinishedTask s.tasks).map (·.1))

/-- The section of call `i`. Ids and secrets are drawn fresh. -/
def runSection : Section → RpcInput → Option (ServiceState × Next)
  | .listFinished, .order ids =>
    if listsFinished s ids then some (s, .sections (ids.map .takeFinishedTask)) else none
  | .takeFinishedTask id, .run => some (runTakeFinishedTask s id)
  | .awaitTask id started task, .run =>
    (joinResult s.tasks task).map fun result => (s, .sections [.finishRefresh id started result])
  | .finishRefresh id started result, .run => some (runFinishRefresh s id started result)
  | .cleanupClock, .run => some (s, .sections [.cleanupSessions s.clock])
  | .cleanupSessions now, .run => some (runCleanupSessions cfg i s now)
  | .cleanupOperations now expired, .run => some (runCleanupOperations cfg s now expired)
  | .openSession catalog schema getInfoTypes, .uuids id secret =>
    if id.toString ∈ s.usedIds then none
    else some (runOpenSession cfg request s catalog schema getInfoTypes id secret)
  | .removeSession handle, .run => some (runRemoveSession cfg i request s handle)
  | .removeOperationsForSession sessionId reply, .run =>
    some (s.retainOperations fun op => op.sessionId ≠ sessionId, .reply reply)
  | .sessionClock method none, .run =>
    some (s, .reply (.response (method.invalid request.seqid)))
  | .sessionClock method (some handle), .run =>
    some (s, .sections [.sessionFor method handle s.clock])
  | .sessionFor method handle now, .run => some (runSessionFor cfg i request s method handle now)
  | .getColumnsClock session filters, .run =>
    some (s, .sections [.insertGetColumns session filters s.clock])
  | .insertGetColumns session filters started, .uuids id secret =>
    if id.toString ∈ s.usedIds then none
    else some (runInsertGetColumns cfg request s session filters started id secret)
  | .insertExecuteStatement session statement, .uuids id secret =>
    if id.toString ∈ s.usedIds then none
    else some (runInsertExecuteStatement cfg request s session statement id secret)
  | .awaitOperationCompletion operationId secret task, .run =>
    (receivedOutcome s.tasks task).map (runAwaitOperationCompletion request s operationId secret)
  | .removeUnreturnedOperation id errorMessage, .run =>
    some (s.eraseOperation id, .reply (.response (writeGetColumnsError request.seqid errorMessage)))
  | .withOperation method handle, .run => some (runWithOperation cfg F request s method handle)
  | .touchSession sessionId reply, .run =>
    some (s.modifySession sessionId fun session => { session with lastAccess := s.clock }, .reply reply)
  | .removeOperation handle, .run => some (runRemoveOperation cfg request s handle)
  | .cancelOperation handle, .run => some (runCancelOperation cfg request s handle)
  | .readHistory queryId, .run => some (runReadHistory cfg request s queryId)
  | _, _ => none

end Sections

/-! ## Tasks -/

/-- Time passes, and tasks make progress. -/
inductive ServiceEnv where
  | tick (elapsed : Duration)
  /-- The task of a statement returns. -/
  | executed (task : TaskId) (completion : OperationCompletion)
  /-- The task of a metadata query has its completion, and takes the lock to store it. -/
  | computed (task : TaskId) (completion : OperationCompletion)
  | stored (task : TaskId)
  /-- An aborted task is dropped at one of its awaits. -/
  | cancelled (task : TaskId)
  | panicked (task : TaskId) (message : String)

namespace ServiceState

variable (s : ServiceState)

def setTask (task : TaskId) (f : Task → Task) : ServiceState :=
  { s with tasks := s.tasks.modify task f }

/-- The end of the task of a metadata query: it stores its completion whatever the state of the
operation, sends the outcome, and removes the operation when the receiver is gone. -/
def storeCompletion (task : TaskId) (t : Task) (completion : OperationCompletion) : ServiceState :=
  let id := t.kind.queryId
  let completed := (s.operations.lookup id).isSome
  let s := s.modifyOperation id fun op => { op with state := .fromCompletion s.clock completion }
  let s :=
    if completed && !t.receiverAlive then { s with operations := s.operations.erase id } else s
  (s.setTask task fun t =>
    { t with
      status := .finished (.ok completion)
      outcome := if t.receiverAlive then some (operationCompletionOutcome completion) else none }
    ).recordOperationGauges

def setTaskFinished (task : TaskId) (result : Except JoinError OperationCompletion) :
    ServiceState :=
  s.setTask task fun t => { t with status := .finished result }

end ServiceState

/-- What the environment does in a state; a `SET` statement has the empty result. -/
def serviceEnv (s : ServiceState) : ServiceEnv → Option ServiceState
  | .tick elapsed => (s.clock.checkedAdd elapsed).map fun clock => { s with clock }
  | .executed task completion =>
    match s.tasks[task]? with
    | some ⟨.executeStatement _ _ statement _ _, .running, _, _, _⟩ =>
      let completion :=
        if isNoopStatement statement then { completion with result := .ok .empty } else completion
      some (s.setTaskFinished task (.ok completion))
    | _ => none
  | .computed task completion =>
    match s.tasks[task]? with
    | some ⟨.getColumns .., .running, _, _, _⟩ =>
      some (s.setTask task fun t => { t with status := .storing completion })
    | _ => none
  | .stored task =>
    match s.tasks[task]? with
    | some ⟨kind, .storing completion, aborted, outcome, receiverAlive⟩ =>
      some (s.storeCompletion task ⟨kind, .storing completion, aborted, outcome, receiverAlive⟩
        completion)
    | _ => none
  | .cancelled task =>
    match s.tasks[task]? with
    | some t =>
      if t.aborted && !t.isFinished then some (s.setTaskFinished task (.error .cancelled)) else none
    | none => none
  | .panicked task message =>
    match s.tasks[task]? with
    | some ⟨_, .running, _, _, _⟩ => some (s.setTaskFinished task (.error (.panicked message)))
    | _ => none

/-! ## The machine -/

/-- A call: what it has still to do, and what it has returned. -/
structure RpcThread where
  request : RpcRequest
  sections : List Section
  reply : Option Reply

def RpcRequest.thread (request : RpcRequest) (rest : List Section) : Next → RpcThread
  | .sections sections => ⟨request, sections ++ rest, none⟩
  | .reply reply => ⟨request, [], some reply⟩

section Machine
variable (cfg : ServiceConfig) (F : Formatting)

/-- A dropped call loses its sections, and with them the receiver of its channel. -/
def dropSection (s : ServiceState) : Section → ServiceState
  | .awaitOperationCompletion _ _ task => s.setTask task fun t => { t with receiverAlive := false }
  | _ => s

def serviceProgram : Program ServiceState RpcThread RpcRequest RpcInput ServiceEnv where
  start _ request := some (request.thread [] request.start)
  exec s i k input :=
    match k.sections with
    | [] => none
    | sec :: rest => (runSection cfg F i k.request s sec input).map fun (s, next) =>
      (s, k.request.thread rest next)
  drop s k :=
    match k.request.call, k.sections with
    -- the cleanup task is never dropped
    | .cleanupExpired, _ | _, [] => none
    | _, sec :: _ => if sec.awaits then some (dropSection s sec, { k with sections := [] }) else none
  env := serviceEnv

/-- The interleavings of `serviceProgram` over a new service. -/
def serviceMachine (clock : Instant) :
    Machine (Conf ServiceState RpcThread) (Action RpcRequest RpcInput ServiceEnv) :=
  (serviceProgram cfg F).machine (ServiceState.new clock)

end Machine
end HarborSql
