import HarborSql.Engine.Results
import HarborSql.Text
import HarborSql.Time

/-! The sessions and operations of the Thrift service (`thrift/state.rs`), and the tasks that run
its operations. A task is known by its place among the tasks spawned so far, which is what its
`JoinHandle` holds. -/

namespace HarborSql

/-- The address of a spawned task. -/
abbrev TaskId := Nat

/-- `Uuid`. -/
structure Uuid where
  bytes : Bytes
  length_eq : bytes.length = 16
  deriving DecidableEq

/-- The hyphenated form of a `Uuid`, in lower case. -/
def Uuid.toString (u : Uuid) : String :=
  let hex (bytes : Bytes) : List Char :=
    bytes.flatMap fun b => [hexDigit (b.toNat / 16), hexDigit (b.toNat % 16)]
  let part (i n : Nat) : List Char := hex ((u.bytes.drop i).take n)
  .ofList (part 0 4 ++ '-' :: part 4 2 ++ '-' :: part 6 2 ++ '-' :: part 8 2 ++ '-' :: part 10 6)

structure Handle where
  id : String
  secret : Bytes
  deriving DecidableEq, Repr

structure QueryHistory where
  queryId : String
  status : String
  duration : Nat
  deriving DecidableEq, Repr

structure SessionState where
  id : String
  secret : Bytes
  tokenFingerprint : Bytes
  catalog : String
  schema : String
  lastAccess : Instant

def SessionState.isExpired (session : SessionState) (now : Instant) (idleTimeout : Duration) :
    Bool :=
  idleTimeout ≤ now.saturatingDurationSince session.lastAccess

/-! ## Tasks -/

structure OperationCompletion where
  durationMs : Nat
  result : Except ClientError QueryResult

/-- `JoinError`. -/
inductive JoinError where
  | cancelled
  | panicked (message : String)

inductive OperationFinishOutcome where
  | succeeded
  | failed (message : String)

def operationCompletionOutcome (completion : OperationCompletion) : OperationFinishOutcome :=
  match completion.result with
  | .ok _ => .succeeded
  | .error error => .failed error.statusMessage

/-- The filters of a `GetColumns` request. -/
structure GetColumnsMetadataRequest where
  catalog : Option String
  schema : Option String
  table : Option String
  column : Option String
  deriving DecidableEq

/-- What a task runs, with the values its closure holds. -/
inductive TaskKind where
  | executeStatement (queryId bearerToken statement catalog schema : String)
  | getColumns (queryId bearerToken : String) (request : GetColumnsMetadataRequest)
    (defaultCatalog defaultSchema : String)
  deriving DecidableEq

def TaskKind.queryId : TaskKind → String
  | executeStatement queryId .. | getColumns queryId .. => queryId

/-- A statement that is answered without running it. -/
def isNoopStatement (statement : String) : Bool :=
  let normalized := trim (trimEndMatches (· = ';') (trim statement.toList))
  let upper := normalized.map Char.toUpper
  upper = "SET".toList || "SET ".toList.isPrefixOf upper

/-- Where a task is. A metadata query that has its completion still has to store it. -/
inductive TaskStatus where
  | running
  | storing (completion : OperationCompletion)
  | finished (result : Except JoinError OperationCompletion)

/-- A spawned task. The channel is that of a metadata query: the outcome that was sent, and
whether the receiver is still there. -/
structure Task where
  kind : TaskKind
  status : TaskStatus
  aborted : Bool
  outcome : Option OperationFinishOutcome
  receiverAlive : Bool

namespace Task

def spawn (kind : TaskKind) : Task := ⟨kind, .running, false, none, true⟩

def isFinished (task : Task) : Bool :=
  match task.status with
  | .finished _ => true
  | _ => false

def abort (task : Task) : Task := { task with aborted := true }

end Task

def isFinishedTask (tasks : List Task) (task : TaskId) : Bool :=
  match tasks[task]? with
  | some t => t.isFinished
  | none => false

/-- What `task.await` gives, once the task is finished. -/
def joinResult (tasks : List Task) (task : TaskId) :
    Option (Except JoinError OperationCompletion) :=
  match tasks[task]? with
  | some ⟨_, .finished result, _, _, _⟩ => some result
  | _ => none

/-! ## Operations -/

inductive OperationExecution where
  | running (started : Instant) (task : TaskId)
  | refreshing (started : Instant)
  | finished (result : QueryResult) (durationMs : Nat) (completedAt : Instant)
  | failed (error : ClientError) (durationMs : Nat) (completedAt : Instant)
  | canceled (durationMs : Nat) (completedAt : Instant)

namespace OperationExecution

def isActive : OperationExecution → Bool
  | running .. | refreshing .. => true
  | _ => false

def fromCompletion (now : Instant) (completion : OperationCompletion) : OperationExecution :=
  match completion.result with
  | .ok result => finished result completion.durationMs now
  | .error error => failed error completion.durationMs now

/-- `started.elapsed().as_millis()`. -/
def elapsedMs (started now : Instant) : Nat := (now.saturatingDurationSince started).asMillis

def fromJoinResult (now started : Instant) (result : Except JoinError OperationCompletion) :
    OperationExecution :=
  match result with
  | .ok completion => fromCompletion now completion
  | .error .cancelled => canceled (elapsedMs started now) now
  | .error (.panicked _) => failed .internal (elapsedMs started now) now

def result : OperationExecution → Option QueryResult
  | finished result _ _ => some result
  | _ => none

def statusCode : OperationExecution → Int32
  | failed .. => errorStatus
  | _ => successStatus

def operationState : OperationExecution → Int32
  | running .. | refreshing _ => runningState
  | finished .. => finishedState
  | failed .. => errorState
  | canceled .. => canceledState

def durationMs (now : Instant) : OperationExecution → Nat
  | running started _ | refreshing started => elapsedMs started now
  | finished _ durationMs _ | failed _ durationMs _ | canceled durationMs _ => durationMs

def historyStatus : OperationExecution → String
  | running .. | refreshing _ => "RUNNING"
  | finished .. => "FINISHED"
  | failed .. => "FAILED"
  | canceled .. => "CANCELED"

def errorMessage : OperationExecution → Option String
  | running .. | refreshing _ => some "OPERATION_RUNNING: operation is still running"
  | failed error _ _ => some error.statusMessage
  | canceled .. => some "OPERATION_CANCELED: operation was canceled"
  | finished .. => none

def isExpired (now : Instant) (completedOperationTtl : Duration) : OperationExecution → Bool
  | finished _ _ completedAt | failed _ _ completedAt | canceled _ completedAt =>
    completedOperationTtl ≤ now.saturatingDurationSince completedAt
  | running .. | refreshing _ => false

end OperationExecution

structure OperationState where
  secret : Bytes
  sessionId : String
  tokenFingerprint : Bytes
  state : OperationExecution

namespace OperationState

def isActive (op : OperationState) : Bool := op.state.isActive

def hasFinishedTask (op : OperationState) (tasks : List Task) : Bool :=
  match op.state with
  | .running _ task => isFinishedTask tasks task
  | _ => false

/-- The operation without its finished task, and the task. -/
def takeFinishedTask (op : OperationState) (tasks : List Task) :
    Option (OperationState × Instant × TaskId) :=
  match op.state with
  | .running started task =>
    if isFinishedTask tasks task then
      some ({ op with state := .refreshing started }, started, task)
    else none
  | _ => none

def finishRefresh (op : OperationState) (now started : Instant)
    (result : Except JoinError OperationCompletion) : OperationState :=
  match op.state with
  | .refreshing _ => { op with state := .fromJoinResult now started result }
  | _ => op

/-- Abort the task of the operation, if it is running. -/
def abort (op : OperationState) (tasks : List Task) : List Task :=
  match op.state with
  | .running _ task => tasks.modify task Task.abort
  | _ => tasks

def cancel (op : OperationState) (now : Instant) : OperationState :=
  match op.state with
  | .running started _ =>
    { op with state := .canceled (OperationExecution.elapsedMs started now) now }
  | _ => op

def isExpired (op : OperationState) (now : Instant) (completedOperationTtl : Duration) : Bool :=
  op.state.isExpired now completedOperationTtl

end OperationState
end HarborSql
