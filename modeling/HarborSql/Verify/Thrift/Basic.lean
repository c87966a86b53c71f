import HarborSql.Thrift.Service

/-! What one section of a call can do, and what it leaves of the maps. -/

namespace HarborSql

/-! ## The fields that an update changes -/

namespace ServiceState

variable (s : ServiceState)

@[simp] theorem recordSessionGauge_sessions : s.recordSessionGauge.sessions = s.sessions := rfl
@[simp] theorem recordSessionGauge_operations :
    s.recordSessionGauge.operations = s.operations := rfl
@[simp] theorem recordSessionGauge_tasks : s.recordSessionGauge.tasks = s.tasks := rfl
@[simp] theorem recordSessionGauge_clock : s.recordSessionGauge.clock = s.clock := rfl
@[simp] theorem recordSessionGauge_usedIds : s.recordSessionGauge.usedIds = s.usedIds := rfl
@[simp] theorem recordSessionGauge_issued : s.recordSessionGauge.issued = s.issued := rfl
@[simp] theorem recordSessionGauge_removedBy : s.recordSessionGauge.removedBy = s.removedBy := rfl

@[simp] theorem recordOperationGauges_sessions : s.recordOperationGauges.sessions = s.sessions := rfl
@[simp] theorem recordOperationGauges_operations :
    s.recordOperationGauges.operations = s.operations := rfl
@[simp] theorem recordOperationGauges_tasks : s.recordOperationGauges.tasks = s.tasks := rfl
@[simp] theorem recordOperationGauges_clock : s.recordOperationGauges.clock = s.clock := rfl
@[simp] theorem recordOperationGauges_usedIds : s.recordOperationGauges.usedIds = s.usedIds := rfl
@[simp] theorem recordOperationGauges_issued : s.recordOperationGauges.issued = s.issued := rfl
@[simp] theorem recordOperationGauges_removedBy :
    s.recordOperationGauges.removedBy = s.removedBy := rfl

theorem lookup_eraseOperation {id id' : String} {op : OperationState} :
    (s.eraseOperation id').operations.lookup id = some op ↔
      id ≠ id' ∧ s.operations.lookup id = some op := by
  rw [eraseOperation]
  split
  case h_1 => exact HashMap.lookup_erase_eq_some
  case h_2 h =>
    refine ⟨fun hop => ⟨fun heq => ?_, hop⟩, And.right⟩
    rw [heq, h] at hop
    cases hop

theorem lookup_retainOperations {id : String} {op : OperationState} {keep : OperationState → Bool} :
    (s.retainOperations keep).operations.lookup id = some op ↔
      s.operations.lookup id = some op ∧ keep op :=
  HashMap.lookup_retain_eq_some

theorem mem_expiredSessions {cfg : ServiceConfig} {now : Instant} {id : String} :
    id ∈ s.expiredSessions cfg now ↔
      ∃ session, s.sessions.lookup id = some session ∧
        session.isExpired now cfg.idleSessionTimeout := by
  simp only [expiredSessions, List.mem_map, List.mem_filter, Sigma.exists, exists_and_right]
  constructor
  · rintro ⟨_, ⟨session, hmem, hexp⟩, rfl⟩
    exact ⟨session, HashMap.mem_entries.mp hmem, hexp⟩
  · rintro ⟨session, hmem, hexp⟩
    exact ⟨id, ⟨session, HashMap.mem_entries.mpr hmem, hexp⟩, rfl⟩

variable {s}

@[simp] theorem eraseOperation_sessions {id : String} :
    (s.eraseOperation id).sessions = s.sessions := by
  rw [eraseOperation]; split <;> rfl

@[simp] theorem eraseOperation_usedIds {id : String} :
    (s.eraseOperation id).usedIds = s.usedIds := by
  rw [eraseOperation]; split <;> rfl

@[simp] theorem eraseOperation_issued {id : String} :
    (s.eraseOperation id).issued = s.issued := by
  rw [eraseOperation]; split <;> rfl

@[simp] theorem eraseOperation_removedBy {id : String} :
    (s.eraseOperation id).removedBy = s.removedBy := by
  rw [eraseOperation]; split <;> rfl

@[simp] theorem eraseOperation_clock {id : String} :
    (s.eraseOperation id).clock = s.clock := by
  rw [eraseOperation]; split <;> rfl

end ServiceState

/-! ## One section -/

section Sections
variable {cfg : ServiceConfig} {F : Formatting} {i : ThreadId} {request : RpcRequest}
variable {s s' : ServiceState} {sec : Section} {input : RpcInput} {next : Next}

/-- The state of an operation after its finished task was taken. -/
def OperationState.taken (op : OperationState) (started : Instant) : OperationState :=
  { op with state := .refreshing started }

/-- The operation that a call inserts. -/
def newOperation (cfg : ServiceConfig) (request : RpcRequest) (s : ServiceState)
    (session : SessionState) (started : Instant) (secret : Uuid) : OperationState where
  secret := secret.bytes
  sessionId := session.id
  tokenFingerprint := cfg.tokenFingerprint request.bearerToken
  state := .running started s.tasks.length

/-- The session that a call opens. -/
def newSession (cfg : ServiceConfig) (request : RpcRequest) (s : ServiceState)
    (catalog schema : Option String) (id secret : Uuid) : SessionState where
  id := id.toString
  secret := secret.bytes
  tokenFingerprint := cfg.tokenFingerprint request.bearerToken
  catalog := catalog.getD cfg.defaultCatalog
  schema := schema.getD cfg.defaultSchema
  lastAccess := s.clock

/-- Everything a section of call `i` can do, with the guards it was admitted by. -/
inductive SectionRun (cfg : ServiceConfig) (F : Formatting) (i : ThreadId) (request : RpcRequest)
    (s : ServiceState) : Section → ServiceState → Next → Prop
  | listFinished {ids : List String} : listsFinished s ids →
    SectionRun cfg F i request s .listFinished s (.sections (ids.map .takeFinishedTask))
  | taken {id : String} {op : OperationState} {started : Instant} {task : TaskId} :
    s.operations.lookup id = some op → op.state = .running started task →
    isFinishedTask s.tasks task →
    SectionRun cfg F i request s (.takeFinishedTask id)
      (s.modifyOperation id fun _ => op.taken started) (.sections [.awaitTask id started task])
  | notTaken {id : String} :
    (∀ op, s.operations.lookup id = some op → op.hasFinishedTask s.tasks = false) →
    SectionRun cfg F i request s (.takeFinishedTask id) s (.sections [])
  | awaited {id : String} {started : Instant} {task : TaskId}
      {result : Except JoinError OperationCompletion} :
    joinResult s.tasks task = some result →
    SectionRun cfg F i request s (.awaitTask id started task) s
      (.sections [.finishRefresh id started result])
  | refreshed {id : String} {started : Instant}
      {result : Except JoinError OperationCompletion} :
    SectionRun cfg F i request s (.finishRefresh id started result)
      (s.modifyOperation id fun op => op.finishRefresh s.clock started result).recordOperationGauges
      (.sections [])
  | cleanupClock :
    SectionRun cfg F i request s .cleanupClock s (.sections [.cleanupSessions s.clock])
  | cleanupSessions {now : Instant} :
    SectionRun cfg F i request s (.cleanupSessions now)
      (s.eraseSessions (s.expiredSessions cfg now) i)
      (.sections [.cleanupOperations now (s.expiredSessions cfg now)])
  | cleanupOperations {now : Instant} {expired : List String} :
    SectionRun cfg F i request s (.cleanupOperations now expired)
      (s.retainOperations fun op =>
        !(expired.contains op.sessionId || op.isExpired now cfg.completedOperationTtl))
      (.sections [])
  | sessionsFull {catalog schema : Option String} {types : List Int32} :
    cfg.maxSessions ≤ s.sessions.len →
    SectionRun cfg F i request s (.openSession catalog schema types) s
      (.reply (.response
        (writeOpenSessionError request.seqid "maximum session count exceeded")))
  | opened {catalog schema : Option String} {types : List Int32} {id secret : Uuid} :
    id.toString ∉ s.usedIds → s.sessions.len < cfg.maxSessions →
    SectionRun cfg F i request s (.openSession catalog schema types)
      (s.insertSession (newSession cfg request s catalog schema id secret))
      (.reply (.response (writeOpenSessionResponse request.seqid id.bytes secret.bytes
        (catalog.getD cfg.defaultCatalog) (schema.getD cfg.defaultSchema) types)))
  | removedSession {handle : Handle} {session : SessionState} :
    s.sessions.lookup handle.id = some session →
    session.admits handle (cfg.tokenFingerprint request.bearerToken) →
    SectionRun cfg F i request s (.removeSession handle)
      (s.eraseSessions [handle.id] i).recordSessionGauge
      (.sections [.removeOperationsForSession handle.id
        (.response (writeCloseSessionResponse request.seqid true))])
  | notRemovedSession {handle : Handle} :
    (∀ session, s.sessions.lookup handle.id = some session →
      session.admits handle (cfg.tokenFingerprint request.bearerToken) = false) →
    SectionRun cfg F i request s (.removeSession handle) s
      (.reply (.response (writeCloseSessionResponse request.seqid false)))
  | removedOperations {sessionId : String} {reply : Reply} :
    SectionRun cfg F i request s (.removeOperationsForSession sessionId reply)
      (s.retainOperations fun op => op.sessionId ≠ sessionId) (.reply reply)
  | noSessionHandle {method : SessionMethod} :
    SectionRun cfg F i request s (.sessionClock method none) s
      (.reply (.response (method.invalid request.seqid)))
  | sessionClock {method : SessionMethod} {handle : Handle} :
    SectionRun cfg F i request s (.sessionClock method (some handle)) s
      (.sections [.sessionFor method handle s.clock])
  | sessionExpired {method : SessionMethod} {handle : Handle} {now : Instant}
      {session : SessionState} :
    s.sessions.lookup handle.id = some session → session.isExpired now cfg.idleSessionTimeout →
    SectionRun cfg F i request s (.sessionFor method handle now)
      (s.eraseSessions [handle.id] i)
      (.sections [.removeOperationsForSession handle.id
        (.response (method.invalid request.seqid))])
  | sessionAdmitted {method : SessionMethod} {handle : Handle} {now : Instant}
      {session : SessionState} :
    s.sessions.lookup handle.id = some session →
    session.isExpired now cfg.idleSessionTimeout = false →
    session.admits handle (cfg.tokenFingerprint request.bearerToken) →
    SectionRun cfg F i request s (.sessionFor method handle now)
      (s.modifySession handle.id fun session => { session with lastAccess := now })
      (afterSession request { session with lastAccess := now } method)
  | sessionRefused {method : SessionMethod} {handle : Handle} {now : Instant} :
    (∀ session, s.sessions.lookup handle.id = some session →
      session.isExpired now cfg.idleSessionTimeout = false ∧
        session.admits handle (cfg.tokenFingerprint request.bearerToken) = false) →
    SectionRun cfg F i request s (.sessionFor method handle now) s
      (.reply (.response (method.invalid request.seqid)))
  | getColumnsClock {session : SessionState} {filters : GetColumnsMetadataRequest} :
    SectionRun cfg F i request s (.getColumnsClock session filters) s
      (.sections [.insertGetColumns session filters s.clock])
  | getColumnsFull {session : SessionState} {filters : GetColumnsMetadataRequest}
      {started : Instant} :
    cfg.maxOperations ≤ s.operations.len →
    SectionRun cfg F i request s (.insertGetColumns session filters started) s
      (.reply (.response
        (writeGetColumnsError request.seqid "maximum operation count exceeded")))
  | insertedGetColumns {session : SessionState} {filters : GetColumnsMetadataRequest}
      {started : Instant} {id secret : Uuid} :
    id.toString ∉ s.usedIds → s.operations.len < cfg.maxOperations →
    SectionRun cfg F i request s (.insertGetColumns session filters started)
      (s.insertOperation id.toString (newOperation cfg request s session started secret)
        (.getColumns id.toString request.bearerToken filters session.catalog session.schema))
      (.sections [.awaitOperationCompletion id secret s.tasks.length])
  | executeStatementFull {session : SessionState} {statement : String} :
    cfg.maxOperations ≤ s.operations.len →
    SectionRun cfg F i request s (.insertExecuteStatement session statement) s
      (.reply (.response
        (writeExecuteStatementError request.seqid "maximum operation count exceeded")))
  | insertedExecuteStatement {session : SessionState} {statement : String} {id secret : Uuid} :
    id.toString ∉ s.usedIds → s.operations.len < cfg.maxOperations →
    SectionRun cfg F i request s (.insertExecuteStatement session statement)
      ((s.insertOperation id.toString (newOperation cfg request s session s.clock secret)
        (.executeStatement id.toString request.bearerToken
          (String.ofList (trim statement.toList)) session.catalog session.schema)).issue
        ⟨id.toString, secret.bytes⟩)
      (.reply (.response (writeExecuteStatementResponse request.seqid id.bytes secret.bytes)))
  | completionSucceeded {operationId secret : Uuid} {task : TaskId} :
    receivedOutcome s.tasks task = some .succeeded →
    SectionRun cfg F i request s (.awaitOperationCompletion operationId secret task)
      (s.issue ⟨operationId.toString, secret.bytes⟩)
      (.reply (.response
        (writeGetColumnsResponse request.seqid operationId.bytes secret.bytes)))
  | completionFailed {operationId secret : Uuid} {task : TaskId} {message : String} :
    receivedOutcome s.tasks task = some (.failed message) →
    SectionRun cfg F i request s (.awaitOperationCompletion operationId secret task) s
      (.sections [.removeUnreturnedOperation operationId.toString message])
  | removedUnreturned {id message : String} :
    SectionRun cfg F i request s (.removeUnreturnedOperation id message) (s.eraseOperation id)
      (.reply (.response (writeGetColumnsError request.seqid message)))
  | operationFound {method : OperationMethod} {handle : Handle} {op : OperationState} :
    s.operations.lookup handle.id = some op →
    op.admits handle (cfg.tokenFingerprint request.bearerToken) →
    SectionRun cfg F i request s (.withOperation method handle) s
      (.sections [.touchSession op.sessionId
        (.response (method.write F request.seqid handle.id op))])
  | operationRefused {method : OperationMethod} {handle : Handle} :
    (∀ op, s.operations.lookup handle.id = some op →
      op.admits handle (cfg.tokenFingerprint request.bearerToken) = false) →
    SectionRun cfg F i request s (.withOperation method handle) s
      (.reply (.response (method.invalid request.seqid)))
  | touched {sessionId : String} {reply : Reply} :
    SectionRun cfg F i request s (.touchSession sessionId reply)
      (s.modifySession sessionId fun session => { session with lastAccess := s.clock })
      (.reply reply)
  | removedOperation {handle : Handle} {op : OperationState} :
    s.operations.lookup handle.id = some op →
    op.admits handle (cfg.tokenFingerprint request.bearerToken) →
    SectionRun cfg F i request s (.removeOperation handle) (s.eraseOperation handle.id)
      (.reply (.response (writeCloseOperationResponse request.seqid true)))
  | notRemovedOperation {handle : Handle} :
    (∀ op, s.operations.lookup handle.id = some op →
      op.admits handle (cfg.tokenFingerprint request.bearerToken) = false) →
    SectionRun cfg F i request s (.removeOperation handle) s
      (.reply (.response (writeCloseOperationResponse request.seqid false)))
  | canceled {handle : Handle} {op : OperationState} :
    s.operations.lookup handle.id = some op →
    op.admits handle (cfg.tokenFingerprint request.bearerToken) →
    SectionRun cfg F i request s (.cancelOperation handle)
      { s.modifyOperation handle.id (·.cancel s.clock) with
        tasks := op.abort s.tasks }.recordOperationGauges
      (.reply (.response (writeCancelOperationResponse request.seqid true)))
  | notCanceled {handle : Handle} :
    (∀ op, s.operations.lookup handle.id = some op →
      op.admits handle (cfg.tokenFingerprint request.bearerToken) = false) →
    SectionRun cfg F i request s (.cancelOperation handle) s
      (.reply (.response (writeCancelOperationResponse request.seqid false)))
  | historyFound {queryId : String} {op : OperationState} :
    s.operations.lookup queryId = some op →
    op.tokenFingerprint = cfg.tokenFingerprint request.bearerToken →
    SectionRun cfg F i request s (.readHistory queryId) s
      (.sections [.touchSession op.sessionId (.history (some
        ⟨queryId, op.state.historyStatus, op.state.durationMs s.clock⟩))])
  | historyRefused {queryId : String} :
    (∀ op, s.operations.lookup queryId = some op →
      op.tokenFingerprint ≠ cfg.tokenFingerprint request.bearerToken) →
    SectionRun cfg F i request s (.readHistory queryId) s (.reply (.history none))

theorem OperationState.takeFinishedTask_eq_some {op op' : OperationState} {tasks : List Task}
    {started : Instant} {task : TaskId} (h : op.takeFinishedTask tasks = some (op', started, task)) :
    op.state = .running started task ∧ isFinishedTask tasks task ∧ op' = op.taken started := by
  unfold takeFinishedTask at h
  split at h
  case h_1 hst =>
    split at h
    · cases h; exact ⟨hst, ‹_›, rfl⟩
    · cases h
  case h_2 => cases h

theorem OperationState.takeFinishedTask_eq_none {op : OperationState} {tasks : List Task}
    (h : op.takeFinishedTask tasks = none) : op.hasFinishedTask tasks = false := by
  unfold takeFinishedTask at h
  unfold hasFinishedTask
  split at h
  case h_1 => split at h <;> simp_all
  case h_2 => rfl

theorem SectionRun.of_takeFinishedTask {id : String} (h : runTakeFinishedTask s id = (s', next)) :
    SectionRun cfg F i request s (.takeFinishedTask id) s' next := by
  unfold runTakeFinishedTask at h
  split at h
  case h_1 htake =>
    obtain ⟨op, hop, htake⟩ := Option.bind_eq_some_iff.mp htake
    obtain ⟨hst, hfin, rfl⟩ := op.takeFinishedTask_eq_some htake
    cases h
    exact .taken hop hst hfin
  case h_2 htake =>
    cases h
    refine .notTaken fun op hop => op.takeFinishedTask_eq_none ?_
    rwa [hop, Option.bind_some] at htake

theorem SectionRun.of_openSession {catalog schema : Option String} {types : List Int32}
    {id secret : Uuid} (hid : id.toString ∉ s.usedIds)
    (h : runOpenSession cfg request s catalog schema types id secret = (s', next)) :
    SectionRun cfg F i request s (.openSession catalog schema types) s' next := by
  unfold runOpenSession at h
  dsimp only at h
  split at h
  · cases h; exact .sessionsFull ‹_›
  · cases h; exact .opened hid (Nat.not_le.mp ‹_›)

theorem SectionRun.of_removeSession {handle : Handle}
    (h : runRemoveSession cfg i request s handle = (s', next)) :
    SectionRun cfg F i request s (.removeSession handle) s' next := by
  unfold runRemoveSession at h
  dsimp only at h
  split at h
  case isTrue hany =>
    obtain ⟨session, hmem, hadm⟩ := (Option.any_eq_true _ _).mp hany
    cases h
    exact .removedSession hmem hadm
  case isFalse hany =>
    cases h
    exact .notRemovedSession ((Option.any_eq_false _ _).mp (Bool.not_eq_true _ ▸ hany))

theorem SectionRun.of_sessionFor {method : SessionMethod} {handle : Handle} {now : Instant}
    (h : runSessionFor cfg i request s method handle now = (s', next)) :
    SectionRun cfg F i request s (.sessionFor method handle now) s' next := by
  unfold runSessionFor at h
  dsimp only at h
  split at h
  case h_1 hnone =>
    cases h
    exact .sessionRefused fun session hmem => by rw [hnone] at hmem; cases hmem
  case h_2 session hmem =>
    split at h
    · cases h; exact .sessionExpired hmem ‹_›
    split at h
    · cases h; exact .sessionAdmitted hmem (Bool.not_eq_true _ ▸ ‹_›) ‹_›
    · cases h
      refine .sessionRefused fun session' hmem' => ?_
      obtain rfl : session = session' := Option.some.inj (hmem.symm.trans hmem')
      exact ⟨Bool.not_eq_true _ ▸ ‹_›, Bool.not_eq_true _ ▸ ‹_›⟩

theorem SectionRun.of_insertGetColumns {session : SessionState}
    {filters : GetColumnsMetadataRequest} {started : Instant} {id secret : Uuid}
    (hid : id.toString ∉ s.usedIds)
    (h : runInsertGetColumns cfg request s session filters started id secret = (s', next)) :
    SectionRun cfg F i request s (.insertGetColumns session filters started) s' next := by
  unfold runInsertGetColumns at h
  split at h
  · cases h; exact .getColumnsFull ‹_›
  · cases h; exact .insertedGetColumns hid (Nat.not_le.mp ‹_›)

theorem SectionRun.of_insertExecuteStatement {session : SessionState} {statement : String}
    {id secret : Uuid} (hid : id.toString ∉ s.usedIds)
    (h : runInsertExecuteStatement cfg request s session statement id secret = (s', next)) :
    SectionRun cfg F i request s (.insertExecuteStatement session statement) s' next := by
  unfold runInsertExecuteStatement at h
  split at h
  · cases h; exact .executeStatementFull ‹_›
  · cases h; exact .insertedExecuteStatement hid (Nat.not_le.mp ‹_›)

theorem SectionRun.of_awaitOperationCompletion {id secret : Uuid} {task : TaskId}
    {outcome : OperationFinishOutcome} (hout : receivedOutcome s.tasks task = some outcome)
    (h : runAwaitOperationCompletion request s id secret outcome = (s', next)) :
    SectionRun cfg F i request s (.awaitOperationCompletion id secret task) s' next := by
  unfold runAwaitOperationCompletion at h
  split at h
  · cases h; exact .completionSucceeded hout
  · cases h; exact .completionFailed hout

theorem SectionRun.of_withOperation {method : OperationMethod} {handle : Handle}
    (h : runWithOperation cfg F request s method handle = (s', next)) :
    SectionRun cfg F i request s (.withOperation method handle) s' next := by
  unfold runWithOperation at h
  dsimp only at h
  split at h
  case h_1 op hop =>
    split at h
    · cases h; exact .operationFound hop ‹_›
    · cases h
      refine .operationRefused fun op' hop' => ?_
      obtain rfl : op = op' := Option.some.inj (hop.symm.trans hop')
      exact Bool.not_eq_true _ ▸ ‹_›
  case h_2 hnone =>
    cases h
    exact .operationRefused fun op hop => by rw [hnone] at hop; cases hop

theorem SectionRun.of_removeOperation {handle : Handle}
    (h : runRemoveOperation cfg request s handle = (s', next)) :
    SectionRun cfg F i request s (.removeOperation handle) s' next := by
  unfold runRemoveOperation at h
  dsimp only at h
  split at h
  case isTrue hany =>
    obtain ⟨op, hop, hadm⟩ := (Option.any_eq_true _ _).mp hany
    cases h
    exact .removedOperation hop hadm
  case isFalse hany =>
    cases h
    exact .notRemovedOperation ((Option.any_eq_false _ _).mp (Bool.not_eq_true _ ▸ hany))

theorem SectionRun.of_cancelOperation {handle : Handle}
    (h : runCancelOperation cfg request s handle = (s', next)) :
    SectionRun cfg F i request s (.cancelOperation handle) s' next := by
  unfold runCancelOperation at h
  dsimp only at h
  split at h
  case h_1 op hop =>
    split at h
    · cases h; exact .canceled hop ‹_›
    · cases h
      refine .notCanceled fun op' hop' => ?_
      obtain rfl : op = op' := Option.some.inj (hop.symm.trans hop')
      exact Bool.not_eq_true _ ▸ ‹_›
  case h_2 hnone =>
    cases h
    exact .notCanceled fun op hop => by rw [hnone] at hop; cases hop

theorem SectionRun.of_readHistory {queryId : String}
    (h : runReadHistory cfg request s queryId = (s', next)) :
    SectionRun cfg F i request s (.readHistory queryId) s' next := by
  unfold runReadHistory at h
  split at h
  case h_1 op hfilter =>
    obtain ⟨hop, hfp⟩ := Option.filter_eq_some_iff.mp hfilter
    cases h
    exact .historyFound hop (of_decide_eq_true hfp)
  case h_2 hfilter =>
    cases h
    refine .historyRefused fun op hop hfp => ?_
    exact of_decide_eq_false (Bool.not_eq_true _ ▸ Option.filter_eq_none_iff.mp hfilter op hop) hfp

theorem runSection_cases (h : runSection cfg F i request s sec input = some (s', next)) :
    SectionRun cfg F i request s sec s' next := by
  unfold runSection at h
  split at h
  case h_1 =>
    split at h
    · cases h; exact .listFinished ‹_›
    · cases h
  case h_2 => exact .of_takeFinishedTask (Option.some.inj h)
  case h_3 =>
    obtain ⟨result, hres, h⟩ := Option.map_eq_some_iff.mp h
    cases h
    exact .awaited hres
  case h_4 => cases h; exact .refreshed
  case h_5 => cases h; exact .cleanupClock
  case h_6 => cases h; exact .cleanupSessions
  case h_7 => cases h; exact .cleanupOperations
  case h_8 =>
    split at h
    · cases h
    · exact .of_openSession ‹_› (Option.some.inj h)
  case h_9 => exact .of_removeSession (Option.some.inj h)
  case h_10 => cases h; exact .removedOperations
  case h_11 => cases h; exact .noSessionHandle
  case h_12 => cases h; exact .sessionClock
  case h_13 => exact .of_sessionFor (Option.some.inj h)
  case h_14 => cases h; exact .getColumnsClock
  case h_15 =>
    split at h
    · cases h
    · exact .of_insertGetColumns ‹_› (Option.some.inj h)
  case h_16 =>
    split at h
    · cases h
    · exact .of_insertExecuteStatement ‹_› (Option.some.inj h)
  case h_17 =>
    obtain ⟨outcome, hout, h⟩ := Option.map_eq_some_iff.mp h
    exact .of_awaitOperationCompletion hout h
  case h_18 => cases h; exact .removedUnreturned
  case h_19 => exact .of_withOperation (Option.some.inj h)
  case h_20 => cases h; exact .touched
  case h_21 => exact .of_removeOperation (Option.some.inj h)
  case h_22 => exact .of_cancelOperation (Option.some.inj h)
  case h_23 => exact .of_readHistory (Option.some.inj h)
  case h_24 => cases h

end Sections
/-! ## A service -/

/-- A service for one operation, and the fingerprints of two tokens. -/
def testService : ServiceConfig where
  defaultCatalog := "workspace"
  defaultSchema := "default"
  maxSessions := 2
  maxOperations := 1
  idleSessionTimeout := .fromMillis 60000
  completedOperationTtl := .fromMillis 60000
  tokenFingerprint token :=
    if token = "token-a" then
      [167, 11, 245, 14, 83, 28, 225, 168, 23, 86, 31, 47, 93, 91, 102, 69, 212, 232, 6, 190, 207,
        88, 204, 197, 232, 207, 107, 128, 69, 160, 144, 168]
    else if token = "token-b" then
      [73, 226, 187, 126, 171, 84, 207, 9, 180, 9, 255, 175, 211, 250, 138, 138, 149, 90, 96, 235,
        151, 47, 170, 202, 239, 190, 211, 219, 211, 32, 113, 50]
    else []

def testFormatting : Formatting where
  dataTypeToString _ := "Utf8"
  arrayValueToString _ _ := .error "no values"
  parsesTimezone _ := false
  f64ToString _ := ""
  dateToString _ := ""
  dateTimeToString _ := ""

def testUuid (n : UInt8) : Uuid := ⟨List.replicate 16 n, List.length_replicate⟩

/-- The handle of the entry whose id and secret were drawn as `testUuid id` and `testUuid secret`. -/
def testHandle (id secret : UInt8) : Handle := ⟨(testUuid id).toString, (testUuid secret).bytes⟩

abbrev testMachine := serviceMachine testService testFormatting 0

/-- `OpenSession`, with no operation to refresh. -/
def openSessionRun (i : ThreadId) (id secret : UInt8) :
    List (Action RpcRequest RpcInput ServiceEnv) :=
  [.start i ⟨"token-a", 1, .openSession none none []⟩, .exec i (.order []), .exec i .run,
    .exec i .run, .exec i .run, .exec i (.uuids (testUuid id) (testUuid secret))]

/-- `ExecuteStatement` up to its insertion, with no operation to refresh. -/
def executeStatementRun (i : ThreadId) (session : Handle) :
    List (Action RpcRequest RpcInput ServiceEnv) :=
  [.start i ⟨"token-a", 2, .session (.executeStatement "SELECT 1") (some session)⟩,
    .exec i (.order []), .exec i .run, .exec i .run, .exec i .run, .exec i .run, .exec i .run]

end HarborSql
