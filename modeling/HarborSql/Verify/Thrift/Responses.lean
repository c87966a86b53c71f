import HarborSql.Thrift.Requests
import HarborSql.Verify.Thrift.Compatibility
import HarborSql.Verify.Thrift.Invariant
import HarborSql.Verify.Thrift.WellFormed

/-! Every response of the service is one message that carries the method and the sequence id of its
request, whatever the state of the service and however its calls and tasks interleave. -/

namespace HarborSql

/-! ## Methods -/

def SessionMethod.name : SessionMethod → String
  | getInfo _ => "GetInfo"
  | getColumns _ => "GetColumns"
  | executeStatement _ => "ExecuteStatement"

def OperationMethod.name : OperationMethod → String
  | getOperationStatus => "GetOperationStatus"
  | getQueryId => "GetQueryId"
  | getResultSetMetadata => "GetResultSetMetadata"
  | fetchResults .. => "FetchResults"

/-- The name in the message that a call came with. -/
def RpcCall.method : RpcCall → Option String
  | notACall name | unsupported name => some name
  | openSession .. => some "OpenSession"
  | closeSession _ => some "CloseSession"
  | session method _ => some method.name
  | operation method _ => some method.name
  | closeOperation _ => some "CloseOperation"
  | cancelOperation _ => some "CancelOperation"
  | queryHistory _ | cleanupExpired => none

/-! ## The requests that arrive -/

namespace Reader

/-- What `m` returns satisfies `P`. -/
def Returns {α : Type} (P : α → Prop) (m : ReaderM α) : Prop :=
  ∀ r x r', m.run r = (.ok x, r') → P x

section
variable {α β σ : Type} {P : α → Prop} {Q : β → Prop}

theorem returns_pure {x : α} (h : P x) : Returns P (pure x : ReaderM α) := by
  intro r y r' hrun
  cases hrun
  exact h

theorem returns_throw (fault : Fault) : Returns P (throw fault : ReaderM α) := by
  intro r y r' hrun
  cases hrun

theorem Returns.mono {P' : α → Prop} {m : ReaderM α} (h : Returns P m) (hP : ∀ x, P x → P' x) :
    Returns P' m := fun r x r' hrun => hP x (h r x r' hrun)

theorem Returns.bind_of {m : ReaderM β} {f : β → ReaderM α} (h : Returns Q m)
    (hf : ∀ x, Q x → Returns P (f x)) : Returns P (m >>= f) := by
  intro r y r'' hrun
  obtain ⟨x, r', hm, hrun⟩ := run_bind_eq_ok hrun
  exact hf x (h r x r' hm) r' y r'' hrun

theorem Returns.bind {m : ReaderM β} {f : β → ReaderM α} (hf : ∀ x, Returns P (f x)) :
    Returns P (m >>= f) :=
  Returns.bind_of (Q := fun _ => True) (fun _ _ _ _ => trivial) fun x _ => hf x

theorem Returns.ite {c : Prop} [Decidable c] {m m' : ReaderM α} (h : c → Returns P m)
    (h' : Returns P m') : Returns P (if c then m else m') := by
  by_cases hc : c
  · rw [if_pos hc]
    exact h hc
  · rwa [if_neg hc]

theorem returns_collect (item : ReaderM β) (n : Nat) :
    Returns (fun xs => xs.length = n) (collect item n) := by
  induction n with
  | zero => exact returns_pure rfl
  | succ n ih => exact .bind fun x => ih.bind_of fun xs hlen => returns_pure (congrArg (· + 1) hlen)

/-- A loop over fields keeps what each field keeps. -/
theorem Returns.readFields {field : UInt8 → Int16 → α → ReaderM α}
    (h : ∀ ty id s, P s → Returns P (field ty id s)) {s : α} (hs : P s) :
    Returns P (readFields field s) := by
  have hloop (fuel : Nat) : ∀ s, P s → Returns P (fieldLoop field fuel s) := by
    induction fuel with
    | zero => exact fun _ _ => returns_throw _
    | succ fuel ih =>
      intro s hs
      exact .bind fun begin => .ite (fun _ => returns_pure hs) ((h begin.1 begin.2 s hs).bind_of ih)
  exact .bind fun fuel => hloop fuel s hs

theorem Returns.readArgs {parseReq : ReaderM α} (h : Returns P parseReq) :
    Returns P (readArgs parseReq) := by
  have hloop (fuel : Nat) : Returns P (argsLoop parseReq fuel) := by
    induction fuel with
    | zero => exact returns_throw _
    | succ fuel ih =>
      exact .bind fun begin => .ite (fun _ => returns_throw _) <| .ite
        (fun _ => h.bind_of fun request hrequest => .bind fun _ => returns_pure hrequest)
        (.bind fun _ => ih)
  exact .bind hloop

end

theorem returns_readI32List : Returns (fun types => types.length < 2 ^ 31) readI32List := by
  refine .bind fun elementType => .bind fun len => .ite (fun _ => returns_throw _) <|
    .ite (fun _ => .bind fun _ => .bind fun _ => returns_pure (by simp)) <| .bind fun _ =>
      (returns_collect readI32 _).mono fun types hlen => ?_
  have hlt : len.toInt < 2 ^ 31 := len.toInt_lt
  omega

theorem returns_readOpenSessionReq :
    Returns (fun request => request.getInfoTypes.length < 2 ^ 31) readOpenSessionReq := by
  refine .readFields (fun ty id request hrequest => ?_) (by simp)
  exact .ite (fun _ => returns_readI32List.bind_of fun types htypes => returns_pure htypes) <|
    .ite (fun _ => .bind fun names => returns_pure hrequest) <| .bind fun _ => returns_pure hrequest

end Reader

/-- A call that a message of the name was decoded to. -/
structure RpcCall.Decoded (name : String) (call : RpcCall) : Prop where
  method : call.method = some name
  getInfoTypes : ∀ {catalog schema types}, call = .openSession catalog schema types →
    types.length < 2 ^ 31

open Reader in
theorem returns_readCall {name : String} {read : ReaderM RpcCall} (h : readCall name = some read) :
    Returns (RpcCall.Decoded name) read := by
  unfold readCall at h
  split at h
  case h_1 =>
    cases h
    exact returns_readOpenSessionReq.readArgs.bind_of fun request htypes =>
      returns_pure ⟨rfl, fun h => by cases h; exact htypes⟩
  case h_12 => cases h
  all_goals
    cases h
    exact .bind fun request => returns_pure ⟨rfl, fun h => by cases h⟩

open Reader in
/-- The call of a message is for its method. -/
theorem returns_decodeCall (message : Message) :
    Returns (RpcCall.Decoded message.name) (decodeCall message) := by
  refine .ite (fun _ => returns_pure ⟨rfl, fun h => by cases h⟩) ?_
  split
  · exact returns_pure ⟨rfl, fun h => by cases h⟩
  next read hread => exact .bind fun _ => returns_readCall hread

/-! ## What fits the sizes of Thrift -/

/-- A request that the service is sent, or one of its own. -/
def RpcRequest.Arrives (request : RpcRequest) : Prop :=
  request.call.method = none ∨
    ∃ r r', (decodeRequest request.bearerToken).run r = (.ok request, r')

theorem RpcRequest.Arrives.getInfoTypes {request : RpcRequest} (h : request.Arrives)
    {catalog schema : Option String} {types : List Int32}
    (hcall : request.call = .openSession catalog schema types) : types.length < 2 ^ 31 := by
  rcases h with h | ⟨r, r', hrun⟩
  · rw [hcall] at h
    cases h
  · obtain ⟨message, r₁, -, hrun⟩ := Reader.run_bind_eq_ok hrun
    obtain ⟨call, r₂, hdecode, hrun⟩ := Reader.run_bind_eq_ok hrun
    have hrequest : call = request.call :=
      congrArg RpcRequest.call (Except.ok.inj (congrArg Prod.fst hrun))
    exact (returns_decodeCall message _ _ _ hdecode).getInfoTypes (hrequest.trans hcall)

/-- The texts that the response to a request repeats. -/
def RpcRequest.texts (request : RpcRequest) : List String :=
  match request.call with
  | .notACall name => [name]
  | .unsupported name => [name, "unsupported Thrift method \x60" ++ name ++ "\x60"]
  | .openSession catalog schema _ => catalog.toList ++ schema.toList
  | _ => []

structure RpcRequest.InLimits (request : RpcRequest) : Prop where
  arrives : request.Arrives
  texts : ∀ text ∈ request.texts, ShortText text

/-- What the task of an operation returns. -/
def OperationCompletion.InLimits (F : Formatting) (completion : OperationCompletion) : Prop :=
  match completion.result with
  | .ok result => result.InLimits F
  | .error error => ShortText error.statusMessage

/-- The message that a request is answered with: a reply, or an application exception. -/
def RpcRequest.AnsweredBy (request : RpcRequest) (bytes : Bytes) : Prop :=
  ∃ method, request.call.method = some method ∧ (IsReply bytes method request.seqid ∨
    ∃ message, ReadsMessage bytes method tMessageException request.seqid
      [(1, .string (utf8 message)), (2, .i32 0)])

/-- What a call returns is an answer to its request. -/
def Reply.Answers (request : RpcRequest) : Reply → Prop
  | .response bytes => request.AnsweredBy bytes
  | .history _ => True

def OperationExecution.InLimits (F : Formatting) : OperationExecution → Prop
  | .finished result _ _ => result.InLimits F
  | .failed error _ _ => ShortText error.statusMessage
  | _ => True

/-- What a task has returned, and what it has sent. -/
structure Task.InLimits (F : Formatting) (t : Task) : Prop where
  storing : ∀ {completion}, t.status = .storing completion → completion.InLimits F
  finished : ∀ {completion}, t.status = .finished (.ok completion) → completion.InLimits F
  outcome : ∀ {message}, t.outcome = some (.failed message) → ShortText message

theorem Task.InLimits.spawn {F : Formatting} {kind : TaskKind} : (Task.spawn kind).InLimits F where
  storing h := by cases h
  finished h := by cases h
  outcome h := by cases h

/-- What the service may still write fits the sizes of Thrift. -/
structure ServiceState.InLimits (F : Formatting) (s : ServiceState) : Prop where
  usedIds : ∀ id ∈ s.usedIds, ShortText id
  sessions : ∀ {id session}, s.sessions.lookup id = some session → ShortText session.catalog
  operations : ∀ {id op}, s.operations.lookup id = some op → op.state.InLimits F
  tasks : ∀ {n : TaskId} {t : Task}, s.tasks[n]? = some t → t.InLimits F

/-- So does what a section has still to write. -/
def Section.InLimits (F : Formatting) (request : RpcRequest) : Section → Prop
  | .finishRefresh _ _ result => ∀ completion, result = .ok completion → completion.InLimits F
  | .removeOperationsForSession _ reply | .touchSession _ reply => reply.Answers request
  | .removeUnreturnedOperation _ message => ShortText message
  | _ => True

def Next.InLimits (F : Formatting) (request : RpcRequest) : Next → Prop
  | sections secs => ∀ sec ∈ secs, sec.InLimits F request
  | reply answer => answer.Answers request

/-! ## The responses of a call -/

section
variable {request : RpcRequest} {method text : String} {statusCode : Int32} {bytes : Bytes}

theorem IsReply.answers (h : IsReply bytes method request.seqid)
    (hmethod : request.call.method = some method) : (Reply.response bytes).Answers request :=
  ⟨method, hmethod, .inl h⟩

/-- A reply that is a status with a text. -/
theorem answers_status (hmethod : request.call.method = some method) (hfixed : method ∈ fixedTexts)
    (htext : ShortText text) : (Reply.response (writeSuccessResponse method request.seqid
      (writeStatusField statusCode (some text) ++ Writer.writeStop))).Answers request :=
  (isReply_status hfixed fun _ h => Option.some.inj h ▸ htext).answers hmethod

theorem SessionMethod.answers_invalid {m : SessionMethod} {handle : Option Handle}
    (hcall : request.call = .session m handle) :
    (Reply.response (m.invalid request.seqid)).Answers request := by
  have hmethod : request.call.method = some m.name := by rw [hcall]; rfl
  have htext : ShortText "invalid session handle" := shortText_fixed _ (by simp [fixedTexts])
  cases m with
  | getInfo => exact isReply_getInfoInvalid.answers hmethod
  | getColumns | executeStatement => exact answers_status hmethod (by simp [fixedTexts]) htext

theorem OperationMethod.answers_invalid {m : OperationMethod} {handle : Option Handle}
    (hcall : request.call = .operation m handle) :
    (Reply.response (m.invalid request.seqid)).Answers request := by
  have hmethod : request.call.method = some m.name := by rw [hcall]; rfl
  have htext : ShortText "unknown operation handle" := shortText_fixed _ (by simp [fixedTexts])
  refine IsReply.answers ?_ hmethod
  cases m with
  | getOperationStatus => exact isReply_operationStatus fun _ h => Option.some.inj h ▸ htext
  | getQueryId => exact isReply_getQueryId (shortText_fixed "" (by simp [fixedTexts]))
  | getResultSetMetadata => exact ⟨_, readsMessage_noMetadata invalidHandleStatus htext⟩
  | fetchResults => exact ⟨_, readsMessage_noRows invalidHandleStatus htext⟩

theorem OperationExecution.InLimits.errorMessage {F : Formatting} {state : OperationExecution}
    (h : state.InLimits F) (text : String) (htext : state.errorMessage = some text) :
    ShortText text := by
  cases state with
  | running | refreshing | canceled =>
    cases htext
    exact shortText_fixed _ (by simp [fixedTexts])
  | failed error =>
    cases htext
    exact h
  | finished => cases htext

theorem OperationMethod.answers_write {F : Formatting} {m : OperationMethod} {handle : Handle}
    {op : OperationState} (hcall : request.call = .operation m (some handle))
    (hop : op.state.InLimits F) (hid : ShortText handle.id) :
    (Reply.response (m.write F request.seqid handle.id op)).Answers request := by
  have hmethod : request.call.method = some m.name := by rw [hcall]; rfl
  have hresult {result : QueryResult} (h : op.state.result = some result) : result.InLimits F := by
    cases hstate : op.state <;> rw [hstate] at h hop <;> cases h
    exact hop
  have hnotReady : ShortText (op.state.errorMessage.getD "operation is not finished") := by
    cases htext : op.state.errorMessage with
    | none => exact shortText_fixed _ (by simp [fixedTexts])
    | some text => exact hop.errorMessage text htext
  refine IsReply.answers ?_ hmethod
  cases m with
  | getOperationStatus => exact isReply_operationStatus hop.errorMessage
  | getQueryId => exact isReply_getQueryId hid
  | getResultSetMetadata =>
    simp only [write]
    split
    next h => exact isReply_metadata (hresult h)
    · exact ⟨_, readsMessage_noMetadata errorStatus hnotReady⟩
  | fetchResults =>
    simp only [write]
    split
    next h => exact isReply_fetchResults (hresult h)
    · exact ⟨_, readsMessage_noRows errorStatus hnotReady⟩

end
/-! ## Sections -/

section
variable {cfg : ServiceConfig} {F : Formatting} {i : ThreadId} {request : RpcRequest}
variable {s s' : ServiceState} {sec : Section} {next : Next}

/-- The default names of a service, which it writes where a session names none. -/
structure ServiceConfig.InLimits (cfg : ServiceConfig) : Prop where
  catalog : ShortText cfg.defaultCatalog
  schema : ShortText cfg.defaultSchema

theorem RpcRequest.InLimits.start (h : request.InLimits) : request.start.InLimits F request := by
  obtain ⟨token, seqid, call⟩ := request
  cases call with
  | notACall name =>
    exact ⟨name, rfl, .inr ⟨_, readsMessage_exception (h.texts name (List.mem_singleton_self _))
      (shortText_fixed _ (by simp [fixedTexts]))⟩⟩
  | unsupported name =>
    exact ⟨name, rfl, .inr ⟨_, readsMessage_exception (h.texts name List.mem_cons_self)
      (h.texts _ (List.mem_cons_of_mem _ (List.mem_singleton_self _)))⟩⟩
  | openSession | queryHistory | cleanupExpired =>
    simp [RpcRequest.start, cleanupExpired, Next.InLimits, Section.InLimits]
  | session method handle =>
    cases method <;> simp [RpcRequest.start, cleanupExpired, Next.InLimits, Section.InLimits]
  | operation method handle =>
    cases handle with
    | none => exact OperationMethod.answers_invalid rfl
    | some handle => simp [RpcRequest.start, cleanupExpired, Next.InLimits, Section.InLimits]
  | closeSession handle | closeOperation handle | cancelOperation handle =>
    cases handle with
    | none => exact IsReply.answers (isReply_valid (by simp [fixedTexts]) (by simp [fixedTexts])) rfl
    | some handle => simp [RpcRequest.start, cleanupExpired, Next.InLimits, Section.InLimits]

theorem shortText_getD {name : Option String} {default : String} (hdefault : ShortText default)
    (h : ∀ text ∈ name.toList, ShortText text) : ShortText (name.getD default) := by
  cases name with
  | none => exact hdefault
  | some text => exact h text (List.mem_singleton_self _)

theorem OperationExecution.inLimits_fromCompletion {now : Instant}
    {completion : OperationCompletion} (h : completion.InLimits F) :
    (fromCompletion now completion).InLimits F := by
  unfold fromCompletion
  unfold OperationCompletion.InLimits at h
  split <;> simp_all [InLimits]

theorem OperationExecution.inLimits_fromJoinResult {now started : Instant}
    {result : Except JoinError OperationCompletion}
    (h : ∀ completion, result = .ok completion → completion.InLimits F) :
    (fromJoinResult now started result).InLimits F := by
  unfold fromJoinResult
  split
  · exact inLimits_fromCompletion (h _ rfl)
  · trivial
  · exact shortText_clientErrors _ (by simp [clientErrors])

theorem ServiceState.InLimits.received (h : s.InLimits F) {task : TaskId} {message : String}
    (hmessage : receivedOutcome s.tasks task = some (.failed message)) : ShortText message := by
  obtain ⟨t, ht, hmessage⟩ := Option.bind_eq_some_iff.mp hmessage
  split at hmessage
  next outcome houtcome =>
    cases hmessage
    exact (h.tasks ht).outcome houtcome
  · split at hmessage
    · cases hmessage
      exact shortText_clientErrors _ (by simp [clientErrors])
    · cases hmessage

theorem ServiceState.InLimits.section (h : s.InLimits F) (hcfg : cfg.InLimits)
    (hrequest : request.InLimits) (hwf : sec.WF s i request) (hsec : sec.InLimits F request)
    (hrun : SectionRun cfg F i request s sec s' next) : s'.InLimits F where
  usedIds := by
    rcases hrun.usedIds with hids | ⟨uuid, hids⟩
    · rw [hids]
      exact h.usedIds
    · rw [hids]
      exact List.forall_mem_cons.mpr ⟨shortText_uuid uuid, h.usedIds⟩
  sessions hsession := by
    cases hrun.session_origin hsession with
    | kept hkept => exact h.sessions hkept
    | touched hkept heq | admitted _ hkept _ _ heq =>
      have hcatalog := h.sessions hkept
      rw [heq]
      exact hcatalog
    | opened _ _ _ _ heq =>
      rw [heq]
      have hcall : request.call = _ := hwf
      refine shortText_getD hcfg.catalog fun text htext => hrequest.texts text ?_
      rw [RpcRequest.texts, hcall]
      exact List.mem_append_left _ htext
  operations hop := by
    cases hrun.operation_origin hop with
    | kept hkept => exact h.operations hkept
    | taken _ _ _ heq =>
      rw [heq]
      trivial
    | refreshed hkept heq =>
      rcases OperationState.finishRefresh_cases ‹OperationState› _ _ _ with ⟨hsame, -⟩ | ⟨_, -, hnew⟩
      · rw [heq, hsame]
        exact h.operations hkept
      · rw [heq, hnew]
        exact OperationExecution.inLimits_fromJoinResult hsec
    | canceled _ hkept _ heq =>
      rcases OperationState.cancel_cases ‹OperationState› _ with ⟨hsame, -⟩ | ⟨_, _, _, -, hnew⟩
      · rw [heq, hsame]
        exact h.operations hkept
      · rw [heq, hnew]
        trivial
    | inserted _ _ _ _ _ _ heq =>
      rw [heq]
      trivial
  tasks ht := by
    rcases hrun.task_origin ht with ⟨t, ht, hcore⟩ | ⟨kind, -, rfl, -, -⟩
    · have hstatus := Task.status_of_core hcore
      have houtcome := Task.outcome_of_core hcore
      exact ⟨fun hst => (h.tasks ht).storing (hstatus ▸ hst),
        fun hst => (h.tasks ht).finished (hstatus ▸ hst),
        fun hout => (h.tasks ht).outcome (houtcome ▸ hout)⟩
    · exact .spawn

theorem Section.InLimits.following (h : s.InLimits F) (H : s.WF) (hcfg : cfg.InLimits)
    (hrequest : request.InLimits) (hwf : sec.WF s i request) (hsec : sec.InLimits F request)
    (hrun : SectionRun cfg F i request s sec s' next) : next.InLimits F request := by
  cases hrun with
  | listFinished =>
    intro sec' hsec'
    obtain ⟨id, -, rfl⟩ := List.mem_map.mp hsec'
    trivial
  | awaited hresult =>
    refine List.forall_mem_singleton.mpr fun completion hcompletion => ?_
    subst hcompletion
    unfold joinResult at hresult
    split at hresult
    next ht =>
      cases hresult
      exact (h.tasks ht).finished rfl
    · cases hresult
  | sessionsFull =>
    exact answers_status (congrArg RpcCall.method hwf) (by simp [fixedTexts])
      (shortText_fixed _ (by simp [fixedTexts]))
  | @opened catalog schema types id secret =>
    have hcall : request.call = _ := hwf
    have htext (text : String) (hmem : text ∈ catalog.toList ++ schema.toList) : ShortText text :=
      hrequest.texts text (by rwa [RpcRequest.texts, hcall])
    have hcatalog : ShortText (catalog.getD cfg.defaultCatalog) :=
      shortText_getD hcfg.catalog fun text h => htext text (List.mem_append_left _ h)
    have hschema : ShortText (schema.getD cfg.defaultSchema) :=
      shortText_getD hcfg.schema fun text h => htext text (List.mem_append_right _ h)
    exact (isReply_openSession id.length_eq secret.length_eq hcatalog hschema
      (hrequest.arrives.getInfoTypes hcall)).answers (congrArg RpcCall.method hcall)
  | removedSession =>
    exact List.forall_mem_singleton.mpr <| (isReply_valid (by simp [fixedTexts])
      (by simp [fixedTexts])).answers (congrArg RpcCall.method hwf)
  | notRemovedSession | removedOperation | notRemovedOperation | canceled | notCanceled =>
    exact (isReply_valid (by simp [fixedTexts]) (by simp [fixedTexts])).answers
      (congrArg RpcCall.method hwf)
  | removedOperations | touched => exact hsec
  | noSessionHandle => exact SessionMethod.answers_invalid hwf
  | sessionExpired =>
    exact List.forall_mem_singleton.mpr (SessionMethod.answers_invalid hwf.1)
  | @sessionAdmitted method handle now session hsession =>
    cases method with
    | getInfo =>
      exact (isReply_getInfo (h.sessions hsession)).answers (congrArg RpcCall.method hwf.1)
    | getColumns | executeStatement => exact List.forall_mem_singleton.mpr trivial
  | sessionRefused => exact SessionMethod.answers_invalid hwf.1
  | getColumnsFull | executeStatementFull =>
    exact answers_status (congrArg RpcCall.method hwf.2) (by simp [fixedTexts])
      (shortText_fixed _ (by simp [fixedTexts]))
  | @insertedExecuteStatement _ _ id secret =>
    exact (isReply_executeStatement id.length_eq secret.length_eq).answers
      (congrArg RpcCall.method hwf.2)
  | @completionSucceeded operationId secret =>
    obtain ⟨-, filters, hcall⟩ := hwf
    exact (isReply_getColumns operationId.length_eq secret.length_eq).answers
      (congrArg RpcCall.method hcall)
  | completionFailed hmessage => exact List.forall_mem_singleton.mpr (h.received hmessage)
  | removedUnreturned =>
    obtain ⟨filters, hcall⟩ := hwf
    exact answers_status (congrArg RpcCall.method hcall) (by simp [fixedTexts]) hsec
  | operationFound hop =>
    exact List.forall_mem_singleton.mpr <|
      OperationMethod.answers_write hwf (h.operations hop) (h.usedIds _ (H.operations hop))
  | operationRefused => exact OperationMethod.answers_invalid hwf
  | historyRefused => trivial
  | taken | cleanupClock | cleanupSessions | sessionClock | getColumnsClock | insertedGetColumns
  | historyFound => exact List.forall_mem_singleton.mpr trivial
  | notTaken | refreshed | cleanupOperations => exact List.forall_mem_nil _

/-! ## The environment -/

/-- What the tasks return. -/
def ServiceEnv.InLimits (F : Formatting) : ServiceEnv → Prop
  | executed _ completion | computed _ completion => completion.InLimits F
  | _ => True

theorem QueryResult.InLimits.empty : QueryResult.empty.InLimits F where
  store := rfl
  columns := by decide
  names := List.forall_mem_nil _
  cells := List.forall_mem_nil _

theorem inLimits_modify {tasks : List Task} {task n : TaskId} {f : Task → Task} {t : Task}
    (h : ∀ {n : TaskId} {t : Task}, tasks[n]? = some t → t.InLimits F)
    (hf : ∀ t, tasks[task]? = some t → (f t).InLimits F) (ht : (tasks.modify task f)[n]? = some t) :
    t.InLimits F := by
  rw [List.getElem?_modify] at ht
  obtain ⟨t₀, ht₀, heq⟩ := Option.map_eq_some_iff.mp ht
  split at heq
  next hn =>
    rw [← heq]
    exact hf t₀ (hn ▸ ht₀)
  · obtain rfl : t₀ = t := heq
    exact h ht₀

theorem ServiceState.InLimits.setTask (h : s.InLimits F) {task : TaskId} {f : Task → Task}
    (hf : ∀ t, s.tasks[task]? = some t → (f t).InLimits F) : (s.setTask task f).InLimits F where
  usedIds := h.usedIds
  sessions := h.sessions
  operations := h.operations
  tasks ht := inLimits_modify h.tasks hf ht

theorem ServiceState.InLimits.finished (h : s.InLimits F) {task : TaskId}
    {result : Except JoinError OperationCompletion}
    (hresult : ∀ completion, result = .ok completion → completion.InLimits F) :
    (s.setTaskFinished task result).InLimits F :=
  h.setTask fun t ht => {
    storing := fun hst => by cases hst
    finished := fun hst => hresult _ (TaskStatus.finished.inj hst)
    outcome := (h.tasks ht).outcome }

theorem Task.InLimits.afterStore {t : Task} {completion : OperationCompletion}
    (h : completion.InLimits F) : (t.afterStore completion).InLimits F where
  storing hst := by cases hst
  finished hst := by
    cases hst
    exact h
  outcome {message} hout := by
    unfold Task.afterStore operationCompletionOutcome at hout
    unfold OperationCompletion.InLimits at h
    split at hout
    · split at hout
      · cases hout
      next herror =>
        rw [herror] at h
        cases hout
        exact h
    · cases hout

theorem ServiceState.InLimits.storeCompletion (h : s.InLimits F) {task : TaskId} {t : Task}
    {completion : OperationCompletion} (ht : s.tasks[task]? = some t)
    (hst : t.status = .storing completion) : (s.storeCompletion task t completion).InLimits F := by
  have hstep : EnvStep s (s.storeCompletion task t completion) := .stored ht hst
  constructor
  · rw [hstep.usedIds]
    exact h.usedIds
  · intro id session hsession
    rw [hstep.sessions] at hsession
    exact h.sessions hsession
  · intro id op hop
    rcases hstep.operation_origin hop with hop | ⟨_, t, completion, op₀, ht, ⟨hst, -⟩, -, -, rfl⟩
    · exact h.operations hop
    · exact OperationExecution.inLimits_fromCompletion ((h.tasks ht).storing hst)
  · intro n t' ht'
    obtain ⟨f, hf, htasks⟩ := storeCompletion_tasks (s := s)
    rw [htasks] at ht'
    refine inLimits_modify h.tasks (fun t₀ ht₀ => ?_) ht'
    obtain rfl := Option.some.inj (ht.symm.trans ht₀)
    rw [hf]
    exact .afterStore ((h.tasks ht).storing hst)

theorem ServiceState.InLimits.env (h : s.InLimits F) {event : ServiceEnv}
    (hevent : event.InLimits F) (hs : serviceEnv s event = some s') : s'.InLimits F := by
  unfold serviceEnv at hs
  split at hs
  case h_1 =>
    obtain ⟨clock, -, rfl⟩ := Option.map_eq_some_iff.mp hs
    exact ⟨h.usedIds, h.sessions, h.operations, h.tasks⟩
  case h_2 =>
    split at hs
    case h_1 ht =>
      cases hs
      refine h.finished fun completion hcompletion => ?_
      cases hcompletion
      split
      · exact QueryResult.InLimits.empty
      · exact hevent
    case h_2 => cases hs
  case h_3 =>
    split at hs
    case h_1 ht =>
      cases hs
      refine h.setTask fun t ht => ?_
      exact {
        storing := fun hst => TaskStatus.storing.inj hst ▸ hevent
        finished := fun hst => by cases hst
        outcome := (h.tasks ht).outcome }
    case h_2 => cases hs
  case h_4 =>
    split at hs
    case h_1 ht =>
      cases hs
      exact h.storeCompletion ht rfl
    case h_2 => cases hs
  case h_5 =>
    split at hs
    case h_1 t ht =>
      split at hs
      · cases hs
        exact h.finished fun completion hcompletion => by cases hcompletion
      · cases hs
    case h_2 => cases hs
  case h_6 =>
    split at hs
    case h_1 ht =>
      cases hs
      exact h.finished fun completion hcompletion => by cases hcompletion
    case h_2 => cases hs

end
/-! ## Runs -/

/-- A call whose request, and what it has still to write, fits the sizes of Thrift. -/
structure RpcThread.InLimits (F : Formatting) (k : RpcThread) : Prop where
  request : k.request.InLimits
  sections : ∀ sec ∈ k.sections, sec.InLimits F k.request
  reply : ∀ reply, k.reply = some reply → reply.Answers k.request

theorem RpcRequest.InLimits.thread {F : Formatting} {request : RpcRequest} {rest : List Section}
    {next : Next} (h : request.InLimits) (hnext : next.InLimits F request)
    (hrest : ∀ sec ∈ rest, sec.InLimits F request) : (request.thread rest next).InLimits F := by
  cases next with
  | sections secs =>
    exact ⟨h, List.forall_mem_append.mpr ⟨hnext, hrest⟩, fun reply hreply => by cases hreply⟩
  | reply reply =>
    exact ⟨h, List.forall_mem_nil _, fun _ hreply => Option.some.inj hreply ▸ hnext⟩

/-- The requests and what the tasks return fit the sizes of Thrift. -/
def KeepsLimits (F : Formatting) (_ : Conf ServiceState RpcThread) :
    Action RpcRequest RpcInput ServiceEnv → Prop
  | .start _ request => request.InLimits
  | .env event => event.InLimits F
  | .exec .. | .drop .. => True

/-- The invariant of the runs that keep the limits. -/
def ServiceLimits (F : Formatting) (c : Conf ServiceState RpcThread) : Prop :=
  c.shared.InLimits F ∧ ∀ i k, c.threads i = some k → k.InLimits F

section
variable {cfg : ServiceConfig} {F : Formatting} {clock : Instant}
variable {c c' : Conf ServiceState RpcThread} {a : Action RpcRequest RpcInput ServiceEnv}

theorem ServiceState.InLimits.new : (ServiceState.new clock).InLimits F where
  usedIds := List.forall_mem_nil _
  sessions h := by cases h
  operations h := by cases h
  tasks h := by cases h

theorem ServiceState.InLimits.drop {s : ServiceState} (h : s.InLimits F) {sec : Section} :
    (dropSection s sec).InLimits F := by
  cases sec with
  | awaitOperationCompletion operationId secret task =>
    exact h.setTask fun t ht => ⟨(h.tasks ht).storing, (h.tasks ht).finished, (h.tasks ht).outcome⟩
  | _ => exact h

theorem ServiceLimits.step (h : ServiceLimits F c) (hcfg : cfg.InLimits) (hinv : ServiceInv c)
    (hok : KeepsLimits F c a) (hs : (serviceMachine cfg F clock).step c a = some c') :
    ServiceLimits F c' := by
  obtain ⟨H, HL⟩ := h
  have others {s : ServiceState} {i : ThreadId} {l : RpcThread} (hl : l.InLimits F) :
      ∀ j k, (c.set s i l).threads j = some k → k.InLimits F := by
    intro j k hk
    rcases Conf.set_threads_eq_some.mp hk with ⟨rfl, rfl⟩ | ⟨_, hk⟩
    · exact hl
    · exact HL j k hk
  cases serviceStep_cases hs with
  | start =>
    have hrequest : RpcRequest.InLimits _ := hok
    exact ⟨H, others (hrequest.thread hrequest.start (List.forall_mem_nil _))⟩
  | @exec i input k sec rest s next hk hsec hrun =>
    have hl := HL i k hk
    have hmem : sec ∈ k.sections := hsec ▸ List.mem_cons_self
    have hwf := hinv.2 i k hk sec hmem
    have hlimits := hl.sections sec hmem
    refine ⟨H.section hcfg hl.request hwf hlimits hrun, others (hl.request.thread ?_ ?_)⟩
    · exact hlimits.following H hinv.1 hcfg hl.request hwf hrun
    · exact fun sec' hsec' => hl.sections sec' (hsec ▸ List.mem_cons_of_mem _ hsec')
  | drop hk =>
    have hl := HL _ _ hk
    exact ⟨H.drop, others ⟨hl.request, List.forall_mem_nil _, hl.reply⟩⟩
  | @env event s _ =>
    obtain ⟨s', he, heq⟩ := Option.map_eq_some_iff.mp (show (serviceEnv c.shared event).map _ = _ from hs)
    obtain rfl : s' = s := congrArg Conf.shared heq
    exact ⟨H.env hok he, HL⟩

theorem serviceInLimits (hcfg : cfg.InLimits)
    (hc : (serviceMachine cfg F clock).ReachableBy (KeepsLimits F) c) : ServiceLimits F c :=
  Machine.ReachableBy.invariant_of (J := ServiceInv) (fun _ h => serviceWF h.reachable) hc
    ⟨.new, fun i k hk => by cases hk⟩ fun _ _ _ hinv _ h hok hs => h.step hcfg hinv hok hs

/-- A request has the method and the sequence id of its message. -/
theorem decodeRequest_message {bearerToken : String} {r r' : Reader} {request : RpcRequest}
    (h : (decodeRequest bearerToken).run r = (.ok request, r')) :
    ∃ message r₁, decodeMessage.run r = (.ok message, r₁) ∧
      request.call.Decoded message.name ∧ request.seqid = message.seqid := by
  obtain ⟨message, r₁, hmessage, h⟩ := Reader.run_bind_eq_ok h
  obtain ⟨call, r₂, hcall, h⟩ := Reader.run_bind_eq_ok h
  have hrequest : _ = request := Except.ok.inj (congrArg Prod.fst h)
  refine ⟨message, r₁, hmessage, ?_, ?_⟩
  · rw [← hrequest]
    exact returns_decodeCall message _ _ _ hcall
  · rw [← hrequest]

/-- Along every run that keeps the limits, a response is one message: the bytes are a strict header
with the method and the sequence id of the request's own message, and one struct. -/
theorem answersRequests (hcfg : cfg.InLimits)
    (hc : (serviceMachine cfg F clock).ReachableBy (KeepsLimits F) c) {i : ThreadId}
    {k : RpcThread} {bytes : Bytes} (hk : c.threads i = some k)
    (hreply : k.reply = some (.response bytes)) :
    k.request.AnsweredBy bytes ∧
      ∀ r r', (decodeRequest k.request.bearerToken).run r = (.ok k.request, r') →
        ∃ message r₁, decodeMessage.run r = (.ok message, r₁) ∧
          k.request.call.method = some message.name ∧ k.request.seqid = message.seqid := by
  refine ⟨((serviceInLimits hcfg hc).2 i k hk).reply _ hreply, fun r r' h => ?_⟩
  obtain ⟨message, r₁, hmessage, hcall, hseqid⟩ := decodeRequest_message h
  exact ⟨message, r₁, hmessage, hcall.method, hseqid⟩

end

/-- `OpenSession` from the bytes of its request on. -/
theorem answersRequests_openSession : ∃ (c : Conf ServiceState RpcThread) (k : RpcThread)
    (bytes : Bytes), c.threads 0 = some k ∧ k.reply = some (.response bytes) ∧
      k.request.AnsweredBy bytes := by
  have hrequest : RpcRequest.InLimits ⟨"token-a", 1, .openSession none none []⟩ := by
    refine ⟨.inr ⟨.new (requestBody 0x80010001 "OpenSession" 1 [12, 0, 1, 0, 0]), _, rfl⟩, ?_⟩
    exact List.forall_mem_nil _
  have hcfg : testService.InLimits := ⟨by decide +kernel, by decide +kernel⟩
  have hrun : ∃ c, testMachine.ReachableBy (KeepsLimits testFormatting) c ∧ ∃ k bytes,
      c.threads 0 = some k ∧ k.reply = some (.response bytes) :=
    ⟨_, Machine.reachesBy_run (openSessionRun 0 1 2)
      (by simp [openSessionRun, KeepsLimits, hrequest]) rfl, _, _, rfl, rfl⟩
  obtain ⟨c, hc, k, bytes, hk, hreply⟩ := hrun
  exact ⟨c, k, bytes, hk, hreply, (answersRequests hcfg hc hk hreply).1⟩

/-! ## Results that cannot be encoded -/

/-- Whatever the outer writer has, a result that cannot be encoded leaves nothing behind: the
response is the error struct, as if nothing of the result had been written. A result that can be
encoded is written as the bytes of its parts. -/
theorem failedEncoding (F : Formatting) (seqid : Int32) (result : QueryResult)
    (includeMetadata : Bool) (startRowOffset : Int64) (maxRows : Option Int64) :
    WriterM.writeFetchResultsResponse F seqid result includeMetadata startRowOffset maxRows =
        writeFetchResultsResponse F seqid result includeMetadata startRowOffset maxRows ∧
      WriterM.writeGetResultSetMetadataResponse F seqid result =
        writeGetResultSetMetadataResponse F seqid result ∧
      (∀ err, writeFetchResultsResponseStruct F result includeMetadata startRowOffset maxRows =
          .error err → ReadsMessage
        (WriterM.writeFetchResultsResponse F seqid result includeMetadata startRowOffset maxRows)
        "FetchResults" tMessageReply seqid
        [(0, .struct (noRows errorStatus (thriftClientErrorMessage err)))]) ∧
      ∀ err, writeResultSetMetadataResponse F result successStatus = .error err → ReadsMessage
        (WriterM.writeGetResultSetMetadataResponse F seqid result) "GetResultSetMetadata"
        tMessageReply seqid [(0, .struct (noMetadata errorStatus (thriftClientErrorMessage err)))] := by
  refine ⟨WriterM.writeFetchResultsResponse_eq, WriterM.writeGetResultSetMetadataResponse_eq,
    fun err herr => ?_, fun err herr => ?_⟩
  · rw [WriterM.writeFetchResultsResponse_eq, writeFetchResultsResponse, herr]
    exact readsMessage_noRows errorStatus (shortText_client err)
  · rw [WriterM.writeGetResultSetMetadataResponse_eq, writeGetResultSetMetadataResponse, herr]
    exact readsMessage_noMetadata errorStatus (shortText_client err)

/-- A row whose first column is encoded, and whose second one is out of range. -/
def overflowingResult : QueryResult :=
  .fromBatchesWithDataTypes [⟨"a", "Int8", false⟩, ⟨"b", "UInt64", false⟩] [.int8, .uint64]
    [{ columns := [⟨.int8, [.int8 1], List.forall_mem_singleton.mpr .int8⟩,
        ⟨.uint64, [.uint64 9223372036854775808], List.forall_mem_singleton.mpr .uint64⟩]
       numRows := 1
       arrayMemorySize := 9
       length_eq := by decide }]

set_option maxRecDepth 4000 in
theorem failedEncoding_overflowing : ReadsMessage
    (WriterM.writeFetchResultsResponse testFormatting 1 overflowingResult true 0 none)
    "FetchResults" tMessageReply 1 [(0, .struct (noRows errorStatus (thriftClientErrorMessage
      (.unsupportedResultType "UInt64 result value exceeds signed BIGINT range"))))] :=
  (failedEncoding testFormatting 1 overflowingResult true 0 none).2.2.1 _ rfl

end HarborSql
