import HarborSql.Verify.Thrift.Steps

/-! What holds of the service in every reachable state: where ids, tasks and removed sessions
come from, and which sections a call may still have to run. -/

namespace HarborSql

section Program
variable {cfg : ServiceConfig} {F : Formatting} {c c' : Conf ServiceState RpcThread}
variable {a : Action RpcRequest RpcInput ServiceEnv}

/-- Everything a step of the service can do. -/
inductive ServiceStep (cfg : ServiceConfig) (F : Formatting) (c : Conf ServiceState RpcThread) :
    Action RpcRequest RpcInput ServiceEnv → Conf ServiceState RpcThread → Prop
  | start {i : ThreadId} {request : RpcRequest} : c.threads i = none →
    ServiceStep cfg F c (.start i request) (c.set c.shared i (request.thread [] request.start))
  | exec {i : ThreadId} {input : RpcInput} {k : RpcThread} {sec : Section} {rest : List Section}
      {s : ServiceState} {next : Next} : c.threads i = some k → k.sections = sec :: rest →
    SectionRun cfg F i k.request c.shared sec s next →
    runSection cfg F i k.request c.shared sec input = some (s, next) →
    ServiceStep cfg F c (.exec i input) (c.set s i (k.request.thread rest next))
  | drop {i : ThreadId} {k : RpcThread} {sec : Section} {rest : List Section} :
    c.threads i = some k → k.sections = sec :: rest → sec.awaits →
    ServiceStep cfg F c (.drop i) (c.set (dropSection c.shared sec) i { k with sections := [] })
  | env {event : ServiceEnv} {s : ServiceState} : EnvStep c.shared s →
    ServiceStep cfg F c (.env event) { c with shared := s }

theorem serviceProgram_drop {s s' : ServiceState} {k k' : RpcThread}
    (h : (serviceProgram cfg F).drop s k = some (s', k')) :
    ∃ sec rest, k.sections = sec :: rest ∧ sec.awaits ∧ s' = dropSection s sec ∧
      k' = { k with sections := [] } := by
  obtain ⟨request, sections, reply⟩ := k
  cases sections with
  | nil => cases hcall : request.call <;> simp [serviceProgram, hcall] at h
  | cons sec rest =>
    cases hcall : request.call <;> simp [serviceProgram, hcall] at h
    all_goals exact ⟨sec, rest, rfl, h.1, h.2.1.symm, h.2.2.symm⟩

theorem serviceStep_cases {clock : Instant} (h : (serviceMachine cfg F clock).step c a = some c') :
    ServiceStep cfg F c a c' := by
  have h : (serviceProgram cfg F).step c a = some c' := h
  rcases Program.step_cases h with ⟨i, request, k, rfl, hi, hk, rfl⟩ |
    ⟨i, input, k, s, l, rfl, hi, hk, rfl⟩ | ⟨i, k, s, l, rfl, hi, hk, rfl⟩ | ⟨event, s, rfl, he, rfl⟩
  · cases hk
    exact .start hi
  · dsimp only [serviceProgram] at hk
    split at hk
    case h_1 => cases hk
    case h_2 sec rest hsec =>
      obtain ⟨⟨s', next⟩, hrun, hk⟩ := Option.map_eq_some_iff.mp hk
      cases hk
      exact .exec hi hsec (runSection_cases hrun) hrun
  · obtain ⟨sec, rest, hsec, hawaits, rfl, rfl⟩ := serviceProgram_drop hk
    exact .drop hi hsec hawaits
  · exact .env (serviceEnv_cases he)

/-- A section that can run is a step of the service. -/
theorem serviceStep_exec {clock : Instant} {i : ThreadId} {input : RpcInput} {k : RpcThread}
    {sec : Section} {rest : List Section} {s : ServiceState} {next : Next}
    (hk : c.threads i = some k) (hsec : k.sections = sec :: rest)
    (h : runSection cfg F i k.request c.shared sec input = some (s, next)) :
    (serviceMachine cfg F clock).step c (.exec i input) =
      some (c.set s i (k.request.thread rest next)) := by
  show ((c.threads i).bind fun k => _) = _
  rw [hk, Option.bind_some]
  show Option.map _ ((serviceProgram cfg F).exec c.shared i k input) = _
  simp only [serviceProgram, hsec, h, Option.map_some]

end Program

/-- A dropped call only tells its task, as a step of the environment might. -/
theorem dropSection_env {s : ServiceState} {sec : Section} : EnvStep s (dropSection s sec) := by
  cases sec with
  | awaitOperationCompletion operationId secret task =>
    cases ht : s.tasks[task]? with
    | some t => exact .task ht ⟨rfl, fun _ h => h⟩ rfl fun _ _ => .inl rfl
    | none =>
      have hs : dropSection s (.awaitOperationCompletion operationId secret task) = s := by
        rw [dropSection, ServiceState.setTask, List.modify_eq_self (List.getElem?_eq_none_iff.mp ht)]
      rw [hs]
      exact .tick (Nat.le_refl s.clock)
  | _ => exact .tick (Nat.le_refl s.clock)

theorem dropSection_operations {s : ServiceState} {sec : Section} :
    (dropSection s sec).operations = s.operations := by
  cases sec <;> rfl

/-! ## The environment -/

section Env
variable {s s' : ServiceState} {id : String}

/-- A task after its completion was stored. -/
def Task.afterStore (t : Task) (completion : OperationCompletion) : Task :=
  { t with
    status := .finished (.ok completion)
    outcome := if t.receiverAlive then some (operationCompletionOutcome completion) else none }

theorem ServiceState.storeCompletion_tasks {task : TaskId} {t : Task}
    {completion : OperationCompletion} :
    ∃ f : Task → Task, f t = t.afterStore completion ∧
      (s.storeCompletion task t completion).tasks = s.tasks.modify task f := by
  refine ⟨_, ?_, by unfold storeCompletion; dsimp only; split <;> rfl⟩
  rfl

/-- Where the operation `op` stored as `id` after a step of the environment comes from. -/
theorem EnvStep.operation_origin {op : OperationState} (h : EnvStep s s')
    (hop : s'.operations.lookup id = some op) : s.operations.lookup id = some op ∨
      ∃ (task : TaskId) (t : Task) (completion : OperationCompletion) (op₀ : OperationState),
        s.tasks[task]? = some t ∧
        (t.status = .storing completion ∧ ∃ t', s'.tasks[task]? = some t' ∧ t'.isFinished) ∧
        t.kind.queryId = id ∧ s.operations.lookup id = some op₀ ∧
        op = { op₀ with state := .fromCompletion s.clock completion } := by
  cases h with
  | tick => exact .inl hop
  | task => exact .inl hop
  | @stored task t completion ht hst =>
    have hop : (s.modifyOperation t.kind.queryId fun op =>
        { op with state := .fromCompletion s.clock completion }).operations.lookup id = some op := by
      unfold ServiceState.storeCompletion at hop
      dsimp only at hop
      split at hop
      · exact (HashMap.lookup_erase_eq_some.mp hop).2
      · exact hop
    rcases HashMap.lookup_modify_eq_some.mp hop with ⟨rfl, op₀, hop₀, rfl⟩ | ⟨_, hop⟩
    · refine .inr ⟨task, t, completion, op₀, ht, ⟨hst, ?_⟩, rfl, hop₀, rfl⟩
      obtain ⟨f, hf, htasks⟩ := ServiceState.storeCompletion_tasks (s := s)
      exact ⟨t.afterStore completion, by rw [htasks]; simp [ht, hf], rfl⟩
    · exact .inl hop

theorem EnvStep.sessions (h : EnvStep s s') : s'.sessions = s.sessions := by
  cases h with
  | stored => unfold ServiceState.storeCompletion; dsimp only; split <;> rfl
  | _ => rfl

theorem EnvStep.usedIds (h : EnvStep s s') : s'.usedIds = s.usedIds := by
  cases h with
  | stored => unfold ServiceState.storeCompletion; dsimp only; split <;> rfl
  | _ => rfl

theorem EnvStep.issued (h : EnvStep s s') : s'.issued = s.issued := by
  cases h with
  | stored => unfold ServiceState.storeCompletion; dsimp only; split <;> rfl
  | _ => rfl

theorem EnvStep.removedBy (h : EnvStep s s') : s'.removedBy = s.removedBy := by
  cases h with
  | stored => unfold ServiceState.storeCompletion; dsimp only; split <;> rfl
  | _ => rfl

theorem EnvStep.clock (h : EnvStep s s') : s.clock ≤ s'.clock := by
  cases h with
  | tick h => exact h
  | task => exact Nat.le_refl _
  | stored => unfold ServiceState.storeCompletion; dsimp only; split <;> exact Nat.le_refl _

theorem EnvStep.tasks (h : EnvStep s s') : s'.tasks = s.tasks ∨
    ∃ (task : TaskId) (t : Task) (f : Task → Task), s.tasks[task]? = some t ∧ t.Later (f t) ∧
      ((f t).outcome = t.outcome ∧ (∀ completion, (f t).status = .storing completion →
        t.status = (f t).status ∨ t.kind.isGetColumns) ∨ (f t).isFinished) ∧
      s'.tasks = s.tasks.modify task f := by
  cases h with
  | tick => exact .inl rfl
  | task ht hlater hout hstoring => exact .inr ⟨_, _, _, ht, hlater, .inl ⟨hout, hstoring⟩, rfl⟩
  | stored ht hst =>
    obtain ⟨f, hf, htasks⟩ := ServiceState.storeCompletion_tasks (s := s)
    refine .inr ⟨_, _, f, ht, ?_, .inr (by rw [hf]; rfl), htasks⟩
    rw [hf]
    exact ⟨rfl, fun result hr => by rw [hst] at hr; cases hr⟩

theorem EnvStep.tasksLater (h : EnvStep s s') : TasksLater s.tasks s'.tasks := by
  rcases h.tasks with h | ⟨task, t, f, ht, hlater, -, h⟩
  · rw [h]; exact .rfl
  · rw [h]
    refine .modify fun t' ht' => ?_
    cases ht.symm.trans ht'
    exact hlater

/-- Where a task comes from that is there after a step of the environment. -/
theorem EnvStep.task_origin {n : TaskId} {t' : Task} (h : EnvStep s s')
    (ht' : s'.tasks[n]? = some t') :
    ∃ t, s.tasks[n]? = some t ∧ t.Later t' ∧ (t'.outcome = t.outcome ∧
      (∀ completion, t'.status = .storing completion → t.status = t'.status ∨
        t.kind.isGetColumns) ∨ t'.isFinished) := by
  rcases h.tasks with h | ⟨task, t, f, ht, hlater, hout, h⟩
  · rw [h] at ht'
    exact ⟨t', ht', .rfl, .inl ⟨rfl, fun _ _ => .inl rfl⟩⟩
  · rw [h, List.getElem?_modify] at ht'
    by_cases hn : task = n
    · subst hn
      obtain rfl : f t = t' := by simpa [ht] using ht'
      exact ⟨t, ht, hlater, hout⟩
    · exact ⟨t', by simpa [hn] using ht', .rfl, .inl ⟨rfl, fun _ _ => .inl rfl⟩⟩

end Env

/-! ## The invariant -/

/-- The invariant of the shared state. -/
structure ServiceState.WF (s : ServiceState) : Prop where
  sessions : ∀ {id session}, s.sessions.lookup id = some session → session.id = id ∧ id ∈ s.usedIds
  operations : ∀ {id op}, s.operations.lookup id = some op → id ∈ s.usedIds
  removedBy : ∀ {id i}, s.removedBy.lookup id = some i →
    id ∈ s.usedIds ∧ s.sessions.lookup id = none
  running : ∀ {id op started task}, s.operations.lookup id = some op →
    op.state = .running started task → ∃ t, s.tasks[task]? = some t ∧ t.kind.queryId = id
  taskIds : ∀ {n : TaskId} {t : Task}, s.tasks[n]? = some t → t.kind.queryId ∈ s.usedIds
  taskUnique : ∀ {n m : TaskId} {t u : Task}, s.tasks[n]? = some t → s.tasks[m]? = some u →
    t.kind.queryId = u.kind.queryId → n = m
  outcome : ∀ {n : TaskId} {t : Task}, s.tasks[n]? = some t → t.outcome.isSome → t.isFinished
  storing : ∀ {n : TaskId} {t : Task} {completion}, s.tasks[n]? = some t →
    t.status = .storing completion → t.kind.isGetColumns

/-- A finished task of the operation `id` returned `result`. -/
def TaskReturned (s : ServiceState) (id : String)
    (result : Except JoinError OperationCompletion) : Prop :=
  ∃ (task : TaskId) (t : Task), s.tasks[task]? = some t ∧ t.kind.queryId = id ∧
    t.status = .finished result

/-- The invariant of a section that call `i` has still to run. -/
def Section.WF (s : ServiceState) (i : ThreadId) (request : RpcRequest) : Section → Prop
  | .listFinished | .takeFinishedTask _ | .cleanupClock => True
  | .awaitTask id _ task => ∃ t result, s.tasks[task]? = some t ∧ t.kind.queryId = id ∧
    t.status = .finished result
  | .finishRefresh id _ result => TaskReturned s id result
  | .cleanupSessions now => now ≤ s.clock
  | .cleanupOperations now expired =>
    now ≤ s.clock ∧ ∀ id ∈ expired, s.removedBy.lookup id = some i
  | .openSession catalog schema types => request.call = .openSession catalog schema types
  | .removeSession handle => request.call = .closeSession (some handle)
  | .removeOperationsForSession id reply => s.removedBy.lookup id = some i ∧
    ∃ handle : Handle, handle.id = id ∧
      (request.call = .closeSession (some handle) ∧
          reply = .response (writeCloseSessionResponse request.seqid true) ∨
        ∃ method, request.call = .session method (some handle) ∧
          reply = .response (method.invalid request.seqid))
  | .sessionClock method handle => request.call = .session method handle
  | .sessionFor method handle now => request.call = .session method (some handle) ∧ now ≤ s.clock
  | .getColumnsClock session filters => session.id ∈ s.usedIds ∧
    request.call = .session (.getColumns filters) request.call.handle
  | .insertGetColumns session filters _ => session.id ∈ s.usedIds ∧
    request.call = .session (.getColumns filters) request.call.handle
  | .insertExecuteStatement session statement => session.id ∈ s.usedIds ∧
    request.call = .session (.executeStatement statement) request.call.handle
  | .awaitOperationCompletion operationId _ task =>
    (∃ t, s.tasks[task]? = some t ∧ t.kind.queryId = operationId.toString) ∧
      ∃ filters, request.call = .session (.getColumns filters) request.call.handle
  | .removeUnreturnedOperation _ _ =>
    ∃ filters, request.call = .session (.getColumns filters) request.call.handle
  | .withOperation method handle => request.call = .operation method (some handle)
  | .touchSession _ _ =>
    (∃ method, request.call = .operation method request.call.handle) ∨
      ∃ queryId, request.call = .queryHistory queryId
  | .removeOperation handle => request.call = .closeOperation (some handle)
  | .cancelOperation handle => request.call = .cancelOperation (some handle)
  | .readHistory queryId => request.call = .queryHistory queryId

/-- What the sections of other calls rely on. -/
structure ServiceState.Later (s s' : ServiceState) : Prop where
  clock : s.clock ≤ s'.clock
  usedIds : s.usedIds ⊆ s'.usedIds
  tasks : TasksLater s.tasks s'.tasks
  removedBy : ∀ {id i}, s.removedBy.lookup id = some i → s'.removedBy.lookup id = some i

section
variable {cfg : ServiceConfig} {F : Formatting} {i : ThreadId} {request : RpcRequest}
variable {s s' : ServiceState} {sec : Section} {next : Next}

theorem TaskReturned.later {id : String} {result : Except JoinError OperationCompletion}
    (h : TaskReturned s id result) (H : TasksLater s.tasks s'.tasks) : TaskReturned s' id result := by
  obtain ⟨task, t, ht, hid, hst⟩ := h
  obtain ⟨t', ht', hl⟩ := H task t ht
  exact ⟨task, t', ht', by rw [hl.kind, hid], hl.finished _ hst⟩

theorem Section.WF.later (h : sec.WF s i request) (H : s.Later s') : sec.WF s' i request := by
  cases sec with
  | awaitTask =>
    obtain ⟨t, result, ht, hid, hst⟩ := h
    obtain ⟨t', ht', hl⟩ := H.tasks _ t ht
    exact ⟨t', result, ht', by rw [hl.kind, hid], hl.finished _ hst⟩
  | finishRefresh => exact TaskReturned.later h H.tasks
  | cleanupSessions => exact h.trans H.clock
  | cleanupOperations => exact ⟨h.1.trans H.clock, fun id hid => H.removedBy (h.2 id hid)⟩
  | removeOperationsForSession => exact ⟨H.removedBy h.1, h.2⟩
  | sessionFor => exact ⟨h.1, h.2.trans H.clock⟩
  | getColumnsClock | insertGetColumns | insertExecuteStatement => exact ⟨H.usedIds h.1, h.2⟩
  | awaitOperationCompletion =>
    obtain ⟨⟨t, ht, hid⟩, hcall⟩ := h
    obtain ⟨t', ht', hl⟩ := H.tasks _ t ht
    exact ⟨⟨t', ht', by rw [hl.kind, hid]⟩, hcall⟩
  | _ => exact h

/-- A removed session stays removed by the call that removed it. -/
theorem SectionRun.removedBy {id : String} {j : ThreadId}
    (h : SectionRun cfg F i request s sec s' next) (H : s.WF)
    (hid : s.removedBy.lookup id = some j) : s'.removedBy.lookup id = some j := by
  have hnone := (H.removedBy hid).2
  have erased {ids : List String} (hids : id ∉ ids) :
      (s.eraseSessions ids i).removedBy.lookup id = some j :=
    (HashMap.lookup_insertAll_of_not_mem hids).trans hid
  cases h with
  | cleanupSessions =>
    refine erased fun hmem => ?_
    obtain ⟨session, hsession, -⟩ := s.mem_expiredSessions.mp hmem
    cases hnone.symm.trans hsession
  | removedSession hsession | sessionExpired hsession =>
    refine erased fun hmem => ?_
    rw [List.mem_singleton.mp hmem, hsession] at hnone
    cases hnone
  | removedUnreturned | removedOperation => rwa [ServiceState.eraseOperation_removedBy]
  | _ => exact hid

theorem SectionRun.later (h : SectionRun cfg F i request s sec s' next) (H : s.WF) :
    s.Later s' where
  clock := h.clock.ge
  usedIds := h.usedIds_subset
  tasks := h.tasksLater
  removedBy := h.removedBy H

theorem EnvStep.later (h : EnvStep s s') : s.Later s' where
  clock := h.clock
  usedIds := by rw [h.usedIds]; exact List.Subset.refl _
  tasks := h.tasksLater
  removedBy := by rw [h.removedBy]; exact id

/-! ### Preservation -/

theorem OperationState.finishRefresh_cases (op : OperationState) (now started : Instant)
    (result : Except JoinError OperationCompletion) :
    (op.finishRefresh now started result = op ∧ ∀ started', op.state ≠ .refreshing started') ∨
      ∃ started', op.state = .refreshing started' ∧ op.finishRefresh now started result =
        { op with state := .fromJoinResult now started result } := by
  unfold finishRefresh
  split
  case h_1 h => exact .inr ⟨_, h, rfl⟩
  case h_2 h => exact .inl ⟨rfl, fun started' hst => h started' hst⟩

theorem OperationState.cancel_cases (op : OperationState) (now : Instant) :
    (op.cancel now = op ∧ ∀ started task, op.state ≠ .running started task) ∨
      ∃ started task durationMs, op.state = .running started task ∧
        op.cancel now = { op with state := .canceled durationMs now } := by
  unfold cancel
  split
  case h_1 h => exact .inr ⟨_, _, _, h, rfl⟩
  case h_2 h => exact .inl ⟨rfl, fun started task hst => h started task hst⟩

theorem OperationExecution.fromCompletion_isActive {now : Instant}
    {completion : OperationCompletion} : (fromCompletion now completion).isActive = false := by
  unfold fromCompletion
  split <;> rfl

theorem OperationExecution.fromJoinResult_isActive {now started : Instant}
    {result : Except JoinError OperationCompletion} :
    (fromJoinResult now started result).isActive = false := by
  unfold fromJoinResult
  split
  · exact fromCompletion_isActive
  · rfl
  · rfl

/-- A running operation is one that was running before, or a new one. -/
theorem OperationOrigin.running {id : String} {op : OperationState} {started : Instant}
    {task : TaskId} (h : OperationOrigin cfg request s s' id op sec next)
    (hst : op.state = .running started task) : s.operations.lookup id = some op ∨
      ∃ kind : TaskKind, task = s.tasks.length ∧ kind.queryId = id ∧
        s'.tasks = s.tasks ++ [Task.spawn kind] := by
  cases h with
  | kept hop => exact .inl hop
  | taken _ _ _ h => rw [h] at hst; cases hst
  | refreshed hop h =>
    rcases OperationState.finishRefresh_cases ‹OperationState› _ _ _ with ⟨heq, -⟩ | ⟨_, -, heq⟩
    · rw [h, heq]; exact .inl hop
    · rw [h, heq] at hst
      have hact := congrArg OperationExecution.isActive hst
      rw [OperationExecution.fromJoinResult_isActive] at hact
      cases hact
  | canceled _ hop _ h =>
    rcases OperationState.cancel_cases ‹OperationState› _ with ⟨heq, -⟩ | ⟨_, _, _, -, heq⟩
    · rw [h, heq]; exact .inl hop
    · rw [h, heq] at hst; cases hst
  | inserted _ _ _ _ hkind htasks h =>
    rw [h] at hst
    cases hst
    exact .inr ⟨_, rfl, hkind, htasks⟩

theorem SectionRun.removedBy_origin {id : String} {j : ThreadId}
    (h : SectionRun cfg F i request s sec s' next) (hid : s'.removedBy.lookup id = some j) :
    s.removedBy.lookup id = some j ∨
      s'.sessions.lookup id = none ∧ ∃ session, s.sessions.lookup id = some session := by
  have erased {ids : List String} (hids : ∀ id ∈ ids, ∃ session, s.sessions.lookup id = some session)
      (hid : (s.eraseSessions ids i).removedBy.lookup id = some j) :
      s.removedBy.lookup id = some j ∨ (s.eraseSessions ids i).sessions.lookup id = none ∧
        ∃ session, s.sessions.lookup id = some session := by
    by_cases hmem : id ∈ ids
    · refine .inr ⟨Option.eq_none_iff_forall_ne_some.mpr fun session hsession => ?_, hids id hmem⟩
      exact (HashMap.lookup_eraseAll_eq_some.mp hsession).1 hmem
    · exact .inl ((HashMap.lookup_insertAll_of_not_mem hmem).symm.trans hid)
  cases h with
  | cleanupSessions =>
    refine erased (fun id hmem => ?_) hid
    obtain ⟨session, hsession, -⟩ := s.mem_expiredSessions.mp hmem
    exact ⟨session, hsession⟩
  | removedSession hsession | sessionExpired hsession =>
    exact erased (fun id hmem => ⟨_, List.mem_singleton.mp hmem ▸ hsession⟩) hid
  | removedUnreturned | removedOperation =>
    exact .inl (by rwa [ServiceState.eraseOperation_removedBy] at hid)
  | _ => exact .inl hid

theorem ServiceState.WF.section (H : s.WF) (h : SectionRun cfg F i request s sec s' next) :
    s'.WF where
  sessions {id session} hsession := by
    cases h.session_origin hsession with
    | kept hmem => exact ⟨(H.sessions hmem).1, h.usedIds_subset (H.sessions hmem).2⟩
    | touched hmem heq => rw [heq]; exact ⟨(H.sessions hmem).1, h.usedIds_subset (H.sessions hmem).2⟩
    | admitted _ hmem _ _ heq =>
      rw [heq]; exact ⟨(H.sessions hmem).1, h.usedIds_subset (H.sessions hmem).2⟩
    | opened hid _ hused _ heq => rw [heq]; exact ⟨hid.symm, hused⟩
  operations {id op} hop := by
    cases h.operation_origin hop with
    | kept hop | taken hop | refreshed hop | canceled _ hop =>
      exact h.usedIds_subset (H.operations hop)
    | inserted _ _ hused => exact hused
  removedBy {id j} hid := by
    rcases h.removedBy_origin hid with hid | ⟨hnone, session, hsession⟩
    · refine ⟨h.usedIds_subset (H.removedBy hid).1, ?_⟩
      refine Option.eq_none_iff_forall_ne_some.mpr fun session hsession => ?_
      have hnone := (H.removedBy hid).2
      cases h.session_origin hsession with
      | kept hmem | touched hmem | admitted _ hmem => cases hnone.symm.trans hmem
      | opened _ hnew => exact hnew (H.removedBy hid).1
    · exact ⟨h.usedIds_subset (H.sessions hsession).2, hnone⟩
  running {id op started task} hop hst := by
    rcases (h.operation_origin hop).running hst with hop | ⟨kind, rfl, hkind, htasks⟩
    · obtain ⟨t, ht, hid⟩ := H.running hop hst
      obtain ⟨t', ht', hl⟩ := h.tasksLater _ t ht
      exact ⟨t', ht', by rw [hl.kind, hid]⟩
    · exact ⟨Task.spawn kind, by rw [htasks]; simp, hkind⟩
  taskIds {n t} ht := by
    rcases h.task_origin ht with ⟨t₀, ht₀, hcore⟩ | ⟨kind, rfl, rfl, -, hused⟩
    · rw [Task.kind_of_core hcore]
      exact h.usedIds_subset (H.taskIds ht₀)
    · exact hused
  taskUnique {n m t u} ht hu heq := by
    rcases h.task_origin ht with ⟨t₀, ht₀, ht⟩ | ⟨kind, rfl, rfl, hnew, -⟩ <;>
    rcases h.task_origin hu with ⟨u₀, hu₀, hu⟩ | ⟨kind', rfl, rfl, hnew', -⟩
    · rw [Task.kind_of_core ht, Task.kind_of_core hu] at heq
      exact H.taskUnique ht₀ hu₀ heq
    · rw [Task.kind_of_core ht] at heq
      exact absurd (heq ▸ H.taskIds ht₀) hnew'
    · rw [Task.kind_of_core hu] at heq
      exact absurd (heq ▸ H.taskIds hu₀) hnew
    · rfl
  outcome {n t} ht hout := by
    rcases h.task_origin ht with ⟨t₀, ht₀, hcore⟩ | ⟨kind, rfl, rfl, -, -⟩
    · rw [Task.outcome_of_core hcore] at hout
      obtain ⟨result, hst⟩ := Task.isFinished_iff.mp (H.outcome ht₀ hout)
      exact Task.isFinished_iff.mpr ⟨result, (Task.status_of_core hcore).trans hst⟩
    · cases hout
  storing {n t completion} ht hst := by
    rcases h.task_origin ht with ⟨t₀, ht₀, hcore⟩ | ⟨kind, rfl, rfl, -, -⟩
    · rw [Task.kind_of_core hcore]
      exact H.storing ht₀ ((Task.status_of_core hcore).symm.trans hst)
    · cases hst

theorem ServiceState.WF.env (H : s.WF) (h : EnvStep s s') : s'.WF where
  sessions hsession := by
    rw [h.sessions] at hsession
    rw [h.usedIds]
    exact H.sessions hsession
  operations hop := by
    rw [h.usedIds]
    rcases h.operation_origin hop with hop | ⟨_, _, _, op₀, _, _, _, hop, _⟩
    · exact H.operations hop
    · exact H.operations hop
  removedBy hid := by
    rw [h.removedBy] at hid
    rw [h.usedIds, h.sessions]
    exact H.removedBy hid
  running {id op started task} hop hst := by
    rcases h.operation_origin hop with hop | ⟨_, _, _, op₀, _, _, _, _, rfl⟩
    · obtain ⟨t, ht, hid⟩ := H.running hop hst
      obtain ⟨t', ht', hl⟩ := h.tasksLater _ t ht
      exact ⟨t', ht', by rw [hl.kind, hid]⟩
    · have hact := congrArg OperationExecution.isActive hst
      rw [OperationExecution.fromCompletion_isActive] at hact
      cases hact
  taskIds {n t} ht := by
    obtain ⟨t₀, ht₀, hl, -⟩ := h.task_origin ht
    rw [h.usedIds, hl.kind]
    exact H.taskIds ht₀
  taskUnique {n m t u} ht hu heq := by
    obtain ⟨t₀, ht₀, hl, -⟩ := h.task_origin ht
    obtain ⟨u₀, hu₀, hl', -⟩ := h.task_origin hu
    rw [hl.kind, hl'.kind] at heq
    exact H.taskUnique ht₀ hu₀ heq
  outcome {n t} ht hout := by
    obtain ⟨t₀, ht₀, hl, hcases⟩ := h.task_origin ht
    rcases hcases with ⟨hsame, -⟩ | hfin
    · obtain ⟨result, hst⟩ := Task.isFinished_iff.mp (H.outcome ht₀ (hsame ▸ hout))
      exact Task.isFinished_iff.mpr ⟨result, hl.finished result hst⟩
    · exact hfin
  storing {n t completion} ht hst := by
    obtain ⟨t₀, ht₀, hl, ⟨-, hstoring⟩ | hfin⟩ := h.task_origin ht
    · rw [hl.kind]
      exact (hstoring completion hst).elim (fun h => H.storing ht₀ (h.trans hst)) id
    · obtain ⟨result, hres⟩ := Task.isFinished_iff.mp hfin
      cases hst.symm.trans hres

/-! ### The sections that follow -/

theorem RpcRequest.start_wf : ∀ sec ∈ request.start.rest, sec.WF s i request := by
  obtain ⟨token, seqid, call⟩ := request
  cases call with
  | openSession | cleanupExpired | queryHistory => simp [start, Next.rest, cleanupExpired, Section.WF]
  | closeSession handle | closeOperation handle | cancelOperation handle =>
    cases handle <;> simp [start, Next.rest, cleanupExpired, Section.WF]
  | operation method handle => cases handle <;> simp [start, Next.rest, cleanupExpired, Section.WF]
  | session method handle =>
    cases method <;> simp [start, Next.rest, cleanupExpired, Section.WF]
  | notACall | unsupported => simp [start, Next.rest]

theorem Section.WF.following (H : s.WF) (hsec : sec.WF s i request)
    (h : SectionRun cfg F i request s sec s' next) :
    ∀ sec' ∈ next.rest, sec'.WF s' i request := by
  cases h with
  | listFinished =>
    intro sec' hsec'
    obtain ⟨id, -, rfl⟩ := List.mem_map.mp hsec'
    trivial
  | taken hop hst hfin =>
    obtain ⟨t, ht, hid⟩ := H.running hop hst
    intro sec' hsec'
    cases List.mem_singleton.mp hsec'
    unfold isFinishedTask at hfin
    rw [ht] at hfin
    obtain ⟨result, hres⟩ := Task.isFinished_iff.mp hfin
    exact ⟨t, result, ht, hid, hres⟩
  | awaited hres =>
    intro sec' hsec'
    cases List.mem_singleton.mp hsec'
    obtain ⟨t, result, ht, hid, hst⟩ := hsec
    refine ⟨_, t, ht, hid, ?_⟩
    unfold joinResult at hres
    rw [ht] at hres
    obtain ⟨kind, status, aborted, outcome, alive⟩ := t
    cases hst
    cases hres
    rfl
  | cleanupClock =>
    intro sec' hsec'
    cases List.mem_singleton.mp hsec'
    exact Nat.le_refl _
  | cleanupSessions =>
    intro sec' hsec'
    cases List.mem_singleton.mp hsec'
    exact ⟨hsec, fun id hid => HashMap.lookup_insertAll_of_mem hid⟩
  | removedSession =>
    intro sec' hsec'
    cases List.mem_singleton.mp hsec'
    exact ⟨HashMap.lookup_insertAll_of_mem (List.mem_singleton_self _), _, rfl, .inl ⟨hsec, rfl⟩⟩
  | sessionClock =>
    intro sec' hsec'
    cases List.mem_singleton.mp hsec'
    exact ⟨hsec, Nat.le_refl _⟩
  | sessionExpired =>
    intro sec' hsec'
    cases List.mem_singleton.mp hsec'
    exact ⟨HashMap.lookup_insertAll_of_mem (List.mem_singleton_self _), _, rfl,
      .inr ⟨_, hsec.1, rfl⟩⟩
  | @sessionAdmitted method handle now session hmem =>
    have hid : session.id ∈ s.usedIds := by
      obtain ⟨hid, hused⟩ := H.sessions hmem
      rwa [hid]
    intro sec' hsec'
    cases method with
    | getInfo => cases hsec'
    | getColumns | executeStatement =>
      cases List.mem_singleton.mp hsec'
      exact ⟨hid, by rw [hsec.1]; rfl⟩
  | getColumnsClock =>
    intro sec' hsec'
    cases List.mem_singleton.mp hsec'
    exact hsec
  | insertedGetColumns =>
    intro sec' hsec'
    cases List.mem_singleton.mp hsec'
    exact ⟨⟨Task.spawn (.getColumns ..), List.getElem?_concat_length, rfl⟩, _, hsec.2⟩
  | completionFailed =>
    intro sec' hsec'
    cases List.mem_singleton.mp hsec'
    exact hsec.2
  | operationFound =>
    intro sec' hsec'
    cases List.mem_singleton.mp hsec'
    exact .inl ⟨_, by rw [show request.call = _ from hsec]; rfl⟩
  | historyFound =>
    intro sec' hsec'
    cases List.mem_singleton.mp hsec'
    exact .inr ⟨_, hsec⟩
  | _ => exact fun _ hsec' => absurd hsec' List.not_mem_nil

end

/-! ### Reachable states -/

def RpcThread.WF (s : ServiceState) (i : ThreadId) (k : RpcThread) : Prop :=
  ∀ sec ∈ k.sections, sec.WF s i k.request

theorem RpcRequest.thread_sections {request : RpcRequest} {rest : List Section} {next : Next}
    {sec : Section} (h : sec ∈ (request.thread rest next).sections) :
    sec ∈ next.rest ∨ sec ∈ rest := by
  cases next with
  | sections => exact List.mem_append.mp h
  | reply => cases h

theorem RpcRequest.thread_request {request : RpcRequest} {rest : List Section} {next : Next} :
    (request.thread rest next).request = request := by
  cases next <;> rfl

theorem ServiceState.WF.new {clock : Instant} : (ServiceState.new clock).WF where
  sessions h := by cases h
  operations h := by cases h
  removedBy h := by cases h
  running h := by cases h
  taskIds h := by cases h
  taskUnique h := by cases h
  outcome h := by cases h
  storing h := by cases h

/-- The invariant of the service, with its calls. -/
def ServiceInv (c : Conf ServiceState RpcThread) : Prop :=
  c.shared.WF ∧ ∀ i k, c.threads i = some k → k.WF c.shared i

theorem ServiceInv.step {cfg : ServiceConfig} {F : Formatting} {clock : Instant}
    {c c' : Conf ServiceState RpcThread} {a : Action RpcRequest RpcInput ServiceEnv}
    (h : ServiceInv c) (hs : (serviceMachine cfg F clock).step c a = some c') : ServiceInv c' := by
  obtain ⟨H, HL⟩ := h
  have others {s : ServiceState} {i : ThreadId} {l : RpcThread} (hs : c.shared.Later s)
      (hl : l.WF s i) : ∀ j k, (c.set s i l).threads j = some k → k.WF s j := by
    intro j k hk
    rcases Conf.set_threads_eq_some.mp hk with ⟨rfl, rfl⟩ | ⟨_, hk⟩
    · exact hl
    · exact fun sec hsec => (HL j k hk sec hsec).later hs
  cases serviceStep_cases hs with
  | start =>
    refine ⟨H, others ⟨Nat.le_refl _, List.Subset.refl _, .rfl, id⟩ fun sec hsec => ?_⟩
    rw [RpcRequest.thread_request]
    exact RpcRequest.start_wf sec ((RpcRequest.thread_sections hsec).resolve_right List.not_mem_nil)
  | exec hk hsec hrun =>
    have hl := hrun.later H
    refine ⟨H.section hrun, others hl fun sec' hsec' => ?_⟩
    rw [RpcRequest.thread_request]
    rcases RpcRequest.thread_sections hsec' with hsec' | hsec'
    · exact (HL _ _ hk _ (hsec ▸ List.mem_cons_self)).following H hrun sec' hsec'
    · exact (HL _ _ hk sec' (hsec ▸ List.mem_cons_of_mem _ hsec')).later hl
  | drop => exact ⟨H.env dropSection_env, others dropSection_env.later (List.forall_mem_nil _)⟩
  | env he => exact ⟨H.env he, fun i k hk sec hsec => (HL i k hk sec hsec).later he.later⟩

theorem serviceWF {cfg : ServiceConfig} {F : Formatting} {clock : Instant}
    {c : Conf ServiceState RpcThread} (hc : (serviceMachine cfg F clock).Reachable c) :
    c.shared.WF ∧ ∀ i k, c.threads i = some k → k.WF c.shared i :=
  Machine.ReachableBy.invariant (I := ServiceInv) hc ⟨.new, fun i k hk => by cases hk⟩
    fun _ _ _ h _ hs => h.step hs

/-- An invariant of every call, whatever the others do. -/
theorem serviceThreads {cfg : ServiceConfig} {F : Formatting} {clock : Instant}
    {c : Conf ServiceState RpcThread} (hc : (serviceMachine cfg F clock).Reachable c)
    {P : RpcThread → Prop} (start : ∀ request : RpcRequest, P (request.thread [] request.start))
    (exec : ∀ {i k sec rest s s' next}, P k → k.sections = sec :: rest →
      SectionRun cfg F i k.request s sec s' next → P (k.request.thread rest next))
    (drop : ∀ {k}, P k → P { k with sections := [] }) {i : ThreadId} {k : RpcThread}
    (hk : c.threads i = some k) : P k := by
  refine Machine.ReachableBy.invariant (I := fun c => ∀ i k, c.threads i = some k → P k) hc
    (fun i k hk => by cases hk) ?_ i k hk
  intro c a c' H _ hs
  have others {s : ServiceState} {i : ThreadId} {l : RpcThread} (hl : P l) :
      ∀ j k, (c.set s i l).threads j = some k → P k := by
    intro j k hk
    rcases Conf.set_threads_eq_some.mp hk with ⟨rfl, rfl⟩ | ⟨_, hk⟩
    · exact hl
    · exact H j k hk
  cases serviceStep_cases hs with
  | start => exact others (start _)
  | exec hk hsec hrun => exact others (exec (H _ _ hk) hsec hrun)
  | drop hk => exact others (drop (H _ _ hk))
  | env => exact H

/-- A call that has returned has no sections left. -/
theorem serviceReturned {cfg : ServiceConfig} {F : Formatting} {clock : Instant}
    {c : Conf ServiceState RpcThread} (hc : (serviceMachine cfg F clock).Reachable c)
    {i : ThreadId} {k : RpcThread} (hk : c.threads i = some k) :
    k.reply = none ∨ k.sections = [] := by
  have returned {request : RpcRequest} {rest : List Section} {next : Next} :
      (request.thread rest next).reply = none ∨ (request.thread rest next).sections = [] := by
    cases next with
    | sections => exact .inl rfl
    | reply => exact .inr rfl
  exact serviceThreads (P := fun k => k.reply = none ∨ k.sections = []) hc (fun _ => returned)
    (fun _ _ _ => returned) (fun _ => .inr rfl) hk

end HarborSql
