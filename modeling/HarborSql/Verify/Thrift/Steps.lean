import HarborSql.Verify.Thrift.Basic

/-! Where the entries of the two maps come from, section by section, and what the environment
does. -/

namespace HarborSql

/-- The session a section inserts an operation for. -/
def Section.insertsFor : Section → Option SessionState
  | .insertGetColumns session _ _ | .insertExecuteStatement session _ => some session
  | _ => none

/-- The sessions whose operations a section removes. -/
def Section.removesFor : Section → List String
  | .removeOperationsForSession sessionId _ => [sessionId]
  | .cleanupOperations _ expired => expired
  | _ => []

def Next.rest : Next → List Section
  | .sections rest => rest
  | .reply _ => []

section Sections
variable {cfg : ServiceConfig} {F : Formatting} {i : ThreadId} {request : RpcRequest}
variable {s s' : ServiceState} {sec : Section} {next : Next} {id : String}

/-! ## Operations -/

/-- Where the operation `op` stored as `id` after a section comes from. -/
inductive OperationOrigin (cfg : ServiceConfig) (request : RpcRequest) (s s' : ServiceState)
    (id : String) (op : OperationState) : Section → Next → Prop
  | kept {sec : Section} {next : Next} : s.operations.lookup id = some op →
    OperationOrigin cfg request s s' id op sec next
  | taken {op₀ : OperationState} {started : Instant} {task : TaskId} :
    s.operations.lookup id = some op₀ → op₀.state = .running started task →
    isFinishedTask s.tasks task → op = op₀.taken started →
    OperationOrigin cfg request s s' id op (.takeFinishedTask id)
      (.sections [.awaitTask id started task])
  | refreshed {op₀ : OperationState} {started : Instant}
      {result : Except JoinError OperationCompletion} {next : Next} :
    s.operations.lookup id = some op₀ → op = op₀.finishRefresh s.clock started result →
    OperationOrigin cfg request s s' id op (.finishRefresh id started result) next
  | canceled {op₀ : OperationState} {handle : Handle} {next : Next} : handle.id = id →
    s.operations.lookup id = some op₀ →
    op₀.admits handle (cfg.tokenFingerprint request.bearerToken) → op = op₀.cancel s.clock →
    OperationOrigin cfg request s s' id op (.cancelOperation handle) next
  | inserted {session : SessionState} {started : Instant} {secret : Uuid} {kind : TaskKind}
      {sec : Section} {next : Next} : sec.insertsFor = some session → id ∉ s.usedIds →
    id ∈ s'.usedIds → s.operations.len < cfg.maxOperations → kind.queryId = id →
    s'.tasks = s.tasks ++ [Task.spawn kind] →
    op = newOperation cfg request s session started secret →
    OperationOrigin cfg request s s' id op sec next

theorem SectionRun.operation_origin {op : OperationState}
    (h : SectionRun cfg F i request s sec s' next) (hop : s'.operations.lookup id = some op) :
    OperationOrigin cfg request s s' id op sec next := by
  cases h with
  | taken hop₀ hst hfin =>
    rcases HashMap.lookup_modify_eq_some.mp hop with ⟨rfl, _, -, rfl⟩ | ⟨_, hop⟩
    · exact .taken hop₀ hst hfin rfl
    · exact .kept hop
  | refreshed =>
    rcases HashMap.lookup_modify_eq_some.mp hop with ⟨rfl, op₀, hop₀, rfl⟩ | ⟨_, hop⟩
    · exact .refreshed hop₀ rfl
    · exact .kept hop
  | canceled hop₀ hadm =>
    rcases HashMap.lookup_modify_eq_some.mp hop with ⟨rfl, op₀, hop', rfl⟩ | ⟨_, hop⟩
    · cases hop₀.symm.trans hop'
      exact .canceled rfl hop₀ hadm rfl
    · exact .kept hop
  | insertedGetColumns hid hlen | insertedExecuteStatement hid hlen =>
    rcases HashMap.lookup_insert_eq_some.mp hop with ⟨rfl, rfl⟩ | ⟨_, hop⟩
    · exact .inserted rfl hid List.mem_cons_self hlen rfl rfl rfl
    · exact .kept hop
  | cleanupOperations | removedOperations => exact .kept (s.lookup_retainOperations.mp hop).1
  | removedUnreturned | removedOperation => exact .kept (s.lookup_eraseOperation.mp hop).2
  | _ => exact .kept hop

/-- Which section takes an operation out of the map. -/
inductive OperationRemoval (cfg : ServiceConfig) (request : RpcRequest) (s : ServiceState)
    (id : String) (op : OperationState) : Section → Prop
  | session {sec : Section} : op.sessionId ∈ sec.removesFor →
    OperationRemoval cfg request s id op sec
  | expired {now : Instant} {expired : List String} :
    op.isExpired now cfg.completedOperationTtl →
    OperationRemoval cfg request s id op (.cleanupOperations now expired)
  | unreturned {message : String} :
    OperationRemoval cfg request s id op (.removeUnreturnedOperation id message)
  | closed {handle : Handle} : handle.id = id →
    op.admits handle (cfg.tokenFingerprint request.bearerToken) →
    OperationRemoval cfg request s id op (.removeOperation handle)

theorem SectionRun.operation_removal {op : OperationState}
    (h : SectionRun cfg F i request s sec s' next) (hop : s.operations.lookup id = some op)
    (hnone : s'.operations.lookup id = none) : OperationRemoval cfg request s id op sec := by
  have erased {k : String} (hnone : (s.eraseOperation k).operations.lookup id = none) : k = id := by
    by_contra hk
    rw [s.lookup_eraseOperation.mpr ⟨Ne.symm hk, hop⟩] at hnone
    cases hnone
  have dropped {keep : OperationState → Bool}
      (hnone : (s.retainOperations keep).operations.lookup id = none) : keep op = false := by
    by_contra hk
    rw [s.lookup_retainOperations.mpr ⟨hop, Bool.not_eq_false _ ▸ hk⟩] at hnone
    cases hnone
  cases h with
  | taken | refreshed | canceled => exact (HashMap.lookup_modify_ne_none hop hnone).elim
  | insertedGetColumns | insertedExecuteStatement =>
    exact (HashMap.lookup_insert_ne_none hop hnone).elim
  | cleanupOperations =>
    have hk := dropped hnone
    simp only [Bool.not_eq_false', Bool.or_eq_true, List.contains_iff_mem] at hk
    exact hk.elim (fun hk => .session hk) (fun hk => .expired hk)
  | removedOperations =>
    have hk := dropped hnone
    exact .session (List.mem_singleton.mpr (not_not.mp (of_decide_eq_false hk)))
  | removedUnreturned => cases erased hnone; exact .unreturned
  | removedOperation hop' hadm =>
    have hk := erased hnone
    rw [hk, hop] at hop'
    cases hop'
    exact .closed hk hadm
  | _ => exact absurd (hop.symm.trans hnone) (Option.some_ne_none _)

/-! ## Sessions -/

/-- Where the session stored as `id` after a section comes from. -/
inductive SessionOrigin (cfg : ServiceConfig) (request : RpcRequest) (s s' : ServiceState)
    (id : String) (session : SessionState) : Section → Prop
  | kept {sec : Section} : s.sessions.lookup id = some session →
    SessionOrigin cfg request s s' id session sec
  | touched {session₀ : SessionState} {reply : Reply} : s.sessions.lookup id = some session₀ →
    session = { session₀ with lastAccess := s.clock } →
    SessionOrigin cfg request s s' id session (.touchSession id reply)
  | admitted {session₀ : SessionState} {method : SessionMethod} {handle : Handle} {now : Instant} :
    handle.id = id → s.sessions.lookup id = some session₀ →
    session₀.isExpired now cfg.idleSessionTimeout = false →
    session₀.admits handle (cfg.tokenFingerprint request.bearerToken) →
    session = { session₀ with lastAccess := now } →
    SessionOrigin cfg request s s' id session (.sessionFor method handle now)
  | opened {catalog schema : Option String} {types : List Int32} {uuid secret : Uuid} :
    id = uuid.toString → id ∉ s.usedIds → id ∈ s'.usedIds → s.sessions.len < cfg.maxSessions →
    session = newSession cfg request s catalog schema uuid secret →
    SessionOrigin cfg request s s' id session (.openSession catalog schema types)

theorem SectionRun.session_origin {session : SessionState}
    (h : SectionRun cfg F i request s sec s' next)
    (hsession : s'.sessions.lookup id = some session) :
    SessionOrigin cfg request s s' id session sec := by
  cases h with
  | opened hid hlen =>
    rcases HashMap.lookup_insert_eq_some.mp hsession with ⟨rfl, rfl⟩ | ⟨_, hsession⟩
    · exact .opened rfl hid List.mem_cons_self hlen rfl
    · exact .kept hsession
  | cleanupSessions | removedSession | sessionExpired =>
    exact .kept (HashMap.lookup_eraseAll_eq_some.mp hsession).2
  | sessionAdmitted hmem hexp hadm =>
    rcases HashMap.lookup_modify_eq_some.mp hsession with ⟨rfl, session₀, hmem', rfl⟩ | ⟨_, h⟩
    · cases hmem.symm.trans hmem'
      exact .admitted rfl hmem hexp hadm rfl
    · exact .kept h
  | touched =>
    rcases HashMap.lookup_modify_eq_some.mp hsession with ⟨rfl, session₀, hmem, rfl⟩ | ⟨_, h⟩
    · exact .touched hmem rfl
    · exact .kept h
  | removedUnreturned | removedOperation => exact .kept (by simpa using hsession)
  | _ => exact .kept hsession

/-- A session leaves the map in a section of the call that goes on to remove its operations. -/
theorem SectionRun.session_removal {session : SessionState}
    (h : SectionRun cfg F i request s sec s' next)
    (hsession : s.sessions.lookup id = some session) (hnone : s'.sessions.lookup id = none) :
    ∃ sec' ∈ next.rest, id ∈ sec'.removesFor := by
  have erased {ids : List String} (hnone : (HashMap.eraseAll s.sessions ids).lookup id = none) :
      id ∈ ids := by
    by_contra hid
    rw [HashMap.lookup_eraseAll_eq_some.mpr ⟨hid, hsession⟩] at hnone
    cases hnone
  cases h with
  | opened => exact (HashMap.lookup_insert_ne_none hsession hnone).elim
  | cleanupSessions => exact ⟨_, List.mem_singleton_self _, erased hnone⟩
  | removedSession | sessionExpired => exact ⟨_, List.mem_singleton_self _, erased hnone⟩
  | sessionAdmitted | touched => exact (HashMap.lookup_modify_ne_none hsession hnone).elim
  | removedUnreturned | removedOperation =>
    rw [ServiceState.eraseOperation_sessions, hsession] at hnone
    cases hnone
  | _ => exact absurd (hsession.symm.trans hnone) (Option.some_ne_none _)

theorem SectionRun.clock (h : SectionRun cfg F i request s sec s' next) : s'.clock = s.clock := by
  cases h with
  | removedUnreturned | removedOperation => exact ServiceState.eraseOperation_clock
  | _ => rfl

/-- The ids used after a section: at most one is new. -/
theorem SectionRun.usedIds (h : SectionRun cfg F i request s sec s' next) :
    s'.usedIds = s.usedIds ∨ ∃ uuid : Uuid, s'.usedIds = uuid.toString :: s.usedIds := by
  cases h with
  | removedUnreturned | removedOperation => exact .inl ServiceState.eraseOperation_usedIds
  | opened | insertedGetColumns | insertedExecuteStatement => exact .inr ⟨_, rfl⟩
  | _ => exact .inl rfl

theorem SectionRun.usedIds_subset (h : SectionRun cfg F i request s sec s' next) :
    s.usedIds ⊆ s'.usedIds := by
  rcases h.usedIds with h | ⟨_, h⟩
  · rw [h]; exact List.Subset.refl _
  · rw [h]; exact List.subset_cons_self ..

end Sections

/-! ## Tasks -/

/-- A task goes on as `t'`: it keeps its closure, and its result once it is finished. -/
structure Task.Later (t t' : Task) : Prop where
  kind : t'.kind = t.kind
  finished : ∀ result, t.status = .finished result → t'.status = .finished result

theorem Task.Later.rfl {t : Task} : t.Later t := ⟨Eq.refl _, fun _ h => h⟩

theorem Task.Later.trans {t t' t'' : Task} (h : t.Later t') (h' : t'.Later t'') : t.Later t'' :=
  ⟨h'.kind.trans h.kind, fun result hr => h'.finished result (h.finished result hr)⟩

/-- The tasks `ts` go on as `ts'`. -/
def TasksLater (ts ts' : List Task) : Prop :=
  ∀ (n : TaskId) (t : Task), ts[n]? = some t → ∃ t', ts'[n]? = some t' ∧ t.Later t'

theorem TasksLater.rfl {ts : List Task} : TasksLater ts ts := fun _ _ h => ⟨_, h, .rfl⟩

theorem TasksLater.trans {ts ts' ts'' : List Task} (h : TasksLater ts ts')
    (h' : TasksLater ts' ts'') : TasksLater ts ts'' := by
  intro n t ht
  obtain ⟨t', ht', hl⟩ := h n t ht
  obtain ⟨t'', ht'', hl'⟩ := h' n t' ht'
  exact ⟨t'', ht'', hl.trans hl'⟩

theorem TasksLater.append {ts ts' : List Task} : TasksLater ts (ts ++ ts') := by
  intro n t ht
  exact ⟨t, List.getElem?_append_left (List.getElem?_eq_some_iff.mp ht).1 |>.trans ht, .rfl⟩

theorem TasksLater.modify {ts : List Task} {n : TaskId} {f : Task → Task}
    (hf : ∀ t, ts[n]? = some t → t.Later (f t)) : TasksLater ts (ts.modify n f) := by
  intro m t ht
  rw [List.getElem?_modify, ht]
  by_cases h : n = m
  · subst h
    exact ⟨f t, by simp, hf t ht⟩
  · exact ⟨t, by simp [h], .rfl⟩

/-- A task but for its abort flag. -/
def Task.core (t : Task) : Task := { t with aborted := false }

theorem TasksLater.of_core {ts ts' : List Task} (h : ts'.map Task.core = ts.map Task.core) :
    TasksLater ts ts' := by
  intro n t ht
  have hn : (ts'[n]?).map Task.core = some t.core := by
    rw [← List.getElem?_map, h, List.getElem?_map, ht, Option.map_some]
  obtain ⟨t', ht', hcore⟩ := Option.map_eq_some_iff.mp hn
  have hkind : t'.core.kind = t.core.kind := congrArg Task.kind hcore
  have hstatus : t'.core.status = t.core.status := congrArg Task.status hcore
  exact ⟨t', ht', hkind, fun result hr => hstatus.trans hr⟩

theorem OperationState.abort_core {op : OperationState} {ts : List Task} :
    (op.abort ts).map Task.core = ts.map Task.core := by
  unfold OperationState.abort
  split
  case h_1 task _ =>
    refine List.ext_getElem? fun n => ?_
    rw [List.getElem?_map, List.getElem?_map, List.getElem?_modify]
    cases ts[n]? with
    | none => rfl
    | some t => by_cases h : task = n <;> simp [h, Task.core, Task.abort]
  case h_2 => rfl

theorem abortOperations_core {ops : List OperationState} {ts : List Task} :
    (abortOperations ops ts).map Task.core = ts.map Task.core := by
  induction ops generalizing ts with
  | nil => rfl
  | cons op ops ih => exact ih.trans OperationState.abort_core

theorem ServiceState.eraseOperation_core {s : ServiceState} {id : String} :
    (s.eraseOperation id).tasks.map Task.core = s.tasks.map Task.core := by
  unfold eraseOperation
  split
  · exact OperationState.abort_core
  · rfl

/-- A section aborts tasks, or spawns one. -/
theorem SectionRun.tasks {cfg : ServiceConfig} {F : Formatting} {i : ThreadId}
    {request : RpcRequest} {s s' : ServiceState} {sec : Section} {next : Next}
    (h : SectionRun cfg F i request s sec s' next) :
    s'.tasks.map Task.core = s.tasks.map Task.core ∨ ∃ kind : TaskKind, kind.queryId ∉ s.usedIds ∧
      kind.queryId ∈ s'.usedIds ∧ s'.tasks = s.tasks ++ [Task.spawn kind] := by
  cases h with
  | insertedGetColumns hid => exact .inr ⟨.getColumns .., hid, List.mem_cons_self, rfl⟩
  | insertedExecuteStatement hid =>
    exact .inr ⟨.executeStatement .., hid, List.mem_cons_self, rfl⟩
  | cleanupOperations | removedOperations => exact .inl abortOperations_core
  | removedUnreturned | removedOperation => exact .inl ServiceState.eraseOperation_core
  | canceled => exact .inl OperationState.abort_core
  | _ => exact .inl rfl

theorem SectionRun.tasksLater {cfg : ServiceConfig} {F : Formatting} {i : ThreadId}
    {request : RpcRequest} {s s' : ServiceState} {sec : Section} {next : Next}
    (h : SectionRun cfg F i request s sec s' next) : TasksLater s.tasks s'.tasks := by
  rcases h.tasks with h | ⟨kind, -, -, h⟩
  · exact .of_core h
  · rw [h]; exact .append

theorem Task.kind_of_core {t t' : Task} (h : t'.core = t.core) : t'.kind = t.kind :=
  show t'.core.kind = t.core.kind from congrArg Task.kind h

theorem Task.status_of_core {t t' : Task} (h : t'.core = t.core) : t'.status = t.status :=
  show t'.core.status = t.core.status from congrArg Task.status h

theorem Task.outcome_of_core {t t' : Task} (h : t'.core = t.core) : t'.outcome = t.outcome :=
  show t'.core.outcome = t.core.outcome from congrArg Task.outcome h

theorem Task.isFinished_iff {t : Task} : t.isFinished ↔ ∃ result, t.status = .finished result := by
  unfold isFinished
  split
  case h_1 h => exact ⟨fun _ => ⟨_, h⟩, fun _ => rfl⟩
  case h_2 h => exact ⟨nofun, fun ⟨result, hst⟩ => absurd hst (h result)⟩

/-- Where a task comes from that is there after a section. -/
theorem SectionRun.task_origin {cfg : ServiceConfig} {F : Formatting} {i : ThreadId}
    {request : RpcRequest} {s s' : ServiceState} {sec : Section} {next : Next} {n : TaskId}
    {t' : Task} (h : SectionRun cfg F i request s sec s' next) (ht' : s'.tasks[n]? = some t') :
    (∃ t, s.tasks[n]? = some t ∧ t'.core = t.core) ∨
      ∃ kind : TaskKind, n = s.tasks.length ∧ t' = Task.spawn kind ∧ kind.queryId ∉ s.usedIds ∧
        kind.queryId ∈ s'.usedIds := by
  rcases h.tasks with h | ⟨kind, hnew, hused, h⟩
  · have hn : (s.tasks[n]?).map Task.core = some t'.core := by
      rw [← List.getElem?_map, ← h, List.getElem?_map, ht', Option.map_some]
    obtain ⟨t, ht, hcore⟩ := Option.map_eq_some_iff.mp hn
    exact .inl ⟨t, ht, hcore.symm⟩
  · rw [h] at ht'
    rcases Nat.lt_or_ge n s.tasks.length with hlt | hge
    · rw [List.getElem?_append_left hlt] at ht'
      exact .inl ⟨t', ht', rfl⟩
    · rw [List.getElem?_append_right hge] at ht'
      obtain ⟨hn, rfl⟩ : n - s.tasks.length = 0 ∧ Task.spawn kind = t' := by
        simpa [List.getElem?_singleton] using ht'
      exact .inr ⟨kind, Nat.le_antisymm (Nat.le_of_sub_eq_zero hn) hge, rfl, hnew, hused⟩

def TaskKind.isGetColumns : TaskKind → Bool
  | getColumns .. => true
  | executeStatement .. => false

/-- Everything the environment can do. -/
inductive EnvStep (s : ServiceState) : ServiceState → Prop
  | tick {clock : Instant} : s.clock ≤ clock → EnvStep s { s with clock }
  | task {task : TaskId} {t : Task} {f : Task → Task} : s.tasks[task]? = some t → t.Later (f t) →
    (f t).outcome = t.outcome →
    (∀ completion, (f t).status = .storing completion → t.status = (f t).status ∨
      t.kind.isGetColumns) →
    EnvStep s (s.setTask task f)
  | stored {task : TaskId} {t : Task} {completion : OperationCompletion} :
    s.tasks[task]? = some t → t.status = .storing completion →
    EnvStep s (s.storeCompletion task t completion)

theorem serviceEnv_cases {s s' : ServiceState} {event : ServiceEnv}
    (h : serviceEnv s event = some s') : EnvStep s s' := by
  unfold serviceEnv at h
  split at h
  case h_1 =>
    obtain ⟨clock, hclock, rfl⟩ := Option.map_eq_some_iff.mp h
    refine .tick ?_
    unfold Instant.checkedAdd at hclock
    split at hclock
    · cases hclock; exact Nat.le_add_right ..
    · cases hclock
  case h_2 =>
    split at h
    case h_1 ht => cases h; exact .task ht ⟨rfl, nofun⟩ rfl nofun
    case h_2 => cases h
  case h_3 =>
    split at h
    case h_1 ht => cases h; exact .task ht ⟨rfl, nofun⟩ rfl fun _ _ => .inr rfl
    case h_2 => cases h
  case h_4 =>
    split at h
    case h_1 ht => cases h; exact .stored ht rfl
    case h_2 => cases h
  case h_5 =>
    split at h
    case h_1 t ht =>
      split at h
      case isTrue hb =>
        cases h
        refine .task ht ⟨rfl, fun result hr => ?_⟩ rfl nofun
        simp [Task.isFinished, hr] at hb
      case isFalse => cases h
    case h_2 => cases h
  case h_6 =>
    split at h
    case h_1 ht => cases h; exact .task ht ⟨rfl, nofun⟩ rfl nofun
    case h_2 => cases h

end HarborSql
