import HarborSql.Verify.Thrift.Capacity

/-! Every operation that is `Refreshing` has a call that will store the outcome of its task. -/

namespace HarborSql

/-- The operation that a section refreshes, once its task was taken. -/
def Section.refreshes : Section → Option String
  | .awaitTask id _ _ | .finishRefresh id _ _ => some id
  | _ => none

/-- Call `i` holds the join handle of a task of the operation `id`, which returned `result`, or
that result itself, and has yet to call `finish_refresh`. -/
def HoldsTask (c : Conf ServiceState RpcThread) (id : String) (started : Instant) (i : ThreadId)
    (result : Except JoinError OperationCompletion) : Prop :=
  ∃ (k : RpcThread) (rest : List Section) (task : TaskId) (t : Task),
    c.threads i = some k ∧ c.shared.tasks[task]? = some t ∧ t.kind.queryId = id ∧
    t.status = .finished result ∧
    (k.sections = .awaitTask id started task :: rest ∨
      k.sections = .finishRefresh id started result :: rest)

/-- Every `Refreshing` operation has such a call, and once that call has run at most two more
sections, the operation has the state that the outcome of its task gives. -/
def RefreshesRun (cfg : ServiceConfig) (F : Formatting) (c : Conf ServiceState RpcThread) : Prop :=
  ∀ id op started, c.shared.operations.lookup id = some op → op.state = .refreshing started →
    ∃ i result, HoldsTask c id started i result ∧
      ∃ (n : Nat) (d : Conf ServiceState RpcThread), n ≤ 2 ∧
        Machine.run (serviceMachine cfg F 0) c (List.replicate n (.exec i .run)) = some d ∧
        d.shared.operations.lookup id =
          some { op with state := .fromJoinResult c.shared.clock started result }

/-- No call is dropped while it refreshes an operation that is stored as `Refreshing`. -/
def NoRefreshDropped (c : Conf ServiceState RpcThread) :
    Action RpcRequest RpcInput ServiceEnv → Prop
  | .drop i => ∀ k sec rest id op started, c.threads i = some k → k.sections = sec :: rest →
      sec.refreshes = some id → c.shared.operations.lookup id = some op →
      op.state ≠ .refreshing started
  | _ => True

section Steps
variable {cfg : ServiceConfig} {F : Formatting} {i : ThreadId} {request : RpcRequest}
variable {s s' : ServiceState} {sec : Section} {next : Next} {id : String}

/-- An operation is `Refreshing` since this section took its task, or was before. -/
theorem OperationOrigin.refreshing {op : OperationState} {started : Instant}
    (h : OperationOrigin cfg request s s' id op sec next) (hst : op.state = .refreshing started) :
    s.operations.lookup id = some op ∨ ∃ task, sec = .takeFinishedTask id ∧
      next = .sections [.awaitTask id started task] := by
  cases h with
  | kept hop => exact .inl hop
  | taken hop _ _ heq =>
    rw [heq] at hst
    cases hst
    exact .inr ⟨_, rfl, rfl⟩
  | @refreshed op₀ started' result next hop heq =>
    rcases op₀.finishRefresh_cases s.clock started' result with
      ⟨hsame, -⟩ | ⟨_, -, hnew⟩
    · rw [heq, hsame]; exact .inl hop
    · rw [heq, hnew] at hst
      have hact := congrArg OperationExecution.isActive hst
      rw [OperationExecution.fromJoinResult_isActive] at hact
      cases hact
  | @canceled op₀ handle next _ hop _ heq =>
    rcases op₀.cancel_cases s.clock with ⟨hsame, -⟩ | ⟨_, _, _, -, hnew⟩
    · rw [heq, hsame]; exact .inl hop
    · rw [heq, hnew] at hst; cases hst
  | inserted _ _ _ _ _ _ heq => rw [heq] at hst; cases hst

end Steps

theorem joinResult_eq_some {tasks : List Task} {task : TaskId} {t : Task}
    {result : Except JoinError OperationCompletion} (ht : tasks[task]? = some t)
    (hst : t.status = .finished result) : joinResult tasks task = some result := by
  obtain ⟨kind, status, aborted, outcome, alive⟩ := t
  cases hst
  unfold joinResult
  rw [ht]

section Runs
variable {cfg : ServiceConfig} {F : Formatting} {clock : Instant}
variable {c c' : Conf ServiceState RpcThread} {a : Action RpcRequest RpcInput ServiceEnv}

/-- The invariant: a `Refreshing` operation has a call that holds its task. -/
def RefreshesHeld (c : Conf ServiceState RpcThread) : Prop :=
  ∀ id op started, c.shared.operations.lookup id = some op → op.state = .refreshing started →
    ∃ i result, HoldsTask c id started i result

theorem HoldsTask.mono {id : String} {started : Instant} {i : ThreadId}
    {result : Except JoinError OperationCompletion} (h : HoldsTask c id started i result)
    (hthreads : c'.threads i = c.threads i) (htasks : TasksLater c.shared.tasks c'.shared.tasks) :
    HoldsTask c' id started i result := by
  obtain ⟨k, rest, task, t, hk, ht, hid, hst, hsec⟩ := h
  obtain ⟨t', ht', hl⟩ := htasks task t ht
  exact ⟨k, rest, task, t', hthreads.trans hk, ht', by rw [hl.kind, hid], hl.finished _ hst, hsec⟩

/-- `finish_refresh` leaves no operation `Refreshing`. -/
theorem SectionRun.not_refreshing {i : ThreadId} {request : RpcRequest} {s s' : ServiceState}
    {next : Next} {id : String} {started : Instant} {result : Except JoinError OperationCompletion}
    (h : SectionRun cfg F i request s (.finishRefresh id started result) s' next)
    {op : OperationState} {started' : Instant} (hop : s'.operations.lookup id = some op) :
    op.state ≠ .refreshing started' := by
  intro hst
  cases h with
  | refreshed =>
    have hop : (s.operations.lookup id).map (·.finishRefresh s.clock started result) = some op :=
      HashMap.lookup_modify_self.symm.trans hop
    obtain ⟨op₀, -, rfl⟩ := Option.map_eq_some_iff.mp hop
    rcases op₀.finishRefresh_cases s.clock started result with
      ⟨hsame, hne⟩ | ⟨_, -, hnew⟩
    · exact hne started' (hsame ▸ hst)
    · rw [hnew] at hst
      have hact := congrArg OperationExecution.isActive hst
      rw [OperationExecution.fromJoinResult_isActive] at hact
      cases hact

/-- A call that holds a task goes on to hold its result. -/
theorem HoldsTask.exec {id : String} {started : Instant} {i : ThreadId}
    {result : Except JoinError OperationCompletion} {k : RpcThread} {sec : Section}
    {rest : List Section} {s : ServiceState} {next : Next} (h : HoldsTask c id started i result)
    (hk : c.threads i = some k) (hsec : k.sections = sec :: rest)
    (hrun : SectionRun cfg F i k.request c.shared sec s next) :
    HoldsTask (c.set s i (k.request.thread rest next)) id started i result ∨
      sec = .finishRefresh id started result := by
  obtain ⟨k', rest', task, t, hk', ht, hid, hst, hheld⟩ := h
  cases hk.symm.trans hk'
  rcases hheld with hheld | hheld <;> cases hsec.symm.trans hheld
  · cases hrun with
    | awaited hres =>
      cases hres.symm.trans (joinResult_eq_some ht hst)
      exact .inl ⟨_, rest, task, t, Conf.set_threads_self, ht, hid, hst, .inr rfl⟩
  · exact .inr rfl

theorem RefreshesHeld.step (H : RefreshesHeld c) (HS : c.shared.WF)
    (hok : NoRefreshDropped c a) (hs : (serviceMachine cfg F clock).step c a = some c') :
    RefreshesHeld c' := by
  intro id op started hop hst
  cases serviceStep_cases hs with
  | @start i request hi =>
    obtain ⟨j, result, hj⟩ := H id op started hop hst
    have hne : j ≠ i := by
      rintro rfl
      obtain ⟨k, _, _, _, hk, _⟩ := hj
      cases hi.symm.trans hk
    exact ⟨j, result, hj.mono (Conf.set_threads_of_ne hne) .rfl⟩
  | @exec i input k sec rest s next hk hsec hrun =>
    rcases (hrun.operation_origin hop).refreshing hst with hop₀ | ⟨task, rfl, rfl⟩
    · obtain ⟨j, result, hj⟩ := H id op started hop₀ hst
      by_cases hij : j = i
      · subst hij
        rcases hj.exec hk hsec hrun with hj' | rfl
        · exact ⟨j, result, hj'⟩
        · exact absurd hst (hrun.not_refreshing hop)
      · exact ⟨j, result, hj.mono (Conf.set_threads_of_ne hij) hrun.tasksLater⟩
    · cases hrun with
      | taken hop₀ hst₀ hfin =>
        obtain ⟨t, ht, hid⟩ := HS.running hop₀ hst₀
        unfold isFinishedTask at hfin
        rw [ht] at hfin
        obtain ⟨result, hres⟩ := Task.isFinished_iff.mp hfin
        exact ⟨i, result, _, rest, _, t, Conf.set_threads_self, ht, hid, hres, .inl rfl⟩
  | @drop i k sec rest hk hsec =>
    have hop₀ : c.shared.operations.lookup id = some op := by
      rwa [Conf.set_shared, dropSection_operations] at hop
    obtain ⟨j, result, hj⟩ := H id op started hop₀ hst
    have hne : j ≠ i := by
      rintro rfl
      obtain ⟨k', rest', task, t, hk', ht, hid, hres, hheld⟩ := hj
      cases hk.symm.trans hk'
      have hrefresh : sec.refreshes = some id := by
        rcases hheld with hheld | hheld <;> cases hsec.symm.trans hheld <;> rfl
      exact hok k sec rest id op started hk hsec hrefresh hop₀ hst
    exact ⟨j, result, hj.mono (Conf.set_threads_of_ne hne) dropSection_env.tasksLater⟩
  | env he =>
    rcases he.operation_origin hop with hop₀ | ⟨_, _, _, op₀, _, _, _, _, rfl⟩
    · obtain ⟨j, result, hj⟩ := H id op started hop₀ hst
      exact ⟨j, result, hj.mono rfl he.tasksLater⟩
    · have hact := congrArg OperationExecution.isActive hst
      rw [OperationExecution.fromCompletion_isActive] at hact
      cases hact

theorem OperationState.finishRefresh_of_refreshing {op : OperationState} {now started : Instant}
    {result : Except JoinError OperationCompletion} (h : op.state = .refreshing started) :
    op.finishRefresh now started result =
      { op with state := .fromJoinResult now started result } := by
  unfold finishRefresh
  rw [h]

/-- The call that holds the task stores its outcome. -/
theorem HoldsTask.stores {id : String} {started : Instant} {i : ThreadId}
    {result : Except JoinError OperationCompletion} {op : OperationState}
    (h : HoldsTask c id started i result) (hop : c.shared.operations.lookup id = some op)
    (hst : op.state = .refreshing started) : ∃ (n : Nat) (d : Conf ServiceState RpcThread), n ≤ 2 ∧
      Machine.run (serviceMachine cfg F 0) c (List.replicate n (.exec i .run)) = some d ∧
      d.shared.operations.lookup id =
        some { op with state := .fromJoinResult c.shared.clock started result } := by
  -- the last section
  have last (c' : Conf ServiceState RpcThread) {k : RpcThread} {rest : List Section}
      (hshared : c'.shared = c.shared) (hk : c'.threads i = some k)
      (hsec : k.sections = .finishRefresh id started result :: rest) :
      ∃ d, (serviceMachine cfg F 0).step c' (.exec i .run) = some d ∧
        d.shared.operations.lookup id =
          some { op with state := .fromJoinResult c.shared.clock started result } := by
    refine ⟨_, serviceStep_exec hk hsec rfl, ?_⟩
    rw [hshared, ← OperationState.finishRefresh_of_refreshing hst]
    show (HashMap.modify c.shared.operations id _).lookup id = _
    rw [HashMap.lookup_modify_self, hop, Option.map_some]
  obtain ⟨k, rest, task, t, hk, ht, -, hres, hsec | hsec⟩ := h
  · have hfirst : (serviceMachine cfg F 0).step c (.exec i .run) = some (c.set c.shared i
        (k.request.thread rest (.sections [.finishRefresh id started result]))) := by
      refine serviceStep_exec hk hsec ?_
      rw [runSection, joinResult_eq_some ht hres, Option.map_some]
    obtain ⟨d, hd, hlookup⟩ := last (c.set c.shared i
      (k.request.thread rest (.sections [.finishRefresh id started result]))) rfl
      Conf.set_threads_self rfl
    exact ⟨2, d, Nat.le_refl _, by simp [Machine.run, hfirst, hd], hlookup⟩
  · obtain ⟨d, hd, hlookup⟩ := last c rfl hk hsec
    exact ⟨1, d, by decide, by simp [Machine.run, hd], hlookup⟩

theorem refreshesRun (hc : (serviceMachine cfg F clock).ReachableBy NoRefreshDropped c) :
    RefreshesRun cfg F c := by
  have H : RefreshesHeld c := by
    refine Machine.ReachableBy.invariant_of (fun c hc => serviceWF hc.reachable) hc
      (fun id op started hop => by cases hop) ?_
    intro c a c' HWF _ H hok hs
    exact H.step HWF.1 hok hs
  intro id op started hop hst
  obtain ⟨i, result, hheld⟩ := H id op started hop hst
  exact ⟨i, result, hheld, hheld.stores hop hst⟩

end Runs

/-- A statement that returned, and a call that has just taken its task. -/
def takenRun : List (Action RpcRequest RpcInput ServiceEnv) :=
  openSessionRun 0 1 2 ++ executeStatementRun 1 (testHandle 1 2) ++
    [.exec 1 (.uuids (testUuid 3) (testUuid 4)), .env (.executed 0 ⟨5, .ok .empty⟩),
      .start 2 ⟨"token-a", 3, .operation .getOperationStatus (some (testHandle 3 4))⟩,
      .exec 2 (.order [(testHandle 3 4).id]), .exec 2 .run]

theorem refreshesRun_taken : ∃ c : Conf ServiceState RpcThread,
    (∃ op, c.shared.operations.lookup (testHandle 3 4).id = some op ∧ op.state = .refreshing 0) ∧
    RefreshesRun testService testFormatting c := by
  have h : testMachine.ReachableBy NoRefreshDropped _ :=
    Machine.reachesBy_run takenRun (by simp [takenRun, openSessionRun, executeStatementRun,
      NoRefreshDropped]) rfl
  exact ⟨_, ⟨_, rfl, rfl⟩, refreshesRun h⟩

/-- The client of that call goes away before its task is awaited. -/
theorem exists_not_refreshesRun : ∃ c : Conf ServiceState RpcThread,
    testMachine.Reachable c ∧ ¬RefreshesRun testService testFormatting c := by
  have h := Machine.reachable_run testMachine (takenRun ++ [.drop 2]) rfl
  refine ⟨_, h, fun H => ?_⟩
  obtain ⟨i, result, ⟨k, rest, task, t, hk, -, -, -, hsec⟩, -⟩ :=
    H (testHandle 3 4).id _ 0 rfl rfl
  have hidle : k.sections = [] := by
    match i with
    | 0 | 1 | 2 => cases hk; rfl
    | i + 3 => cases hk
  rw [hidle] at hsec
  cases hsec with
  | inl hsec => cases hsec
  | inr hsec => cases hsec

end HarborSql
