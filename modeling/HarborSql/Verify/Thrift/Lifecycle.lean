import HarborSql.Verify.Thrift.Invariant

/-! The states an operation goes through, and what its clients see of them. -/

namespace HarborSql

/-- How the state of a stored operation may change. -/
inductive OperationExecution.Moves : OperationExecution → OperationExecution → Prop
  | stay {state : OperationExecution} : Moves state state
  | take {started : Instant} {task : TaskId} : Moves (.running started task) (.refreshing started)
  | finish {state state' : OperationExecution} : state.isActive → state'.isActive = false →
    Moves state state'

/-- Clients only present handles that they were sent. -/
def PresentsIssued (c : Conf ServiceState RpcThread) :
    Action RpcRequest RpcInput ServiceEnv → Prop
  | .start _ request => ∀ handle, request.call.handle = some handle → handle ∈ c.shared.issued
  | _ => True

/-- The operation of a metadata query whose task has not ended is running it, and its handle
was not sent to anyone. -/
structure OperationInv (s : ServiceState) : Prop where
  issued : ∀ {handle}, handle ∈ s.issued → handle.id ∈ s.usedIds
  unfinished : ∀ {n : TaskId} {t : Task}, s.tasks[n]? = some t → t.kind.isGetColumns →
    t.isFinished = false → (∀ handle ∈ s.issued, handle.id ≠ t.kind.queryId) ∧
      ∀ op, s.operations.lookup t.kind.queryId = some op → ∃ started, op.state = .running started n

section Sections
variable {cfg : ServiceConfig} {F : Formatting} {i : ThreadId} {request : RpcRequest}
variable {s s' : ServiceState} {sec : Section} {next : Next} {id : String}

/-- A handle is sent when its id is drawn, or when its metadata query has succeeded. -/
theorem SectionRun.issued (h : SectionRun cfg F i request s sec s' next) {handle : Handle}
    (hissued : handle ∈ s'.issued) : handle ∈ s.issued ∨
      handle.id ∉ s.usedIds ∧ handle.id ∈ s'.usedIds ∧
        (∀ kind : TaskKind, s'.tasks = s.tasks ++ [Task.spawn kind] → kind.isGetColumns = false) ∨
      ∃ operationId secret task, sec = .awaitOperationCompletion operationId secret task ∧
        handle.id = operationId.toString ∧ receivedOutcome s.tasks task = some .succeeded ∧
        s'.usedIds = s.usedIds ∧ s'.tasks = s.tasks := by
  cases h with
  | opened hid =>
    rcases List.mem_cons.mp hissued with rfl | h
    · refine .inr (.inl ⟨hid, List.mem_cons_self, fun kind hkind => ?_⟩)
      exact absurd (congrArg List.length hkind)
        (by rw [List.length_append]; exact (Nat.lt_succ_self s.tasks.length).ne)
    · exact .inl h
  | insertedExecuteStatement hid =>
    rcases List.mem_cons.mp hissued with rfl | h
    · refine .inr (.inl ⟨hid, List.mem_cons_self, fun kind hkind => ?_⟩)
      have htask := List.singleton_inj.mp (List.append_cancel_left hkind)
      rw [← show (Task.spawn kind).kind = kind from rfl, ← htask]
      rfl
    · exact .inl h
  | completionSucceeded hout =>
    rcases List.mem_cons.mp hissued with rfl | h
    · exact .inr (.inr ⟨_, _, _, rfl, rfl, hout, rfl, rfl⟩)
    · exact .inl h
  | removedUnreturned | removedOperation =>
    rw [ServiceState.eraseOperation_issued] at hissued
    exact .inl hissued
  | _ => exact .inl hissued

theorem SectionRun.issued_subset (h : SectionRun cfg F i request s sec s' next) :
    s.issued ⊆ s'.issued := by
  cases h with
  | opened | insertedExecuteStatement | completionSucceeded => exact List.subset_cons_self ..
  | removedUnreturned | removedOperation =>
    rw [ServiceState.eraseOperation_issued]
    exact List.Subset.refl _
  | _ => exact List.Subset.refl _

/-- Success comes from a task that has ended. -/
theorem ServiceState.WF.finished_of_succeeded (H : s.WF) {task : TaskId} {t : Task}
    (ht : s.tasks[task]? = some t) (h : receivedOutcome s.tasks task = some .succeeded) :
    t.isFinished := by
  unfold receivedOutcome at h
  rw [ht, Option.bind_some] at h
  split at h
  case h_1 hout => exact H.outcome ht (hout ▸ rfl)
  case h_2 =>
    split at h
    · assumption
    · cases h

/-- The state moves of a section. -/
theorem OperationOrigin.moves {op op' : OperationState}
    (h : OperationOrigin cfg request s s' id op' sec next) (H : s.WF)
    (hop : s.operations.lookup id = some op) :
    op.state.Moves op'.state ∧ op' = { op with state := op'.state } := by
  cases h with
  | kept hop' =>
    cases hop.symm.trans hop'
    exact ⟨.stay, rfl⟩
  | taken hop' hst _ heq =>
    cases hop.symm.trans hop'
    rw [heq, hst]
    exact ⟨.take, rfl⟩
  | @refreshed op₀ started result next hop' heq =>
    cases hop.symm.trans hop'
    rcases op.finishRefresh_cases s.clock started result with
      ⟨hsame, -⟩ | ⟨started', hst, hnew⟩
    · rw [heq, hsame]
      exact ⟨.stay, rfl⟩
    · rw [heq, hnew]
      exact ⟨.finish (hst ▸ rfl) OperationExecution.fromJoinResult_isActive, rfl⟩
  | @canceled op₀ handle next _ hop' _ heq =>
    cases hop.symm.trans hop'
    rcases op.cancel_cases s.clock with ⟨hsame, -⟩ | ⟨_, _, _, hst, hnew⟩
    · rw [heq, hsame]
      exact ⟨.stay, rfl⟩
    · rw [heq, hnew]
      exact ⟨.finish (hst ▸ rfl) rfl, rfl⟩
  | inserted _ hnew => exact absurd (H.operations hop) hnew

theorem OperationInv.section (HO : OperationInv s) (H : s.WF) (hsec : sec.WF s i request)
    (hissued : ∀ handle, request.call.handle = some handle → handle ∈ s.issued)
    (h : SectionRun cfg F i request s sec s' next) : OperationInv s' where
  issued {handle} hhandle := by
    rcases h.issued hhandle with hold | ⟨-, hused, -⟩ | ⟨uuid, _, task, rfl, hid, -, -⟩
    · exact h.usedIds_subset (HO.issued hold)
    · exact hused
    · obtain ⟨⟨t, ht, htid⟩, -⟩ := hsec
      rw [hid, ← htid]
      exact h.usedIds_subset (H.taskIds ht)
  unfinished {n t'} ht' hkind hunf := by
    rcases h.task_origin ht' with ⟨t, ht, hcore⟩ | ⟨kind, rfl, rfl, hnew, -⟩
    · -- a task that was there
      have hk := Task.kind_of_core hcore
      have hunf₀ : t.isFinished = false := by
        unfold Task.isFinished at hunf ⊢
        rwa [Task.status_of_core hcore] at hunf
      obtain ⟨hno, hrunning⟩ := HO.unfinished ht (hk ▸ hkind) hunf₀
      rw [hk]
      constructor
      · intro handle hhandle heq
        rcases h.issued hhandle with hold | ⟨hfresh, -, -⟩ | ⟨uuid, _, task, rfl, hid, hout, -⟩
        · exact hno handle hold heq
        · exact hfresh (heq ▸ H.taskIds ht)
        · obtain ⟨⟨u, hu, huid⟩, -⟩ := hsec
          obtain rfl : n = task := H.taskUnique ht hu (by rw [huid, ← hid, heq])
          cases ht.symm.trans hu
          exact absurd (H.finished_of_succeeded ht hout) (by rw [hunf₀]; exact Bool.false_ne_true)
      · intro op hop
        cases h.operation_origin hop with
        | kept hop => exact hrunning op hop
        | @taken op₀ started task hop₀ hst hfin =>
          obtain ⟨started', hst'⟩ := hrunning op₀ hop₀
          cases hst.symm.trans hst'
          unfold isFinishedTask at hfin
          rw [ht] at hfin
          cases hunf₀.symm.trans hfin
        | @refreshed op₀ started result next hop₀ heq =>
          obtain ⟨started', hst'⟩ := hrunning op₀ hop₀
          rcases op₀.finishRefresh_cases s.clock started result
            with ⟨hsame, -⟩ | ⟨_, hst, -⟩
          · rw [heq, hsame]
            exact ⟨started', hst'⟩
          · cases hst.symm.trans hst'
        | canceled hid =>
          have hcall : request.call = .cancelOperation (some _) := hsec
          exact absurd hid (hno _ (hissued _ (by rw [hcall]; rfl)))
        | inserted _ hfresh => exact absurd (H.taskIds ht) hfresh
    · -- the task that this section spawned
      refine ⟨fun handle hhandle heq => ?_, fun op hop => ?_⟩
      · rcases h.issued hhandle with hold | ⟨-, -, hexec⟩ | ⟨_, _, _, _, _, _, hused, htasks⟩
        · exact hnew (heq ▸ HO.issued hold)
        · rcases h.tasks with hsame | ⟨kind', -, -, htasks⟩
          · have hlen := congrArg List.length hsame
            rw [List.length_map, List.length_map] at hlen
            exact absurd (List.getElem?_eq_some_iff.mp ht').1 (by rw [hlen]; exact Nat.lt_irrefl _)
          · rw [htasks, List.getElem?_concat_length] at ht'
            cases ht'
            cases hkind.symm.trans (hexec kind htasks)
        · rw [htasks] at ht'
          exact absurd (List.getElem?_eq_some_iff.mp ht').1 (Nat.lt_irrefl _)
      · cases h.operation_origin hop with
        | kept hop | taken hop | refreshed hop | canceled _ hop => exact absurd (H.operations hop) hnew
        | inserted _ _ _ _ _ _ heq => rw [heq]; exact ⟨_, rfl⟩

theorem OperationInv.new {clock : Instant} : OperationInv (.new clock) where
  issued h := by cases h
  unfinished h := by cases h

theorem OperationInv.env (HO : OperationInv s) (H : s.WF) (h : EnvStep s s') : OperationInv s' where
  issued hhandle := by
    rw [h.issued] at hhandle
    rw [h.usedIds]
    exact HO.issued hhandle
  unfinished {n t'} ht' hkind hunf := by
    obtain ⟨t, ht, hl, -⟩ := h.task_origin ht'
    have hunf₀ : t.isFinished = false := by
      refine Bool.not_eq_true _ ▸ fun hfin => ?_
      obtain ⟨result, hres⟩ := Task.isFinished_iff.mp hfin
      cases hunf.symm.trans (Task.isFinished_iff.mpr ⟨result, hl.finished result hres⟩)
    rw [hl.kind] at hkind ⊢
    obtain ⟨hno, hrunning⟩ := HO.unfinished ht hkind hunf₀
    rw [h.issued]
    refine ⟨hno, fun op hop => ?_⟩
    rcases h.operation_origin hop with hop | ⟨task, u, completion, op₀, hu, hst, hid, -, -⟩
    · exact hrunning op hop
    · -- the task that stored its completion has ended
      obtain rfl : task = n := H.taskUnique hu ht hid
      obtain ⟨-, u', hu', hfin⟩ := hst
      cases hu'.symm.trans ht'
      cases hunf.symm.trans hfin

end Sections
/-! ## Replies -/

/-- What a call returns, or will return once it has touched the session. -/
def RpcThread.Replies (k : RpcThread) (reply : Reply) : Prop :=
  k.reply = some reply ∨ ∃ sessionId, .touchSession sessionId reply ∈ k.sections

/-- What a call asks about a stored operation: which operations admit it, and its answer at an
instant, or without such an operation. -/
structure Question where
  id : String
  admits : OperationState → Bool
  answer : Instant → OperationState → Reply
  refusal : Reply

/-- The calls of `with_operation`, and `query_history`. -/
def RpcCall.question (cfg : ServiceConfig) (F : Formatting) (bearerToken : String) (seqid : Int32) :
    RpcCall → Option Question
  | .operation method (some handle) => some
    { id := handle.id
      admits := fun op => op.admits handle (cfg.tokenFingerprint bearerToken)
      answer := fun _ op => .response (method.write F seqid handle.id op)
      refusal := .response (method.invalid seqid) }
  | .queryHistory queryId => some
    { id := queryId
      admits := fun op => op.tokenFingerprint = cfg.tokenFingerprint bearerToken
      answer := fun now op => .history
        (some ⟨queryId, op.state.historyStatus, op.state.durationMs now⟩)
      refusal := .history none }
  | _ => none

def RpcRequest.question (cfg : ServiceConfig) (F : Formatting) (request : RpcRequest) :
    Option Question :=
  request.call.question cfg F request.bearerToken request.seqid

/-- What a section makes a call return. -/
def Next.Replies (next : Next) (reply : Reply) : Prop :=
  next = .reply reply ∨ ∃ sessionId, .touchSession sessionId reply ∈ next.rest

section Replies
variable {cfg : ServiceConfig} {F : Formatting} {i : ThreadId} {request : RpcRequest}
variable {s s' : ServiceState} {sec : Section} {next : Next} {rest : List Section}
variable {q : Question} {reply : Reply}

/-- The answer about an operation that has ended does not change with time. -/
theorem RpcRequest.answer_of_ended {op : OperationState} {now now' : Instant}
    (hq : request.question cfg F = some q) (hended : op.state.isActive = false) :
    q.answer now op = q.answer now' op := by
  unfold question RpcCall.question at hq
  split at hq
  case h_1 => cases hq; rfl
  case h_2 =>
    cases hq
    have hduration : op.state.durationMs now = op.state.durationMs now' := by
      unfold OperationExecution.durationMs
      split <;> first | rfl | (rename_i h; rw [h] at hended; cases hended)
    exact congrArg (fun ms => Reply.history (some ⟨_, _, ms⟩)) hduration
  case h_3 => cases hq

theorem RpcRequest.thread_replies (h : (request.thread rest next).Replies reply) :
    next.Replies reply ∨ ∃ sessionId, .touchSession sessionId reply ∈ rest := by
  cases next with
  | sections new =>
    rcases h with h | ⟨sessionId, h⟩
    · cases h
    · exact (List.mem_append.mp h).imp (fun h => .inr ⟨sessionId, h⟩) fun h => ⟨sessionId, h⟩
  | reply =>
    rcases h with h | ⟨sessionId, h⟩
    · exact .inl (.inl (congrArg Next.reply (Option.some.inj h)))
    · cases h

/-- A call with a question does not return at once. -/
theorem RpcRequest.start_not_replies (hq : request.question cfg F = some q) :
    ∀ reply, ¬request.start.Replies reply := by
  intro reply hreply
  unfold question RpcCall.question at hq
  split at hq
  case h_1 hcall | h_2 hcall =>
    rw [start, hcall] at hreply
    rcases hreply with h | ⟨_, h⟩
    · cases h
    · simp [Next.rest, cleanupExpired] at h
  case h_3 => cases hq

/-- What a call with a question returns: the answer about the stored operation, if that one
admits it. -/
theorem SectionRun.replies (h : SectionRun cfg F i request s sec s' next)
    (hsec : sec.WF s i request) (hq : request.question cfg F = some q)
    (hreply : next.Replies reply) : (∃ sessionId, sec = .touchSession sessionId reply) ∨ s' = s ∧
      ((∃ op, s.operations.lookup q.id = some op ∧ q.admits op ∧ reply = q.answer s.clock op) ∨
        (∀ op, s.operations.lookup q.id = some op → q.admits op = false) ∧ reply = q.refusal) := by
  -- the other sections belong to calls that have no question
  have other {call : RpcCall} {P : Prop} (hsec : request.call = call)
      (hnone : call.question cfg F request.bearerToken request.seqid = none) : P := by
    rw [RpcRequest.question, hsec, hnone] at hq
    cases hq
  cases h with
  | listFinished =>
    rcases hreply with h | ⟨_, h⟩
    · cases h
    · obtain ⟨_, -, h⟩ := List.mem_map.mp h
      cases h
  | taken | awaited | cleanupClock | cleanupSessions =>
    rcases hreply with h | ⟨_, h⟩
    · cases h
    · cases List.mem_singleton.mp h
  | notTaken | refreshed | cleanupOperations => rcases hreply with h | ⟨_, h⟩ <;> cases h
  | operationFound hop hadm =>
    rw [RpcRequest.question, show request.call = _ from hsec] at hq
    cases hq
    rcases hreply with h | ⟨_, h⟩
    · cases h
    · cases List.mem_singleton.mp h
      exact .inr ⟨rfl, .inl ⟨_, hop, hadm, rfl⟩⟩
  | operationRefused hno =>
    rw [RpcRequest.question, show request.call = _ from hsec] at hq
    cases hq
    rcases hreply with h | ⟨_, h⟩
    · cases h
      exact .inr ⟨rfl, .inr ⟨hno, rfl⟩⟩
    · cases h
  | historyFound hop hfp =>
    rw [RpcRequest.question, show request.call = _ from hsec] at hq
    cases hq
    rcases hreply with h | ⟨_, h⟩
    · cases h
    · cases List.mem_singleton.mp h
      exact .inr ⟨rfl, .inl ⟨_, hop, decide_eq_true hfp, rfl⟩⟩
  | historyRefused hno =>
    rw [RpcRequest.question, show request.call = _ from hsec] at hq
    cases hq
    rcases hreply with h | ⟨_, h⟩
    · cases h
      exact .inr ⟨rfl, .inr ⟨fun op hop => decide_eq_false (hno op hop), rfl⟩⟩
    · cases h
  | touched =>
    rcases hreply with h | ⟨_, h⟩
    · cases h
      exact .inl ⟨_, rfl⟩
    · cases h
  | removedOperations =>
    obtain ⟨-, _, -, ⟨hcall', -⟩ | ⟨_, hcall', -⟩⟩ := hsec <;> exact other hcall' rfl
  | sessionClock | noSessionHandle => exact other hsec rfl
  | sessionExpired | sessionAdmitted | sessionRefused => exact other hsec.1 rfl
  | getColumnsClock | getColumnsFull | insertedGetColumns | executeStatementFull
  | insertedExecuteStatement => exact other hsec.2 rfl
  | completionSucceeded | completionFailed =>
    obtain ⟨-, _, hsec⟩ := hsec
    exact other hsec rfl
  | removedUnreturned =>
    obtain ⟨_, hsec⟩ := hsec
    exact other hsec rfl
  | _ => exact other hsec rfl

end Replies

/-! ## Runs -/

section Runs
variable {cfg : ServiceConfig} {F : Formatting} {clock : Instant}
variable {c c' d : Conf ServiceState RpcThread} {a : Action RpcRequest RpcInput ServiceEnv}
variable {id : String} {op op' : OperationState}

/-- The calls name handles that were sent. -/
def CallsIssued (c : Conf ServiceState RpcThread) : Prop :=
  ∀ i k, c.threads i = some k → ∀ handle, k.request.call.handle = some handle →
    handle ∈ c.shared.issued

theorem operationInv (hc : (serviceMachine cfg F clock).ReachableBy PresentsIssued c) :
    OperationInv c.shared ∧ CallsIssued c := by
  refine Machine.ReachableBy.invariant_of (I := fun c => OperationInv c.shared ∧ CallsIssued c)
    (fun c hc => serviceWF hc.reachable) hc
    ⟨.new, fun i k hk => by cases hk⟩ ?_
  intro c a c' ⟨HS, HL⟩ _ ⟨HO, HC⟩ hok hs
  have others {s : ServiceState} {i : ThreadId} {l : RpcThread}
      (hs : c.shared.issued ⊆ s.issued)
      (hl : ∀ handle, l.request.call.handle = some handle → handle ∈ s.issued) :
      CallsIssued (c.set s i l) := by
    intro j k hk handle hhandle
    rcases Conf.set_threads_eq_some.mp hk with ⟨rfl, rfl⟩ | ⟨_, hk⟩
    · exact hl handle hhandle
    · exact hs (HC j k hk handle hhandle)
  cases serviceStep_cases hs with
  | start =>
    refine ⟨HO, others (List.Subset.refl _) fun handle hhandle => hok handle ?_⟩
    rwa [RpcRequest.thread_request] at hhandle
  | exec hk hsec hrun =>
    have hwf := HL _ _ hk _ (hsec ▸ List.mem_cons_self)
    refine ⟨HO.section HS hwf (HC _ _ hk) hrun, others hrun.issued_subset ?_⟩
    intro handle hhandle
    rw [RpcRequest.thread_request] at hhandle
    exact hrun.issued_subset (HC _ _ hk handle hhandle)
  | drop hk =>
    have hissued := (dropSection_env : EnvStep c.shared (dropSection c.shared ‹Section›)).issued
    refine ⟨HO.env HS dropSection_env, others (by rw [hissued]; exact List.Subset.refl _) ?_⟩
    rw [hissued]
    exact fun handle hhandle => HC _ _ hk handle hhandle
  | env he =>
    exact ⟨HO.env HS he, fun i k hk handle hhandle => he.issued ▸ HC i k hk handle hhandle⟩

/-- A stored operation whose id was used before was stored before, and has made a move. -/
theorem operation_before (hc : (serviceMachine cfg F clock).ReachableBy PresentsIssued c)
    (hs : (serviceMachine cfg F clock).step c a = some c') (hid : id ∈ c.shared.usedIds)
    (hop' : c'.shared.operations.lookup id = some op') :
    ∃ op, c.shared.operations.lookup id = some op ∧ op.state.Moves op'.state ∧
      op' = { op with state := op'.state } := by
  obtain ⟨HS, -⟩ := serviceWF hc.reachable
  cases serviceStep_cases hs with
  | start => exact ⟨op', hop', .stay, rfl⟩
  | exec hk hsec hrun =>
    have horigin := hrun.operation_origin hop'
    cases horigin with
    | inserted _ hnew => exact absurd hid hnew
    | kept hop | taken hop | refreshed hop | canceled _ hop =>
      obtain ⟨hmoves, heq⟩ := (hrun.operation_origin hop').moves HS hop
      exact ⟨_, hop, hmoves, heq⟩
  | drop =>
    rw [Conf.set_shared, dropSection_operations] at hop'
    exact ⟨op', hop', .stay, rfl⟩
  | env he =>
    rcases he.operation_origin hop' with hop | ⟨task, t, completion, op, ht, ⟨hst, -⟩, rfl, hop, rfl⟩
    · exact ⟨op', hop, .stay, rfl⟩
    · -- the task that stores is running the operation
      obtain ⟨HO, -⟩ := operationInv hc
      have hunf : t.isFinished = false := by unfold Task.isFinished; rw [hst]
      obtain ⟨started, hrunning⟩ := (HO.unfinished ht (HS.storing ht hst) hunf).2 op hop
      exact ⟨op, hop, .finish (hrunning ▸ rfl) OperationExecution.fromCompletion_isActive, rfl⟩

/-- Nothing but `op` is or will be stored as `id`. -/
structure Settled (s : ServiceState) (id : String) (op : OperationState) : Prop where
  ended : op.state.isActive = false
  used : id ∈ s.usedIds
  same : ∀ op', s.operations.lookup id = some op' → op' = op

theorem serviceStep_usedIds (hs : (serviceMachine cfg F clock).step c a = some c') :
    c.shared.usedIds ⊆ c'.shared.usedIds := by
  cases serviceStep_cases hs with
  | start => exact List.Subset.refl _
  | exec _ _ hrun => exact hrun.usedIds_subset
  | drop => exact dropSection_env.later.usedIds
  | env he => exact he.later.usedIds

theorem OperationExecution.Moves.eq_of_ended {state state' : OperationExecution}
    (h : state.Moves state') (hended : state.isActive = false) : state' = state := by
  cases h with
  | stay => rfl
  | take => cases hended
  | finish hactive => cases hended.symm.trans hactive

theorem Settled.step (h : Settled c.shared id op)
    (hc : (serviceMachine cfg F clock).ReachableBy PresentsIssued c)
    (hs : (serviceMachine cfg F clock).step c a = some c') : Settled c'.shared id op where
  ended := h.ended
  used := serviceStep_usedIds hs h.used
  same op' hop' := by
    obtain ⟨op₀, hop, hmoves, heq⟩ := operation_before hc hs h.used hop'
    cases h.same op₀ hop
    rw [heq, hmoves.eq_of_ended h.ended]

/-- What a call returns is its refusal, or the answer about an operation that admits it, and if
that one had ended, nothing else is stored under its id. -/
def Observed (q : Question) (s : ServiceState) (reply : Reply) : Prop :=
  reply = q.refusal ∨ ∃ op now, reply = q.answer now op ∧ q.admits op ∧
    (op.state.isActive = false → Settled s q.id op)

/-- Everything that calls with a question return was observed. -/
def RepliesObserved (cfg : ServiceConfig) (F : Formatting) (c : Conf ServiceState RpcThread) : Prop :=
  ∀ i k q reply, c.threads i = some k → k.request.question cfg F = some q → k.Replies reply →
    Observed q c.shared reply

/-- Which calls return what after a step: the call that ran a section, or a call as before. -/
theorem serviceStep_replies {i : ThreadId} {k' : RpcThread} {q : Question} {reply : Reply}
    (hc : (serviceMachine cfg F clock).Reachable c)
    (hs : (serviceMachine cfg F clock).step c a = some c') (hk' : c'.threads i = some k')
    (hq : k'.request.question cfg F = some q) (hreply : k'.Replies reply) :
    (∃ k, c.threads i = some k ∧ k.request = k'.request ∧ k.Replies reply) ∨
    c'.shared = c.shared ∧ ((∃ op, c.shared.operations.lookup q.id = some op ∧ q.admits op ∧
        reply = q.answer c.shared.clock op) ∨
      (∀ op, c.shared.operations.lookup q.id = some op → q.admits op = false) ∧
        reply = q.refusal) := by
  cases serviceStep_cases hs with
  | @start j request hj =>
    rcases Conf.set_threads_eq_some.mp hk' with ⟨rfl, rfl⟩ | ⟨_, hk'⟩
    · rw [RpcRequest.thread_request] at hq
      rcases RpcRequest.thread_replies hreply with h | ⟨_, h⟩
      · cases (RpcRequest.start_not_replies hq) reply h
      · cases h
    · exact .inl ⟨k', hk', rfl, hreply⟩
  | @exec j input k sec rest s next hk hsec hrun =>
    rcases Conf.set_threads_eq_some.mp hk' with ⟨rfl, rfl⟩ | ⟨_, hk'⟩
    · rw [RpcRequest.thread_request] at hq
      rcases RpcRequest.thread_replies hreply with h | ⟨sessionId, h⟩
      · rcases hrun.replies ((serviceWF hc).2 _ k hk sec (hsec ▸ List.mem_cons_self)) hq h with
          ⟨sessionId, rfl⟩ | h
        · exact .inl ⟨k, hk, RpcRequest.thread_request.symm, .inr ⟨sessionId,
            hsec ▸ List.mem_cons_self⟩⟩
        · exact .inr h
      · exact .inl ⟨k, hk, RpcRequest.thread_request.symm, .inr ⟨sessionId,
          hsec ▸ List.mem_cons_of_mem _ h⟩⟩
    · exact .inl ⟨k', hk', rfl, hreply⟩
  | @drop j k sec rest hk =>
    rcases Conf.set_threads_eq_some.mp hk' with ⟨rfl, rfl⟩ | ⟨_, hk'⟩
    · rcases hreply with h | ⟨_, h⟩
      · exact .inl ⟨k, hk, rfl, .inl h⟩
      · cases h
    · exact .inl ⟨k', hk', rfl, hreply⟩
  | env => exact .inl ⟨k', hk', rfl, hreply⟩

theorem repliesObserved (hc : (serviceMachine cfg F clock).ReachableBy PresentsIssued c) :
    RepliesObserved cfg F c := by
  refine Machine.ReachableBy.invariant_of (fun c hc => hc) hc
    (fun i k q reply hk => by cases hk) ?_
  intro c a c' hc _ H _ hs i k' q reply hk' hq hreply
  rcases serviceStep_replies hc.reachable hs hk' hq hreply with
    ⟨k, hk, heq, h⟩ | ⟨hshared, ⟨op, hop, hadm, h⟩ | ⟨-, h⟩⟩
  · refine (H i k q reply hk (heq ▸ hq) h).imp_right ?_
    intro ⟨op, now, hanswer, hadm, hsettled⟩
    exact ⟨op, now, hanswer, hadm, fun hended => (hsettled hended).step hc hs⟩
  · refine .inr ⟨op, _, h, hadm, fun hended => ⟨hended, ?_, fun op' hop' => ?_⟩⟩
    · rw [hshared]
      exact (serviceWF hc.reachable).1.operations hop
    · rw [hshared, hop] at hop'
      exact (Option.some.inj hop').symm
  · exact .inl h

/-- Every call started since `c₀` that the operation `op` admits returns the answer about `op`,
unless the operation is not stored any more. -/
def LaterReplies (cfg : ServiceConfig) (F : Formatting) (c₀ : Conf ServiceState RpcThread)
    (id : String) (op : OperationState) (d : Conf ServiceState RpcThread) : Prop :=
  ∀ i k q reply, c₀.threads i = none → d.threads i = some k →
    k.request.question cfg F = some q → q.id = id → q.admits op → k.Replies reply →
    (∀ now, reply = q.answer now op) ∨ d.shared.operations.lookup id = none

theorem LaterReplies.step {c₀ : Conf ServiceState RpcThread} (H : LaterReplies cfg F c₀ id op c)
    (hsettled : Settled c.shared id op)
    (hc : (serviceMachine cfg F clock).ReachableBy PresentsIssued c)
    (hs : (serviceMachine cfg F clock).step c a = some c') : LaterReplies cfg F c₀ id op c' := by
  intro i k' q reply hi hk' hq hid hadm hreply
  have gone (h : c.shared.operations.lookup id = none) :
      c'.shared.operations.lookup id = none := by
    refine Option.eq_none_iff_forall_ne_some.mpr fun op' hop' => ?_
    obtain ⟨op₀, hop, -⟩ := operation_before hc hs hsettled.used hop'
    cases h.symm.trans hop
  rcases serviceStep_replies hc.reachable hs hk' hq hreply with
    ⟨k, hk, heq, h⟩ | ⟨-, ⟨op', hop', -, h⟩ | ⟨hno, -⟩⟩
  · exact (H i k q reply hi hk (heq ▸ hq) hid hadm h).imp_right gone
  · subst hid
    cases hsettled.same op' hop'
    exact .inl fun now => h.trans (RpcRequest.answer_of_ended hq hsettled.ended)
  · refine .inr (gone (Option.eq_none_iff_forall_ne_some.mpr fun op' hop' => ?_))
    subst hid
    cases hsettled.same op' hop'
    cases hadm.symm.trans (hno op hop')

/-- A stored operation only makes the moves of its life cycle; one that has ended stays as it is
while it is stored, and so does what its clients are told. -/
theorem lifecycle (hc : (serviceMachine cfg F clock).ReachableBy PresentsIssued c) :
    (∀ a c' id op op', (serviceMachine cfg F clock).step c a = some c' →
      c.shared.operations.lookup id = some op → c'.shared.operations.lookup id = some op' →
      op.state.Moves op'.state ∧ op' = { op with state := op'.state }) ∧
    (∀ id op, c.shared.operations.lookup id = some op → op.state.isActive = false →
      ∀ d, (serviceMachine cfg F clock).ReachesBy PresentsIssued c d →
        (∀ op', d.shared.operations.lookup id = some op' → op' = op) ∧
          LaterReplies cfg F c id op d) ∧
    RepliesObserved cfg F c := by
  refine ⟨?_, ?_, repliesObserved hc⟩
  · intro a c' id op op' hs hop hop'
    have hid := (serviceWF hc.reachable).1.operations hop
    obtain ⟨op₀, hop₀, h⟩ := operation_before hc hs hid hop'
    cases hop.symm.trans hop₀
    exact h
  · intro id op hop hended d hd
    have hsettled : Settled c.shared id op :=
      ⟨hended, (serviceWF hc.reachable).1.operations hop, fun op' hop' =>
        Option.some.inj (hop'.symm.trans hop)⟩
    have h := hd.invariant (I := fun d => (serviceMachine cfg F clock).ReachableBy PresentsIssued d ∧
        Settled d.shared id op ∧ LaterReplies cfg F c id op d)
      ⟨hc, hsettled, fun i k _ _ hi hk => by cases hi.symm.trans hk⟩
      fun d a d' ⟨hd, hsettled, hlater⟩ hok hs =>
        ⟨hd.step hok hs, hsettled.step hd hs, hlater.step hsettled hd hs⟩
    exact ⟨h.2.1.same, h.2.2⟩

end Runs
/-- A statement that has returned, and whose status was asked for. -/
theorem lifecycle_finished : ∃ (c : Conf ServiceState RpcThread) (op : OperationState),
    c.shared.operations.lookup (testHandle 3 4).id = some op ∧ op.state = .finished .empty 5 0 ∧
    (∀ d, testMachine.ReachesBy PresentsIssued c d →
      (∀ op', d.shared.operations.lookup (testHandle 3 4).id = some op' → op' = op) ∧
        LaterReplies testService testFormatting c (testHandle 3 4).id op d) := by
  have hopened : testMachine.ReachesBy PresentsIssued testMachine.init _ :=
    Machine.reachesBy_run (openSessionRun 0 1 2)
      (by simp [openSessionRun, PresentsIssued, RpcCall.handle]) rfl
  have hstart := hopened.step
    (a := .start 1 ⟨"token-a", 2, .session (.executeStatement "SELECT 1") (some (testHandle 1 2))⟩)
    (by rintro _ ⟨⟩; exact List.mem_cons_self) rfl
  have hfinished := hstart.trans <| Machine.reachesBy_run
    ((executeStatementRun 1 (testHandle 1 2)).tail ++ [.exec 1 (.uuids (testUuid 3) (testUuid 4)),
      .env (.executed 0 ⟨5, .ok .empty⟩)])
    (by simp [executeStatementRun, PresentsIssued]) rfl
  have hasked := hfinished.step
    (a := .start 2 ⟨"token-a", 3, .operation .getOperationStatus (some (testHandle 3 4))⟩)
    (by rintro _ ⟨⟩; exact List.mem_cons_self) rfl
  have hstored := hasked.trans <| Machine.reachesBy_run
    [.exec 2 (.order [(testHandle 3 4).id]), .exec 2 .run, .exec 2 .run, .exec 2 .run]
    (by simp [PresentsIssued]) rfl
  exact ⟨_, _, rfl, rfl, (lifecycle hstored).2.1 _ _ rfl rfl⟩

end HarborSql
