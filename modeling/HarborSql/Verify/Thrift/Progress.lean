import HarborSql.Theory.Progress
import HarborSql.Verify.Thrift.Capacity

/-! Every call of the service comes to its end: after a bounded number of its own sections, and
with nothing to wait for but the task of its own metadata query. -/

namespace HarborSql

/-! ## How much is left of a call -/

def SessionMethod.rank : SessionMethod → Nat
  | getColumns _ => 4
  | getInfo _ | executeStatement _ => 1

theorem SessionMethod.rank_pos : ∀ method : SessionMethod, 0 < method.rank
  | getColumns _ | getInfo _ | executeStatement _ => Nat.succ_pos _

/-- The most sections that a section leads to, itself among them, while there are at most `max`
operations. -/
def Section.rank (max : Nat) : Section → Nat
  | listFinished => 3 * max + 1
  | takeFinishedTask _ | cleanupClock | insertGetColumns .. => 3
  | awaitTask .. | cleanupSessions _ | removeSession _ | awaitOperationCompletion ..
  | withOperation .. | readHistory _ => 2
  | getColumnsClock .. => 4
  | sessionClock method _ => method.rank + 2
  | sessionFor method _ _ => method.rank + 1
  | finishRefresh .. | cleanupOperations .. | openSession .. | removeOperationsForSession ..
  | insertExecuteStatement .. | removeUnreturnedOperation .. | touchSession .. | removeOperation _
  | cancelOperation _ => 1

def Section.ranks (max : Nat) (sections : List Section) : Nat :=
  (sections.map (Section.rank max)).sum

def RpcThread.rank (max : Nat) (k : RpcThread) : Nat := Section.ranks max k.sections

section Sections
variable {cfg : ServiceConfig} {F : Formatting} {i : ThreadId} {request : RpcRequest}
variable {s s' : ServiceState} {sec : Section} {next : Next} {rest : List Section} {max : Nat}

theorem Section.ranks_cons : ranks max (sec :: rest) = sec.rank max + ranks max rest := by
  rw [ranks, List.map_cons, List.sum_cons, ranks]

theorem Section.ranks_append (sections sections' : List Section) :
    ranks max (sections ++ sections') = ranks max sections + ranks max sections' := by
  rw [ranks, List.map_append, List.sum_append, ranks, ranks]

theorem listsFinished_length {ids : List String} (h : listsFinished s ids) :
    ids.length ≤ s.operations.len := by
  have hperm := List.isPerm_iff.mp h
  rw [hperm.length_eq, List.length_map]
  exact List.length_filter_le _ _

theorem ranks_takeFinishedTask (ids : List String) :
    Section.ranks max (ids.map .takeFinishedTask) = 3 * ids.length := by
  induction ids with
  | nil => rfl
  | cons id ids ih =>
    rw [List.map_cons, Section.ranks_cons, ih, List.length_cons, Section.rank]
    omega

/-- A section leads to fewer others than before. -/
theorem SectionRun.ranks_lt (h : SectionRun cfg F i request s sec s' next)
    (hlen : s.operations.len ≤ max) : Section.ranks max next.rest < sec.rank max := by
  cases h with
  | listFinished hids =>
    rw [Next.rest, ranks_takeFinishedTask]
    have := listsFinished_length hids
    simp only [Section.rank]
    omega
  | @sessionAdmitted method =>
    cases method <;>
      simp [afterSession, Next.rest, Section.ranks, Section.rank, SessionMethod.rank]
  | @sessionExpired method => exact Nat.lt_succ_of_le method.rank_pos
  | sessionClock => exact Nat.lt_succ_self _
  | _ => simp [Next.rest, Section.ranks, Section.rank]

theorem RpcRequest.rank_thread_le :
    (request.thread rest next).rank max ≤ Section.ranks max next.rest + Section.ranks max rest := by
  cases next with
  | sections => exact (Section.ranks_append _ _).le
  | reply => exact Nat.zero_le _

theorem RpcRequest.rank_start_le : (request.thread [] request.start).rank max ≤ 3 * max + 10 := by
  obtain ⟨token, seqid, call⟩ := request
  cases call with
  | notACall | unsupported => exact Nat.zero_le _
  | openSession | cleanupExpired | queryHistory =>
    simp [start, thread, RpcThread.rank, HarborSql.cleanupExpired, Section.ranks, Section.rank]
  | closeSession handle | closeOperation handle | cancelOperation handle =>
    cases handle <;>
      simp [start, thread, RpcThread.rank, HarborSql.cleanupExpired, Section.ranks, Section.rank]
  | operation method handle =>
    cases handle <;>
      simp [start, thread, RpcThread.rank, HarborSql.cleanupExpired, Section.ranks, Section.rank]
  | session method handle =>
    cases method <;>
      simp [start, thread, RpcThread.rank, HarborSql.cleanupExpired, Section.ranks, Section.rank,
        SessionMethod.rank]

end Sections

section Runs
variable {cfg : ServiceConfig} {F : Formatting} {clock : Instant}
variable {c c' : Conf ServiceState RpcThread} {i : ThreadId} {k l : RpcThread}

theorem serviceProgram_exec {s s' : ServiceState} {input : RpcInput}
    (h : (serviceProgram cfg F).exec s i k input = some (s', l)) :
    ∃ sec rest next, k.sections = sec :: rest ∧ SectionRun cfg F i k.request s sec s' next ∧
      l = k.request.thread rest next := by
  dsimp only [serviceProgram] at h
  split at h
  case h_1 => cases h
  case h_2 sec rest hsec =>
    obtain ⟨⟨s', next⟩, hrun, h⟩ := Option.map_eq_some_iff.mp h
    cases h
    exact ⟨sec, rest, next, hsec, runSection_cases hrun, rfl⟩

/-- Each section that a call takes is one less that it can take. -/
theorem serviceRanked : (serviceProgram cfg F).Ranked (serviceMachine cfg F clock).Reachable
    (RpcThread.rank cfg.maxOperations) (3 * cfg.maxOperations + 10) where
  start _ h := by
    cases h
    exact RpcRequest.rank_start_le
  exec hc _ h := by
    obtain ⟨sec, rest, next, hsec, hrun, rfl⟩ := serviceProgram_exec h
    refine RpcRequest.rank_thread_le.trans_lt ?_
    rw [RpcThread.rank, hsec, Section.ranks_cons]
    exact Nat.add_lt_add_right (hrun.ranks_lt (serviceLimits hc).2) _
  drop _ _ h := by
    obtain ⟨sec, rest, -, -, -, rfl⟩ := serviceProgram_drop h
    exact Nat.zero_le _

/-! ## What a call waits for -/

/-- The call waits for the task of the operation that it has inserted. -/
def RpcThread.Waits (s : ServiceState) (k : RpcThread) : Prop :=
  ∃ (operationId secret : Uuid) (task : TaskId) (t : Task) (rest : List Section),
    k.sections = .awaitOperationCompletion operationId secret task :: rest ∧
      s.tasks[task]? = some t ∧ t.kind.queryId = operationId.toString ∧ t.isFinished = false

/-- The call has ended, or waits. -/
def RpcThread.Stopped (s : ServiceState) (k : RpcThread) : Prop := k.sections = [] ∨ k.Waits s

theorem receivedOutcome_eq_none {tasks : List Task} {task : TaskId} {t : Task}
    (ht : tasks[task]? = some t) (h : receivedOutcome tasks task = none) :
    t.isFinished = false := by
  rw [receivedOutcome, ht, Option.bind_some] at h
  split at h
  · cases h
  · split at h
    · cases h
    · exact Bool.not_eq_true _ ▸ ‹_›

/-- The next section of a call is able to run, if an id is left for an insertion. -/
theorem Section.WF.can_run {s : ServiceState} {request : RpcRequest} {sec : Section}
    (h : sec.WF s i request)
    (hid : (∃ id : Uuid, id.toString ∉ s.usedIds) ∨ sec.inserts = false) :
    (∃ input, (runSection cfg F i request s sec input).isSome) ∨
      ∃ operationId secret task t, sec = .awaitOperationCompletion operationId secret task ∧
        s.tasks[task]? = some t ∧ t.kind.queryId = operationId.toString ∧ t.isFinished = false := by
  cases sec with
  | listFinished =>
    have hlists : listsFinished s ((s.operations.entries.filter fun e =>
        e.2.hasFinishedTask s.tasks).map (·.1)) := List.isPerm_iff.mpr (.refl _)
    exact .inl ⟨.order _, by rw [runSection, if_pos hlists]; rfl⟩
  | awaitTask id started task =>
    obtain ⟨t, result, ht, -, hst⟩ := h
    obtain ⟨kind, status, aborted, outcome, alive⟩ := t
    obtain rfl : status = .finished result := hst
    exact .inl ⟨.run, by rw [runSection, joinResult, ht]; rfl⟩
  | openSession | insertGetColumns | insertExecuteStatement =>
    obtain ⟨id, hid⟩ := hid.resolve_right Bool.noConfusion
    exact .inl ⟨.uuids id id, by rw [runSection, if_neg hid]; rfl⟩
  | awaitOperationCompletion operationId secret task =>
    obtain ⟨⟨t, ht, hkind⟩, -⟩ := h
    rcases hout : receivedOutcome s.tasks task with _ | outcome
    · exact .inr ⟨_, _, _, t, rfl, ht, hkind, receivedOutcome_eq_none ht hout⟩
    · exact .inl ⟨.run, by rw [runSection, hout]; rfl⟩
  | sessionClock method handle => cases handle <;> exact .inl ⟨.run, rfl⟩
  | _ => exact .inl ⟨.run, rfl⟩

/-! ## What a call returns -/

/-- The call has returned, or has still a section that does. -/
def RpcThread.Owes (k : RpcThread) : Prop :=
  k.reply.isSome ∨ k.request.call = .cleanupExpired ∨ ∃ sec ∈ k.sections, sec.isCleanup = false

theorem SectionRun.owes {request : RpcRequest} {s s' : ServiceState} {sec : Section} {next : Next}
    (h : SectionRun cfg F i request s sec s' next) (hsec : sec.isCleanup = false) :
    (∃ reply, next = .reply reply) ∨ ∃ sec' ∈ next.rest, sec'.isCleanup = false := by
  cases h with
  | @sessionAdmitted method =>
    cases method with
    | getInfo => exact .inl ⟨_, rfl⟩
    | getColumns | executeStatement => exact .inr ⟨_, List.mem_singleton_self _, rfl⟩
  | removedSession | sessionClock | sessionExpired | getColumnsClock | insertedGetColumns
  | completionFailed | operationFound | historyFound =>
    exact .inr ⟨_, List.mem_singleton_self _, rfl⟩
  | listFinished | taken | notTaken | awaited | refreshed | cleanupClock | cleanupSessions
  | cleanupOperations => cases hsec
  | _ => exact .inl ⟨_, rfl⟩

theorem RpcThread.Owes.following {s s' : ServiceState} {sec : Section} {next : Next}
    {rest : List Section} (hk : k.Owes) (hsec : k.sections = sec :: rest) (hreply : k.reply = none)
    (h : SectionRun cfg F i k.request s sec s' next) : (k.request.thread rest next).Owes := by
  cases next with
  | reply reply => exact .inl rfl
  | sections new =>
    rcases hk with hk | hk | ⟨sec', hsec', hown⟩
    · rw [hreply] at hk
      cases hk
    · exact .inr (.inl hk)
    · rw [hsec] at hsec'
      rcases List.mem_cons.mp hsec' with rfl | hsec'
      · rcases h.owes hown with ⟨_, h⟩ | ⟨sec', hsec', hown⟩
        · cases h
        · exact .inr (.inr ⟨sec', List.mem_append_left _ hsec', hown⟩)
      · exact .inr (.inr ⟨sec', List.mem_append_right _ hsec', hown⟩)

theorem RpcRequest.start_owes (request : RpcRequest) :
    (request.thread [] request.start).Owes := by
  obtain ⟨token, seqid, call⟩ := request
  cases call with
  | notACall | unsupported => exact .inl rfl
  | cleanupExpired => exact .inr (.inl rfl)
  | openSession | queryHistory =>
    exact .inr (.inr (by simp [start, thread, HarborSql.cleanupExpired, Section.isCleanup]))
  | closeSession handle | closeOperation handle | cancelOperation handle | operation _ handle =>
    cases handle with
    | none => exact .inl rfl
    | some =>
      exact .inr (.inr (by simp [start, thread, HarborSql.cleanupExpired, Section.isCleanup]))
  | session method handle =>
    cases method <;>
      exact .inr (.inr (by simp [start, thread, HarborSql.cleanupExpired, Section.isCleanup]))

/-- A call that has not been dropped returns at its end. -/
theorem serviceOwes (hc : (serviceMachine cfg F clock).Reachable c) (hk : c.threads i = some k)
    (hsec : k.sections ≠ []) : k.Owes := by
  have open_ {request : RpcRequest} {rest : List Section} {next : Next}
      (h : (request.thread rest next).Owes) : (request.thread rest next).sections = [] ∨
        (request.thread rest next).Owes ∧ (request.thread rest next).reply = none := by
    cases next with
    | reply => exact .inl rfl
    | sections => exact .inr ⟨h, rfl⟩
  have hinv := serviceThreads (P := fun k => k.sections = [] ∨ k.Owes ∧ k.reply = none) hc
    (fun request => open_ request.start_owes) (fun hk hsec hrun => ?_) (fun _ => .inl rfl) hk
  · exact (hinv.resolve_left hsec).1
  · obtain ⟨howes, hreply⟩ := hk.resolve_left (hsec ▸ List.cons_ne_nil _ _)
    exact open_ (howes.following hsec hreply hrun)

/-! ## Calls come to their end -/

theorem SectionRun.usedIds_of_inserts {request : RpcRequest} {s s' : ServiceState} {sec : Section}
    {next : Next} (h : SectionRun cfg F i request s sec s' next) (hins : sec.inserts = false) :
    s'.usedIds = s.usedIds := by
  cases h with
  | opened | insertedGetColumns | insertedExecuteStatement => cases hins
  | removedUnreturned | removedOperation => exact ServiceState.eraseOperation_usedIds
  | _ => rfl

/-- What holds of call `i` while it runs alone. -/
structure RunsOn (cfg : ServiceConfig) (F : Formatting) (clock : Instant) (i : ThreadId)
    (c : Conf ServiceState RpcThread) : Prop where
  reachable : (serviceMachine cfg F clock).Reachable c
  owes : ∀ k, c.threads i = some k → k.Owes
  /-- An id is left for its insertion, or it is past it. -/
  fresh : (∃ id : Uuid, id.toString ∉ c.shared.usedIds) ∨ PastInsertion i c

theorem RunsOn.exec {input : RpcInput} (H : RunsOn cfg F clock i c)
    (hs : (serviceMachine cfg F clock).step c (.exec i input) = some c') :
    RunsOn cfg F clock i c' := by
  have hc' : (serviceMachine cfg F clock).Reachable c' := .step H.reachable trivial hs
  have hpast (h : PastInsertion i c) : PastInsertion i c' := h.step hs
  cases serviceStep_cases hs with
  | @exec _ _ k sec rest s next hk hsec hrun =>
    refine ⟨hc', fun k' hk' => ?_, ?_⟩
    · rw [Conf.set_threads_self] at hk'
      obtain rfl := Option.some.inj hk'
      have hreply := (serviceReturned H.reachable hk).resolve_right (hsec ▸ List.cons_ne_nil _ _)
      exact (H.owes k hk).following hsec hreply hrun
    · rcases H.fresh with ⟨id, hid⟩ | h
      · cases hins : sec.inserts with
        | true =>
          have hshape := serviceShape H.reachable hk
          have hcleanup : sec.isCleanup = false := by cases sec <;> first | rfl | cases hins
          rw [hsec] at hshape
          refine .inr ⟨_, Conf.set_threads_self, fun sec' hsec' => ?_⟩
          rw [hshape.rest_eq_nil hcleanup] at hsec'
          exact hrun.afterInsertion (.inr hins) sec'
            ((RpcRequest.thread_sections hsec').resolve_right List.not_mem_nil)
        | false => exact .inl ⟨id, by rwa [Conf.set_shared, hrun.usedIds_of_inserts hins]⟩
      · exact .inr (hpast h)

/-- The next section of a call that runs alone. -/
theorem RunsOn.can_run (H : RunsOn cfg F clock i c) (hk : c.threads i = some k)
    (hstopped : ¬ k.Stopped c.shared) :
    ∃ input, ((serviceProgram cfg F).exec c.shared i k input).isSome := by
  obtain ⟨hne, hwaits⟩ := not_or.mp hstopped
  obtain ⟨sec, rest, hsec⟩ := List.exists_cons_of_ne_nil hne
  have hmem : sec ∈ k.sections := hsec ▸ List.mem_cons_self
  have hid : (∃ id : Uuid, id.toString ∉ c.shared.usedIds) ∨ sec.inserts = false := by
    refine H.fresh.imp_right fun ⟨k', hk', hafter⟩ => ?_
    obtain rfl := Option.some.inj (hk.symm.trans hk')
    have hsec := hafter sec hmem
    cases sec <;> first | rfl | cases hsec
  have hrun : (∃ input, (runSection cfg F i k.request c.shared sec input).isSome) ∨ _ :=
    ((serviceWF H.reachable).2 i k hk sec hmem).can_run hid
  rcases hrun with ⟨input, hsome⟩ | ⟨operationId, secret, task, t, rfl, h⟩
  · refine ⟨input, ?_⟩
    simp only [serviceProgram, hsec, Option.isSome_map]
    exact hsome
  · exact absurd ⟨operationId, secret, task, t, rest, hsec, h⟩ hwaits

/-- A call takes at most `3 * max_operations + 10` sections, whatever the others do. By itself,
while an id is left, it comes to its return, unless its metadata query has still to run. -/
theorem callsEnd :
    (∀ as, (serviceMachine cfg F clock).run (serviceMachine cfg F clock).init as = some c →
      as.countP (·.isExecOf i) ≤ 3 * cfg.maxOperations + 10) ∧
    ((serviceMachine cfg F clock).Reachable c → ∀ k, c.threads i = some k → k.sections ≠ [] →
      (∃ id : Uuid, id.toString ∉ c.shared.usedIds) →
      ∃ inputs : List RpcInput, inputs.length ≤ 3 * cfg.maxOperations + 10 ∧ ∃ c' k',
        (serviceMachine cfg F clock).run c (inputs.map fun input => .exec i input) = some c' ∧
        c'.threads i = some k' ∧
        (k'.sections = [] ∧ (k'.reply.isSome ∨ k'.request.call = .cleanupExpired) ∨
          k'.Waits c'.shared)) := by
  have hstep {c : Conf ServiceState RpcThread} {a c'}
      (hc : (serviceMachine cfg F clock).Reachable c)
      (hs : (serviceProgram cfg F).step c a = some c') :
      (serviceMachine cfg F clock).Reachable c' := .step hc trivial hs
  constructor
  · intro as hrun
    have hranked : (serviceProgram cfg F).Ranked (serviceMachine cfg F clock).Reachable _ _ :=
      serviceRanked
    exact (Nat.le_add_right _ _).trans (hranked.countP_le hstep .refl hrun)
  · intro hc k hk hsec hid
    have H : RunsOn cfg F clock i c :=
      ⟨hc, fun k' hk' => Option.some.inj (hk.symm.trans hk') ▸ serviceOwes hc hk hsec, .inl hid⟩
    have hranked : (serviceProgram cfg F).Ranked (RunsOn cfg F clock i) _ _ :=
      serviceRanked.mono fun _ h => h.reachable
    obtain ⟨inputs, hlen, c', k', hrun, H', hk', hstopped⟩ :=
      hranked.stops RunsOn.exec RunsOn.can_run H hk
    have hle := serviceRanked.remaining_le (i := i) (fun _ h => h) hc
    rw [Program.remaining_of_some hk] at hle
    refine ⟨inputs, hlen.trans hle, c', k', hrun, hk', hstopped.imp_left fun hnil => ⟨hnil, ?_⟩⟩
    rcases H'.owes k' hk' with h | h | ⟨sec, hsec, -⟩
    · exact .inl h
    · exact .inr h
    · rw [hnil] at hsec
      cases hsec

/-- A session that is being opened. -/
theorem callsEnd_openSession : ∃ inputs : List RpcInput, inputs.length ≤ 13 ∧
    ∃ c c' k', testMachine.run testMachine.init ((openSessionRun 0 1 2).take 2) = some c ∧
      testMachine.run c (inputs.map fun input => .exec 0 input) = some c' ∧
      c'.threads 0 = some k' ∧ (k'.sections = [] ∧ (k'.reply.isSome ∨
        k'.request.call = .cleanupExpired) ∨ k'.Waits c'.shared) := by
  have hc := Machine.reachable_run testMachine ((openSessionRun 0 1 2).take 2) rfl
  obtain ⟨inputs, hlen, c', k', hrun, hk', hend⟩ :=
    (callsEnd (i := 0)).2 hc ⟨⟨"token-a", 1, .openSession none none []⟩,
      [.cleanupClock, .openSession none none []], none⟩ rfl (List.cons_ne_nil _ _)
      ⟨testUuid 1, List.not_mem_nil⟩
  exact ⟨inputs, hlen, _, c', k', rfl, hrun, hk', hend⟩

end Runs
end HarborSql
