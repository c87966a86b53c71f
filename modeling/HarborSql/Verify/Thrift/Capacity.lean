import HarborSql.Verify.Thrift.Invariant

/-! The service keeps within its limits, and a request that meets a limit leaves nothing. -/

namespace HarborSql

/-! ## The shape of a call -/

/-- The sections of `cleanup_expired` and `refresh_operation`. -/
def Section.isCleanup : Section → Bool
  | .listFinished | .takeFinishedTask .. | .awaitTask .. | .finishRefresh .. | .cleanupClock
  | .cleanupSessions .. | .cleanupOperations .. => true
  | _ => false

/-- Whether a section inserts an entry, unless the map is full. -/
def Section.inserts : Section → Bool
  | .openSession .. | .insertGetColumns .. | .insertExecuteStatement .. => true
  | _ => false

/-- The sections of `GetColumns` after its insertion. -/
def Section.afterInsertion : Section → Bool
  | .awaitOperationCompletion .. | .removeUnreturnedOperation .. => true
  | _ => false

/-- Only the last section of a call is its own: those before it clean up. -/
def Shape (sections : List Section) : Prop := ∀ sec ∈ sections.dropLast, sec.isCleanup

section Sections
variable {cfg : ServiceConfig} {F : Formatting} {i : ThreadId} {request : RpcRequest}
variable {s s' : ServiceState} {sec : Section} {next : Next} {rest : List Section}

theorem Shape.rest_eq_nil (h : Shape (sec :: rest)) (hsec : sec.isCleanup = false) : rest = [] := by
  cases rest with
  | nil => rfl
  | cons sec' rest => exact absurd (h sec List.mem_cons_self) (by simp [hsec])

theorem Shape.tail (h : Shape (sec :: rest)) : Shape rest := by
  cases rest with
  | nil => exact List.forall_mem_nil _
  | cons sec' rest => exact fun sec hsec => h sec (List.mem_cons_of_mem _ hsec)

theorem Shape.append {pre : List Section} (hpre : ∀ sec ∈ pre, sec.isCleanup) (h : Shape rest) :
    Shape (pre ++ rest) := by
  cases rest with
  | nil => exact fun sec hsec => hpre sec (List.append_nil pre ▸ List.dropLast_subset _ hsec)
  | cons sec rest =>
    intro sec' hsec'
    rw [List.dropLast_append_cons] at hsec'
    exact (List.mem_append.mp hsec').elim (hpre sec') (h sec')

theorem SectionRun.isCleanup (h : SectionRun cfg F i request s sec s' next)
    (hsec : sec.isCleanup) : ∃ new, next = .sections new ∧ ∀ sec' ∈ new, sec'.isCleanup := by
  cases h with
  | listFinished =>
    refine ⟨_, rfl, fun sec' hsec' => ?_⟩
    obtain ⟨id, -, rfl⟩ := List.mem_map.mp hsec'
    rfl
  | taken | awaited | cleanupClock | cleanupSessions =>
    exact ⟨_, rfl, fun sec' hsec' => List.mem_singleton.mp hsec' ▸ rfl⟩
  | notTaken | refreshed | cleanupOperations => exact ⟨_, rfl, List.forall_mem_nil _⟩
  | _ => cases hsec

/-- A section of the call itself is followed by at most one other. -/
theorem SectionRun.length_rest_le (h : SectionRun cfg F i request s sec s' next)
    (hsec : sec.isCleanup = false) : next.rest.length ≤ 1 := by
  cases h with
  | @sessionAdmitted method => cases method <;> simp [afterSession, Next.rest]
  | listFinished => cases hsec
  | _ => simp [Next.rest]

theorem Shape.following (hshape : Shape (sec :: rest))
    (h : SectionRun cfg F i request s sec s' next) :
    Shape (request.thread rest next).sections := by
  cases hsec : sec.isCleanup with
  | true =>
    obtain ⟨new, rfl, hnew⟩ := h.isCleanup hsec
    exact .append hnew hshape.tail
  | false =>
    have hlen := h.length_rest_le hsec
    rw [hshape.rest_eq_nil hsec]
    intro sec' hsec'
    cases next with
    | reply => cases hsec'
    | sections new =>
      rw [RpcRequest.thread, List.append_nil] at hsec'
      have hpos : 0 < new.dropLast.length := List.length_pos_of_mem hsec'
      rw [List.length_dropLast] at hpos
      exact absurd (show new.length ≤ 1 from hlen) (by omega)

theorem RpcRequest.start_shape : Shape (request.thread [] request.start).sections := by
  obtain ⟨token, seqid, call⟩ := request
  cases call with
  | openSession | cleanupExpired | queryHistory =>
    simp [start, thread, Shape, HarborSql.cleanupExpired, Section.isCleanup]
  | closeSession handle | closeOperation handle | cancelOperation handle =>
    cases handle <;> simp [start, thread, Shape, HarborSql.cleanupExpired, Section.isCleanup]
  | operation method handle =>
    cases handle <;> simp [start, thread, Shape, HarborSql.cleanupExpired, Section.isCleanup]
  | session method handle =>
    cases method <;> simp [start, thread, Shape, HarborSql.cleanupExpired, Section.isCleanup]
  | notACall | unsupported => simp [start, thread, Shape]

end Sections

theorem serviceShape {cfg : ServiceConfig} {F : Formatting} {clock : Instant}
    {c : Conf ServiceState RpcThread} (hc : (serviceMachine cfg F clock).Reachable c)
    {i : ThreadId} {k : RpcThread} (hk : c.threads i = some k) : Shape k.sections :=
  serviceThreads (P := fun k => Shape k.sections) hc (fun _ => RpcRequest.start_shape)
    (fun h hsec hrun => Shape.following (hsec ▸ h) hrun) (fun _ => List.forall_mem_nil _) hk

/-! ## The limits -/

/-- Whether the map that a section inserts into is full. -/
def Section.Full (cfg : ServiceConfig) (s : ServiceState) : Section → Prop
  | .openSession .. => cfg.maxSessions ≤ s.sessions.len
  | .insertGetColumns .. | .insertExecuteStatement .. => cfg.maxOperations ≤ s.operations.len
  | _ => False

/-- The reply to a request that finds its map full. -/
def Section.refusal (request : RpcRequest) : Section → Option Reply
  | .openSession .. => some (.response
      (writeOpenSessionError request.seqid "maximum session count exceeded"))
  | .insertGetColumns .. => some (.response
      (writeGetColumnsError request.seqid "maximum operation count exceeded"))
  | .insertExecuteStatement .. => some (.response
      (writeExecuteStatementError request.seqid "maximum operation count exceeded"))
  | _ => none

/-- `s'` has no entry that `s` lacks, and no more tasks. -/
structure AddsNothing (s s' : ServiceState) : Prop where
  sessions : ∀ id, s'.sessions.lookup id ≠ none → s.sessions.lookup id ≠ none
  operations : ∀ id, s'.operations.lookup id ≠ none → s.operations.lookup id ≠ none
  tasks : s'.tasks.length = s.tasks.length

section Sections
variable {cfg : ServiceConfig} {F : Formatting} {i : ThreadId} {request : RpcRequest}
variable {s s' : ServiceState} {sec : Section} {next : Next} {rest : List Section}

theorem SectionRun.sessions_len (h : SectionRun cfg F i request s sec s' next)
    (hlen : s.sessions.len ≤ cfg.maxSessions) : s'.sessions.len ≤ cfg.maxSessions := by
  cases h with
  | opened _ hlt => exact Nat.le_trans HashMap.len_insert_le hlt
  | cleanupSessions | removedSession | sessionExpired =>
    exact Nat.le_trans HashMap.len_eraseAll_le hlen
  | sessionAdmitted | touched => exact Nat.le_trans HashMap.len_modify.le hlen
  | removedUnreturned | removedOperation => rwa [ServiceState.eraseOperation_sessions]
  | _ => exact hlen

theorem ServiceState.eraseOperation_len {id : String} :
    (s.eraseOperation id).operations.len ≤ s.operations.len := by
  unfold eraseOperation
  split
  · exact HashMap.len_erase_le
  · exact Nat.le_refl _

theorem SectionRun.operations_len (h : SectionRun cfg F i request s sec s' next)
    (hlen : s.operations.len ≤ cfg.maxOperations) : s'.operations.len ≤ cfg.maxOperations := by
  cases h with
  | insertedGetColumns _ hlt | insertedExecuteStatement _ hlt =>
    exact Nat.le_trans HashMap.len_insert_le hlt
  | taken | refreshed | canceled => exact Nat.le_trans HashMap.len_modify.le hlen
  | cleanupOperations | removedOperations => exact Nat.le_trans HashMap.len_retain_le hlen
  | removedUnreturned | removedOperation => exact Nat.le_trans ServiceState.eraseOperation_len hlen
  | _ => exact hlen

theorem EnvStep.operations_len (h : EnvStep s s') : s'.operations.len ≤ s.operations.len := by
  cases h with
  | tick | task => exact Nat.le_refl _
  | stored =>
    unfold ServiceState.storeCompletion
    dsimp only
    split
    · exact Nat.le_trans HashMap.len_erase_le HashMap.len_modify.le
    · exact HashMap.len_modify.le

theorem SectionRun.addsNothing (h : SectionRun cfg F i request s sec s' next)
    (hsec : sec.inserts = false) : AddsNothing s s' where
  sessions id hid := by
    obtain ⟨session, hsession⟩ := Option.ne_none_iff_exists'.mp hid
    cases h.session_origin hsession with
    | kept hmem | touched hmem | admitted _ hmem => rw [hmem]; exact Option.some_ne_none _
    | opened => cases hsec
  operations id hid := by
    obtain ⟨op, hop⟩ := Option.ne_none_iff_exists'.mp hid
    cases h.operation_origin hop with
    | kept hmem | taken hmem | refreshed hmem | canceled _ hmem => rw [hmem]; exact Option.some_ne_none _
    | inserted hins => cases sec <;> first | (cases hins; done) | cases hsec
  tasks := by
    have same (h : s'.tasks.map Task.core = s.tasks.map Task.core) :
        s'.tasks.length = s.tasks.length := by
      simpa only [List.length_map] using congrArg List.length h
    cases h with
    | insertedGetColumns | insertedExecuteStatement => cases hsec
    | cleanupOperations | removedOperations => exact same abortOperations_core
    | removedUnreturned | removedOperation => exact same ServiceState.eraseOperation_core
    | canceled => exact same OperationState.abort_core
    | _ => rfl

/-- A request that meets a limit is refused, and the state stays as it is. -/
theorem SectionRun.refused (h : SectionRun cfg F i request s sec s' next) (hfull : sec.Full cfg s) :
    s' = s ∧ ∃ reply, sec.refusal request = some reply ∧ next = .reply reply := by
  cases h with
  | sessionsFull | getColumnsFull | executeStatementFull => exact ⟨rfl, _, rfl, rfl⟩
  | opened _ hlt | insertedGetColumns _ hlt | insertedExecuteStatement _ hlt =>
    exact absurd hfull (Nat.not_le.mpr hlt)
  | _ => cases hfull

/-- After an insertion a call does not come to another. -/
theorem SectionRun.afterInsertion (h : SectionRun cfg F i request s sec s' next)
    (hsec : sec.afterInsertion ∨ sec.inserts) : ∀ sec' ∈ next.rest, sec'.afterInsertion := by
  cases h with
  | insertedGetColumns | completionFailed =>
    exact fun sec' hsec' => List.mem_singleton.mp hsec' ▸ rfl
  | sessionsFull | opened | getColumnsFull | executeStatementFull | insertedExecuteStatement
  | completionSucceeded | removedUnreturned => exact List.forall_mem_nil _
  | _ => cases hsec with | inl h => cases h | inr h => cases h

end Sections

section Runs
variable {cfg : ServiceConfig} {F : Formatting} {clock : Instant}
variable {c c₁ c₂ : Conf ServiceState RpcThread}

/-- Call `i` has made its insertion, or never comes to one. -/
def PastInsertion (i : ThreadId) (c : Conf ServiceState RpcThread) : Prop :=
  ∃ k, c.threads i = some k ∧ ∀ sec ∈ k.sections, sec.afterInsertion

theorem PastInsertion.step {i : ThreadId} {a : Action RpcRequest RpcInput ServiceEnv}
    (h : PastInsertion i c) (hs : (serviceMachine cfg F clock).step c a = some c₁) :
    PastInsertion i c₁ := by
  obtain ⟨k, hk, hsec⟩ := h
  cases serviceStep_cases hs with
  | @start j request hj =>
    have hne : i ≠ j := fun heq => by rw [heq, hj] at hk; cases hk
    exact ⟨k, (Conf.set_threads_of_ne hne).trans hk, hsec⟩
  | @exec j input k' sec rest s next hk' hsecs hrun =>
    by_cases hij : i = j
    · subst hij
      cases hk.symm.trans hk'
      refine ⟨_, Conf.set_threads_self, fun sec' hsec' => ?_⟩
      rcases RpcRequest.thread_sections hsec' with hsec' | hsec'
      · exact hrun.afterInsertion (.inl (hsec sec (hsecs ▸ List.mem_cons_self))) sec' hsec'
      · exact hsec sec' (hsecs ▸ List.mem_cons_of_mem _ hsec')
    · exact ⟨k, (Conf.set_threads_of_ne hij).trans hk, hsec⟩
  | @drop j =>
    by_cases hij : i = j
    · subst hij
      exact ⟨_, Conf.set_threads_self, List.forall_mem_nil _⟩
    · exact ⟨k, (Conf.set_threads_of_ne hij).trans hk, hsec⟩
  | env => exact ⟨k, hk, hsec⟩

theorem serviceLimits (hc : (serviceMachine cfg F clock).Reachable c) :
    c.shared.sessions.len ≤ cfg.maxSessions ∧ c.shared.operations.len ≤ cfg.maxOperations := by
  refine Machine.ReachableBy.invariant (I := fun c => c.shared.sessions.len ≤ cfg.maxSessions ∧
    c.shared.operations.len ≤ cfg.maxOperations) hc ⟨Nat.zero_le _, Nat.zero_le _⟩ ?_
  intro c a c' H _ hs
  cases serviceStep_cases hs with
  | start => exact H
  | exec _ _ hrun => exact ⟨hrun.sessions_len H.1, hrun.operations_len H.2⟩
  | drop =>
    rw [Conf.set_shared, dropSection_env.sessions]
    exact ⟨H.1, dropSection_env.operations_len.trans H.2⟩
  | env he => exact ⟨he.sessions ▸ H.1, he.operations_len.trans H.2⟩

/-- The maps never exceed their limits. A request that meets a limit changes nothing at that
moment, and none of its earlier sections has added an entry or spawned a task. -/
theorem capacity (hc : (serviceMachine cfg F clock).Reachable c) :
    (c.shared.sessions.len ≤ cfg.maxSessions ∧ c.shared.operations.len ≤ cfg.maxOperations) ∧
    (∀ i k sec rest input c₁, c.threads i = some k → k.sections = sec :: rest →
      sec.Full cfg c.shared → (serviceMachine cfg F clock).step c (.exec i input) = some c₁ →
      c₁.shared = c.shared ∧ ∃ reply, sec.refusal k.request = some reply ∧
        c₁.threads i = some ⟨k.request, [], some reply⟩) ∧
    (∀ i input c₁ c₂ k sec rest, (serviceMachine cfg F clock).step c (.exec i input) = some c₁ →
      (serviceMachine cfg F clock).ReachesBy (fun _ _ => True) c₁ c₂ →
      c₂.threads i = some k → k.sections = sec :: rest → sec.Full cfg c₂.shared →
      AddsNothing c.shared c₁.shared) := by
  refine ⟨serviceLimits hc, ?_, ?_⟩
  · intro i k sec rest input c₁ hk hsec hfull hs
    cases serviceStep_cases hs with
    | exec hk' hsec' hrun =>
      cases hk.symm.trans hk'
      cases hsec.symm.trans hsec'
      obtain ⟨rfl, reply, hreply, rfl⟩ := hrun.refused hfull
      exact ⟨rfl, reply, hreply, Conf.set_threads_self⟩
  · intro i input c₁ c₂ k₂ sec₂ rest₂ hs hrun hk₂ hsec₂ hfull
    cases serviceStep_cases hs with
    | @exec _ _ k sec rest s next hk hsec hsection =>
      cases hins : sec.inserts with
      | false => exact hsection.addsNothing hins
      | true =>
        -- the call is past its insertion, so it is not refused later
        have hcleanup : sec.isCleanup = false := by cases sec <;> first | rfl | cases hins
        have hshape := serviceShape hc hk
        rw [hsec] at hshape
        have hpast : PastInsertion i (c.set s i (k.request.thread rest next)) := by
          refine ⟨_, Conf.set_threads_self, fun sec' hsec' => ?_⟩
          rw [hshape.rest_eq_nil hcleanup] at hsec'
          exact hsection.afterInsertion (.inr hins) sec'
            ((RpcRequest.thread_sections hsec').resolve_right List.not_mem_nil)
        obtain ⟨k', hk', hafter⟩ := Machine.ReachesBy.invariant (I := PastInsertion i) hrun hpast
          fun c a c' h _ hs => h.step hs
        cases hk₂.symm.trans hk'
        have hmem := hafter sec₂ (hsec₂ ▸ List.mem_cons_self)
        cases sec₂ <;> first | cases hfull | cases hmem

end Runs

/-- The second statement of a service for one operation. -/
theorem capacity_refused : ∃ c : Conf ServiceState RpcThread,
    (∃ k, c.threads 2 = some k ∧ k.reply = some (.response
      (writeExecuteStatementError 2 "maximum operation count exceeded"))) ∧
    c.shared.sessions.len ≤ 2 ∧ c.shared.operations.len ≤ 1 := by
  have h := Machine.reachable_run testMachine
    (openSessionRun 0 1 2 ++ executeStatementRun 1 (testHandle 1 2) ++
      [.exec 1 (.uuids (testUuid 3) (testUuid 4))] ++ executeStatementRun 2 (testHandle 1 2) ++
      [.exec 2 (.uuids (testUuid 5) (testUuid 6))]) rfl
  exact ⟨_, ⟨_, rfl, rfl⟩, (capacity h).1⟩

end HarborSql
