import HarborSql.Verify.Thrift.Invariant

/-! The gauges of the service against its maps. Every section that changes a map records the gauges
before it releases the lock, except for those that take an expired session out. -/

namespace HarborSql

/-- A session was opened: it is stored, or some call has taken it out of the map. -/
def ServiceState.Opened (s : ServiceState) : Prop := 0 < s.sessions.len ∨ 0 < s.removedBy.len

/-- The gauges tell the truth. One that was never set stands for an empty map; that of the sessions
is set once a session was opened. -/
structure GaugesTrue (s : ServiceState) : Prop where
  sessions : s.Opened → s.gauges.sessions = some s.sessions.len
  operations : s.gauges.operations.getD 0 = s.operations.len
  activeOperations :
    s.gauges.activeOperations.getD 0 = s.operations.values.countP OperationState.isActive

/-- Every call has returned or was dropped, and no task has yet to store its completion. -/
structure Quiescent (c : Conf ServiceState RpcThread) : Prop where
  calls : ∀ i k, c.threads i = some k → k.sections = []
  tasks : ∀ t ∈ c.shared.tasks, ∀ completion, t.status ≠ .storing completion

/-- The sessions that a section takes out of the map because they have expired. -/
def Section.expires (cfg : ServiceConfig) (s : ServiceState) : Section → List String
  | .cleanupSessions now => s.expiredSessions cfg now
  | .sessionFor _ handle now =>
    if (s.sessions.lookup handle.id).any (·.isExpired now cfg.idleSessionTimeout) then [handle.id]
    else []
  | _ => []

/-- The step takes no expired session out of the map. -/
def NoneExpires (cfg : ServiceConfig) (c : Conf ServiceState RpcThread) :
    Action RpcRequest RpcInput ServiceEnv → Prop
  | .exec i _ => ∀ k ∈ c.threads i, ∀ sec ∈ k.sections.head?, sec.expires cfg c.shared = []
  | .start .. | .drop .. | .env .. => True

instance (cfg : ServiceConfig) (c : Conf ServiceState RpcThread) :
    (a : Action RpcRequest RpcInput ServiceEnv) → Decidable (NoneExpires cfg c a)
  | .exec i _ => inferInstanceAs
    (Decidable (∀ k ∈ c.threads i, ∀ sec ∈ k.sections.head?, sec.expires cfg c.shared = []))
  | .start .. | .drop .. | .env .. => inferInstanceAs (Decidable True)

section Sections
variable {cfg : ServiceConfig} {F : Formatting} {i : ThreadId} {request : RpcRequest}
variable {s s' : ServiceState} {sec : Section} {next : Next}

namespace GaugesTrue

/-- What the gauges are compared with, and they themselves, are as before. -/
theorem of_eq (H : GaugesTrue s) (hgauges : s'.gauges = s.gauges)
    (hsessions : s'.sessions.len = s.sessions.len) (hremoved : s'.removedBy = s.removedBy)
    (hoperations : s'.operations = s.operations) : GaugesTrue s' := by
  constructor
  · intro hopened
    rw [hgauges, hsessions]
    apply H.sessions
    rwa [ServiceState.Opened, hsessions, hremoved] at hopened
  · rw [hgauges, hoperations]
    exact H.operations
  · rw [hgauges, hoperations]
    exact H.activeOperations

theorem recordSessionGauge (H : GaugesTrue s) (hoperations : s'.operations = s.operations)
    (hgauges : s'.gauges = s.gauges) : GaugesTrue s'.recordSessionGauge := by
  constructor
  · intro _
    rfl
  · show s'.gauges.operations.getD 0 = s'.operations.len
    rw [hgauges, hoperations]
    exact H.operations
  · show s'.gauges.activeOperations.getD 0 = s'.operations.values.countP OperationState.isActive
    rw [hgauges, hoperations]
    exact H.activeOperations

theorem recordOperationGauges (H : GaugesTrue s) (hgauges : s'.gauges = s.gauges)
    (hsessions : s'.sessions = s.sessions) (hremoved : s'.removedBy = s.removedBy) :
    GaugesTrue s'.recordOperationGauges := by
  constructor
  · intro hopened
    show s'.gauges.sessions = some s'.sessions.len
    rw [hgauges, hsessions]
    apply H.sessions
    rwa [ServiceState.Opened, ServiceState.recordOperationGauges_sessions,
      ServiceState.recordOperationGauges_removedBy, hsessions, hremoved] at hopened
  · rfl
  · rfl

/-- A change of one operation that leaves it active, or not. -/
theorem modifyOperation {id : String} {f : OperationState → OperationState} (H : GaugesTrue s)
    (hf : ∀ op, s.operations.lookup id = some op → (f op).isActive = op.isActive) :
    GaugesTrue (s.modifyOperation id f) := by
  constructor
  · exact H.sessions
  · exact H.operations.trans HashMap.len_modify.symm
  · exact H.activeOperations.trans (HashMap.countP_values_modify hf).symm

theorem insertOperation {id : String} {op : OperationState} {kind : TaskKind}
    (H : GaugesTrue s) : GaugesTrue (s.insertOperation id op kind) :=
  H.recordOperationGauges rfl rfl rfl

theorem issue {handle : Handle} (H : GaugesTrue s) : GaugesTrue (s.issue handle) :=
  H.of_eq rfl rfl rfl rfl

theorem modifySession {id : String} {f : SessionState → SessionState} (H : GaugesTrue s) :
    GaugesTrue (s.modifySession id f) :=
  H.of_eq rfl HashMap.len_modify rfl rfl

theorem eraseOperation {id : String} (H : GaugesTrue s) : GaugesTrue (s.eraseOperation id) := by
  rw [ServiceState.eraseOperation]
  split
  · exact H.recordOperationGauges rfl rfl rfl
  · exact H

/-- A session leaves the map without its gauge being recorded. -/
theorem not_eraseSessions {ids : List String} {id : String} {session : SessionState}
    (H : GaugesTrue s) (hsession : s.sessions.lookup id = some session) (hid : id ∈ ids) :
    ¬GaugesTrue (s.eraseSessions ids i) := by
  intro H'
  have hlt : (HashMap.eraseAll s.sessions ids).len < s.sessions.len :=
    HashMap.len_eraseAll_lt hsession hid
  have hremoved : 0 < (s.eraseSessions ids i).removedBy.len := by
    have hlookup := HashMap.lookup_insertAll_of_mem (m := s.removedBy) (v := i) hid
    have hlen := HashMap.len_erase_of_lookup hlookup
    show 0 < (HashMap.insertAll s.removedBy ids i).len
    omega
  have hbefore : s.gauges.sessions = some s.sessions.len := H.sessions (.inl (by omega))
  have hafter : s.gauges.sessions = some (HashMap.eraseAll s.sessions ids).len :=
    H'.sessions (.inr hremoved)
  have heq : s.sessions.len = (HashMap.eraseAll s.sessions ids).len :=
    Option.some.inj (hbefore.symm.trans hafter)
  omega

end GaugesTrue

/-- The gauges stay true over a section unless it takes an expired session out of the map. -/
theorem SectionRun.gaugesTrue_iff (h : SectionRun cfg F i request s sec s' next)
    (H : GaugesTrue s) : GaugesTrue s' ↔ sec.expires cfg s = [] := by
  cases h with
  | @taken id op started task hop hst =>
    refine iff_of_true (H.modifyOperation fun op' hop' => ?_) rfl
    obtain rfl : op = op' := Option.some.inj (hop.symm.trans hop')
    rw [OperationState.isActive, OperationState.isActive, hst]
    rfl
  | refreshed | cleanupOperations | removedOperations | canceled =>
    exact iff_of_true (H.recordOperationGauges rfl rfl rfl) rfl
  | insertedGetColumns => exact iff_of_true H.insertOperation rfl
  | insertedExecuteStatement => exact iff_of_true H.insertOperation.issue rfl
  | @cleanupSessions now =>
    rw [Section.expires]
    cases hexpired : s.expiredSessions cfg now with
    | nil => exact iff_of_true H rfl
    | cons id ids =>
      have hid : id ∈ s.expiredSessions cfg now := hexpired ▸ List.mem_cons_self
      obtain ⟨session, hsession, -⟩ := s.mem_expiredSessions.mp hid
      exact iff_of_false (H.not_eraseSessions hsession List.mem_cons_self) (List.cons_ne_nil id ids)
  | opened | removedSession => exact iff_of_true (H.recordSessionGauge rfl rfl) rfl
  | @sessionExpired method handle now session hsession hexp =>
    have hexpires : Section.expires cfg s (.sessionFor method handle now) = [handle.id] := by
      rw [Section.expires, hsession, Option.any_some, if_pos hexp]
    rw [hexpires]
    exact iff_of_false (H.not_eraseSessions hsession (List.mem_singleton_self _))
      (List.cons_ne_nil _ _)
  | @sessionAdmitted method handle now session hsession hexp =>
    refine iff_of_true H.modifySession ?_
    rw [Section.expires, hsession, Option.any_some, hexp]
    rfl
  | @sessionRefused method handle now hrefused =>
    refine iff_of_true H (if_neg fun hany => ?_)
    obtain ⟨session, hsession, hexp⟩ := (Option.any_eq_true _ _).mp hany
    rw [(hrefused session hsession).1] at hexp
    cases hexp
  | touched => exact iff_of_true H.modifySession rfl
  | removedUnreturned | removedOperation => exact iff_of_true H.eraseOperation rfl
  | completionSucceeded => exact iff_of_true H.issue rfl
  | _ => exact iff_of_true H rfl

/-- A task that stores its completion records the gauges of the operations itself. -/
theorem EnvStep.gaugesTrue (h : EnvStep s s') (H : GaugesTrue s) : GaugesTrue s' := by
  cases h with
  | tick | task => exact H.of_eq rfl rfl rfl rfl
  | stored =>
    apply H.recordOperationGauges
    all_goals
      dsimp only [ServiceState.setTask, ServiceState.modifyOperation]
      split <;> rfl

end Sections

section Runs
variable {cfg : ServiceConfig} {F : Formatting} {clock : Instant}
variable {c c' : Conf ServiceState RpcThread} {a : Action RpcRequest RpcInput ServiceEnv}

theorem GaugesTrue.step_iff (H : GaugesTrue c.shared)
    (hs : (serviceMachine cfg F clock).step c a = some c') :
    GaugesTrue c'.shared ↔ NoneExpires cfg c a := by
  cases serviceStep_cases hs with
  | start => exact iff_of_true H trivial
  | @exec i input k sec rest s next hk hsec hrun =>
    rw [Conf.set_shared, hrun.gaugesTrue_iff H]
    have hhead : sec ∈ k.sections.head? := by rw [hsec]; rfl
    refine ⟨fun hnone k' hk' sec' hsec' => ?_, fun hnone => hnone k hk sec hhead⟩
    obtain rfl : k = k' := Option.some.inj (hk.symm.trans hk')
    obtain rfl : sec = sec' := Option.some.inj (hhead.symm.trans hsec')
    exact hnone
  | drop => exact iff_of_true (dropSection_env.gaugesTrue H) trivial
  | env he => exact iff_of_true (he.gaugesTrue H) trivial

/-- As long as no expired session is taken out of the map, the gauges are true in every state; the
first step that takes one makes them false. -/
theorem gaugesTell (hc : (serviceMachine cfg F clock).ReachableBy (NoneExpires cfg) c) :
    GaugesTrue c.shared ∧ ∀ a c', (serviceMachine cfg F clock).step c a = some c' →
      (GaugesTrue c'.shared ↔ NoneExpires cfg c a) := by
  have H : GaugesTrue c.shared := by
    refine Machine.ReachableBy.invariant (I := fun c => GaugesTrue c.shared) hc ?_ ?_
    · refine ⟨fun hopened => ?_, rfl, rfl⟩
      cases hopened with
      | inl h => cases h
      | inr h => cases h
    · intro c a c' H hok hs
      exact (H.step_iff hs).mpr hok
  exact ⟨H, fun a c' hs => H.step_iff hs⟩

end Runs

theorem gaugesTell_opened : ∃ c : Conf ServiceState RpcThread,
    c.shared.gauges.sessions = some 1 ∧ GaugesTrue c.shared := by
  have hmeets : testMachine.Meets (NoneExpires testService) testMachine.init
      (openSessionRun 0 1 2) := by decide
  have h : testMachine.ReachableBy (NoneExpires testService) _ :=
    Machine.reachesBy_of_meets (openSessionRun 0 1 2) hmeets rfl
  exact ⟨_, rfl, (gaugesTell h).1⟩

/-- A session runs out, and the cleanup takes it out of the map. -/
def expiryRun : List (Action RpcRequest RpcInput ServiceEnv) :=
  openSessionRun 0 1 2 ++ [.env (.tick (.fromMillis 60000)), .start 1 ⟨"", 0, .cleanupExpired⟩,
    .exec 1 (.order []), .exec 1 .run, .exec 1 .run, .exec 1 .run]

/-- The cleanup has returned, and the gauge still counts the session. -/
theorem exists_not_gaugesTrue : ∃ c : Conf ServiceState RpcThread,
    testMachine.Reachable c ∧ Quiescent c ∧ ¬GaugesTrue c.shared := by
  have h := Machine.reachable_run testMachine expiryRun rfl
  refine ⟨_, h, ⟨fun i k hk => ?_, List.forall_mem_nil _⟩, fun H => ?_⟩
  · match i with
    | 0 | 1 => cases hk; rfl
    | i + 2 => cases hk
  · have hsessions := H.sessions (.inr (by decide))
    cases hsessions

end HarborSql
