import HarborSql.Verify.Thrift.Capacity

/-! Once a session is removed it has no operations. -/

namespace HarborSql

def SessionStored (c : Conf ServiceState RpcThread) (id : String) : Prop :=
  ∃ session, c.shared.sessions.lookup id = some session

/-- A call that has removed the session has yet to remove its operations. -/
def Removing (c : Conf ServiceState RpcThread) (id : String) : Prop :=
  ∃ i k sec, c.threads i = some k ∧ sec ∈ k.sections ∧ id ∈ sec.removesFor

/-- Outside the window of a removal, every operation belongs to a stored session. -/
def NoOrphans (c : Conf ServiceState RpcThread) : Prop :=
  ∀ id op, c.shared.operations.lookup id = some op →
    SessionStored c op.sessionId ∨ Removing c op.sessionId

/-- An operation is only inserted while its session is stored or being removed, and no call is
dropped while operations are stored that it has yet to remove. -/
def KeepsSessions (cfg : ServiceConfig) (c : Conf ServiceState RpcThread) :
    Action RpcRequest RpcInput ServiceEnv → Prop
  | .exec i (.uuids _ _) => ∀ k sec rest session, c.threads i = some k → k.sections = sec :: rest →
      sec.insertsFor = some session → c.shared.operations.len < cfg.maxOperations →
      SessionStored c session.id ∨ Removing c session.id
  | .drop i => ∀ k sec id op, c.threads i = some k → sec ∈ k.sections →
      c.shared.operations.lookup id = some op → op.sessionId ∉ sec.removesFor
  | _ => True

section Sections
variable {cfg : ServiceConfig} {F : Formatting} {i : ThreadId} {request : RpcRequest}
variable {s s' : ServiceState} {sec : Section} {next : Next} {id : String}

/-- A section leaves none of the operations that it removes. -/
theorem SectionRun.not_mem_removesFor {op : OperationState}
    (h : SectionRun cfg F i request s sec s' next) (hop : s'.operations.lookup id = some op) :
    op.sessionId ∉ sec.removesFor := by
  cases h with
  | cleanupOperations =>
    have hkeep := (s.lookup_retainOperations.mp hop).2
    simp only [Bool.not_eq_true', Bool.or_eq_false_iff, List.contains_eq_mem,
      decide_eq_false_iff_not] at hkeep
    exact hkeep.1
  | removedOperations =>
    have hkeep := of_decide_eq_true (s.lookup_retainOperations.mp hop).2
    exact fun hmem => hkeep (List.mem_singleton.mp hmem)
  | _ => exact List.not_mem_nil

/-- A call goes on to remove operations of sessions that it found stored. -/
theorem SectionRun.stored_of_removesFor {sec' : Section}
    (h : SectionRun cfg F i request s sec s' next) (hsec : sec' ∈ next.rest)
    (hid : id ∈ sec'.removesFor) : ∃ session, s.sessions.lookup id = some session := by
  cases h with
  | listFinished =>
    obtain ⟨_, -, rfl⟩ := List.mem_map.mp hsec
    cases hid
  | cleanupSessions =>
    cases List.mem_singleton.mp hsec
    obtain ⟨session, hsession, -⟩ := s.mem_expiredSessions.mp hid
    exact ⟨session, hsession⟩
  | removedSession hsession | sessionExpired hsession =>
    cases List.mem_singleton.mp hsec
    cases List.mem_singleton.mp hid
    exact ⟨_, hsession⟩
  | @sessionAdmitted method =>
    cases method with
    | getInfo => cases hsec
    | getColumns | executeStatement => cases List.mem_singleton.mp hsec; cases hid
  | taken | awaited | cleanupClock | sessionClock | getColumnsClock | insertedGetColumns
  | completionFailed | operationFound | historyFound =>
    cases List.mem_singleton.mp hsec
    cases hid
  | _ => cases hsec

/-- An operation belongs to the session it was inserted for. -/
theorem OperationOrigin.sessionId {op : OperationState}
    (h : OperationOrigin cfg request s s' id op sec next) :
    (∃ op₀, s.operations.lookup id = some op₀ ∧ op.sessionId = op₀.sessionId) ∨
      ∃ session, sec.insertsFor = some session ∧ op.sessionId = session.id ∧
        s.operations.len < cfg.maxOperations := by
  cases h with
  | kept hop => exact .inl ⟨op, hop, rfl⟩
  | taken hop _ _ heq => exact .inl ⟨_, hop, by rw [heq]; rfl⟩
  | @refreshed op₀ started result next hop heq =>
    refine .inl ⟨op₀, hop, ?_⟩
    rcases op₀.finishRefresh_cases s.clock started result with
      ⟨hsame, -⟩ | ⟨_, -, hnew⟩
    · rw [heq, hsame]
    · rw [heq, hnew]
  | @canceled op₀ handle next _ hop _ heq =>
    refine .inl ⟨op₀, hop, ?_⟩
    rcases op₀.cancel_cases s.clock with ⟨hsame, -⟩ | ⟨_, _, _, -, hnew⟩
    · rw [heq, hsame]
    · rw [heq, hnew]
  | inserted hins _ _ hlen _ _ heq => exact .inr ⟨_, hins, by rw [heq]; rfl, hlen⟩

theorem RpcRequest.start_removesFor : ∀ sec ∈ request.start.rest, sec.removesFor = [] := by
  obtain ⟨token, seqid, call⟩ := request
  cases call with
  | openSession | cleanupExpired | queryHistory =>
    simp [start, Next.rest, HarborSql.cleanupExpired, Section.removesFor]
  | closeSession handle | closeOperation handle | cancelOperation handle =>
    cases handle <;> simp [start, Next.rest, HarborSql.cleanupExpired, Section.removesFor]
  | operation method handle =>
    cases handle <;> simp [start, Next.rest, HarborSql.cleanupExpired, Section.removesFor]
  | session method handle =>
    cases method <;> simp [start, Next.rest, HarborSql.cleanupExpired, Section.removesFor]
  | notACall | unsupported => simp [start, Next.rest]

end Sections

section Runs
variable {cfg : ServiceConfig} {F : Formatting} {clock : Instant}
variable {c c' : Conf ServiceState RpcThread} {a : Action RpcRequest RpcInput ServiceEnv}
variable {id : String}

theorem Removing.of_ne {i : ThreadId} {s : ServiceState} {l : RpcThread}
    (h : Removing c id) (hi : ∀ k, c.threads i = some k → ∀ sec ∈ k.sections, id ∉ sec.removesFor) :
    Removing (c.set s i l) id := by
  obtain ⟨j, k, sec, hk, hsec, hid⟩ := h
  have hne : j ≠ i := fun heq => hi k (heq ▸ hk) sec hsec hid
  exact ⟨j, k, sec, (Conf.set_threads_of_ne hne).trans hk, hsec, hid⟩

/-- A session that is stored or being removed is so after a section, unless the section has
just removed its operations. -/
theorem stored_or_removing_exec {i : ThreadId} {k : RpcThread} {sec : Section}
    {rest : List Section} {s : ServiceState} {next : Next} (hk : c.threads i = some k)
    (hsec : k.sections = sec :: rest) (hshape : Shape k.sections)
    (hrun : SectionRun cfg F i k.request c.shared sec s next) (hid : id ∉ sec.removesFor)
    (h : SessionStored c id ∨ Removing c id) :
    SessionStored (c.set s i (k.request.thread rest next)) id ∨
      Removing (c.set s i (k.request.thread rest next)) id := by
  rcases h with ⟨session, hsession⟩ | ⟨j, k', sec', hk', hsec', hid'⟩
  · cases hlookup : s.sessions.lookup id with
    | some session' => exact .inl ⟨session', hlookup⟩
    | none =>
      obtain ⟨sec', hsec', hid'⟩ := hrun.session_removal hsession hlookup
      refine .inr ⟨i, _, sec', Conf.set_threads_self, ?_, hid'⟩
      cases next with
      | sections new => exact List.mem_append_left _ hsec'
      | reply => cases hsec'
  · refine .inr ?_
    by_cases hij : j = i
    · subst hij
      cases hk.symm.trans hk'
      rw [hsec] at hsec' hshape
      rcases List.mem_cons.mp hsec' with rfl | hsec'
      · exact absurd hid' hid
      · -- a section with others after it cleans up, so the call goes on
        have hcleanup : sec.isCleanup := by
          by_contra hc
          rw [hshape.rest_eq_nil (Bool.not_eq_true _ ▸ hc)] at hsec'
          cases hsec'
        obtain ⟨new, rfl, -⟩ := hrun.isCleanup hcleanup
        exact ⟨j, _, sec', Conf.set_threads_self, List.mem_append_right _ hsec', hid'⟩
    · exact ⟨j, k', sec', (Conf.set_threads_of_ne hij).trans hk', hsec', hid'⟩

/-- An insertion draws ids. -/
theorem runSection_uuids {i : ThreadId} {request : RpcRequest} {s s' : ServiceState}
    {sec : Section} {input : RpcInput} {next : Next} {session : SessionState}
    (h : runSection cfg F i request s sec input = some (s', next))
    (hins : sec.insertsFor = some session) : ∃ id secret, input = .uuids id secret := by
  cases sec with
  | insertGetColumns | insertExecuteStatement =>
    cases input with
    | uuids id secret => exact ⟨id, secret, rfl⟩
    | run | order => cases h
  | _ => cases hins

theorem NoOrphans.step (H : NoOrphans c)
    (hshape : ∀ i k, c.threads i = some k → Shape k.sections) (hok : KeepsSessions cfg c a)
    (hs : (serviceMachine cfg F clock).step c a = some c') : NoOrphans c' := by
  intro id op hop
  cases serviceStep_cases hs with
  | @start i request hi =>
    refine (H id op hop).imp (fun h => h) fun h => h.of_ne fun k hk => ?_
    cases hi.symm.trans hk
  | @exec i input k sec rest s next hk hsec hrun hinput =>
    have hnot := hrun.not_mem_removesFor hop
    refine stored_or_removing_exec hk hsec (hshape i k hk) hrun hnot ?_
    rcases (hrun.operation_origin hop).sessionId with ⟨op₀, hop₀, heq⟩ | ⟨session, hins, heq, hlen⟩
    · rw [heq]; exact H id op₀ hop₀
    · rw [heq]
      obtain ⟨uuid, secret, rfl⟩ := runSection_uuids hinput hins
      exact hok k sec rest session hk hsec hins hlen
  | @drop i k sec rest hk hsec =>
    have hop₀ : c.shared.operations.lookup id = some op := by
      rwa [Conf.set_shared, dropSection_operations] at hop
    refine (H id op hop₀).imp (fun ⟨session, h⟩ => ⟨session, ?_⟩) fun h => h.of_ne ?_
    · rwa [Conf.set_shared, dropSection_env.sessions]
    · exact fun k' hk' sec' hsec' => hok k' sec' id op hk' hsec' hop₀
  | env he =>
    have hsession : ∀ {sid}, SessionStored c sid ∨ Removing c sid →
        SessionStored { c with shared := _ } sid ∨ Removing { c with shared := _ } sid := fun h =>
      h.imp (fun ⟨session, h⟩ => ⟨session, he.sessions ▸ h⟩) fun h => h
    rcases he.operation_origin hop with hop₀ | ⟨_, _, _, op₀, _, _, _, hop₀, rfl⟩
    · exact hsession (H id op hop₀)
    · exact hsession (H id op₀ hop₀)

/-- The session `id` was removed, and so were its operations. -/
structure SessionGone (c : Conf ServiceState RpcThread) (id : String) : Prop where
  used : id ∈ c.shared.usedIds
  notStored : ¬SessionStored c id
  notRemoving : ¬Removing c id

theorem SessionGone.step (H : SessionGone c id)
    (hs : (serviceMachine cfg F clock).step c a = some c') : SessionGone c' id := by
  cases serviceStep_cases hs with
  | @start i request hi =>
    refine ⟨H.used, H.notStored, fun ⟨j, k, sec, hk, hsec, hid⟩ => ?_⟩
    rcases Conf.set_threads_eq_some.mp hk with ⟨rfl, rfl⟩ | ⟨_, hk⟩
    · have hsec := (RpcRequest.thread_sections hsec).resolve_right List.not_mem_nil
      rw [RpcRequest.start_removesFor sec hsec] at hid
      cases hid
    · exact H.notRemoving ⟨j, k, sec, hk, hsec, hid⟩
  | @exec i input k sec rest s next hk hsec hrun =>
    refine ⟨hrun.usedIds_subset H.used, fun ⟨session, hsession⟩ => ?_, ?_⟩
    · cases hrun.session_origin hsession with
      | kept hmem | touched hmem | admitted _ hmem => exact H.notStored ⟨_, hmem⟩
      | opened _ hnew => exact hnew H.used
    · intro ⟨j, k', sec', hk', hsec', hid⟩
      rcases Conf.set_threads_eq_some.mp hk' with ⟨rfl, rfl⟩ | ⟨_, hk'⟩
      · rcases RpcRequest.thread_sections hsec' with hsec' | hsec'
        · exact H.notStored (hrun.stored_of_removesFor hsec' hid)
        · exact H.notRemoving ⟨j, k, sec', hk, hsec ▸ List.mem_cons_of_mem _ hsec', hid⟩
      · exact H.notRemoving ⟨j, k', sec', hk', hsec', hid⟩
  | @drop i k sec rest hk hsec =>
    refine ⟨dropSection_env.later.usedIds H.used, fun ⟨session, hsession⟩ => ?_, ?_⟩
    · rw [Conf.set_shared, dropSection_env.sessions] at hsession
      exact H.notStored ⟨session, hsession⟩
    · intro ⟨j, k', sec', hk', hsec', hid⟩
      rcases Conf.set_threads_eq_some.mp hk' with ⟨rfl, rfl⟩ | ⟨_, hk'⟩
      · cases hsec'
      · exact H.notRemoving ⟨j, k', sec', hk', hsec', hid⟩
  | env he =>
    refine ⟨he.later.usedIds H.used, fun ⟨session, hsession⟩ => ?_, H.notRemoving⟩
    exact H.notStored ⟨session, he.sessions ▸ hsession⟩

theorem SessionGone.no_operations (H : SessionGone c id) (h : NoOrphans c) {id' : String}
    {op : OperationState} (hop : c.shared.operations.lookup id' = some op) : op.sessionId ≠ id := by
  rintro rfl
  exact (h id' op hop).elim H.notStored H.notRemoving

/-- Only the call that took a session out of the map goes on to remove its operations. -/
theorem Removing.removedBy (hc : (serviceMachine cfg F clock).Reachable c) (h : Removing c id)
    {i : ThreadId} (hid : c.shared.removedBy.lookup id = some i) :
    ∃ k sec, c.threads i = some k ∧ sec ∈ k.sections ∧ id ∈ sec.removesFor := by
  obtain ⟨j, k, sec, hk, hsec, hmem⟩ := h
  have hwf := (serviceWF hc).2 j k hk sec hsec
  have hby : c.shared.removedBy.lookup id = some j := by
    cases sec with
    | removeOperationsForSession => exact List.mem_singleton.mp hmem ▸ hwf.1
    | cleanupOperations => exact hwf.2 id hmem
    | _ => cases hmem
  obtain rfl : i = j := Option.some.inj (hid.symm.trans hby)
  exact ⟨k, sec, hk, hsec, hmem⟩

/-- A `CloseSession` call that returned success has taken the session out of the map. -/
def ClosedBy (c : Conf ServiceState RpcThread) : Prop :=
  ∀ i k handle, c.threads i = some k → k.request.call = .closeSession (some handle) →
    k.reply = some (.response (writeCloseSessionResponse k.request.seqid true)) →
    c.shared.removedBy.lookup handle.id = some i

theorem writeCloseSessionResponse_ne {seqid : Int32} :
    writeCloseSessionResponse seqid false ≠ writeCloseSessionResponse seqid true := by
  intro h
  have h := List.append_cancel_left (List.append_cancel_right h)
  exact absurd h (by decide)

theorem SectionRun.closedBy {i : ThreadId} {request : RpcRequest} {s s' : ServiceState}
    {sec : Section} {reply : Reply} {handle : Handle}
    {next : Next} (h : SectionRun cfg F i request s sec s' next) (hnext : next = .reply reply)
    (hsec : sec.WF s i request) (hcall : request.call = .closeSession (some handle))
    (hreply : reply = .response (writeCloseSessionResponse request.seqid true)) :
    s.removedBy.lookup handle.id = some i := by
  -- the other sections belong to other calls
  have other {call : RpcCall} (hsec : request.call = call)
      (hne : call ≠ .closeSession (some handle)) : s.removedBy.lookup handle.id = some i :=
    absurd (hsec.symm.trans hcall) hne
  cases h with
  | listFinished | taken | notTaken | awaited | refreshed | cleanupClock | cleanupSessions
  | cleanupOperations | removedSession | sessionClock | sessionExpired | getColumnsClock
  | insertedGetColumns | completionFailed | operationFound | historyFound => cases hnext
  | removedOperations =>
    obtain ⟨hby, handle', rfl, ⟨hcall', -⟩ | ⟨_, hcall', -⟩⟩ := hsec
    · cases hcall.symm.trans hcall'
      exact hby
    · exact other hcall' (by simp)
  | notRemovedSession =>
    cases hnext
    exact absurd (Reply.response.inj hreply) writeCloseSessionResponse_ne
  | touched =>
    rcases hsec with ⟨_, hsec⟩ | ⟨_, hsec⟩
    · exact other hsec (by simp)
    · exact other hsec (by simp)
  | sessionAdmitted | sessionRefused => exact other hsec.1 (by simp)
  | getColumnsFull | executeStatementFull | insertedExecuteStatement =>
    exact other hsec.2 (by simp)
  | completionSucceeded =>
    obtain ⟨-, _, hsec⟩ := hsec
    exact other hsec (by simp)
  | removedUnreturned =>
    obtain ⟨_, hsec⟩ := hsec
    exact other hsec (by simp)
  | _ => exact other hsec (by simp)

theorem closedBy (hc : (serviceMachine cfg F clock).Reachable c) : ClosedBy c := by
  refine Machine.ReachableBy.invariant_of (fun c hc => serviceWF hc) hc
    (fun i k handle hk => by cases hk) ?_
  intro c a c' ⟨HS, HL⟩ _ H _ hs i k handle hk hcall hreply
  cases serviceStep_cases hs with
  | @start j request hj =>
    rcases Conf.set_threads_eq_some.mp hk with ⟨rfl, rfl⟩ | ⟨_, hk⟩
    · rw [RpcRequest.thread_request] at hcall
      rw [RpcRequest.start, hcall] at hreply
      cases hreply
    · exact H i k handle hk hcall hreply
  | @exec j input k' sec rest s next hk' hsec hrun =>
    refine hrun.removedBy HS ?_
    rcases Conf.set_threads_eq_some.mp hk with ⟨rfl, rfl⟩ | ⟨_, hk⟩
    · cases next with
      | sections => cases hreply
      | reply reply =>
        refine hrun.closedBy rfl (HL i k' hk' sec (hsec ▸ List.mem_cons_self)) hcall ?_
        exact Option.some.inj hreply
    · exact H i k handle hk hcall hreply
  | @drop j k' sec rest hk' =>
    refine dropSection_env.later.removedBy ?_
    rcases Conf.set_threads_eq_some.mp hk with ⟨rfl, rfl⟩ | ⟨_, hk⟩
    · exact H i k' handle hk' hcall hreply
    · exact H i k handle hk hcall hreply
  | env he => exact he.later.removedBy (H i k handle hk hcall hreply)

/-- Outside the window of a removal every operation belongs to a stored session, and once the
call that removed a session is past its operations, none is there or inserted later; that is so
when `CloseSession` has returned success. -/
theorem noOrphans (hc : (serviceMachine cfg F clock).ReachableBy (KeepsSessions cfg) c) :
    NoOrphans c ∧
    (∀ id i k, c.shared.removedBy.lookup id = some i → c.threads i = some k →
      (∀ sec ∈ k.sections, id ∉ sec.removesFor) →
      ∀ d, (serviceMachine cfg F clock).ReachesBy (KeepsSessions cfg) c d →
        ∀ id' op, d.shared.operations.lookup id' = some op → op.sessionId ≠ id) ∧
    (∀ i k handle, c.threads i = some k → k.request.call = .closeSession (some handle) →
      k.reply = some (.response (writeCloseSessionResponse k.request.seqid true)) →
      c.shared.removedBy.lookup handle.id = some i ∧ k.sections = []) := by
  have orphans {c : Conf ServiceState RpcThread}
      (hc : (serviceMachine cfg F clock).ReachableBy (KeepsSessions cfg) c) : NoOrphans c := by
    refine Machine.ReachableBy.invariant_of
      (fun c hc i k hk => serviceShape hc.reachable (i := i) (k := k) hk) hc
      (fun id op hop => by cases hop) ?_
    intro c a c' hshape _ H hok hs
    exact H.step hshape hok hs
  refine ⟨orphans hc, ?_, ?_⟩
  · intro id i k hid hk hpast d hd id' op hop
    have hgone : SessionGone c id := by
      have hwf := (serviceWF hc.reachable).1.removedBy hid
      refine ⟨hwf.1, fun ⟨session, h⟩ => ?_, fun h => ?_⟩
      · cases hwf.2.symm.trans h
      · obtain ⟨k', sec, hk', hsec, hmem⟩ := h.removedBy hc.reachable hid
        cases hk.symm.trans hk'
        exact hpast sec hsec hmem
    have hgone' : SessionGone d id :=
      hd.invariant (I := fun d => SessionGone d id) hgone fun c a c' h _ hs => h.step hs
    exact hgone'.no_operations (orphans (hc.trans hd)) hop
  · intro i k handle hk hcall hreply
    refine ⟨closedBy hc.reachable i k handle hk hcall hreply, ?_⟩
    exact (serviceReturned hc.reachable hk).resolve_left (hreply ▸ Option.some_ne_none _)

end Runs
/-- `CloseSession`, up to its reply. -/
def closeSessionRun (i : ThreadId) (session : Handle) :
    List (Action RpcRequest RpcInput ServiceEnv) :=
  [.start i ⟨"token-a", 4, .closeSession (some session)⟩, .exec i .run, .exec i .run]

theorem noOrphans_closed : ∃ c : Conf ServiceState RpcThread,
    (∃ k, c.threads 2 = some k ∧
      k.reply = some (.response (writeCloseSessionResponse 4 true))) ∧ NoOrphans c := by
  -- a statement is inserted for a stored session, which is then closed
  have hopen : testMachine.ReachesBy (KeepsSessions testService) testMachine.init _ :=
    Machine.reachesBy_run ((openSessionRun 0 1 2).take 5) (by simp [openSessionRun, KeepsSessions])
      rfl
  have hopened := hopen.step (a := .exec 0 (.uuids (testUuid 1) (testUuid 2)))
    (by rintro _ _ _ _ ⟨⟩ ⟨⟩ ⟨⟩) rfl
  have hchecked := hopened.trans <| Machine.reachesBy_run
    (executeStatementRun 1 (testHandle 1 2)) (by simp [executeStatementRun, KeepsSessions]) rfl
  have hinserted := hchecked.step (a := .exec 1 (.uuids (testUuid 3) (testUuid 4)))
    (by rintro _ _ _ _ ⟨⟩ ⟨⟩ ⟨⟩ _; exact .inl ⟨_, rfl⟩) rfl
  have hclosed := hinserted.trans <| Machine.reachesBy_run (closeSessionRun 2 (testHandle 1 2))
    (by simp [closeSessionRun, KeepsSessions]) rfl
  exact ⟨_, ⟨_, rfl, rfl⟩, (noOrphans hclosed).1⟩

/-- A session is closed between the check of `ExecuteStatement` and its insertion. -/
theorem exists_not_noOrphans : ∃ c : Conf ServiceState RpcThread,
    testMachine.Reachable c ∧ ¬NoOrphans c := by
  have h := Machine.reachable_run testMachine
    (openSessionRun 0 1 2 ++ executeStatementRun 1 (testHandle 1 2) ++
      closeSessionRun 2 (testHandle 1 2) ++ [.exec 1 (.uuids (testUuid 3) (testUuid 4))]) rfl
  refine ⟨_, h, fun H => ?_⟩
  rcases H (testHandle 3 4).id _ rfl with ⟨session, hsession⟩ | ⟨i, k, sec, hk, hsec, -⟩
  · cases hsession
  · have hidle : k.sections = [] := by
      match i with
      | 0 | 1 | 2 => cases hk; rfl
      | i + 3 => cases hk
    rw [hidle] at hsec
    cases hsec

end HarborSql
