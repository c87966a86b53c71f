import HarborSql.Verify.Thrift.Sessions
import HarborSql.Verify.Thrift.Refreshing

/-! A call with the handle of an entry that is not its own learns nothing of the entry, and
leaves it as it is. -/

namespace HarborSql

/-! ## Entries -/

/-- An entry of one of the two maps. -/
inductive Entry where
  | session (id : String)
  | operation (id : String)

def Entry.id : Entry → String
  | session id | operation id => id

/-- The entry that a call names. -/
def RpcCall.entry : RpcCall → Option Entry
  | closeSession (some handle) | session _ (some handle) => some (.session handle.id)
  | operation _ (some handle) | closeOperation (some handle) | cancelOperation (some handle) =>
    some (.operation handle.id)
  | queryHistory queryId => some (.operation queryId)
  | _ => none

/-- The reply to a call that names no stored entry. -/
def RpcRequest.unknown (request : RpcRequest) : Reply :=
  match request.call with
  | .closeSession _ => .response (writeCloseSessionResponse request.seqid false)
  | .session method _ => .response (method.invalid request.seqid)
  | .operation method _ => .response (method.invalid request.seqid)
  | .closeOperation _ => .response (writeCloseOperationResponse request.seqid false)
  | .cancelOperation _ => .response (writeCancelOperationResponse request.seqid false)
  | _ => .history none

namespace ServiceState

/-- The secret of a stored entry, and the fingerprint of its owner's token. -/
def credentials (s : ServiceState) : Entry → Option (Bytes × Bytes)
  | .session id =>
    (s.sessions.lookup id).map fun session => (session.secret, session.tokenFingerprint)
  | .operation id => (s.operations.lookup id).map fun op => (op.secret, op.tokenFingerprint)

/-- The same state without an entry. -/
def without (s : ServiceState) : Entry → ServiceState
  | .session id => { s with sessions := s.sessions.erase id }
  | .operation id => { s with operations := s.operations.erase id }

end ServiceState

/-- A request has another secret than an entry, or another token than its owner. -/
def RpcRequest.Lacks (cfg : ServiceConfig) (request : RpcRequest) (credentials : Bytes × Bytes) :
    Prop :=
  (∃ handle, request.call.handle = some handle ∧ handle.secret ≠ credentials.1) ∨
    cfg.tokenFingerprint request.bearerToken ≠ credentials.2

/-- The sections of a call that is refused. -/
def Section.Refuses (request : RpcRequest) : Section → Prop
  | .listFinished | .takeFinishedTask _ | .awaitTask .. | .finishRefresh .. | .cleanupClock
  | .cleanupSessions _ | .cleanupOperations .. => True
  | .sessionClock method handle => request.call = .session method handle
  | .sessionFor method handle _ => request.call = .session method (some handle)
  | .removeOperationsForSession _ reply =>
    (∃ method handle, request.call = .session method (some handle)) ∧ reply = request.unknown
  | .removeSession handle => request.call = .closeSession (some handle)
  | .withOperation method handle => request.call = .operation method (some handle)
  | .removeOperation handle => request.call = .closeOperation (some handle)
  | .cancelOperation handle => request.call = .cancelOperation (some handle)
  | .readHistory queryId => request.call = .queryHistory queryId
  | _ => False

section Sections
variable {cfg : ServiceConfig} {F : Formatting} {i : ThreadId} {request : RpcRequest}
variable {s s' : ServiceState} {sec : Section} {next : Next} {x : Entry}

theorem RpcRequest.Lacks.session {session : SessionState} {handle : Handle}
    (h : request.Lacks cfg (session.secret, session.tokenFingerprint))
    (hhandle : request.call.handle = some handle) :
    session.admits handle (cfg.tokenFingerprint request.bearerToken) = false := by
  rcases h with ⟨handle', hhandle', hsecret⟩ | htoken
  · cases hhandle.symm.trans hhandle'
    simp [SessionState.admits, hsecret.symm]
  · simp [SessionState.admits, htoken.symm]

theorem RpcRequest.Lacks.operation {op : OperationState} {handle : Handle}
    (h : request.Lacks cfg (op.secret, op.tokenFingerprint))
    (hhandle : request.call.handle = some handle) :
    op.admits handle (cfg.tokenFingerprint request.bearerToken) = false := by
  rcases h with ⟨handle', hhandle', hsecret⟩ | htoken
  · cases hhandle.symm.trans hhandle'
    simp [OperationState.admits, hsecret.symm]
  · simp [OperationState.admits, htoken.symm]

theorem ServiceState.credentials_session {id : String} {session : SessionState}
    (h : s.sessions.lookup id = some session) :
    s.credentials (.session id) = some (session.secret, session.tokenFingerprint) := by
  rw [credentials, h, Option.map_some]

theorem ServiceState.credentials_operation {id : String} {op : OperationState}
    (h : s.operations.lookup id = some op) :
    s.credentials (.operation id) = some (op.secret, op.tokenFingerprint) := by
  rw [credentials, h, Option.map_some]

/-- The request does not have the credentials of the entry that it names. -/
structure RpcRequest.Refused (cfg : ServiceConfig) (request : RpcRequest) (s : ServiceState)
    (x : Entry) : Prop where
  names : request.call.entry = some x
  used : x.id ∈ s.usedIds
  lacks : ∀ credentials, s.credentials x = some credentials → request.Lacks cfg credentials

theorem RpcRequest.Refused.session {handle : Handle} {session : SessionState}
    (h : request.Refused cfg s x) (hhandle : request.call.handle = some handle)
    (hentry : request.call.entry = some (.session handle.id))
    (hsession : s.sessions.lookup handle.id = some session) :
    session.admits handle (cfg.tokenFingerprint request.bearerToken) = false := by
  obtain rfl : Entry.session handle.id = x := Option.some.inj (hentry.symm.trans h.names)
  exact (h.lacks _ (s.credentials_session hsession)).session hhandle

theorem RpcRequest.Refused.operation {handle : Handle} {op : OperationState}
    (h : request.Refused cfg s x) (hhandle : request.call.handle = some handle)
    (hentry : request.call.entry = some (.operation handle.id))
    (hop : s.operations.lookup handle.id = some op) :
    op.admits handle (cfg.tokenFingerprint request.bearerToken) = false := by
  obtain rfl : Entry.operation handle.id = x := Option.some.inj (hentry.symm.trans h.names)
  exact (h.lacks _ (s.credentials_operation hop)).operation hhandle

theorem RpcRequest.Refused.history {queryId : String} {op : OperationState}
    (h : request.Refused cfg s x) (hcall : request.call = .queryHistory queryId)
    (hop : s.operations.lookup queryId = some op) :
    op.tokenFingerprint ≠ cfg.tokenFingerprint request.bearerToken := by
  obtain rfl : Entry.operation queryId = x := by
    have hnames := h.names
    rw [hcall] at hnames
    exact Option.some.inj hnames
  rcases h.lacks _ (s.credentials_operation hop) with ⟨handle, hhandle, -⟩ | htoken
  · rw [hcall] at hhandle
    cases hhandle
  · exact htoken.symm

/-- A section of a refused call goes on to such sections, or refuses. -/
theorem SectionRun.refuses (h : SectionRun cfg F i request s sec s' next)
    (hsec : sec.Refuses request) (hrefused : request.Refused cfg s x) :
    (∀ sec' ∈ next.rest, sec'.Refuses request) ∧
      ∀ reply, next = .reply reply → reply = request.unknown := by
  have single {sec' : Section} (h : sec'.Refuses request) :
      (∀ sec'' ∈ (Next.sections [sec']).rest, sec''.Refuses request) ∧
        ∀ reply, Next.sections [sec'] = .reply reply → reply = request.unknown :=
    ⟨List.forall_mem_singleton.mpr h, fun _ h => by cases h⟩
  have replied {reply : Reply} (h : reply = request.unknown) :
      (∀ sec'' ∈ (Next.reply reply).rest, sec''.Refuses request) ∧
        ∀ reply', Next.reply reply = .reply reply' → reply' = request.unknown :=
    ⟨List.forall_mem_nil _, fun _ heq => Next.reply.inj heq ▸ h⟩
  cases h with
  | listFinished =>
    refine ⟨fun sec' hsec' => ?_, fun _ h => by cases h⟩
    obtain ⟨id, -, rfl⟩ := List.mem_map.mp hsec'
    trivial
  | taken | awaited | cleanupClock | cleanupSessions => exact single trivial
  | notTaken | refreshed | cleanupOperations =>
    exact ⟨List.forall_mem_nil _, fun _ h => by cases h⟩
  | removedSession hsession hadm =>
    have hcall : request.call = .closeSession (some _) := hsec
    have hno := hrefused.session (by rw [hcall]; rfl) (by rw [hcall]; rfl) hsession
    exact absurd hadm (by rw [hno]; exact Bool.false_ne_true)
  | notRemovedSession =>
    have hcall : request.call = .closeSession (some _) := hsec
    exact replied (by rw [RpcRequest.unknown, hcall])
  | removedOperations => exact replied hsec.2
  | noSessionHandle =>
    have hcall : request.call = .session _ none := hsec
    exact replied (by rw [RpcRequest.unknown, hcall])
  | sessionClock => exact single hsec
  | sessionExpired =>
    have hcall : request.call = .session _ (some _) := hsec
    exact single ⟨⟨_, _, hcall⟩, by rw [RpcRequest.unknown, hcall]⟩
  | sessionAdmitted hsession _ hadm =>
    have hcall : request.call = .session _ (some _) := hsec
    have hno := hrefused.session (by rw [hcall]; rfl) (by rw [hcall]; rfl) hsession
    exact absurd hadm (by rw [hno]; exact Bool.false_ne_true)
  | sessionRefused =>
    have hcall : request.call = .session _ (some _) := hsec
    exact replied (by rw [RpcRequest.unknown, hcall])
  | operationFound hop hadm =>
    have hcall : request.call = .operation _ (some _) := hsec
    have hno := hrefused.operation (by rw [hcall]; rfl) (by rw [hcall]; rfl) hop
    exact absurd hadm (by rw [hno]; exact Bool.false_ne_true)
  | operationRefused =>
    have hcall : request.call = .operation _ (some _) := hsec
    exact replied (by rw [RpcRequest.unknown, hcall])
  | removedOperation hop hadm =>
    have hcall : request.call = .closeOperation (some _) := hsec
    have hno := hrefused.operation (by rw [hcall]; rfl) (by rw [hcall]; rfl) hop
    exact absurd hadm (by rw [hno]; exact Bool.false_ne_true)
  | notRemovedOperation =>
    have hcall : request.call = .closeOperation (some _) := hsec
    exact replied (by rw [RpcRequest.unknown, hcall])
  | canceled hop hadm =>
    have hcall : request.call = .cancelOperation (some _) := hsec
    have hno := hrefused.operation (by rw [hcall]; rfl) (by rw [hcall]; rfl) hop
    exact absurd hadm (by rw [hno]; exact Bool.false_ne_true)
  | notCanceled =>
    have hcall : request.call = .cancelOperation (some _) := hsec
    exact replied (by rw [RpcRequest.unknown, hcall])
  | historyFound hop htoken => exact absurd htoken (hrefused.history hsec hop)
  | historyRefused =>
    have hcall : request.call = .queryHistory _ := hsec
    exact replied (by rw [RpcRequest.unknown, hcall])
  | _ => exact hsec.elim

/-- No section changes the credentials of an entry. -/
theorem SectionRun.credentials (h : SectionRun cfg F i request s sec s' next)
    (hused : x.id ∈ s.usedIds) {credentials : Bytes × Bytes}
    (hx : s'.credentials x = some credentials) : s.credentials x = some credentials := by
  cases x with
  | session id =>
    obtain ⟨session, hsession, rfl⟩ := Option.map_eq_some_iff.mp hx
    cases h.session_origin hsession with
    | kept hmem => exact s.credentials_session hmem
    | touched hmem heq | admitted _ hmem _ _ heq => rw [s.credentials_session hmem, heq]
    | opened _ hnew => exact absurd hused hnew
  | operation id =>
    obtain ⟨op, hop, rfl⟩ := Option.map_eq_some_iff.mp hx
    cases h.operation_origin hop with
    | kept hop => exact s.credentials_operation hop
    | taken hop _ _ heq =>
      rw [s.credentials_operation hop, heq]
      rfl
    | @refreshed op₀ started result next hop heq =>
      rw [s.credentials_operation hop, heq]
      rcases op₀.finishRefresh_cases s.clock started result with ⟨hsame, -⟩ | ⟨_, -, hnew⟩
      · rw [hsame]
      · rw [hnew]
    | @canceled op₀ handle next _ hop _ heq =>
      rw [s.credentials_operation hop, heq]
      rcases op₀.cancel_cases s.clock with ⟨hsame, -⟩ | ⟨_, _, _, -, hnew⟩
      · rw [hsame]
      · rw [hnew]
    | inserted _ hnew => exact absurd hused hnew

theorem EnvStep.credentials (h : EnvStep s s') {credentials : Bytes × Bytes}
    (hx : s'.credentials x = some credentials) : s.credentials x = some credentials := by
  cases x with
  | session id =>
    rw [ServiceState.credentials, h.sessions] at hx
    exact hx
  | operation id =>
    obtain ⟨op, hop, rfl⟩ := Option.map_eq_some_iff.mp hx
    rcases h.operation_origin hop with hop | ⟨_, _, _, op₀, _, _, _, hop₀, heq⟩
    · exact s.credentials_operation hop
    · rw [s.credentials_operation hop₀, heq]

end Sections

/-! ## Calls that are refused -/

section Runs
variable {cfg : ServiceConfig} {F : Formatting} {clock : Instant} {i : ThreadId}
variable {request : RpcRequest} {x : Entry} {c c' : Conf ServiceState RpcThread}
variable {a : Action RpcRequest RpcInput ServiceEnv}

/-- Call `i` is one that is refused: it has returned the reply for an unknown handle, or goes
on to it. -/
structure Refusing (cfg : ServiceConfig) (i : ThreadId) (request : RpcRequest) (x : Entry)
    (c : Conf ServiceState RpcThread) : Prop where
  inv : ServiceInv c
  refused : request.Refused cfg c.shared x
  thread : ∃ k, c.threads i = some k ∧ k.request = request ∧
    (∀ sec ∈ k.sections, sec.Refuses request) ∧ ∀ reply ∈ k.reply, reply = request.unknown

theorem RpcRequest.Refused.later {s s' : ServiceState} (h : request.Refused cfg s x)
    (hused : s.usedIds ⊆ s'.usedIds)
    (hx : ∀ credentials, s'.credentials x = some credentials → s.credentials x = some credentials) :
    request.Refused cfg s' x :=
  ⟨h.names, hused h.used, fun credentials hcredentials => h.lacks _ (hx _ hcredentials)⟩

theorem RpcRequest.start_refuses (h : request.call.entry = some x) :
    (∀ sec ∈ request.start.rest, sec.Refuses request) ∧
      ∀ reply, request.start ≠ .reply reply := by
  obtain ⟨token, seqid, call⟩ := request
  cases call with
  | queryHistory => simp [start, Next.rest, cleanupExpired, Section.Refuses]
  | closeSession handle | closeOperation handle | cancelOperation handle =>
    cases handle with
    | none => cases h
    | some handle => simp [start, Next.rest, cleanupExpired, Section.Refuses]
  | operation method handle =>
    cases handle with
    | none => cases h
    | some handle => simp [start, Next.rest, cleanupExpired, Section.Refuses]
  | session method handle =>
    cases handle with
    | none => cases h
    | some handle => cases method <;> simp [start, Next.rest, cleanupExpired, Section.Refuses]
  | openSession | cleanupExpired | notACall | unsupported => cases h

theorem Refusing.step (h : Refusing cfg i request x c)
    (hs : (serviceMachine cfg F clock).step c a = some c') : Refusing cfg i request x c' := by
  have hinv := h.inv.step hs
  obtain ⟨k, hk, rfl, hsections, hreply⟩ := h.thread
  cases serviceStep_cases hs with
  | @start j request' hj =>
    have hne : i ≠ j := by
      intro heq
      rw [← heq, hk] at hj
      cases hj
    exact ⟨hinv, h.refused, k, (Conf.set_threads_of_ne hne).trans hk, rfl, hsections, hreply⟩
  | @exec j input l sec rest s next hl hsec hrun =>
    have hrefused : k.request.Refused cfg s x :=
      h.refused.later hrun.usedIds_subset fun _ => hrun.credentials h.refused.used
    by_cases hij : i = j
    · subst hij
      obtain rfl : k = l := Option.some.inj (hk.symm.trans hl)
      rw [hsec] at hsections
      obtain ⟨hnext, hreply'⟩ := hrun.refuses (hsections sec List.mem_cons_self) h.refused
      refine ⟨hinv, hrefused, _, Conf.set_threads_self, RpcRequest.thread_request, ?_, ?_⟩
      · intro sec' hsec'
        rcases RpcRequest.thread_sections hsec' with hsec' | hsec'
        · exact hnext sec' hsec'
        · exact hsections sec' (List.mem_cons_of_mem _ hsec')
      · intro reply hmem
        cases next with
        | sections => cases hmem
        | reply reply' =>
          obtain rfl := Option.some.inj hmem
          exact hreply' _ rfl
    · exact ⟨hinv, hrefused, k, (Conf.set_threads_of_ne hij).trans hk, rfl, hsections, hreply⟩
  | @drop j l sec rest hl hsec =>
    have hrefused : k.request.Refused cfg (dropSection c.shared sec) x :=
      h.refused.later (by rw [dropSection_env.usedIds]; exact List.Subset.refl _)
        fun _ => dropSection_env.credentials
    by_cases hij : i = j
    · subst hij
      obtain rfl : k = l := Option.some.inj (hk.symm.trans hl)
      exact ⟨hinv, hrefused, _, Conf.set_threads_self, rfl, List.forall_mem_nil _, hreply⟩
    · exact ⟨hinv, hrefused, k, (Conf.set_threads_of_ne hij).trans hk, rfl, hsections, hreply⟩
  | env he =>
    exact ⟨hinv, h.refused.later (by rw [he.usedIds]; exact List.Subset.refl _)
      fun _ => he.credentials, k, hk, rfl, hsections, hreply⟩

theorem Refusing.of_start (hinv : ServiceInv c) (hrefused : request.Refused cfg c.shared x)
    (hs : (serviceMachine cfg F clock).step c (.start i request) = some c') :
    Refusing cfg i request x c' := by
  have hinv' := hinv.step hs
  cases serviceStep_cases hs with
  | start =>
    obtain ⟨hsections, hreply⟩ := RpcRequest.start_refuses hrefused.names
    refine ⟨hinv', hrefused, _, Conf.set_threads_self, RpcRequest.thread_request, ?_, ?_⟩
    · intro sec hsec
      exact hsections sec ((RpcRequest.thread_sections hsec).resolve_right List.not_mem_nil)
    · intro reply hmem
      cases hstart : request.start with
      | sections =>
        rw [hstart] at hmem
        cases hmem
      | reply reply' => exact absurd hstart (hreply reply')

/-! ### A refused call returns -/

/-- How many sections follow, at most, from a section that does not list. -/
def Section.weight : Section → Nat
  | .takeFinishedTask _ | .cleanupClock | .sessionClock .. => 3
  | .awaitTask .. | .cleanupSessions _ | .sessionFor .. => 2
  | _ => 1

theorem Section.Refuses.runs {s : ServiceState} {sec : Section} (hsec : sec.Refuses request)
    (hwf : sec.WF s i request) :
    ∃ input s' next, runSection cfg F i request s sec input = some (s', next) := by
  cases sec with
  | listFinished =>
    let ids := (s.operations.entries.filter fun e => e.2.hasFinishedTask s.tasks).map (·.1)
    have hlists : listsFinished s ids := List.isPerm_iff.mpr (.refl _)
    exact ⟨.order ids, s, .sections (ids.map .takeFinishedTask), if_pos hlists⟩
  | awaitTask id started task =>
    obtain ⟨t, result, ht, -, hst⟩ := hwf
    refine ⟨.run, s, .sections [.finishRefresh id started result], ?_⟩
    rw [runSection, joinResult_eq_some ht hst, Option.map_some]
  | sessionClock method handle =>
    cases handle with
    | none => exact ⟨.run, _, _, rfl⟩
    | some handle => exact ⟨.run, _, _, rfl⟩
  | openSession | getColumnsClock | insertGetColumns | insertExecuteStatement
  | awaitOperationCompletion | removeUnreturnedOperation | touchSession => exact hsec.elim
  | _ => exact ⟨.run, _, _, rfl⟩

/-- What follows a section of a refused call is less. -/
theorem SectionRun.lighter {s s' : ServiceState} {sec : Section} {next : Next}
    (h : SectionRun cfg F i request s sec s' next) (hsec : sec.Refuses request)
    (hrefused : request.Refused cfg s x) (hlist : sec ≠ .listFinished) :
    (next.rest.map Section.weight).sum < sec.weight ∧ .listFinished ∉ next.rest ∧
      (sec.isCleanup = false → ∀ new, next = .sections new →
        ∃ own, new = [own] ∧ own.isCleanup = false) := by
  cases h with
  | listFinished => exact absurd rfl hlist
  | sessionAdmitted hsession _ hadm =>
    have hcall : request.call = .session _ (some _) := hsec
    have hno := hrefused.session (by rw [hcall]; rfl) (by rw [hcall]; rfl) hsession
    exact absurd hadm (by rw [hno]; exact Bool.false_ne_true)
  | operationFound hop hadm =>
    have hcall : request.call = .operation _ (some _) := hsec
    have hno := hrefused.operation (by rw [hcall]; rfl) (by rw [hcall]; rfl) hop
    exact absurd hadm (by rw [hno]; exact Bool.false_ne_true)
  | historyFound hop htoken => exact absurd htoken (hrefused.history hsec hop)
  | removedSession hsession hadm =>
    have hcall : request.call = .closeSession (some _) := hsec
    have hno := hrefused.session (by rw [hcall]; rfl) (by rw [hcall]; rfl) hsession
    exact absurd hadm (by rw [hno]; exact Bool.false_ne_true)
  | getColumnsClock | insertedGetColumns | completionFailed => exact hsec.elim
  | _ => simp [Next.rest, Section.weight, Section.isCleanup]

theorem Refusing.run_section {sec : Section} {rest : List Section} (h : Refusing cfg i request x c)
    (hk : c.threads i = some ⟨request, sec :: rest, none⟩) : ∃ input c' s next,
      (serviceMachine cfg F clock).step c (.exec i input) = some c' ∧
        SectionRun cfg F i request c.shared sec s next ∧ sec.Refuses request ∧
          c'.threads i = some (request.thread rest next) := by
  obtain ⟨k, hk', -, hsections, -⟩ := h.thread
  obtain rfl : _ = k := Option.some.inj (hk.symm.trans hk')
  have hsec := hsections sec List.mem_cons_self
  obtain ⟨input, s, next, hrun⟩ := hsec.runs (h.inv.2 i _ hk sec List.mem_cons_self)
  exact ⟨input, _, s, next, serviceStep_exec hk rfl hrun, runSection_cases hrun, hsec,
    Conf.set_threads_self⟩

/-- A refused call that has listed returns when no other call interferes. -/
theorem Refusing.returns_of_listed (n : Nat) {front : List Section} {own : Section}
    (h : Refusing cfg i request x c)
    (hk : c.threads i = some ⟨request, front ++ [own], none⟩)
    (hfront : ∀ sec ∈ front, sec.isCleanup) (hown : own.isCleanup = false)
    (hlist : .listFinished ∉ front) (hweight : (front.map Section.weight).sum + own.weight ≤ n) :
    ∃ d k, (serviceMachine cfg F clock).ReachesBy (fun _ _ => True) c d ∧ d.threads i = some k ∧
      k.reply = some request.unknown := by
  induction n generalizing c front own with
  | zero => cases own <;> simp [Section.weight] at hweight
  | succ n ih =>
    cases front with
    | nil =>
      obtain ⟨input, c', s, next, hstep, hrun, hsec, hk'⟩ := h.run_section hk
      have hreaches : (serviceMachine cfg F clock).ReachesBy (fun _ _ => True) c c' :=
        .step .refl trivial hstep
      have hrefuses := hrun.refuses hsec h.refused
      obtain ⟨hlight, -, hone⟩ := hrun.lighter hsec h.refused fun heq => by
        rw [heq] at hown
        cases hown
      cases next with
      | reply reply => exact ⟨c', _, hreaches, hk', congrArg some (hrefuses.2 reply rfl)⟩
      | sections new =>
        obtain ⟨own', rfl, hown'⟩ := hone hown new rfl
        have hk'' : c'.threads i = some ⟨request, [] ++ [own'], none⟩ := hk'
        obtain ⟨d, k, hd, hdk⟩ := ih (h.step hstep) hk'' (List.forall_mem_nil _) hown'
          List.not_mem_nil (by simp [Next.rest] at hlight hweight ⊢; omega)
        exact ⟨d, k, hreaches.trans hd, hdk⟩
    | cons sec front =>
      obtain ⟨input, c', s, next, hstep, hrun, hsec, hk'⟩ := h.run_section hk
      have hreaches : (serviceMachine cfg F clock).ReachesBy (fun _ _ => True) c c' :=
        .step .refl trivial hstep
      obtain ⟨hlight, hnew, -⟩ := hrun.lighter hsec h.refused fun heq =>
        hlist (heq ▸ List.mem_cons_self)
      obtain ⟨new, rfl, hclean⟩ := hrun.isCleanup (hfront sec List.mem_cons_self)
      have hk'' : c'.threads i = some ⟨request, (new ++ front) ++ [own], none⟩ := by
        rw [hk', RpcRequest.thread, List.append_assoc]
        rfl
      obtain ⟨d, k, hd, hdk⟩ := ih (h.step hstep) hk''
        (fun sec' hsec' => (List.mem_append.mp hsec').elim (hclean sec')
          fun hsec' => hfront sec' (List.mem_cons_of_mem _ hsec')) hown
        (fun hmem => (List.mem_append.mp hmem).elim hnew
          fun hmem => hlist (List.mem_cons_of_mem _ hmem))
        (by simp [Next.rest] at hlight hweight ⊢; omega)
      exact ⟨d, k, hreaches.trans hd, hdk⟩

theorem RpcRequest.start_entry (h : request.call.entry = some x) : ∃ front own,
    (∀ sec ∈ front, sec.isCleanup) ∧ own.isCleanup = false ∧ .listFinished ∉ front ∧
      (request.start = .sections (front ++ [own]) ∨
        request.start = .sections (.listFinished :: (front ++ [own]))) := by
  obtain ⟨token, seqid, call⟩ := request
  cases call with
  | queryHistory queryId =>
    exact ⟨[.cleanupClock, .takeFinishedTask queryId], .readHistory queryId, by
      simp [Section.isCleanup], rfl, by simp, .inr rfl⟩
  | closeSession handle =>
    cases handle with
    | none => cases h
    | some handle =>
      exact ⟨[], .removeSession handle, List.forall_mem_nil _, rfl, List.not_mem_nil, .inl rfl⟩
  | closeOperation handle =>
    cases handle with
    | none => cases h
    | some handle =>
      exact ⟨[.cleanupClock], .removeOperation handle, by simp [Section.isCleanup], rfl, by simp,
        .inr rfl⟩
  | cancelOperation handle =>
    cases handle with
    | none => cases h
    | some handle =>
      exact ⟨[.cleanupClock], .cancelOperation handle, by simp [Section.isCleanup], rfl, by simp,
        .inr rfl⟩
  | operation method handle =>
    cases handle with
    | none => cases h
    | some handle =>
      exact ⟨[.cleanupClock, .takeFinishedTask handle.id], .withOperation method handle, by
        simp [Section.isCleanup], rfl, by simp, .inr rfl⟩
  | session method handle =>
    cases method with
    | getInfo infoType =>
      exact ⟨[], .sessionClock (.getInfo infoType) handle, List.forall_mem_nil _, rfl,
        List.not_mem_nil, .inl rfl⟩
    | getColumns filters =>
      exact ⟨[.cleanupClock], .sessionClock (.getColumns filters) handle, by
        simp [Section.isCleanup], rfl, by simp, .inr rfl⟩
    | executeStatement statement =>
      exact ⟨[.cleanupClock], .sessionClock (.executeStatement statement) handle, by
        simp [Section.isCleanup], rfl, by simp, .inr rfl⟩
  | openSession | cleanupExpired | notACall | unsupported => cases h

/-- What call `i` may return to a request that it starts with in `c`. -/
def Replies (cfg : ServiceConfig) (F : Formatting) (clock : Instant)
    (c : Conf ServiceState RpcThread) (i : ThreadId) (request : RpcRequest) (reply : Reply) :
    Prop :=
  ∃ c' d k, (serviceMachine cfg F clock).step c (.start i request) = some c' ∧
    (serviceMachine cfg F clock).ReachesBy (fun _ _ => True) c' d ∧ d.threads i = some k ∧
      k.reply = some reply

theorem serviceStep_start (hi : c.threads i = none) :
    (serviceMachine cfg F clock).step c (.start i request) =
      some (c.set c.shared i (request.thread [] request.start)) := by
  show (serviceProgram cfg F).step c (.start i request) = _
  rw [Program.step, hi]
  rfl

/-- Without the credentials of an entry a call returns what it would for an unknown handle. -/
theorem replies_iff_of_refused (hinv : ServiceInv c) (hi : c.threads i = none)
    (hrefused : request.Refused cfg c.shared x) {reply : Reply} :
    Replies cfg F clock c i request reply ↔ reply = request.unknown := by
  constructor
  · rintro ⟨c', d, k, hstart, hreaches, hk, hreply⟩
    have h : Refusing cfg i request x d :=
      hreaches.invariant (Refusing.of_start hinv hrefused hstart) fun _ _ _ h _ hs => h.step hs
    obtain ⟨k', hk', -, -, hunknown⟩ := h.thread
    obtain rfl : k = k' := Option.some.inj (hk.symm.trans hk')
    exact hunknown reply hreply
  · rintro rfl
    have hstart : (serviceMachine cfg F clock).step c (.start i request) = some _ :=
      serviceStep_start hi
    have h := Refusing.of_start hinv hrefused hstart
    obtain ⟨front, own, hfront, hown, hlist, heq | heq⟩ :=
      RpcRequest.start_entry hrefused.names
    · rw [heq] at hstart h
      have hk : (c.set c.shared i (request.thread [] (.sections (front ++ [own])))).threads i =
          some ⟨request, front ++ [own], none⟩ := by
        rw [Conf.set_threads_self, RpcRequest.thread, List.append_nil]
      obtain ⟨d, k, hd, hdk⟩ := h.returns_of_listed _ hk hfront hown hlist (Nat.le_refl _)
      exact ⟨_, d, k, hstart, hd, hdk⟩
    · rw [heq] at hstart h
      have hk : (c.set c.shared i (request.thread []
          (.sections (.listFinished :: (front ++ [own]))))).threads i =
          some ⟨request, .listFinished :: (front ++ [own]), none⟩ := by
        rw [Conf.set_threads_self, RpcRequest.thread, List.append_nil]
      obtain ⟨input, c', s, next, hstep, hrun, -, hk'⟩ := h.run_section hk
      cases hrun with
      | @listFinished ids =>
        have hk'' : c'.threads i =
            some ⟨request, (ids.map .takeFinishedTask ++ front) ++ [own], none⟩ := by
          rw [hk', RpcRequest.thread, List.append_assoc]
        obtain ⟨d, k, hd, hdk⟩ := (h.step hstep).returns_of_listed _ hk''
          (fun sec hsec => (List.mem_append.mp hsec).elim (fun hsec => by
            obtain ⟨id, -, rfl⟩ := List.mem_map.mp hsec
            rfl) (hfront sec)) hown
          (by simpa using hlist) (Nat.le_refl _)
        exact ⟨_, d, k, hstart, .trans (.step .refl trivial hstep) hd, hdk⟩

/-! ### The state without the entry -/

/-- A configuration without an entry. -/
def Conf.without (c : Conf ServiceState RpcThread) (x : Entry) : Conf ServiceState RpcThread :=
  { c with shared := c.shared.without x }

theorem ServiceState.WF.without {s : ServiceState} (H : s.WF) : (s.without x).WF := by
  cases x with
  | session id =>
    exact { H with
      sessions := fun h => H.sessions (HashMap.lookup_erase_eq_some.mp h).2
      removedBy := fun h => ⟨(H.removedBy h).1, Option.eq_none_iff_forall_ne_some.mpr
        fun session hsession => by
          have hstored := (HashMap.lookup_erase_eq_some.mp hsession).2
          cases (H.removedBy h).2.symm.trans hstored⟩ }
  | operation id =>
    exact { H with
      operations := fun h => H.operations (HashMap.lookup_erase_eq_some.mp h).2
      running := fun h hst => H.running (HashMap.lookup_erase_eq_some.mp h).2 hst }

theorem ServiceInv.without (h : ServiceInv c) : ServiceInv (c.without x) := by
  refine ⟨h.1.without, fun i k hk sec hsec => (h.2 i k hk sec hsec).later ?_⟩
  cases x with
  | session => exact ⟨Nat.le_refl _, List.Subset.refl _, .rfl, id⟩
  | operation => exact ⟨Nat.le_refl _, List.Subset.refl _, .rfl, id⟩

theorem ServiceState.credentials_without {s : ServiceState} :
    (s.without x).credentials x = none := by
  cases x with
  | session id => exact Option.map_eq_none_iff.mpr (AList.lookup_erase id s.sessions)
  | operation id => exact Option.map_eq_none_iff.mpr (AList.lookup_erase id s.operations)

theorem ServiceState.usedIds_without {s : ServiceState} : (s.without x).usedIds = s.usedIds := by
  cases x <;> rfl

theorem RpcRequest.Refused.without {s : ServiceState} (h : request.Refused cfg s x) :
    request.Refused cfg (s.without x) x where
  names := h.names
  used := by
    rw [ServiceState.usedIds_without]
    exact h.used
  lacks credentials hcredentials := by
    rw [ServiceState.credentials_without] at hcredentials
    cases hcredentials

/-! ## What a refused call leaves of the entry -/

/-- An operation is as it was, or goes on to the state that the result of its finished task
gives it. -/
inductive Promotes (s : ServiceState) (id : String) (op : OperationState) :
    OperationState → Prop
  | kept : Promotes s id op op
  | taken {started : Instant} {task : TaskId} : op.state = .running started task →
    isFinishedTask s.tasks task → Promotes s id op (op.taken started)
  | finished {started started' : Instant} {result : Except JoinError OperationCompletion} :
    op.state = .refreshing started' → TaskReturned s id result →
    Promotes s id op { op with state := .fromJoinResult s.clock started result }

/-- The entry is still stored in `s'` as it was in `s`, and the task of an operation is not
aborted; only an operation whose task has finished may be promoted. -/
def Entry.Untouched (s s' : ServiceState) : Entry → Prop
  | .session id => ∀ session, s.sessions.lookup id = some session →
    s'.sessions.lookup id = some session
  | .operation id => ∀ op, s.operations.lookup id = some op →
    (∃ op', s'.operations.lookup id = some op' ∧ Promotes s id op op') ∧
      ∀ started task, op.state = .running started task → s'.tasks[task]? = s.tasks[task]?

/-- Neither the entry nor, for an operation, its session is due for a cleanup. -/
def Entry.Unexpired (cfg : ServiceConfig) (s : ServiceState) : Entry → Prop
  | .session id => ∀ session, s.sessions.lookup id = some session →
    session.isExpired s.clock cfg.idleSessionTimeout = false
  | .operation id => ∀ op, s.operations.lookup id = some op →
    op.isExpired s.clock cfg.completedOperationTtl = false ∧
      ∀ session, s.sessions.lookup op.sessionId = some session →
        session.isExpired s.clock cfg.idleSessionTimeout = false

theorem SessionState.isExpired_of_le {session : SessionState} {now later : Instant}
    {timeout : Duration} (h : session.isExpired later timeout = false) (hle : now ≤ later) :
    session.isExpired now timeout = false := by
  unfold isExpired Instant.saturatingDurationSince at h ⊢
  rw [decide_eq_false_iff_not] at h ⊢
  exact fun hexp => h (hexp.trans (Nat.sub_le_sub_right hle _))

theorem OperationState.isExpired_of_le {op : OperationState} {now later : Instant} {ttl : Duration}
    (h : op.isExpired later ttl = false) (hle : now ≤ later) : op.isExpired now ttl = false := by
  unfold isExpired OperationExecution.isExpired Instant.saturatingDurationSince at h ⊢
  split
  · rw [decide_eq_false_iff_not]
    rename_i heq
    simp only [heq, decide_eq_false_iff_not] at h
    exact fun hexp => h (hexp.trans (Nat.sub_le_sub_right hle _))
  · rw [decide_eq_false_iff_not]
    rename_i heq
    simp only [heq, decide_eq_false_iff_not] at h
    exact fun hexp => h (hexp.trans (Nat.sub_le_sub_right hle _))
  · rw [decide_eq_false_iff_not]
    rename_i heq
    simp only [heq, decide_eq_false_iff_not] at h
    exact fun hexp => h (hexp.trans (Nat.sub_le_sub_right hle _))
  · rfl
  · rfl

section
variable {s s' : ServiceState} {sec : Section} {next : Next} {id : String}

/-- A refused call removes no session that has not expired. -/
theorem SectionRun.session_untouched (h : SectionRun cfg F i request s sec s' next)
    (hsec : sec.Refuses request) (hwf : sec.WF s i request)
    (hrefused : request.Refused cfg s (.session id))
    (hunexpired : (Entry.session id).Unexpired cfg s) : (Entry.session id).Untouched s s' := by
  intro session hsession
  have kept {ids : List String} (hids : id ∉ ids) :
      (HashMap.eraseAll s.sessions ids).lookup id = some session :=
    HashMap.lookup_eraseAll_eq_some.mpr ⟨hids, hsession⟩
  have live {now : Instant} (hnow : now ≤ s.clock) :
      session.isExpired now cfg.idleSessionTimeout = false :=
    SessionState.isExpired_of_le (hunexpired session hsession) hnow
  cases h with
  | cleanupSessions =>
    refine kept fun hmem => ?_
    obtain ⟨session', hsession', hexp⟩ := s.mem_expiredSessions.mp hmem
    obtain rfl : session = session' := Option.some.inj (hsession.symm.trans hsession')
    cases (live hwf).symm.trans hexp
  | @sessionExpired method handle now session' hsession' hexp =>
    refine kept fun hmem => ?_
    rw [List.mem_singleton.mp hmem] at hsession
    obtain rfl : session = session' := Option.some.inj (hsession.symm.trans hsession')
    cases (live hwf.2).symm.trans hexp
  | removedSession hsession' hadm =>
    have hcall : request.call = .closeSession (some _) := hsec
    have hno := hrefused.session (by rw [hcall]; rfl) (by rw [hcall]; rfl) hsession'
    exact absurd hadm (by rw [hno]; exact Bool.false_ne_true)
  | sessionAdmitted hsession' _ hadm =>
    have hcall : request.call = .session _ (some _) := hsec
    have hno := hrefused.session (by rw [hcall]; rfl) (by rw [hcall]; rfl) hsession'
    exact absurd hadm (by rw [hno]; exact Bool.false_ne_true)
  | opened | touched | removedUnreturned => exact hsec.elim
  | removedOperation => rwa [ServiceState.eraseOperation_sessions]
  | _ => exact hsession

theorem OperationState.abort_getElem? {op : OperationState} {tasks : List Task} {n : TaskId}
    (h : ∀ started, op.state ≠ .running started n) : (op.abort tasks)[n]? = tasks[n]? := by
  unfold abort
  split
  case h_1 started task hst =>
    have hne : task ≠ n := fun heq => h started (heq ▸ hst)
    simp [List.getElem?_modify, hne]
  case h_2 => rfl

theorem abortOperations_getElem? {ops : List OperationState} {tasks : List Task} {n : TaskId}
    (h : ∀ op ∈ ops, ∀ started, op.state ≠ .running started n) :
    (abortOperations ops tasks)[n]? = tasks[n]? := by
  induction ops generalizing tasks with
  | nil => rfl
  | cons op ops ih =>
    obtain ⟨hop, hops⟩ := List.forall_mem_cons.mp h
    exact (ih hops).trans (OperationState.abort_getElem? hop)

theorem exists_lookup_of_mem_values {m : HashMap String OperationState} {op : OperationState}
    (h : op ∈ m.values) : ∃ id, m.lookup id = some op := by
  obtain ⟨⟨id, op'⟩, hmem, rfl⟩ := List.mem_map.mp h
  exact ⟨id, HashMap.mem_entries.mp hmem⟩

/-- The task of an operation that is kept is not aborted. -/
theorem ServiceState.WF.retained_task (H : s.WF) {keep : OperationState → Bool}
    {op : OperationState} (hop : s.operations.lookup id = some op) (hkeep : keep op = true)
    {started : Instant} {task : TaskId} (hst : op.state = .running started task) :
    (s.retainOperations keep).tasks[task]? = s.tasks[task]? := by
  refine abortOperations_getElem? fun op' hop' started' hst' => ?_
  obtain ⟨hmem, hdrop⟩ := List.mem_filter.mp hop'
  obtain ⟨id', hlookup⟩ := exists_lookup_of_mem_values hmem
  obtain ⟨t, ht, hid⟩ := H.running hop hst
  obtain ⟨t', ht', hid'⟩ := H.running hlookup hst'
  obtain rfl : t = t' := Option.some.inj (ht.symm.trans ht')
  obtain rfl : id = id' := hid.symm.trans hid'
  obtain rfl : op = op' := Option.some.inj (hop.symm.trans hlookup)
  rw [hkeep] at hdrop
  cases hdrop

/-- A refused call neither removes nor cancels an operation that has not expired. -/
theorem SectionRun.operation_untouched (h : SectionRun cfg F i request s sec s' next) (H : s.WF)
    (hsec : sec.Refuses request) (hwf : sec.WF s i request)
    (hrefused : request.Refused cfg s (.operation id))
    (hunexpired : (Entry.operation id).Unexpired cfg s)
    (hremoves : ∀ op, s.operations.lookup id = some op → op.sessionId ∉ sec.removesFor) :
    (Entry.operation id).Untouched s s' := by
  intro op hop
  have same (htasks : s'.tasks = s.tasks) (hop' : s'.operations.lookup id = some op) :
      (∃ op', s'.operations.lookup id = some op' ∧ Promotes s id op op') ∧
        ∀ started task, op.state = .running started task → s'.tasks[task]? = s.tasks[task]? :=
    ⟨⟨op, hop', .kept⟩, fun _ _ _ => by rw [htasks]⟩
  cases h with
  | @taken id' op₀ started task hop₀ hst hfin =>
    refine ⟨?_, fun _ _ _ => rfl⟩
    by_cases hid : id = id'
    · subst hid
      obtain rfl : op = op₀ := Option.some.inj (hop.symm.trans hop₀)
      refine ⟨op.taken started, ?_, .taken hst hfin⟩
      exact HashMap.lookup_modify_eq_some.mpr (.inl ⟨rfl, op, hop, rfl⟩)
    · exact ⟨op, (HashMap.lookup_modify_of_ne hid).trans hop, .kept⟩
  | @refreshed id' started result =>
    refine ⟨?_, fun _ _ _ => rfl⟩
    by_cases hid : id = id'
    · subst hid
      refine ⟨op.finishRefresh s.clock started result,
        HashMap.lookup_modify_eq_some.mpr (.inl ⟨rfl, op, hop, rfl⟩), ?_⟩
      rcases op.finishRefresh_cases s.clock started result with ⟨hsame, -⟩ | ⟨_, hst, hnew⟩
      · rw [hsame]
        exact .kept
      · rw [hnew]
        exact .finished hst hwf
    · exact ⟨op, (HashMap.lookup_modify_of_ne hid).trans hop, .kept⟩
  | @cleanupOperations now expired =>
    have hkeep : (!(expired.contains op.sessionId ||
        op.isExpired now cfg.completedOperationTtl)) = true := by
      have hlive := OperationState.isExpired_of_le (hunexpired op hop).1 hwf.1
      have hnot : expired.contains op.sessionId = false := by
        rw [← Bool.not_eq_true, List.contains_iff_mem]
        exact hremoves op hop
      rw [hlive, hnot]
      rfl
    exact ⟨⟨op, s.lookup_retainOperations.mpr ⟨hop, hkeep⟩, .kept⟩,
      fun _ _ hst => H.retained_task hop hkeep hst⟩
  | removedOperations =>
    obtain ⟨⟨method, handle, hcall⟩, -⟩ := hsec
    have hnames := hrefused.names
    rw [hcall] at hnames
    cases hnames
  | removedSession hsession hadm =>
    have hcall : request.call = .closeSession (some _) := hsec
    have hno := hrefused.session (by rw [hcall]; rfl) (by rw [hcall]; rfl) hsession
    exact absurd hadm (by rw [hno]; exact Bool.false_ne_true)
  | removedOperation hop' hadm =>
    have hcall : request.call = .closeOperation (some _) := hsec
    have hno := hrefused.operation (by rw [hcall]; rfl) (by rw [hcall]; rfl) hop'
    exact absurd hadm (by rw [hno]; exact Bool.false_ne_true)
  | canceled hop' hadm =>
    have hcall : request.call = .cancelOperation (some _) := hsec
    have hno := hrefused.operation (by rw [hcall]; rfl) (by rw [hcall]; rfl) hop'
    exact absurd hadm (by rw [hno]; exact Bool.false_ne_true)
  | opened | insertedGetColumns | insertedExecuteStatement | completionSucceeded
  | removedUnreturned => exact hsec.elim
  | _ => exact same rfl hop

theorem SectionRun.sessionId (h : SectionRun cfg F i request s sec s' next)
    (hused : id ∈ s.usedIds) {op : OperationState} (hop : s'.operations.lookup id = some op) :
    ∃ op₀, s.operations.lookup id = some op₀ ∧ op.sessionId = op₀.sessionId := by
  have horigin := h.operation_origin hop
  rcases horigin.sessionId with hkept | ⟨_, hinserts, -, -⟩
  · exact hkept
  · cases horigin with
    | kept hop => exact ⟨op, hop, rfl⟩
    | inserted _ hnew => exact absurd hused hnew
    | taken | refreshed | canceled => cases hinserts

theorem EnvStep.sessionId (h : EnvStep s s') {op : OperationState}
    (hop : s'.operations.lookup id = some op) :
    ∃ op₀, s.operations.lookup id = some op₀ ∧ op.sessionId = op₀.sessionId := by
  rcases h.operation_origin hop with hop | ⟨_, _, _, op₀, _, _, _, hop₀, heq⟩
  · exact ⟨op, hop, rfl⟩
  · exact ⟨op₀, hop₀, by rw [heq]⟩

/-- A refused call goes on to remove no operation of a session that has not expired. -/
theorem SectionRun.not_removesFor (h : SectionRun cfg F i request s sec s' next)
    (hsec : sec.Refuses request) (hwf : sec.WF s i request)
    (hrefused : request.Refused cfg s (.operation id))
    (hunexpired : (Entry.operation id).Unexpired cfg s) {op : OperationState}
    (hop : s.operations.lookup id = some op) :
    ∀ sec' ∈ next.rest, op.sessionId ∉ sec'.removesFor := by
  cases h with
  | listFinished =>
    intro sec' hsec'
    obtain ⟨id', -, rfl⟩ := List.mem_map.mp hsec'
    exact List.not_mem_nil
  | @cleanupSessions now =>
    refine List.forall_mem_singleton.mpr fun hmem => ?_
    obtain ⟨session, hsession, hexp⟩ := s.mem_expiredSessions.mp hmem
    have hlive := SessionState.isExpired_of_le ((hunexpired op hop).2 session hsession) hwf
    cases hlive.symm.trans hexp
  | removedSession | sessionExpired =>
    have hnames := hrefused.names
    rw [show request.call = _ from hsec] at hnames
    cases hnames
  | sessionAdmitted =>
    have hnames := hrefused.names
    rw [show request.call = _ from hsec] at hnames
    cases hnames
  | taken | awaited | cleanupClock | sessionClock | getColumnsClock | insertedGetColumns
  | completionFailed | operationFound | historyFound =>
    exact List.forall_mem_singleton.mpr List.not_mem_nil
  | _ => exact List.forall_mem_nil _

end

/-- Call `i` is refused, and has not found the session of the operation expired. -/
structure Spares (cfg : ServiceConfig) (i : ThreadId) (request : RpcRequest) (id : String)
    (c : Conf ServiceState RpcThread) : Prop where
  refusing : Refusing cfg i request (.operation id) c
  removes : ∀ op, c.shared.operations.lookup id = some op → ∀ k, c.threads i = some k →
    ∀ sec ∈ k.sections, op.sessionId ∉ sec.removesFor

theorem Spares.step {id : String} (h : Spares cfg i request id c)
    (hunexpired : (Entry.operation id).Unexpired cfg c.shared)
    (hs : (serviceMachine cfg F clock).step c a = some c') : Spares cfg i request id c' := by
  have hrefusing := h.refusing.step hs
  refine ⟨hrefusing, ?_⟩
  intro op hop k' hk' sec' hsec'
  obtain ⟨k, hk, rfl, hsections, -⟩ := h.refusing.thread
  cases serviceStep_cases hs with
  | @start j request' hj =>
    have hne : i ≠ j := by
      intro heq
      rw [← heq, hk] at hj
      cases hj
    rw [Conf.set_threads_of_ne hne] at hk'
    exact h.removes op hop k' hk' sec' hsec'
  | @exec j input l sec rest s next hl hsec hrun =>
    obtain ⟨op₀, hop₀, hsession⟩ := hrun.sessionId h.refusing.refused.used hop
    rw [hsession]
    rcases Conf.set_threads_eq_some.mp hk' with ⟨rfl, rfl⟩ | ⟨_, hk'⟩
    · obtain rfl : k = l := Option.some.inj (hk.symm.trans hl)
      have hmem : sec ∈ k.sections := hsec ▸ List.mem_cons_self
      rcases RpcRequest.thread_sections hsec' with hsec' | hsec'
      · exact hrun.not_removesFor (hsections sec hmem) (h.refusing.inv.2 _ k hk sec hmem)
          h.refusing.refused hunexpired hop₀ sec' hsec'
      · exact h.removes op₀ hop₀ k hk sec' (hsec ▸ List.mem_cons_of_mem _ hsec')
    · exact h.removes op₀ hop₀ k' hk' sec' hsec'
  | @drop j l sec rest hl hsec =>
    obtain ⟨op₀, hop₀, hsession⟩ := dropSection_env.sessionId hop
    rw [hsession]
    rcases Conf.set_threads_eq_some.mp hk' with ⟨rfl, rfl⟩ | ⟨_, hk'⟩
    · cases hsec'
    · exact h.removes op₀ hop₀ k' hk' sec' hsec'
  | env he =>
    obtain ⟨op₀, hop₀, hsession⟩ := he.sessionId hop
    rw [hsession]
    exact h.removes op₀ hop₀ k' hk' sec' hsec'

theorem Spares.of_start {id : String} (hinv : ServiceInv c)
    (hrefused : request.Refused cfg c.shared (.operation id))
    (hs : (serviceMachine cfg F clock).step c (.start i request) = some c') :
    Spares cfg i request id c' := by
  refine ⟨Refusing.of_start hinv hrefused hs, ?_⟩
  intro op hop k hk sec hsec
  cases serviceStep_cases hs with
  | start =>
    obtain rfl := Option.some.inj (Conf.set_threads_self.symm.trans hk)
    have hstart := (RpcRequest.thread_sections hsec).resolve_right List.not_mem_nil
    rw [RpcRequest.start_removesFor sec hstart]
    exact List.not_mem_nil

/-- The steps of a call. -/
def Action.IsOf (i : ThreadId) : Action RpcRequest RpcInput ServiceEnv → Prop
  | .exec j _ | .drop j => j = i
  | _ => False

theorem Section.Refuses.dropSection {s : ServiceState} {sec : Section}
    (h : sec.Refuses request) : dropSection s sec = s := by
  cases sec with
  | awaitOperationCompletion => exact h.elim
  | _ => rfl

theorem Entry.Untouched.rfl {s : ServiceState} : x.Untouched s s := by
  cases x with
  | session => exact fun _ h => h
  | operation => exact fun op h => ⟨⟨op, h, .kept⟩, fun _ _ _ => Eq.refl _⟩

theorem Refusing.untouched_session {id : String} (h : Refusing cfg i request (.session id) c)
    (hunexpired : (Entry.session id).Unexpired cfg c.shared) (ha : a.IsOf i)
    (hs : (serviceMachine cfg F clock).step c a = some c') :
    (Entry.session id).Untouched c.shared c'.shared := by
  obtain ⟨k, hk, rfl, hsections, -⟩ := h.thread
  cases serviceStep_cases hs with
  | start | env => exact ha.elim
  | @exec j input l sec rest s next hl hsec hrun =>
    obtain rfl : j = i := ha
    obtain rfl : k = l := Option.some.inj (hk.symm.trans hl)
    have hmem : sec ∈ k.sections := hsec ▸ List.mem_cons_self
    exact hrun.session_untouched (hsections sec hmem) (h.inv.2 _ k hk sec hmem) h.refused
      hunexpired
  | @drop j l sec rest hl hsec =>
    obtain rfl : j = i := ha
    obtain rfl : k = l := Option.some.inj (hk.symm.trans hl)
    rw [Conf.set_shared, (hsections sec (hsec ▸ List.mem_cons_self)).dropSection]
    exact .rfl

theorem Spares.untouched {id : String} (h : Spares cfg i request id c)
    (hunexpired : (Entry.operation id).Unexpired cfg c.shared) (ha : a.IsOf i)
    (hs : (serviceMachine cfg F clock).step c a = some c') :
    (Entry.operation id).Untouched c.shared c'.shared := by
  obtain ⟨k, hk, rfl, hsections, -⟩ := h.refusing.thread
  cases serviceStep_cases hs with
  | start | env => exact ha.elim
  | @exec j input l sec rest s next hl hsec hrun =>
    obtain rfl : j = i := ha
    obtain rfl : k = l := Option.some.inj (hk.symm.trans hl)
    have hmem : sec ∈ k.sections := hsec ▸ List.mem_cons_self
    exact hrun.operation_untouched h.refusing.inv.1 (hsections sec hmem)
      (h.refusing.inv.2 _ k hk sec hmem) h.refusing.refused hunexpired
      fun op hop => h.removes op hop k hk sec hmem
  | @drop j l sec rest hl hsec =>
    obtain rfl : j = i := ha
    obtain rfl : k = l := Option.some.inj (hk.symm.trans hl)
    rw [Conf.set_shared, (hsections sec (hsec ▸ List.mem_cons_self)).dropSection]
    exact .rfl

/-- A call that names an entry with another secret, or with another token than its owner's,
returns what it returns when the entry is absent, and none of its steps touches the entry while
it has not expired. -/
theorem handleNonInterference (hinjective : Function.Injective cfg.tokenFingerprint)
    (hc : (serviceMachine cfg F clock).Reachable c) (hi : c.threads i = none)
    (hnames : request.call.entry = some x) {secret : Bytes} {owner : String}
    (hstored : c.shared.credentials x = some (secret, cfg.tokenFingerprint owner))
    (hother : (∃ handle, request.call.handle = some handle ∧ handle.secret ≠ secret) ∨
      request.bearerToken ≠ owner) :
    (∃ reply, ∀ reply', (Replies cfg F clock c i request reply' ↔ reply' = reply) ∧
      (Replies cfg F clock (c.without x) i request reply' ↔ reply' = reply)) ∧
    ∀ c' d a d', (serviceMachine cfg F clock).step c (.start i request) = some c' →
      (serviceMachine cfg F clock).ReachesBy (fun e _ => x.Unexpired cfg e.shared) c' d →
      x.Unexpired cfg d.shared → a.IsOf i → (serviceMachine cfg F clock).step d a = some d' →
      x.Untouched d.shared d'.shared := by
  have hinv : ServiceInv c := serviceWF hc
  have hused : x.id ∈ c.shared.usedIds := by
    cases x with
    | session id =>
      obtain ⟨session, hsession, -⟩ := Option.map_eq_some_iff.mp hstored
      exact (hinv.1.sessions hsession).2
    | operation id =>
      obtain ⟨op, hop, -⟩ := Option.map_eq_some_iff.mp hstored
      exact hinv.1.operations hop
  have hrefused : request.Refused cfg c.shared x := by
    refine ⟨hnames, hused, fun credentials hcredentials => ?_⟩
    obtain rfl := Option.some.inj (hstored.symm.trans hcredentials)
    exact hother.imp_right fun hne heq => hne (hinjective heq)
  constructor
  · exact ⟨request.unknown, fun reply => ⟨replies_iff_of_refused hinv hi hrefused,
      replies_iff_of_refused hinv.without hi hrefused.without⟩⟩
  · intro c' d a d' hstart hreaches hunexpired ha hs
    cases x with
    | session id =>
      have h : Refusing cfg i request (.session id) d :=
        hreaches.invariant (Refusing.of_start hinv hrefused hstart) fun _ _ _ h _ hs => h.step hs
      exact h.untouched_session hunexpired ha hs
    | operation id =>
      have h : Spares cfg i request id d :=
        hreaches.invariant (Spares.of_start hinv hrefused hstart)
          fun _ _ _ h hunexpired hs => h.step hunexpired hs
      exact h.untouched hunexpired ha hs

end Runs

/-- The fingerprints of `testService`, and distinct ones for all other tokens. -/
def distinctFingerprint (token : String) : Bytes :=
  if token = "token-a" ∨ token = "token-b" then testService.tokenFingerprint token
  else 0 :: token.toByteArray.data.toList

theorem distinctFingerprint_injective : Function.Injective distinctFingerprint := by
  have known {token : String} (h : token = "token-a" ∨ token = "token-b") :
      distinctFingerprint token = testService.tokenFingerprint token := if_pos h
  have other {token : String} (h : ¬(token = "token-a" ∨ token = "token-b")) :
      distinctFingerprint token = 0 :: token.toByteArray.data.toList := if_neg h
  intro token token' heq
  by_cases h : token = "token-a" ∨ token = "token-b" <;>
    by_cases h' : token' = "token-a" ∨ token' = "token-b"
  · rw [known h, known h'] at heq
    rcases h with rfl | rfl <;> rcases h' with rfl | rfl
    · rfl
    · simp [testService] at heq
    · simp [testService] at heq
    · rfl
  · rw [known h, other h'] at heq
    rcases h with rfl | rfl <;> simp [testService] at heq
  · rw [other h, known h'] at heq
    rcases h' with rfl | rfl <;> simp [testService] at heq
  · rw [other h, other h'] at heq
    exact String.toByteArray_inj.mp (ByteArray.ext (Array.toList_inj.mp (List.cons.inj heq).2))

/-- Another client tries to close a session with a handle that it has seen. -/
theorem handleNonInterference_closeSession : ∃ c : Conf ServiceState RpcThread,
    (c.shared.credentials (.session (testHandle 1 2).id)).isSome ∧
    ∃ reply, ∀ reply',
      (Replies { testService with tokenFingerprint := distinctFingerprint } testFormatting 0 c 1
        ⟨"token-b", 4, .closeSession (some (testHandle 1 2))⟩ reply' ↔ reply' = reply) ∧
      (Replies { testService with tokenFingerprint := distinctFingerprint } testFormatting 0
        (c.without (.session (testHandle 1 2).id)) 1
        ⟨"token-b", 4, .closeSession (some (testHandle 1 2))⟩ reply' ↔ reply' = reply) := by
  have hopen := Machine.reachable_run
    (serviceMachine { testService with tokenFingerprint := distinctFingerprint } testFormatting 0)
    (openSessionRun 0 1 2) rfl
  have hother : "token-b" ≠ "token-a" := by decide
  exact ⟨_, rfl, (handleNonInterference distinctFingerprint_injective hopen rfl rfl rfl
    (.inr hother)).1⟩

end HarborSql
