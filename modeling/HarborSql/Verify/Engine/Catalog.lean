import HarborSql.Engine.Catalog
import HarborSql.Verify.Engine.Routing
import HarborSql.Verify.Engine.Write
import HarborSql.Verify.TableCache.Hits

/-! The stores of a query hold credentials that Unity issued to the token of the query, whatever
other queries share the table cache with it. -/

namespace HarborSql

open Async (Event Runs)
open AsyncM

/-- The answers that Unity and the storage give while the queries run. -/
structure CatalogAnswers (P D : Type) where
  load : (call : LoadCall P) → call.Answer → Prop
  write : (call : CtasCall D) → call.Answer → Prop

section
variable {F P D : Type} [DecidableEq F] {cfg : CacheConfig F} {crates : WriteCrates}
  {urlText : Url → String} {awsRegion token : String} {clock : Instant}
  {answers : CatalogAnswers P D} {tokens : Set String} {s s' : EngineState F P}

def CatalogAnswers.GaveLoad (answers : CatalogAnswers P D) :
    Event (LoadCall P) LoadCall.Answer Empty → Prop
  | .answered call answer => answers.load call answer
  | _ => True

def CatalogAnswers.GaveWrite (answers : CatalogAnswers P D) :
    Event (CtasCall D) CtasCall.Answer InvalidateOnDrop → Prop
  | .answered call answer => answers.write call answer
  | _ => True

/-! ## Loading -/

/-- Credentials were issued to a token for a table, and the store is opened with them. -/
def IssuedFor (crates : WriteCrates) (awsRegion : String) (answers : CatalogAnswers P D)
    (token fullName : String) (bucket : Url) (objectPrefix : String) (store : DeltaTable) : Prop :=
  ∃ info tableId credentials, answers.load (.table token fullName) (.ok info) ∧
    info.tableId = some tableId ∧
    answers.load (.temporaryTableCredentials token tableId) (.ok credentials) ∧
    store.storageOptions = storageOptions credentials awsRegion ∧
    crates.parseUrl credentials.url = .ok store.url ∧
    tableObjectStoreRoute crates credentials.url = .ok (bucket, objectPrefix)

section
variable {α β : Type} {x : β} {events : List (Event (LoadCall P) LoadCall.Answer Empty)}

theorem answered_of_ok {call : LoadCall P} {f : call.Answer → LoadM P β}
    (h : Runs (awaitCall call >>= f).run events (some (.ok x)))
    (hgave : ∀ e ∈ events, answers.GaveLoad e) :
    ∃ answer rest, answers.load call answer ∧ (∀ e ∈ rest, answers.GaveLoad e) ∧
      Runs (f answer).run rest (some (.ok x)) := by
  rcases runs_awaitCall_bind.mp h with ⟨-, h⟩ | ⟨answer, rest, rfl, hrest⟩
  · cases h
  · obtain ⟨hanswer, hgave⟩ := List.forall_mem_cons.mp hgave
    exact ⟨answer, rest, hanswer, hgave, hrest⟩

theorem lifted_of_ok {result : Except HarborError α} {f : α → LoadM P β}
    (h : Runs (liftResult result >>= f).run events (some (.ok x))) :
    ∃ a, result = .ok a ∧ Runs (f a).run events (some (.ok x)) := by
  rcases runs_liftResult_bind.mp h with ⟨_, -, -, h⟩ | h
  · cases h
  · exact h

end

/-- What a load brings was opened with credentials for its table. -/
theorem issuedFor_of_runs {fullName : String} {nowSystem : SystemTime} {nowInstant : Instant}
    {events : List (Event (LoadCall P) LoadCall.Answer Empty)} {opened : Opened (OpenedTable P)}
    (h : Runs (loadCachedTable crates awsRegion token fullName nowSystem nowInstant).run events
      (some (.ok opened)))
    (hgave : ∀ e ∈ events, answers.GaveLoad e) :
    IssuedFor crates awsRegion answers token fullName opened.table.objectStoreUrl
      opened.table.objectPrefix opened.table.objectStore := by
  simp only [loadCachedTable, DeltaTableOpener.open, bind_assoc, pure_bind] at h
  obtain ⟨_, _, hinfo, hgave, h⟩ := answered_of_ok h hgave
  obtain ⟨info, heq, h⟩ := lifted_of_ok h
  rw [heq] at hinfo
  obtain ⟨_, -, h⟩ := lifted_of_ok h
  obtain ⟨tableId, hid, h⟩ := lifted_of_ok h
  obtain ⟨_, _, hcredentials, hgave, h⟩ := answered_of_ok h hgave
  obtain ⟨credentials, heq, h⟩ := lifted_of_ok h
  rw [heq] at hcredentials
  obtain ⟨url, hurl, h⟩ := lifted_of_ok h
  obtain ⟨_, _, -, hgave, h⟩ := answered_of_ok h hgave
  obtain ⟨_, -, h⟩ := lifted_of_ok h
  obtain ⟨route, hroute, h⟩ := lifted_of_ok h
  obtain ⟨_, _, -, hgave, h⟩ := answered_of_ok h hgave
  obtain ⟨_, -, h⟩ := lifted_of_ok h
  obtain ⟨-, hopened⟩ := runs_pure.mp h
  cases hopened
  refine ⟨info, tableId, credentials, hinfo, ?_, hcredentials, rfl, ?_, hroute⟩
  · cases hinfo : info.tableId with
    | none => rw [hinfo] at hid; cases hid
    | some id => rw [hinfo] at hid; cases hid; rfl
  · cases hparse : crates.parseUrl credentials.url with
    | error e => rw [hparse] at hurl; cases hurl
    | ok url => rw [hparse] at hurl; cases hurl; rfl

/-! ## The cache -/

section

open CacheState

variable {τ ε : Type} {c c' : Conf (CacheState F τ) (CacheThread ε)}
  {a : Action CacheRequest (CacheInput τ ε) CacheEnv}

/-- A table on the heap is old, or what a loader came back with. -/
theorem loaded_of_getOrLoad {st st' : CacheState F τ} {call : Call} {pc pc' : ReadPc ε}
    {input : CacheInput τ ε} (h : getOrLoad cfg st call pc input = some (st', pc'))
    {cached : TableId} {t : Loaded τ} (ht : st'.tables[cached]? = some t) :
    st.tables[cached]? = some t ∨
      t.call = call ∧ t.table = t.opened.table ∧ input = .loaded (.ok t.opened) := by
  have hstep := readStep_of_getOrLoad h
  rcases hstep.tables ht with ht | hcall
  · exact .inl ht
  cases pc with
  | bypass since =>
    cases input with
    | loaded outcome =>
      cases outcome with
      | ok opened =>
        cases h
        rcases List.getElem?_concat_eq_some.mp ht with ht | ⟨_, rfl⟩
        · exact .inl ht
        · exact .inr ⟨rfl, rfl, rfl⟩
      | error e => cases h; exact .inl ht
    | run => cases h
    | commit => cases h
  | loading grant since =>
    cases input with
    | loaded outcome =>
      cases outcome with
      | ok opened =>
        cases h
        rcases List.getElem?_concat_eq_some.mp ht with ht | ⟨_, rfl⟩
        · exact .inl ht
        · exact .inr ⟨rfl, rfl, rfl⟩
      | error e => cases h; exact .inl ht
    | run => cases h
    | commit => cases h
  | lookup now =>
    cases hstep with
    | found hslot | full hslot =>
      rcases slotForKey_cases hslot with ⟨_, _, _, rfl⟩ | ⟨_, _, rfl⟩ | ⟨_, rfl⟩ <;> exact .inl ht
  | removing grant result =>
    cases hstep with
    | remove =>
      rcases removeSlot_cases st (cfg.cacheKey call) _ with ⟨_, h⟩ | ⟨_, h⟩ <;>
        rw [h] at ht <;> exact .inl ht
  | _ => cases hstep <;> exact .inl ht

/-- Tables of a step. -/
theorem loaded_of_step (h : (cacheProgram cfg).step c a = some c') {cached : TableId} {t : Loaded τ}
    (ht : c'.shared.tables[cached]? = some t) :
    c.shared.tables[cached]? = some t ∨
      t.table = t.opened.table ∧
        ∃ i pc, a = .exec i (.loaded (.ok t.opened)) ∧ c.threads i = some (.read t.call pc) := by
  rcases Program.step_cases h with ⟨_, _, _, rfl, _, _, rfl⟩ | ⟨i, input, k, st, l, rfl, hi, hk, rfl⟩ |
    ⟨i, k, st, l, rfl, hi, hk, rfl⟩ | ⟨event, st, rfl, he, rfl⟩
  · exact .inl ht
  · cases k with
    | read call pc =>
      obtain ⟨⟨st', pc'⟩, hs, hk⟩ := Option.map_eq_some_iff.mp hk
      cases hk
      rcases loaded_of_getOrLoad hs ht with ht | ⟨rfl, htable, rfl⟩
      · exact .inl ht
      · exact .inr ⟨htable, i, pc, rfl, hi⟩
    | write name pc =>
      rcases cacheExec_cases hk with ⟨_, _, _, hread, -, -⟩ | ⟨_, -, -, rfl⟩ | ⟨_, _, -, -, rfl⟩
      · cases hread
      · exact .inl ht
      · exact .inl ht
  · rcases cacheDrop_cases hk with ⟨_, _, _, -, -, rfl⟩ | ⟨_, _, -, -, rfl⟩
    · exact .inl ht
    · exact .inl ht
  · rcases cacheEnv_cases he with ⟨_, _, rfl⟩ | ⟨_, rfl⟩
    · exact .inl ht
    · exact .inl ht

/-- A call stays the same. -/
theorem read_of_step (h : (cacheProgram cfg).step c a = some c') {i : ThreadId} {call : Call}
    {pc : ReadPc ε} (hi : c.threads i = some (.read call pc)) :
    ∃ pc', c'.threads i = some (.read call pc') := by
  rcases cacheStep_cases h with ⟨_, _, _, pc, _, _, -, hj, -, rfl⟩ | ⟨_, _, pc, -, hj, -, rfl⟩ | hq
  · exact reads_set hj ⟨_, hi⟩
  · exact reads_set hj ⟨_, hi⟩
  · exact ⟨_, hq.keeps hi⟩

/-- A call is an old one, or it is started. -/
theorem started_of_step (h : (cacheProgram cfg).step c a = some c') {i : ThreadId} {call : Call}
    {pc : ReadPc ε} (hi : c'.threads i = some (.read call pc)) :
    (∃ pc, c.threads i = some (.read call pc)) ∨
      a = .start i (.getOrLoad call.bearerToken call.fullName call.awsRegion) := by
  rcases Program.step_cases h with ⟨j, request, k, rfl, hj, hk, rfl⟩ |
    ⟨j, input, k, st, l, rfl, hj, hk, rfl⟩ | ⟨j, k, st, l, rfl, hj, hk, rfl⟩ | ⟨event, st, rfl, he, rfl⟩
  · rcases Conf.set_threads_eq_some.mp hi with ⟨rfl, rfl⟩ | ⟨-, hi⟩
    · cases request <;> cases hk
      exact .inr rfl
    · exact .inl ⟨_, hi⟩
  · rcases Conf.set_threads_eq_some.mp hi with ⟨rfl, rfl⟩ | ⟨-, hi⟩
    · rcases cacheExec_cases hk with ⟨_, _, _, rfl, hread, -⟩ | ⟨_, -, hread, -⟩ | ⟨_, _, -, hread, -⟩
      · cases hread
        exact .inl ⟨_, hj⟩
      · cases hread
      · cases hread
    · exact .inl ⟨_, hi⟩
  · rcases Conf.set_threads_eq_some.mp hi with ⟨rfl, rfl⟩ | ⟨-, hi⟩
    · rcases cacheDrop_cases hk with ⟨_, _, _, rfl, hread, -⟩ | ⟨_, _, -, hread, -⟩
      · cases hread
        exact .inl ⟨_, hj⟩
      · cases hread
    · exact .inl ⟨_, hi⟩
  · exact .inl ⟨_, hi⟩

theorem starts_of_step {i : ThreadId} {bearerToken fullName awsRegion : String}
    (h : (cacheProgram cfg).step c (.start i (.getOrLoad bearerToken fullName awsRegion)) = some c') :
    ∃ pc, c'.threads i =
      some (.read ⟨bearerToken, fullName, awsRegion, c.shared.history.length⟩ pc) := by
  rcases Program.step_cases h with ⟨_, _, _, ha, -, hk, rfl⟩ | ⟨_, _, _, _, _, ha, -⟩ |
    ⟨_, _, _, _, ha, -⟩ | ⟨_, _, ha, -⟩
  · cases ha
    cases hk
    exact ⟨_, Conf.set_threads_self⟩
  · cases ha
  · cases ha
  · cases ha

/-- What a call returns was loaded by a call of the same principal for the same table. -/
theorem loadedFor_returned {clock : Instant} (h : (cacheMachine cfg clock).Reachable c)
    {i : ThreadId} {call : Call} {cached : TableId} {served : Served}
    (hi : c.threads i = some (.read call (.returned (.ok cached) served))) :
    ∃ t, c.shared.tables[cached]? = some t ∧
      cfg.principalFingerprint t.call.bearerToken = cfg.principalFingerprint call.bearerToken ∧
      t.call.fullName = call.fullName := by
  have H := (cacheInvariant h).2 i _ hi
  cases served with
  | direct | stored | discarded =>
    obtain ⟨t, ht⟩ := CallWF.own H rfl
    exact ⟨t, ht.table, by rw [ht.loader], by rw [ht.loader]⟩
  | hit grant examinedAt =>
    obtain ⟨e, t, he, ht, hstored, -⟩ := CallWF.hit H rfl
    obtain ⟨e', he', hkey, -⟩ := (CallWF.grant H rfl).slot
    cases he.symm.trans he'
    obtain ⟨hprincipal, hname, -⟩ := TableCacheKey.mk.inj (hstored.key.trans hkey)
    exact ⟨t, ht, hprincipal, hname⟩

end

/-! ## Queries -/

/-- Credentials for the target of a write were issued to a token, and the store is opened with
them. -/
structure IssuedForWrite (crates : WriteCrates) (awsRegion : String) (answers : CatalogAnswers P D)
    (token : String) (ctas : Ctas) (bucket : Url) (objectPrefix : String) (store : DeltaTable) :
    Prop where
  issued : ∃ credentials, store.storageOptions = storageOptions credentials awsRegion ∧
    trimEndSlashes credentials.url = trimEndSlashes ctas.location ∧
    (answers.write (.createPathCredentials token ctas.location) (.ok credentials) ∨
      ∃ details id, answers.write (.tableDetails token ctas.fullName) (.ok details) ∧
        (details.index "table_id").asStr = some id ∧
        answers.write (.writeCredentials token id) (.ok credentials))
  route : tableObjectStoreRoute crates ctas.location = .ok (bucket, objectPrefix)

/-- Why a query may use a store for the objects of a bucket under a path. -/
def Issued (crates : WriteCrates) (awsRegion : String) (answers : CatalogAnswers P D)
    (query : RunningQuery) (bucket : Url) (objectPrefix : String) (store : DeltaTable) : Prop :=
  (∃ fullName ∈ query.resolved, IssuedFor crates awsRegion answers query.bearerToken fullName bucket
    objectPrefix store) ∨
  ∃ ctas, query.ctas = some ctas ∧
    IssuedForWrite crates awsRegion answers query.bearerToken ctas bucket objectPrefix store

theorem Issued.resolve {query : RunningQuery} {bucket : Url} {objectPrefix : String}
    {store : DeltaTable} (h : Issued crates awsRegion answers query bucket objectPrefix store)
    (fullName : String) :
    Issued crates awsRegion answers (query.resolve fullName) bucket objectPrefix store := by
  rcases h with ⟨name, hname, h⟩ | h
  · exact .inl ⟨name, List.mem_append_left _ hname, h⟩
  · exact .inr h

/-- What is not up to the program: the queries come with tokens of a set, a load is a run of
`load_cached_table` on the answers that are given, and so is what `execute_ctas` has done when it
records the store of its target, which it writes to next. -/
def Honest (crates : WriteCrates) (awsRegion : String) (answers : CatalogAnswers P D)
    (tokens : Set String) (s : EngineState F P) : EngineAction P → Prop
  | .query bearerToken _ => bearerToken ∈ tokens
  | .exec call (.loaded outcome) => ∀ c pc, s.cache.threads call = some (.read c pc) →
    ∃ nowSystem nowInstant events, (∀ e ∈ events, answers.GaveLoad e) ∧
      Runs (loadCachedTable crates awsRegion c.bearerToken c.fullName nowSystem nowInstant).run events
        (some outcome)
  | .recordStore q table => ∀ query ctas, s.queries[q]? = some query → query.ctas = some ctas →
    ∃ dataframe events result front plan mode,
      Runs (QueryEngine.executeCtas crates awsRegion query.bearerToken ctas dataframe).run events
        result ∧
      Event.CallsAfter events front (.write table plan mode) ∧ ∀ e ∈ front, answers.GaveWrite e
  | _ => True

theorem issuedForWrite_of_runs {ctas : Ctas} {dataframe : DataFrame D}
    {events front : List (CtasEvent D)} {result : Option (Except HarborError Unit)}
    {table : DeltaTable} {plan : D} {mode : SaveMode} {bucket : Url} {objectPrefix : String}
    (h : Runs (QueryEngine.executeCtas crates awsRegion token ctas dataframe).run events result)
    (hwrite : Event.CallsAfter events front (.write table plan mode))
    (hgave : ∀ e ∈ front, answers.GaveWrite e)
    (hroute : tableObjectStoreRoute crates ctas.location = .ok (bucket, objectPrefix)) :
    IssuedForWrite crates awsRegion answers token ctas bucket objectPrefix table := by
  have H := CtasProtocol.of_runs h
  cases mode with
  | overwrite =>
    obtain ⟨_, _, details, id, credentials, -, -, -, hdetails, -, hid, hcredentials, htrim, hstorage,
      -⟩ := H.overwrites front table plan hwrite
    exact ⟨⟨credentials, hstorage, htrim, .inr ⟨details, id, hgave _ hdetails, hid,
      hgave _ hcredentials⟩⟩, hroute⟩
  | errorIfExists =>
    obtain ⟨_, credentials, _, -, -, hcredentials, htrim, hstorage, -⟩ :=
      H.creates front table plan hwrite
    exact ⟨⟨credentials, hstorage, htrim, .inl (hgave _ hcredentials)⟩, hroute⟩

/-- Every route of a query, recorded or registered, has a store that was issued for it. -/
structure RoutesIssued (crates : WriteCrates) (urlText : Url → String) (awsRegion : String)
    (answers : CatalogAnswers P D) (query : RunningQuery) : Prop where
  recorded : ∀ {key url routes}, query.routes.lookup key = some (url, routes) →
    urlText url = key ∧ ∀ route ∈ routes, ∃ bucket, urlText bucket = key ∧
      Issued crates awsRegion answers query bucket route.pathPrefix route.store
  registered : ∀ {url router}, (url, router) ∈ query.registered → ∀ route ∈ router.routes,
    ∃ bucket, urlText bucket = urlText url ∧
      Issued crates awsRegion answers query bucket route.pathPrefix route.store

namespace RoutesIssued

variable {query : RunningQuery}

theorem new {bearerToken : String} {ctas : Option Ctas} :
    RoutesIssued crates urlText awsRegion answers ⟨bearerToken, ctas, ∅, [], []⟩ where
  recorded h := by cases h
  registered h := absurd h List.not_mem_nil

theorem resolve (H : RoutesIssued crates urlText awsRegion answers query) (fullName : String) :
    RoutesIssued crates urlText awsRegion answers (query.resolve fullName) := by
  constructor
  · intro key url routes hlookup
    obtain ⟨htext, hroutes⟩ := H.recorded hlookup
    refine ⟨htext, fun route hroute => ?_⟩
    obtain ⟨bucket, hbucket, h⟩ := hroutes route hroute
    exact ⟨bucket, hbucket, h.resolve fullName⟩
  · intro url router hmem route hroute
    obtain ⟨bucket, hbucket, h⟩ := H.registered hmem route hroute
    exact ⟨bucket, hbucket, h.resolve fullName⟩

theorem record (H : RoutesIssued crates urlText awsRegion answers query) {url : Url}
    {objectPrefix : String} {store : DeltaTable}
    (h : Issued crates awsRegion answers query url objectPrefix store) :
    RoutesIssued crates urlText awsRegion answers
      (query.record urlText url objectPrefix store) := by
  refine ⟨?_, H.registered⟩
  intro key url' routes hlookup
  rw [RunningQuery.record, ObjectStoreRouteRegistry.recordStore, HashMap.lookup_insert_eq_some]
    at hlookup
  rcases hlookup with ⟨rfl, heq⟩ | ⟨-, hlookup⟩
  · obtain ⟨rfl, rfl⟩ := Prod.mk.inj heq
    -- the entry before the record: none stands for one without routes
    have hold : urlText ((query.routes.lookup (urlText url)).getD (url, [])).1 = urlText url ∧
        ∀ route ∈ ((query.routes.lookup (urlText url)).getD (url, [])).2, ∃ bucket,
          urlText bucket = urlText url ∧
            Issued crates awsRegion answers query bucket route.pathPrefix route.store := by
      cases hlookup : query.routes.lookup (urlText url) with
      | some entry => exact H.recorded hlookup
      | none => exact ⟨rfl, fun _ hroute => absurd hroute List.not_mem_nil⟩
    refine ⟨hold.1, fun route hroute => ?_⟩
    rcases List.mem_append.mp hroute with hroute | hroute
    · exact hold.2 route (List.mem_of_mem_filter hroute)
    · obtain rfl := List.mem_singleton.mp hroute
      exact ⟨url, rfl, h⟩
  · exact H.recorded hlookup

theorem register (H : RoutesIssued crates urlText awsRegion answers query) :
    RoutesIssued crates urlText awsRegion answers query.register := by
  refine ⟨H.recorded, ?_⟩
  intro url router hmem route hroute
  obtain ⟨⟨url', routes⟩, hmem, heq⟩ := List.mem_map.mp hmem
  obtain ⟨⟨key, value⟩, hentry, heq'⟩ := List.mem_map.mp hmem
  dsimp only at heq'
  subst heq'
  cases heq
  obtain ⟨rfl, hroutes⟩ := H.recorded (HashMap.mem_entries.mp hentry)
  exact hroutes route (Routing.mem_descending.mp hroute)

end RoutesIssued

/-! ## Runs -/

/-- What holds of the engine. -/
structure EngineWF (cfg : CacheConfig F) (crates : WriteCrates) (urlText : Url → String)
    (awsRegion : String) (clock : Instant) (answers : CatalogAnswers P D) (tokens : Set String)
    (s : EngineState F P) : Prop where
  cache : (cacheMachine cfg clock).Reachable s.cache
  loaded : ∀ {cached : TableId} {t : Loaded (OpenedTable P)},
    s.cache.shared.tables[cached]? = some t → t.call.bearerToken ∈ tokens ∧
      IssuedFor crates awsRegion answers t.call.bearerToken t.call.fullName t.table.objectStoreUrl
        t.table.objectPrefix t.table.objectStore
  reads : ∀ {i call pc}, s.cache.threads i = some (.read call pc) → call.bearerToken ∈ tokens
  queries : ∀ {q : Nat} {query : RunningQuery}, s.queries[q]? = some query →
    query.bearerToken ∈ tokens ∧ RoutesIssued crates urlText awsRegion answers query
  caller : ∀ {call q}, s.caller.lookup call = some q → ∃ query c pc, s.queries[q]? = some query ∧
    s.cache.threads call = some (.read c pc) ∧ c.bearerToken = query.bearerToken ∧
    c.fullName ∈ query.resolved

namespace EngineWF

theorem new : EngineWF cfg crates urlText awsRegion clock answers tokens
    (engineMachine (P := P) cfg crates urlText awsRegion clock).init where
  cache := .refl
  loaded h := by cases h
  reads h := by cases h
  queries h := by cases h
  caller h := by cases h

/-- A step of the cache, where what is loaded was issued to the token of the call. -/
theorem cacheStep (H : EngineWF cfg crates urlText awsRegion clock answers tokens s)
    {a : Action CacheRequest (CacheInput (OpenedTable P) HarborError) CacheEnv}
    (h : s.cacheStep cfg a = some s')
    (hload : ∀ {call opened c pc}, a = .exec call (.loaded (.ok opened)) →
      s.cache.threads call = some (.read c pc) →
      IssuedFor crates awsRegion answers c.bearerToken c.fullName opened.table.objectStoreUrl
        opened.table.objectPrefix opened.table.objectStore)
    (hstart : ∀ {i token fullName region}, a = .start i (.getOrLoad token fullName region) →
      token ∈ tokens) :
    EngineWF cfg crates urlText awsRegion clock answers tokens s' := by
  obtain ⟨c', hstep, rfl⟩ := Option.map_eq_some_iff.mp h
  refine ⟨.step H.cache trivial hstep, ?_, ?_, H.queries, ?_⟩
  · intro cached t ht
    rcases loaded_of_step hstep ht with ht | ⟨htable, i, pc, ha, hi⟩
    · exact H.loaded ht
    · rw [htable]
      exact ⟨H.reads hi, hload ha hi⟩
  · intro i call pc hi
    rcases started_of_step hstep hi with ⟨_, hi⟩ | ha
    · exact H.reads hi
    · exact hstart ha
  · intro call q hcall
    obtain ⟨query, c, pc, hquery, hc, htoken, hname⟩ := H.caller hcall
    obtain ⟨pc, hc⟩ := read_of_step hstep hc
    exact ⟨query, c, pc, hquery, hc, htoken, hname⟩

/-- A step that changes nothing but the routes of a query. -/
theorem setQuery (H : EngineWF cfg crates urlText awsRegion clock answers tokens s) {q : Nat}
    {query query' : RunningQuery} (hquery : s.queries[q]? = some query)
    (htoken : query'.bearerToken = query.bearerToken) (hresolved : query.resolved ⊆ query'.resolved)
    (hroutes : RoutesIssued crates urlText awsRegion answers query') :
    EngineWF cfg crates urlText awsRegion clock answers tokens (s.setQuery q query') := by
  have hlt : q < s.queries.length := (List.getElem?_eq_some_iff.mp hquery).1
  refine ⟨H.cache, H.loaded, H.reads, ?_, ?_⟩
  · intro q' query'' h
    rw [EngineState.setQuery, List.getElem?_set] at h
    split at h
    · obtain rfl := Option.some.inj h
      exact ⟨htoken ▸ (H.queries hquery).1, hroutes⟩
    · exact H.queries h
  · intro call q' hcall
    obtain ⟨query'', c, pc, hquery'', hc, htoken', hname⟩ := H.caller hcall
    by_cases hq : q = q'
    · subst hq
      cases hquery.symm.trans hquery''
      refine ⟨query', c, pc, ?_, hc, htoken'.trans htoken.symm, hresolved hname⟩
      rw [EngineState.setQuery, List.getElem?_set_self hlt]
    · refine ⟨query'', c, pc, ?_, hc, htoken', hname⟩
      rw [EngineState.setQuery, List.getElem?_set_ne hq]
      exact hquery''

/-- A query begins. -/
theorem query (H : EngineWF cfg crates urlText awsRegion clock answers tokens s)
    {bearerToken : String} (hmem : bearerToken ∈ tokens) (ctas : Option Ctas) :
    EngineWF cfg crates urlText awsRegion clock answers tokens
      { s with queries := s.queries ++ [⟨bearerToken, ctas, ∅, [], []⟩] } := by
  refine ⟨H.cache, H.loaded, H.reads, ?_, ?_⟩
  · intro q query h
    rcases List.getElem?_concat_eq_some.mp h with h | ⟨_, rfl⟩
    · exact H.queries h
    · exact ⟨hmem, .new⟩
  · intro call q hcall
    obtain ⟨query, c, pc, hquery, h⟩ := H.caller hcall
    exact ⟨query, c, pc, List.getElem?_concat_eq_some.mpr (.inl hquery), h⟩

/-- A query asks the cache for a table. -/
theorem table (H : EngineWF cfg crates urlText awsRegion clock answers tokens s) {q : Nat}
    {query : RunningQuery} {call : ThreadId} {fullName : String} {s₁ : EngineState F P}
    (hquery : s.queries[q]? = some query)
    (h : s.cacheStep cfg (.start call (.getOrLoad query.bearerToken fullName awsRegion)) = some s₁) :
    EngineWF cfg crates urlText awsRegion clock answers tokens
      { s₁.setQuery q (query.resolve fullName) with caller := s₁.caller.insert call q } := by
  have H₁ : EngineWF cfg crates urlText awsRegion clock answers tokens s₁ := by
    refine H.cacheStep h nofun ?_
    rintro _ _ _ _ ha
    cases ha
    exact (H.queries hquery).1
  obtain ⟨c', hstep, rfl⟩ := Option.map_eq_some_iff.mp h
  have H₂ : EngineWF cfg crates urlText awsRegion clock answers tokens
      (EngineState.setQuery { s with cache := c' } q (query.resolve fullName)) :=
    H₁.setQuery hquery rfl (List.subset_append_left _ _) ((H.queries hquery).2.resolve fullName)
  refine ⟨H₂.cache, H₂.loaded, H₂.reads, H₂.queries, ?_⟩
  intro call' q' hcall
  rcases HashMap.lookup_insert_eq_some.mp hcall with ⟨rfl, rfl⟩ | ⟨-, hcall⟩
  · obtain ⟨pc, hc⟩ := starts_of_step hstep
    refine ⟨_, _, pc, List.getElem?_set_self (List.getElem?_eq_some_iff.mp hquery).1, hc, rfl, ?_⟩
    exact List.mem_append_right _ (List.mem_singleton_self _)
  · exact H₂.caller hcall

/-- What a call returns may be recorded for the query that made it. -/
theorem issued (H : EngineWF cfg crates urlText awsRegion clock answers tokens s)
    (hinj : Set.InjOn cfg.principalFingerprint tokens) {call : ThreadId} {q : Nat}
    {query : RunningQuery} {c : Call} {cached : TableId} {served : Served}
    {t : Loaded (OpenedTable P)} (hcall : s.caller.lookup call = some q)
    (hquery : s.queries[q]? = some query)
    (hc : s.cache.threads call = some (.read c (.returned (.ok cached) served)))
    (ht : s.cache.shared.tables[cached]? = some t) :
    Issued crates awsRegion answers query t.table.objectStoreUrl t.table.objectPrefix
      t.table.objectStore := by
  obtain ⟨query', c', pc, hquery', hc', htoken, hname⟩ := H.caller hcall
  cases hquery.symm.trans hquery'
  cases hc.symm.trans hc'
  obtain ⟨t', ht', hprincipal, hfullName⟩ := loadedFor_returned H.cache hc
  cases ht.symm.trans ht'
  obtain ⟨hmem, hissued⟩ := H.loaded ht
  have hsame : t.call.bearerToken = c.bearerToken := hinj hmem (H.reads hc) hprincipal
  rw [hsame, hfullName, htoken] at hissued
  exact .inl ⟨_, hname, hissued⟩

theorem step (H : EngineWF cfg crates urlText awsRegion clock answers tokens s)
    (hinj : Set.InjOn cfg.principalFingerprint tokens) {a : EngineAction P}
    (hok : Honest crates awsRegion answers tokens s a)
    (h : s.step cfg crates urlText awsRegion a = some s') :
    EngineWF cfg crates urlText awsRegion clock answers tokens s' := by
  cases a with
  | query bearerToken ctas =>
    cases h
    exact H.query hok ctas
  | table q call catalogName schemaName name =>
    obtain ⟨query, hquery, h⟩ := Option.bind_eq_some_iff.mp h
    obtain ⟨s₁, hs₁, h⟩ := Option.bind_eq_some_iff.mp h
    cases h
    exact H.table hquery hs₁
  | exec call input =>
    refine H.cacheStep h ?_ nofun
    rintro _ opened c pc ha hc
    cases ha
    obtain ⟨_, _, events, hgave, hruns⟩ := hok c pc hc
    exact issuedFor_of_runs hruns hgave
  | drop call => exact H.cacheStep h nofun nofun
  | env event => exact H.cacheStep h nofun nofun
  | executeCtas call fullName => exact H.cacheStep h nofun nofun
  | record call =>
    obtain ⟨q, hcall, h⟩ := Option.bind_eq_some_iff.mp h
    obtain ⟨query, hquery, h⟩ := Option.bind_eq_some_iff.mp h
    obtain ⟨thread, hc, h⟩ := Option.bind_eq_some_iff.mp h
    split at h
    · next c cached served =>
      obtain ⟨t, ht, h⟩ := Option.bind_eq_some_iff.mp h
      cases h
      exact H.setQuery hquery rfl (List.Subset.refl _)
        ((H.queries hquery).2.record (H.issued hinj hcall hquery hc ht))
    · cases h
  | recordStore q table =>
    obtain ⟨query, hquery, h⟩ := Option.bind_eq_some_iff.mp h
    obtain ⟨ctas, hctas, h⟩ := Option.bind_eq_some_iff.mp h
    obtain ⟨⟨url, objectPrefix⟩, hroute, h⟩ := Option.bind_eq_some_iff.mp h
    cases h
    obtain ⟨_, _, _, _, _, _, hruns, hwrite, hgave⟩ := hok query ctas hquery hctas
    refine H.setQuery hquery rfl (List.Subset.refl _)
      ((H.queries hquery).2.record (.inr ⟨ctas, hctas, ?_⟩))
    refine issuedForWrite_of_runs hruns hwrite hgave ?_
    cases heq : tableObjectStoreRoute crates ctas.location with
    | error e => rw [heq] at hroute; cases hroute
    | ok route => rw [heq] at hroute; cases hroute; rfl
  | register q =>
    obtain ⟨query, hquery, h⟩ := Option.bind_eq_some_iff.mp h
    cases h
    exact H.setQuery hquery rfl (List.Subset.refl _) (H.queries hquery).2.register

end EngineWF

/-! ## Calls of the stores -/

section
variable {S A : Type} {router : PrefixRoutingObjectStore S} {location : String} {store : S}

theorem mem_routes_of_storeForLocation (h : router.storeForLocation location = .ok store) :
    ∃ route ∈ router.routes, route.store = store ∧ Covers route.pathPrefix location := by
  rw [PrefixRoutingObjectStore.storeForLocation, routeStoreForLocation] at h
  cases hfind : router.routes.find? fun route => pathHasPrefix location route.pathPrefix with
  | none => rw [hfind] at h; cases h
  | some route =>
    rw [hfind] at h
    exact ⟨route, List.mem_of_find?_eq_some hfind, Except.ok.inj h,
      pathHasPrefix_iff.mp (by simpa using List.find?_some hfind)⟩

theorem mem_routes_of_storeForPrefix {objectPrefix : Option String}
    (h : router.storeForPrefix objectPrefix = .ok store) :
    ∃ route ∈ router.routes, route.store = store := by
  cases objectPrefix with
  | none =>
    rw [PrefixRoutingObjectStore.storeForPrefix, PrefixRoutingObjectStore.firstStore] at h
    cases hhead : router.routes.head? with
    | none => rw [hhead] at h; cases h
    | some route =>
      rw [hhead] at h
      exact ⟨route, List.mem_of_head? hhead, Except.ok.inj h⟩
  | some objectPrefix =>
    rw [PrefixRoutingObjectStore.storeForPrefix] at h
    cases hlocation : router.storeForLocation objectPrefix with
    | ok store' =>
      rw [hlocation] at h
      obtain rfl := Except.ok.inj h
      obtain ⟨route, hmem, hroute, -⟩ := mem_routes_of_storeForLocation hlocation
      exact ⟨route, hmem, hroute⟩
    | error e =>
      cases hfind : router.routes.find? fun route => pathHasPrefix route.pathPrefix objectPrefix with
      | none => simp [hlocation, hfind] at h
      | some route =>
        simp only [hlocation, hfind, Except.ok.injEq] at h
        exact ⟨route, List.mem_of_find?_eq_some hfind, h⟩

/-- A call is handed to the store of a route, which covers what the call is addressed to. -/
theorem mem_routes_of_route [DecidableEq S] {call : StoreCall A}
    (h : router.route call = .ok store) :
    ∃ route ∈ router.routes, route.store = store ∧
      ∀ location, call.addressed = some location → Covers route.pathPrefix location := by
  cases haddressed : call.addressed with
  | some location =>
    rw [route_addressed haddressed] at h
    obtain ⟨route, hmem, hstore, hcovers⟩ := mem_routes_of_storeForLocation h
    refine ⟨route, hmem, hstore, fun _ heq => ?_⟩
    obtain rfl := Option.some.inj heq
    exact hcovers
  | none =>
    suffices h : ∃ route ∈ router.routes, route.store = store by
      obtain ⟨route, hmem, hstore⟩ := h
      exact ⟨route, hmem, hstore, nofun⟩
    cases call with
    | list | listWithOffset | listWithDelimiter => exact mem_routes_of_storeForPrefix h
    | copyOpts source target args =>
      rw [PrefixRoutingObjectStore.route] at h
      cases hsource : router.storeForLocation source with
      | error e => rw [hsource] at h; cases h
      | ok fromStore =>
        cases htarget : router.storeForLocation target with
        | error e => rw [hsource, htarget] at h; cases h
        | ok toStore =>
          rw [hsource, htarget] at h
          obtain ⟨route, hmem, hroute, -⟩ := mem_routes_of_storeForLocation hsource
          by_cases hsame : fromStore = toStore
          · simp only [bind, Except.bind, pure, Except.pure, hsame, ne_eq, not_true_eq_false,
              if_false, Except.ok.injEq] at h
            exact ⟨route, hmem, hroute.trans (hsame.trans h)⟩
          · simp [bind, Except.bind, throw, throwThe, MonadExceptOf.throw, hsame] at h
    | _ => cases haddressed

end

/-- Every call that a registered router of a query hands on goes to a store that was opened with
credentials issued to the token of the query, for a table that its statement names or for the
target of its write. -/
theorem usesOwnCredentials [DecidableEq DeltaTable] (cfg : CacheConfig F) (crates : WriteCrates)
    (urlText : Url → String) (awsRegion : String) (clock : Instant) (answers : CatalogAnswers P D)
    (tokens : Set String) (hinj : Set.InjOn cfg.principalFingerprint tokens) (s : EngineState F P)
    (h : (engineMachine cfg crates urlText awsRegion clock).ReachableBy
      (Honest crates awsRegion answers tokens) s)
    (q : Nat) (query : RunningQuery) (hquery : s.queries[q]? = some query) (bucket : Url)
    (router : PrefixRoutingObjectStore DeltaTable) (hrouter : (bucket, router) ∈ query.registered)
    (A : Type) (call : StoreCall A) (store : DeltaTable) (hroute : router.route call = .ok store) :
    ∃ url objectPrefix, urlText url = urlText bucket ∧
      Issued crates awsRegion answers query url objectPrefix store ∧
      ∀ location, call.addressed = some location → Covers objectPrefix location := by
  have H : EngineWF cfg crates urlText awsRegion clock answers tokens s :=
    h.invariant .new fun _ _ _ H hok hstep => H.step hinj hok hstep
  obtain ⟨route, hmem, rfl, hcovers⟩ := mem_routes_of_route hroute
  obtain ⟨url, hurl, hissued⟩ := (H.queries hquery).2.registered hrouter route hmem
  exact ⟨url, route.pathPrefix, hurl, hissued, hcovers⟩

end

def testInfo : TableInfo :=
  ⟨some "id", "c.s.t", some "t", some "c", some "s", some "EXTERNAL", some "DELTA",
    some "s3://bucket/t", none, none, none, none, none, none, []⟩

/-- Unity knows one token and one table. -/
def testAnswers : CatalogAnswers Unit Unit where
  load
    | .table token fullName, answer => token = "alice" ∧ fullName = "c.s.t" ∧ answer = .ok testInfo
    | .temporaryTableCredentials token tableId, answer => token = "alice" ∧ tableId = "id" ∧
      answer = .ok { testCredentials with expirationTime := 3600000 }
    | .openTable _, _ | .tableProvider _, _ => True
  write _ _ := False

def testBucket : Url := { testTable.url with path := "" }

def testRouter : PrefixRoutingObjectStore DeltaTable := .new [⟨"/t", testTable⟩]

def testOpened : Opened (OpenedTable Unit) := ⟨⟨(), testBucket, "/t", testTable⟩, 3600000, 0, 0⟩

/-- A query reads an object of a table that an earlier query of its token has loaded. -/
theorem usesOwnCredentials_hit : ∃ (s : EngineState String Unit) (query : RunningQuery),
    (engineMachine testConfig testCrates (·.scheme) "us-west-2" 0).ReachableBy
      (Honest testCrates "us-west-2" testAnswers Set.univ) s ∧
    s.queries[1]? = some query ∧ (testBucket, testRouter) ∈ query.registered ∧
    testRouter.storeForLocation "/t/part-0" = .ok testTable ∧
    ∃ url objectPrefix, url.scheme = testBucket.scheme ∧
      Issued testCrates "us-west-2" testAnswers query url objectPrefix testTable ∧
      Covers objectPrefix "/t/part-0" := by
  have : DecidableEq DeltaTable := Classical.decEq _
  have hroute : testRouter.storeForLocation "/t/part-0" = .ok testTable := by
    simp only [PrefixRoutingObjectStore.storeForLocation, testRouter, PrefixRoutingObjectStore.new,
      List.mergeSort_singleton]
    rfl
  have hasked : (engineMachine (P := Unit) testConfig testCrates (·.scheme) "us-west-2" 0).ReachableBy
      (Honest testCrates "us-west-2" testAnswers Set.univ) _ :=
    Machine.reachesBy_run [.query "alice" none, .query "alice" none, .table 0 0 "c" "s" "t",
      .exec 0 .run, .exec 0 .run, .exec 0 .run, .exec 0 .run] (by simp [Honest]) rfl
  have hloaded := hasked.step (a := .exec 0 (.loaded (.ok testOpened))) ?_ rfl
  · have hregistered := hloaded.trans <| Machine.reachesBy_run [.exec 0 .run, .exec 0 .run,
      .table 1 1 "c" "s" "t", .exec 1 .run, .exec 1 .run, .exec 1 .run, .exec 1 .run, .record 1,
      .register 1] (by simp [Honest]) rfl
    obtain ⟨url, objectPrefix, hurl, hissued, hcovers⟩ := usesOwnCredentials testConfig testCrates
      (·.scheme) "us-west-2" 0 testAnswers Set.univ Function.injective_id.injOn _ hregistered 1 _ rfl
      testBucket testRouter (List.mem_singleton_self _) Unit (.getOpts "/t/part-0" ()) testTable hroute
    exact ⟨_, _, hregistered, rfl, List.mem_singleton_self _, hroute, url, objectPrefix, hurl, hissued,
      hcovers _ rfl⟩
  · intro c pc hc
    cases hc
    refine ⟨0, 0, [.answered (.table "alice" "c.s.t") (.ok testInfo),
      .answered (.temporaryTableCredentials "alice" "id")
        (.ok { testCredentials with expirationTime := 3600000 }),
      .answered (.openTable testTable) (.ok ()), .answered (.tableProvider testTable) (.ok ())], ?_,
      .answered (.answered (.answered (.answered .ready)))⟩
    simp [CatalogAnswers.GaveLoad, testAnswers]

end HarborSql
