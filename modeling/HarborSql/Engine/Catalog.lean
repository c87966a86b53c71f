import HarborSql.Engine.Routing
import HarborSql.Engine.Write

/-! How the tables of a query are loaded and their stores recorded (`engine/catalog.rs`), for any
number of queries over one table cache (`engine.rs`). -/

namespace HarborSql

/-! ## Loading -/

/-- What a table is opened as: the provider, and the route of its store. The store is that of the
Delta table. -/
structure OpenedTable (P : Type) where
  provider : P
  objectStoreUrl : Url
  objectPrefix : String
  objectStore : DeltaTable

/-- The calls that `load_cached_table` and `DeltaTableOpener::open` await. -/
inductive LoadCall (P : Type) where
  | table (token fullName : String)
  | temporaryTableCredentials (token tableId : String)
  | openTable (table : DeltaTable)
  | tableProvider (table : DeltaTable)

abbrev LoadCall.Answer {P : Type} : LoadCall P → Type
  | table .. => Except HarborError TableInfo
  | temporaryTableCredentials .. => Except HarborError TemporaryTableCredentials
  | openTable _ => Except DeltaTableError Unit
  | tableProvider _ => Except HarborError P

open AsyncM (awaitCall liftResult)

abbrev LoadM (P : Type) := AsyncM (LoadCall P) LoadCall.Answer Empty HarborError

section
variable {P : Type}

def ensureDeltaTable (table : TableInfo) : Except HarborError Unit :=
  let formatOk := table.dataSourceFormat.any (eqIgnoreAsciiCase · "DELTA")
  let storageOk := table.storageLocation.isSome
  if formatOk && storageOk then return
  else throw (unsupported s!"table {table.fullName} is not an externally readable Delta table")

def DeltaTableOpener.open (crates : WriteCrates) (credentials : TemporaryTableCredentials)
    (awsRegion : String) : LoadM P (OpenedTable P) := do
  let url ← liftResult ((crates.parseUrl credentials.url).mapError .url)
  let table : DeltaTable := ⟨url, storageOptions credentials awsRegion⟩
  let opened ← awaitCall (E := LoadCall P) (.openTable table)
  liftResult (opened.mapError fun e => .delta e.source)
  let (objectStoreUrl, objectPrefix) ← liftResult (tableObjectStoreRoute crates credentials.url)
  let provider ← awaitCall (E := LoadCall P) (.tableProvider table)
  let provider ← liftResult provider
  return { provider, objectStoreUrl, objectPrefix, objectStore := table }

/-- The clocks are read between the two requests. -/
def loadCachedTable (crates : WriteCrates) (awsRegion token fullName : String)
    (nowSystem : SystemTime) (nowInstant : Instant) : LoadM P (Opened (OpenedTable P)) := do
  let table ← awaitCall (E := LoadCall P) (.table token fullName)
  let table ← liftResult table
  liftResult (ensureDeltaTable table)
  let tableId ← liftResult (table.tableId.elim
    (throw (.unity "Unity Catalog table response omitted table_id")) pure)
  let credentials ← awaitCall (E := LoadCall P) (.temporaryTableCredentials token tableId)
  let credentials ← liftResult credentials
  let opened ← DeltaTableOpener.open crates credentials awsRegion
  return { table := opened, expirationTimeMs := credentials.expirationTime, nowSystem, nowInstant }

/-! ## Queries -/

/-- A query in `execute_inner`: its token, the target of its statement if that is a write, the
routes of its tables, and the stores that its context has registered. `resolved` is history: the
full names that its statement named. -/
structure RunningQuery where
  bearerToken : String
  ctas : Option Ctas
  routes : ObjectStoreRouteRegistry Url DeltaTable
  registered : List (Url × PrefixRoutingObjectStore DeltaTable)
  resolved : List String

/-- The table cache with its calls, the queries, and the query that a call belongs to. -/
structure EngineState (F P : Type) where
  cache : Conf (CacheState F (OpenedTable P)) (CacheThread HarborError)
  queries : List RunningQuery
  caller : HashMap ThreadId Nat

inductive EngineAction (P : Type) where
  /-- A query begins. -/
  | query (bearerToken : String) (ctas : Option Ctas)
  /-- The planner asks the schema provider of a query for a table, which calls the cache. -/
  | table (query : Nat) (call : ThreadId) (catalogName schemaName name : String)
  /-- A section of the cache. -/
  | exec (call : ThreadId) (input : CacheInput (OpenedTable P) HarborError)
  /-- A call of the cache is dropped with its query. -/
  | drop (call : ThreadId)
  | env (event : CacheEnv)
  /-- `execute_ctas` creates its guard. -/
  | executeCtas (call : ThreadId) (fullName : String)
  /-- The schema provider goes on with the table that the cache returned. -/
  | record (call : ThreadId)
  /-- The store of the target of a write is recorded. -/
  | recordStore (query : Nat) (table : DeltaTable)
  /-- The stores are registered with the context. -/
  | register (query : Nat)

section
variable (urlText : Url → String)

def RunningQuery.resolve (query : RunningQuery) (fullName : String) : RunningQuery :=
  { query with resolved := query.resolved ++ [fullName] }

def RunningQuery.record (query : RunningQuery) (url : Url) (pathPrefix : String)
    (store : DeltaTable) : RunningQuery :=
  { query with routes := query.routes.recordStore urlText url pathPrefix store }

def RunningQuery.register (query : RunningQuery) : RunningQuery :=
  { query with registered := registerObjectStores query.routes }

end

namespace EngineState

variable {F : Type} [DecidableEq F] (cfg : CacheConfig F) (crates : WriteCrates)
  (urlText : Url → String) (awsRegion : String) (s : EngineState F P)

def setQuery (q : Nat) (query : RunningQuery) : EngineState F P :=
  { s with queries := s.queries.set q query }

/-- A step of the cache. -/
def cacheStep (a : Action CacheRequest (CacheInput (OpenedTable P) HarborError) CacheEnv) :
    Option (EngineState F P) :=
  ((cacheProgram cfg).step s.cache a).map fun cache => { s with cache }

def step : EngineAction P → Option (EngineState F P)
  | .query bearerToken ctas =>
    some { s with queries := s.queries ++ [⟨bearerToken, ctas, ∅, [], []⟩] }
  | .table q call catalogName schemaName name => do
    let query ← s.queries[q]?
    let fullName := s!"{catalogName}.{schemaName}.{name}"
    let s ← s.cacheStep cfg (.start call (.getOrLoad query.bearerToken fullName awsRegion))
    return { s.setQuery q (query.resolve fullName) with caller := s.caller.insert call q }
  | .exec call input => s.cacheStep cfg (.exec call input)
  | .drop call => s.cacheStep cfg (.drop call)
  | .env event => s.cacheStep cfg (.env event)
  | .executeCtas call fullName => s.cacheStep cfg (.start call (.executeCtas fullName))
  | .record call => do
    let q ← s.caller.lookup call
    let query ← s.queries[q]?
    let .read _ (.returned (.ok cached) _) ← s.cache.threads call | none
    let table := (← s.cache.shared.tables[cached]?).table
    return s.setQuery q
      (query.record urlText table.objectStoreUrl table.objectPrefix table.objectStore)
  | .recordStore q table => do
    let query ← s.queries[q]?
    let ctas ← query.ctas
    let (url, objectPrefix) ← (tableObjectStoreRoute crates ctas.location).toOption
    return s.setQuery q (query.record urlText url objectPrefix table)
  | .register q => do
    let query ← s.queries[q]?
    return s.setQuery q query.register

end EngineState

/-- All interleavings of queries over a new cache. -/
def engineMachine {F : Type} [DecidableEq F] (cfg : CacheConfig F) (crates : WriteCrates)
    (urlText : Url → String) (awsRegion : String) (clock : Instant) :
    Machine (EngineState F P) (EngineAction P) where
  init := ⟨⟨.new clock, fun _ => none⟩, [], ∅⟩
  step s := s.step cfg crates urlText awsRegion

end
end HarborSql
