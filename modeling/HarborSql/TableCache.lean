import HarborSql.Theory.HashMap
import HarborSql.Theory.Interleaving
import HarborSql.Text
import HarborSql.Time

/-! The table cache (`src/table_cache.rs`) under any interleaving of `get_or_load` calls,
invalidations and `execute_ctas` writes. A call is a thread whose atomic sections are the
lock-protected sections of the source, the creation of its `Notified`, and the reads of the
clock that come before a lock. No code panics while it holds one of the two mutexes, so the
locks are never poisoned and the `lock(..)?` of the source never fails. -/

namespace HarborSql

/-- The address of an `Arc<EntrySlot>`. -/
abbrev SlotId := Nat

/-- The address of an `Arc<CachedTable>`. -/
abbrev TableId := Nat

/-- `CachedTable`. `table` stands for the provider and the object store route. -/
structure CachedTable (τ : Type) where
  table : τ
  expiresAt : Instant

namespace CachedTable

variable {τ : Type}

def isExpired (cached : CachedTable τ) (now : Instant) : Bool := cached.expiresAt ≤ now

def capExpiresAt (cached : CachedTable τ) (maxExpiresAt : Instant) : CachedTable τ :=
  { cached with expiresAt := min cached.expiresAt maxExpiresAt }

end CachedTable

def checkedDeadline (now : Instant) (duration : Duration) : Instant :=
  (now.checkedAdd duration).getD now

/-- A negative expiry is already over; `UNIX_EPOCH + from_millis` stays below
`SystemTime.last` for every `i64` (`credentialExpiry_le_last`). -/
def expiresAtFromUnityExpirationMsAt (expirationTimeMs : Int64) (safetySkew : Duration)
    (nowSystem : SystemTime) (nowInstant : Instant) : Instant :=
  if expirationTimeMs.toInt < 0 then nowInstant
  else
    let credentialExpiry : SystemTime := Duration.fromMillis expirationTimeMs.toInt.toNat
    let remaining := credentialExpiry.durationSince nowSystem - safetySkew
    checkedDeadline nowInstant remaining

/-- What `load_cached_table` comes back with: the opened table, the expiry that Unity reported
for its credentials, and the two clocks as they were read to map that expiry. -/
structure Opened (τ : Type) where
  table : τ
  expirationTimeMs : Int64
  nowSystem : SystemTime
  nowInstant : Instant

def Opened.cachedTable {τ : Type} (opened : Opened τ) (safetySkew : Duration) : CachedTable τ where
  table := opened.table
  expiresAt := expiresAtFromUnityExpirationMsAt opened.expirationTimeMs safetySkew
    opened.nowSystem opened.nowInstant

structure TableCacheKey (F : Type) where
  principalFingerprint : F
  fullName : String
  awsRegion : String
  deriving DecidableEq

inductive EntryState where
  | empty
  | loading
  | ready (cached : TableId)
  deriving DecidableEq

/-- `EntrySlot`. `notify` counts the `notify_waiters` calls: a `Notified` remembers the count
at its creation and is ready once the count has changed. `key` and `born` are history: the key
the slot was made for, and how much history there was then. -/
structure EntrySlot (F : Type) where
  state : EntryState
  notify : Nat
  key : TableCacheKey F
  born : Nat

/-- The arguments of a `get_or_load` call, and how much history there was when it began. -/
structure Call where
  bearerToken : String
  fullName : String
  awsRegion : String
  started : Nat

/-- A `CachedTable` on the heap, with its history: the call whose loader produced it, what the
loader returned, the history at the start of the load and the clock at its completion. -/
structure Loaded (τ : Type) extends CachedTable τ where
  call : Call
  opened : Opened τ
  loadStarted : Nat
  completedAt : Instant

inductive CacheEvent where
  /-- `invalidate_table(name)` returned. -/
  | invalidated (name : String)
  /-- The Delta write of the `execute_ctas` thread was committed. -/
  | committed (writer : ThreadId)
  deriving DecidableEq

/-- The settings of a `TableCacheInner`. HMAC-SHA256 under the process key is a parameter. -/
structure CacheConfig (F : Type) where
  maxEntries : Nat
  ttl : Duration
  principalFingerprint : String → F
  /-- `Config::table_cache_credential_expiry_skew`. -/
  credentialExpirySkew : Duration

/-- The map under the `entries` mutex, the heap, the monotonic clock, and as history the
events so far and the slots that pruning or `remove_slot` took out of the map. -/
structure CacheState (F τ : Type) where
  entries : HashMap (TableCacheKey F) SlotId
  slots : List (EntrySlot F)
  tables : List (Loaded τ)
  clock : Instant
  history : List CacheEvent
  evicted : List SlotId

/-- The slot a lookup returned, and how much history there was then. -/
structure Grant where
  slot : SlotId
  given : Nat

/-- How a call came by its result. -/
inductive Served where
  /-- By its own load, outside the cache. -/
  | direct
  /-- From a slot that was ready when it was examined. -/
  | hit (grant : Grant) (examinedAt : Instant)
  /-- By its own load, whose table was left in the slot. -/
  | stored (grant : Grant)
  /-- By its own load, which failed or brought an expired table. -/
  | discarded (grant : Grant)

/-- Where a `get_or_load` call is. -/
inductive ReadPc (ε : Type) where
  | enter
  | lookup (now : Instant)
  | bypass (since : Nat)
  | registering (grant : Grant)
  | examine (grant : Grant) (notified : Nat)
  | waiting (grant : Grant) (notified : Nat)
  | loading (grant : Grant) (since : Nat)
  | publishing (grant : Grant) (cached : TableId)
  | clearing (grant : Grant) (result : Except ε TableId)
  | removing (grant : Grant) (result : Except ε TableId)
  | notifying (grant : Grant) (result : Except ε TableId) (stored : Bool)
  | returned (result : Except ε TableId) (served : Served)
  | dropped

/-- Where `execute_ctas` is once its `InvalidateOnDrop` guard exists. -/
inductive WritePc where
  | writing
  | committed
  | finished (ended : Nat)

inductive CacheThread (ε : Type) where
  | read (call : Call) (pc : ReadPc ε)
  | write (fullName : String) (pc : WritePc)

inductive CacheRequest where
  | getOrLoad (bearerToken fullName awsRegion : String)
  | executeCtas (fullName : String)

inductive CacheInput (τ ε : Type) where
  /-- Run the section. -/
  | run
  /-- The loader's future is ready. -/
  | loaded (outcome : Except ε (Opened τ))
  /-- The Delta log accepts the commit. -/
  | commit

inductive CacheEnv where
  | tick (elapsed : Duration)
  | invalidate (fullName : String)

namespace CacheConfig

variable {F : Type} (cfg : CacheConfig F)

def isEnabled : Bool := 0 < cfg.maxEntries && cfg.ttl != 0

def cacheKey (call : Call) : TableCacheKey F where
  principalFingerprint := cfg.principalFingerprint call.bearerToken
  fullName := call.fullName
  awsRegion := call.awsRegion

variable {τ : Type}

/-- The table of a load that completes at `now` in a slot, as `finish_load` caps its expiry. -/
def finishedTable (call : Call) (opened : Opened τ) (since : Nat) (now : Instant) : Loaded τ where
  toCachedTable := (opened.cachedTable cfg.credentialExpirySkew).capExpiresAt
    (checkedDeadline now cfg.ttl)
  call := call
  opened := opened
  loadStarted := since
  completedAt := now

/-- The table of a load that did not go through a slot. -/
def directTable (call : Call) (opened : Opened τ) (since : Nat) (now : Instant) : Loaded τ where
  toCachedTable := opened.cachedTable cfg.credentialExpirySkew
  call := call
  opened := opened
  loadStarted := since
  completedAt := now

end CacheConfig

namespace CacheState

variable {F τ : Type}

/-- `TableCache::new`, at some time of the clock. -/
def new (clock : Instant) : CacheState F τ := ⟨∅, [], [], clock, [], []⟩

variable (s : CacheState F τ)

/-- `*lock(&slot.state)? = state`. -/
def setState (slot : SlotId) (state : EntryState) : CacheState F τ :=
  { s with slots := s.slots.modify slot fun e => { e with state } }

def notifyWaiters (slot : SlotId) : CacheState F τ :=
  { s with slots := s.slots.modify slot fun e => { e with notify := e.notify + 1 } }

/-- `Arc::new(cached)`; the address is `s.tables.length`. -/
def newTable (cached : Loaded τ) : CacheState F τ := { s with tables := s.tables ++ [cached] }

def isExpired (cached : TableId) (now : Instant) : Bool :=
  match s.tables[cached]? with
  | some t => t.isExpired now
  | none => true

/-- The entries that `prune_expired_entries` collects in `expired`. -/
def prunable (now : Instant) (slot : SlotId) : Bool :=
  match s.slots[slot]? with
  | some e =>
    match e.state with
    | .empty => true
    | .ready cached => s.isExpired cached now
    | .loading => false
  | none => false

def pruneExpiredEntries (now : Instant) : CacheState F τ :=
  { s with
    entries := s.entries.retain fun _ slot => !s.prunable now slot
    evicted := s.evicted ++ (s.entries.entries.map (·.2)).filter (s.prunable now) }

variable [DecidableEq F]

/-- Insert an empty slot for `key`; its address is `s.slots.length`. -/
def newSlot (key : TableCacheKey F) : CacheState F τ :=
  { s with
    slots := s.slots ++ [⟨.empty, 0, key, s.history.length⟩]
    entries := s.entries.insert key s.slots.length }

def slotForKey (cfg : CacheConfig F) (key : TableCacheKey F) (now : Instant) :
    CacheState F τ × Option SlotId :=
  let s := s.pruneExpiredEntries now
  match s.entries.lookup key with
  | some slot => (s, some slot)
  | none =>
    if cfg.maxEntries ≤ s.entries.len then (s, none)
    else (s.newSlot key, some s.slots.length)

def removeSlot (key : TableCacheKey F) (slot : SlotId) : CacheState F τ :=
  if s.entries.lookup key = some slot then
    { s with entries := s.entries.erase key, evicted := s.evicted ++ [slot] }
  else s

omit [DecidableEq F] in
def invalidateTable (fullName : String) : CacheState F τ :=
  { s with
    entries := s.entries.retain fun key _ => !eqIgnoreAsciiCase key.fullName fullName
    history := s.history ++ [.invalidated fullName] }

end CacheState

section Sections
variable {F τ ε : Type} [DecidableEq F] (cfg : CacheConfig F)

/-- The sections of `get_or_load` and, from `publishing` on, of `finish_load`. The loader is
taken at most once, on the way to `loading` or `bypass`, after which the call returns, so
`load.take()` never finds it consumed. -/
def getOrLoad (s : CacheState F τ) (call : Call) :
    ReadPc ε → CacheInput τ ε → Option (CacheState F τ × ReadPc ε)
  | .enter, .run =>
    if cfg.isEnabled then some (s, .lookup s.clock) else some (s, .bypass s.history.length)
  | .lookup now, .run =>
    match s.slotForKey cfg (cfg.cacheKey call) now with
    | (s, some slot) => some (s, .registering ⟨slot, s.history.length⟩)
    | (s, none) => some (s, .bypass s.history.length)
  | .bypass since, .loaded outcome =>
    match outcome with
    | .ok opened =>
      some (s.newTable (cfg.directTable call opened since s.clock),
        .returned (.ok s.tables.length) .direct)
    | .error e => some (s, .returned (.error e) .direct)
  | .registering grant, .run =>
    (s.slots[grant.slot]?).map fun e => (s, .examine grant e.notify)
  | .examine grant notified, .run =>
    (s.slots[grant.slot]?).map fun e =>
      match e.state with
      | .ready cached =>
        if s.isExpired cached s.clock then
          (s.setState grant.slot .loading, .loading grant s.history.length)
        else (s, .returned (.ok cached) (.hit grant s.clock))
      | .loading => (s, .waiting grant notified)
      | .empty => (s.setState grant.slot .loading, .loading grant s.history.length)
  | .waiting grant notified, .run =>
    (s.slots[grant.slot]?).bind fun e =>
      if e.notify = notified then none else some (s, .lookup s.clock)
  | .loading grant since, .loaded outcome =>
    match outcome with
    | .ok opened =>
      let now := s.clock
      let cached := cfg.finishedTable call opened since now
      some (s.newTable cached,
        if cached.isExpired now then .clearing grant (.ok s.tables.length)
        else .publishing grant s.tables.length)
    | .error e => some (s, .clearing grant (.error e))
  | .publishing grant cached, .run =>
    some (s.setState grant.slot (.ready cached), .notifying grant (.ok cached) true)
  | .clearing grant result, .run => some (s.setState grant.slot .empty, .removing grant result)
  | .removing grant result, .run =>
    some (s.removeSlot (cfg.cacheKey call) grant.slot, .notifying grant result false)
  | .notifying grant result stored, .run =>
    some (s.notifyWaiters grant.slot,
      .returned result (if stored then .stored grant else .discarded grant))
  | _, _ => none

/-- The sections of `execute_ctas` from the creation of the guard on: the write is committed
or not, and every exit drops the guard. -/
def executeCtas (s : CacheState F τ) (writer : ThreadId) (fullName : String) :
    WritePc → CacheInput τ ε → Option (CacheState F τ × WritePc)
  | .writing, .commit => some ({ s with history := s.history ++ [.committed writer] }, .committed)
  | .writing, .run | .committed, .run =>
    some (s.invalidateTable fullName, .finished (s.history.length + 1))
  | _, _ => none

def cacheProgram :
    Program (CacheState F τ) (CacheThread ε) CacheRequest (CacheInput τ ε) CacheEnv where
  start s
    | .getOrLoad bearerToken fullName awsRegion =>
      some (.read ⟨bearerToken, fullName, awsRegion, s.history.length⟩ .enter)
    | .executeCtas fullName => some (.write fullName .writing)
  exec s i
    | .read call pc, input => (getOrLoad cfg s call pc input).map fun (s, pc) => (s, .read call pc)
    | .write name pc, input => (executeCtas s i name pc input).map fun (s, pc) => (s, .write name pc)
  drop s
    -- a call is dropped before its first poll, or at one of its awaits
    | .read call .enter | .read call (.bypass _) | .read call (.waiting _ _)
    | .read call (.loading _ _) => some (s, .read call .dropped)
    | .write name .writing | .write name .committed =>
      some (s.invalidateTable name, .write name (.finished (s.history.length + 1)))
    | _ => none
  env s
    | .tick elapsed => (s.clock.checkedAdd elapsed).map fun clock => { s with clock }
    | .invalidate fullName => some (s.invalidateTable fullName)

/-- The interleavings of `cacheProgram` over a new cache. -/
def cacheMachine (clock : Instant) :
    Machine (Conf (CacheState F τ) (CacheThread ε)) (Action CacheRequest (CacheInput τ ε) CacheEnv) :=
  (cacheProgram cfg).machine (CacheState.new clock)

end Sections
end HarborSql
