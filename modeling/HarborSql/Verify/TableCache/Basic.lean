import HarborSql.TableCache
import HarborSql.Theory.History

/-! What the operations of the table cache do, one lemma for each operation, and everything one
section of a `get_or_load` call can do (`ReadStep`). The later modules argue by cases on
`ReadStep` and cite the lemmas about the operations. -/

namespace HarborSql

namespace CacheState

variable {F τ : Type} {s s' : CacheState F τ} {slot i : SlotId} {st : EntryState}
  {e e' : EntrySlot F} {now : Instant} {t : Loaded τ} {name : String} {key key' : TableCacheKey F}

/-! ## The heap -/

theorem setState_slots : (s.setState slot st).slots[i]? = some e' ↔
    ∃ e, s.slots[i]? = some e ∧ e' = if i = slot then { e with state := st } else e := by
  simp only [setState, List.getElem?_modify, Option.map_eq_map, Option.map_eq_some_iff]
  constructor <;> rintro ⟨e, he, rfl⟩ <;> refine ⟨e, he, ?_⟩ <;> simp only [eq_comm]

theorem notifyWaiters_slots : (s.notifyWaiters slot).slots[i]? = some e' ↔
    ∃ e, s.slots[i]? = some e ∧
      e' = if i = slot then { e with notify := e.notify + 1 } else e := by
  simp only [notifyWaiters, List.getElem?_modify, Option.map_eq_map, Option.map_eq_some_iff]
  constructor <;> rintro ⟨e, he, rfl⟩ <;> refine ⟨e, he, ?_⟩ <;> simp only [eq_comm]

@[simp] theorem setState_entries : (s.setState slot st).entries = s.entries := rfl
@[simp] theorem setState_tables : (s.setState slot st).tables = s.tables := rfl
@[simp] theorem setState_clock : (s.setState slot st).clock = s.clock := rfl
@[simp] theorem setState_history : (s.setState slot st).history = s.history := rfl
@[simp] theorem setState_evicted : (s.setState slot st).evicted = s.evicted := rfl

@[simp] theorem notifyWaiters_entries : (s.notifyWaiters slot).entries = s.entries := rfl
@[simp] theorem notifyWaiters_tables : (s.notifyWaiters slot).tables = s.tables := rfl
@[simp] theorem notifyWaiters_clock : (s.notifyWaiters slot).clock = s.clock := rfl
@[simp] theorem notifyWaiters_history : (s.notifyWaiters slot).history = s.history := rfl
@[simp] theorem notifyWaiters_evicted : (s.notifyWaiters slot).evicted = s.evicted := rfl

@[simp] theorem newTable_entries : (s.newTable t).entries = s.entries := rfl
@[simp] theorem newTable_slots : (s.newTable t).slots = s.slots := rfl
@[simp] theorem newTable_clock : (s.newTable t).clock = s.clock := rfl
@[simp] theorem newTable_history : (s.newTable t).history = s.history := rfl
@[simp] theorem newTable_evicted : (s.newTable t).evicted = s.evicted := rfl

theorem newTable_self : (s.newTable t).tables[s.tables.length]? = some t := by simp [newTable]

@[simp] theorem pruneExpiredEntries_slots : (s.pruneExpiredEntries now).slots = s.slots := rfl
@[simp] theorem pruneExpiredEntries_tables : (s.pruneExpiredEntries now).tables = s.tables := rfl
@[simp] theorem pruneExpiredEntries_clock : (s.pruneExpiredEntries now).clock = s.clock := rfl
@[simp] theorem pruneExpiredEntries_history :
    (s.pruneExpiredEntries now).history = s.history := rfl

@[simp] theorem invalidateTable_slots : (s.invalidateTable name).slots = s.slots := rfl
@[simp] theorem invalidateTable_tables : (s.invalidateTable name).tables = s.tables := rfl
@[simp] theorem invalidateTable_clock : (s.invalidateTable name).clock = s.clock := rfl
@[simp] theorem invalidateTable_evicted : (s.invalidateTable name).evicted = s.evicted := rfl

/-! ## The map -/

variable [DecidableEq F]

theorem mem_evicted_pruneExpiredEntries : slot ∈ (s.pruneExpiredEntries now).evicted ↔
    slot ∈ s.evicted ∨ (s.prunable now slot ∧ ∃ key, s.entries.lookup key = some slot) := by
  simp only [pruneExpiredEntries, List.mem_append, List.mem_filter, List.mem_map]
  refine or_congr_right ⟨?_, ?_⟩
  · rintro ⟨⟨⟨key, slot'⟩, hm, rfl⟩, hp⟩
    exact ⟨hp, key, HashMap.mem_entries.mp hm⟩
  · rintro ⟨hp, key, hk⟩
    exact ⟨⟨⟨key, slot⟩, HashMap.mem_entries.mpr hk, rfl⟩, hp⟩

theorem lookup_pruneExpiredEntries :
    (s.pruneExpiredEntries now).entries.lookup key = some slot ↔
      s.entries.lookup key = some slot ∧ s.prunable now slot = false := by
  simp [pruneExpiredEntries, HashMap.lookup_retain_eq_some]

theorem lookup_invalidateTable : (s.invalidateTable name).entries.lookup key = some slot ↔
    s.entries.lookup key = some slot ∧ eqIgnoreAsciiCase key.fullName name = false := by
  simp [invalidateTable, HashMap.lookup_retain_eq_some]

theorem lookup_newSlot : (s.newSlot key').entries.lookup key = some slot ↔
    (key = key' ∧ s.slots.length = slot) ∨ (key ≠ key' ∧ s.entries.lookup key = some slot) :=
  HashMap.lookup_insert_eq_some

theorem newSlot_slots : (s.newSlot key').slots[i]? = some e ↔
    s.slots[i]? = some e ∨
      (i = s.slots.length ∧ ⟨.empty, 0, key', s.history.length⟩ = e) :=
  List.getElem?_concat_eq_some

theorem removeSlot_cases (s : CacheState F τ) (key : TableCacheKey F) (slot : SlotId) :
    (s.entries.lookup key = some slot ∧ s.removeSlot key slot =
      { s with entries := s.entries.erase key, evicted := s.evicted ++ [slot] }) ∨
    (s.entries.lookup key ≠ some slot ∧ s.removeSlot key slot = s) := by
  unfold removeSlot
  split
  · exact .inl ⟨‹_›, rfl⟩
  · exact .inr ⟨‹_›, rfl⟩

@[simp] theorem removeSlot_slots : (s.removeSlot key slot).slots = s.slots := by
  unfold removeSlot
  split <;> rfl

/-- A lookup prunes, and then finds a slot, makes one, or finds the map full. -/
theorem slotForKey_cases {cfg : CacheConfig F} {r : Option SlotId}
    (h : s.slotForKey cfg key now = (s', r)) :
    (∃ slot, (s.pruneExpiredEntries now).entries.lookup key = some slot ∧
      r = some slot ∧ s' = s.pruneExpiredEntries now) ∨
    ((s.pruneExpiredEntries now).entries.lookup key = none ∧
      r = some s.slots.length ∧ s' = (s.pruneExpiredEntries now).newSlot key) ∨
    (r = none ∧ s' = s.pruneExpiredEntries now) := by
  simp only [slotForKey] at h
  split at h
  · cases h; exact .inl ⟨_, ‹_›, rfl, rfl⟩
  · split at h <;> cases h
    · exact .inr <| .inr ⟨rfl, rfl⟩
    · exact .inr <| .inl ⟨‹_›, rfl, rfl⟩

/-- The slot that a lookup gives is in the map. -/
theorem lookup_of_slotForKey {cfg : CacheConfig F}
    (h : s.slotForKey cfg key now = (s', some slot)) : s'.entries.lookup key = some slot := by
  rcases slotForKey_cases h with ⟨_, hl, hr, rfl⟩ | ⟨_, hr, rfl⟩ | ⟨hr, _⟩ <;> cases hr
  · exact hl
  · exact lookup_newSlot.mpr (.inl ⟨rfl, rfl⟩)

end CacheState

/-! ## One section of a call -/

section
variable {F τ ε : Type} [DecidableEq F]

/-- A slot whose state lets the caller that examines it start a load. -/
def CacheState.Takeable (s : CacheState F τ) (e : EntrySlot F) : Prop :=
  e.state = .empty ∨ ∃ cached, e.state = .ready cached ∧ s.isExpired cached s.clock

omit [DecidableEq F] in
theorem CacheState.Takeable.ne_loading {s : CacheState F τ} {e} (h : s.Takeable e) :
    e.state ≠ .loading := by
  rcases h with h | ⟨_, h, _⟩ <;> simp [h]

/-- Everything a section of a `get_or_load` call can do. -/
inductive ReadStep (cfg : CacheConfig F) (s : CacheState F τ) (call : Call) :
    ReadPc ε → CacheState F τ → ReadPc ε → Prop
  | enabled : cfg.isEnabled → ReadStep cfg s call .enter s (.lookup s.clock)
  | disabled : ¬cfg.isEnabled → ReadStep cfg s call .enter s (.bypass s.history.length)
  | found {now s' slot} : s.slotForKey cfg (cfg.cacheKey call) now = (s', some slot) →
    ReadStep cfg s call (.lookup now) s' (.registering ⟨slot, s'.history.length⟩)
  | full {now s'} : s.slotForKey cfg (cfg.cacheKey call) now = (s', none) →
    ReadStep cfg s call (.lookup now) s' (.bypass s'.history.length)
  | direct {since opened} : ReadStep cfg s call (.bypass since)
    (s.newTable (cfg.directTable call opened since s.clock))
    (.returned (.ok s.tables.length) .direct)
  | directError {since err} :
    ReadStep cfg s call (.bypass since) s (.returned (.error err) .direct)
  | register {grant e} : s.slots[grant.slot]? = some e →
    ReadStep cfg s call (.registering grant) s (.examine grant e.notify)
  | hit {grant notified e cached} : s.slots[grant.slot]? = some e → e.state = .ready cached →
    s.isExpired cached s.clock = false →
    ReadStep cfg s call (.examine grant notified) s
      (.returned (.ok cached) (.hit grant s.clock))
  | block {grant notified e} : s.slots[grant.slot]? = some e → e.state = .loading →
    ReadStep cfg s call (.examine grant notified) s (.waiting grant notified)
  | take {grant notified e} : s.slots[grant.slot]? = some e → s.Takeable e →
    ReadStep cfg s call (.examine grant notified) (s.setState grant.slot .loading)
      (.loading grant s.history.length)
  | wake {grant notified e} : s.slots[grant.slot]? = some e → e.notify ≠ notified →
    ReadStep cfg s call (.waiting grant notified) s (.lookup s.clock)
  | loadError {grant since err} :
    ReadStep cfg s call (.loading grant since) s (.clearing grant (.error err))
  | loadExpired {grant since opened} :
    (cfg.finishedTable call opened since s.clock).isExpired s.clock →
    ReadStep cfg s call (.loading grant since)
      (s.newTable (cfg.finishedTable call opened since s.clock))
      (.clearing grant (.ok s.tables.length))
  | loadFresh {grant since opened} :
    (cfg.finishedTable call opened since s.clock).isExpired s.clock = false →
    ReadStep cfg s call (.loading grant since)
      (s.newTable (cfg.finishedTable call opened since s.clock))
      (.publishing grant s.tables.length)
  | publish {grant cached} : ReadStep cfg s call (.publishing grant cached)
    (s.setState grant.slot (.ready cached)) (.notifying grant (.ok cached) true)
  | clear {grant result} : ReadStep cfg s call (.clearing grant result)
    (s.setState grant.slot .empty) (.removing grant result)
  | remove {grant result} : ReadStep cfg s call (.removing grant result)
    (s.removeSlot (cfg.cacheKey call) grant.slot) (.notifying grant result false)
  | notify {grant result stored} : ReadStep cfg s call (.notifying grant result stored)
    (s.notifyWaiters grant.slot)
    (.returned result (if stored then .stored grant else .discarded grant))

variable {cfg : CacheConfig F} {s s' : CacheState F τ} {call : Call} {pc pc' : ReadPc ε}
  {input : CacheInput τ ε}

theorem readStep_of_getOrLoad (h : getOrLoad cfg s call pc input = some (s', pc')) :
    ReadStep cfg s call pc s' pc' := by
  unfold getOrLoad at h
  split at h
  · split at h <;> cases h
    · exact .enabled ‹_›
    · exact .disabled ‹_›
  · split at h <;> cases h
    · exact .found ‹_›
    · exact .full ‹_›
  · split at h <;> cases h
    · exact .direct
    · exact .directError
  · obtain ⟨e, he, h⟩ := Option.map_eq_some_iff.mp h
    cases h; exact .register he
  · obtain ⟨e, he, h⟩ := Option.map_eq_some_iff.mp h
    split at h
    · split at h <;> cases h
      · exact .take he (.inr ⟨_, ‹_›, ‹_›⟩)
      · exact .hit he ‹_› (Bool.eq_false_iff.mpr ‹_›)
    · cases h; exact .block he ‹_›
    · cases h; exact .take he (.inl ‹_›)
  · obtain ⟨e, he, h⟩ := Option.bind_eq_some_iff.mp h
    split at h <;> cases h
    exact .wake he ‹_›
  · split at h <;> cases h
    · split
      · exact .loadExpired ‹_›
      · exact .loadFresh (Bool.eq_false_iff.mpr ‹_›)
    · exact .loadError
  · cases h; exact .publish
  · cases h; exact .clear
  · cases h; exact .remove
  · cases h; exact .notify
  · cases h

end

/-- The cache of the tests, with the identity for the fingerprint. -/
def testConfig : CacheConfig String := ⟨16, .fromMillis 60000, id, 0⟩

def testKey : TableCacheKey String := ⟨"token-a", "workspace.default.hits", "us-west-2"⟩

def testRequest : CacheRequest := .getOrLoad "token-a" "workspace.default.hits" "us-west-2"

end HarborSql
