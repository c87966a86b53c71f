import HarborSql.Verify.TableCache.Basic

/-! The invariant of the table cache along every run (`cacheInvariant`): what the map, the heap
and the history say of each other (`CacheState.WF`), and what a call knows of the slot it was
given and of the table it returns (`CacheState.CallWF`). The latter only speaks of what never
goes away, so the sections of other threads keep it (`CallWF.mono`). -/

namespace HarborSql

/-- The event is an invalidation of the table. -/
def CacheEvent.Invalidates (fullName : String) : CacheEvent → Prop
  | .invalidated name => eqIgnoreAsciiCase fullName name
  | .committed _ => False

/-- The grant a call holds, or came by its result with. -/
def Served.grant? : Served → Option Grant
  | .direct => none
  | .hit grant _ | .stored grant | .discarded grant => some grant

namespace ReadPc

variable {ε : Type}

def grant? : ReadPc ε → Option Grant
  | .registering grant | .examine grant _ | .waiting grant _ | .loading grant _
  | .publishing grant _ | .clearing grant _ | .removing grant _ | .notifying grant _ _ => some grant
  | .returned _ served => served.grant?
  | .enter | .lookup _ | .bypass _ | .dropped => none

/-- How much history there was when the load in progress began. -/
def since? : ReadPc ε → Option Nat
  | .bypass since | .loading _ since => some since
  | _ => none

/-- The counters at which a future is dropped. -/
def Droppable : ReadPc ε → Prop
  | .enter | .bypass _ | .waiting _ _ | .loading _ _ => True
  | _ => False

/-- The table that the call's own load brought. -/
def own? : ReadPc ε → Option TableId
  | .publishing _ cached | .clearing _ (.ok cached) | .removing _ (.ok cached)
  | .notifying _ (.ok cached) _ | .returned (.ok cached) .direct
  | .returned (.ok cached) (.stored _) | .returned (.ok cached) (.discarded _) => some cached
  | _ => none

end ReadPc

namespace CacheState

variable {F τ ε : Type}

/-- The table was invalidated between the moments `a` and `b`. -/
def Invalidated (s : CacheState F τ) (fullName : String) (a b : Nat) : Prop :=
  HappenedIn s.history (CacheEvent.Invalidates fullName) a b

/-- The heap and the history of `s'` extend those of `s`. -/
structure Extends (s s' : CacheState F τ) : Prop where
  slots : ∀ {i : SlotId} {e : EntrySlot F}, s.slots[i]? = some e → ∃ e' : EntrySlot F,
    s'.slots[i]? = some e' ∧ e'.key = e.key ∧ e'.born = e.born ∧ e.notify ≤ e'.notify
  tables : ∀ {i : TableId} {t : Loaded τ}, s.tables[i]? = some t → s'.tables[i]? = some t
  history : s.history <+: s'.history
  clock : s.clock ≤ s'.clock

instance : LE (CacheState F τ) := ⟨Extends⟩

section Extends
variable {s s' : CacheState F τ}

theorem le_of_eq_heap (h1 : s'.slots = s.slots) (h2 : s'.tables = s.tables)
    (h3 : s.history <+: s'.history) (h4 : s.clock ≤ s'.clock) : s ≤ s' :=
  ⟨fun h => ⟨_, h1 ▸ h, rfl, rfl, Nat.le_refl _⟩, fun h => h2 ▸ h, h3, h4⟩

theorem le_rfl : s ≤ s := le_of_eq_heap rfl rfl List.prefix_rfl (Nat.le_refl _)

theorem setState_le {slot st} : s ≤ s.setState slot st := by
  refine ⟨fun {i e} h => ⟨_, setState_slots.mpr ⟨e, h, rfl⟩, ?_⟩, fun h => h, List.prefix_rfl,
    Nat.le_refl _⟩
  split <;> exact ⟨rfl, rfl, Nat.le_refl _⟩

theorem notifyWaiters_le {slot} : s ≤ s.notifyWaiters slot := by
  refine ⟨fun {i e} h => ⟨_, notifyWaiters_slots.mpr ⟨e, h, rfl⟩, ?_⟩, fun h => h,
    List.prefix_rfl, Nat.le_refl _⟩
  split
  · exact ⟨rfl, rfl, Nat.le_succ _⟩
  · exact ⟨rfl, rfl, Nat.le_refl _⟩

theorem newTable_le {t} : s ≤ s.newTable t :=
  ⟨fun h => ⟨_, h, rfl, rfl, Nat.le_refl _⟩, fun h => List.getElem?_concat_eq_some.mpr (.inl h),
    List.prefix_rfl, Nat.le_refl _⟩

theorem pruneExpiredEntries_le {now} : s ≤ s.pruneExpiredEntries now :=
  le_of_eq_heap rfl rfl List.prefix_rfl (Nat.le_refl _)

theorem commit_le {event : CacheEvent} : s ≤ { s with history := s.history ++ [event] } :=
  le_of_eq_heap rfl rfl (List.prefix_append _ _) (Nat.le_refl _)

theorem tick_le {clock} (h : s.clock ≤ clock) : s ≤ { s with clock } :=
  le_of_eq_heap rfl rfl List.prefix_rfl h

theorem invalidateTable_le {name} : s ≤ s.invalidateTable name :=
  le_of_eq_heap rfl rfl (List.prefix_append _ _) (Nat.le_refl _)

variable [DecidableEq F]

theorem newSlot_le {key} : s ≤ s.newSlot key :=
  ⟨fun h => ⟨_, newSlot_slots.mpr (.inl h), rfl, rfl, Nat.le_refl _⟩, fun h => h,
    List.prefix_rfl, Nat.le_refl _⟩

theorem removeSlot_le {key slot} : s ≤ s.removeSlot key slot := by
  rcases removeSlot_cases s key slot with ⟨_, h⟩ | ⟨_, h⟩ <;> rw [h]
  · exact le_of_eq_heap rfl rfl List.prefix_rfl (Nat.le_refl _)
  · exact le_rfl

omit [DecidableEq F] in
theorem Extends.trans {s'' : CacheState F τ} (h : s ≤ s') (h' : s' ≤ s'') : s ≤ s'' := by
  refine ⟨fun hi => ?_, fun hi => h'.tables (h.tables hi), h.history.trans h'.history,
    Nat.le_trans h.clock h'.clock⟩
  obtain ⟨e', hi', hk, hb, hn⟩ := h.slots hi
  obtain ⟨e'', hi'', hk', hb', hn'⟩ := h'.slots hi'
  exact ⟨e'', hi'', hk'.trans hk, hb'.trans hb, Nat.le_trans hn hn'⟩

theorem slotForKey_le {cfg : CacheConfig F} {key now r}
    (h : s.slotForKey cfg key now = (s', r)) : s ≤ s' := by
  rcases slotForKey_cases h with ⟨_, _, _, rfl⟩ | ⟨_, _, rfl⟩ | ⟨_, rfl⟩
  · exact pruneExpiredEntries_le
  · exact Extends.trans pruneExpiredEntries_le newSlot_le
  · exact pruneExpiredEntries_le

theorem slotForKey_history {cfg : CacheConfig F} {key now r}
    (h : s.slotForKey cfg key now = (s', r)) : s'.history = s.history := by
  rcases slotForKey_cases h with ⟨_, _, _, rfl⟩ | ⟨_, _, rfl⟩ | ⟨_, rfl⟩ <;> rfl

end Extends
end CacheState

section
variable {F τ ε : Type}

open CacheState in
theorem ReadStep.le [DecidableEq F] {cfg : CacheConfig F}
    {s s' : CacheState F τ} {call pc} {pc' : ReadPc ε} (h : ReadStep cfg s call pc s' pc') :
    s ≤ s' := by
  cases h with
  | enabled | disabled | directError | register | hit | block | wake | loadError => exact le_rfl
  | found h | full h => exact slotForKey_le h
  | direct | loadExpired | loadFresh => exact newTable_le
  | take | publish | clear => exact setState_le
  | remove => exact removeSlot_le
  | notify => exact notifyWaiters_le

end
namespace CacheState

variable {F τ ε : Type}

/-! ## The shared state -/

/-- The table in a slot was loaded under the slot's key after the slot was made, and its expiry
was capped when the load completed. -/
structure StoredIn (cfg : CacheConfig F) (e : EntrySlot F) (t : Loaded τ) : Prop where
  key : cfg.cacheKey t.call = e.key
  born : e.born ≤ t.loadStarted
  finished : t = cfg.finishedTable t.call t.opened t.loadStarted t.completedAt

/-- What the map, the heap and the history say of each other. A slot that was not evicted is in
the map unless its table was invalidated since, so two such slots of one key are separated by
an invalidation. -/
structure WF [DecidableEq F] (cfg : CacheConfig F) (s : CacheState F τ) : Prop where
  entry : ∀ {key : TableCacheKey F} {slot : SlotId}, s.entries.lookup key = some slot →
    ∃ e : EntrySlot F, s.slots[slot]? = some e ∧ e.key = key ∧ slot ∉ s.evicted ∧
      ¬s.Invalidated key.fullName e.born s.history.length
  evictedLt : ∀ {slot : SlotId}, slot ∈ s.evicted → slot < s.slots.length
  born : ∀ {i : SlotId} {e : EntrySlot F}, s.slots[i]? = some e → e.born ≤ s.history.length
  ready : ∀ {i : SlotId} {e : EntrySlot F} {cached : TableId}, s.slots[i]? = some e →
    e.state = .ready cached → ∃ t, s.tables[cached]? = some t ∧ StoredIn cfg e t
  detached : ∀ {i : SlotId} {e : EntrySlot F}, s.slots[i]? = some e → i ∉ s.evicted →
    s.entries.lookup e.key = some i ∨ s.Invalidated e.key.fullName e.born s.history.length
  separated : ∀ {i j : SlotId} {e e' : EntrySlot F}, i < j → s.slots[i]? = some e →
    s.slots[j]? = some e' → e.key = e'.key → i ∉ s.evicted →
    s.Invalidated e.key.fullName e.born e'.born

variable {s s' : CacheState F τ}

theorem Invalidated.of_le (h : s ≤ s') {fullName a b} (H : s.Invalidated fullName a b) :
    s'.Invalidated fullName a b := by
  obtain ⟨k, e, hak, hkb, he, hp⟩ := H
  obtain ⟨l, hl⟩ := h.history
  exact ⟨k, e, hak, hkb, by rw [← hl, List.getElem?_append_left (List.getElem?_eq_some_iff.mp he).1, he], hp⟩

theorem invalidated_iff_of_le (h : s ≤ s') {fullName a b} (hb : b ≤ s.history.length) :
    s'.Invalidated fullName a b ↔ s.Invalidated fullName a b :=
  HappenedIn.prefix_iff h.history hb

theorem history_length_le (h : s ≤ s') : s.history.length ≤ s'.history.length :=
  h.history.length_le

variable [DecidableEq F] {cfg : CacheConfig F}

namespace WF

theorem new {clock : Instant} : WF cfg (CacheState.new clock : CacheState F τ) := by
  constructor <;> intros <;> simp_all [CacheState.new]

/-- Operations that only change the states and the counters of slots, the tables and the clock. -/
theorem of_heap (H : WF cfg s) (hle : s ≤ s') (h1 : s'.entries = s.entries)
    (h2 : s'.evicted = s.evicted) (h3 : s'.history = s.history)
    (h4 : ∀ {i : SlotId} {e' : EntrySlot F}, s'.slots[i]? = some e' →
      ∃ e : EntrySlot F, s.slots[i]? = some e ∧ e'.key = e.key ∧ e'.born = e.born)
    (h5 : ∀ {i : SlotId} {e' : EntrySlot F} {cached : TableId}, s'.slots[i]? = some e' →
      e'.state = .ready cached → ∃ t, s'.tables[cached]? = some t ∧ StoredIn cfg e' t) :
    WF cfg s' where
  entry h := by
    rw [h1] at h
    obtain ⟨e, he, hk, hev, hi⟩ := H.entry h
    obtain ⟨e', he', hk', hb', _⟩ := hle.slots he
    refine ⟨e', he', hk'.trans hk, h2 ▸ hev, ?_⟩
    rw [hb', h3, invalidated_iff_of_le hle (Nat.le_refl _)]
    exact hi
  evictedLt h := by
    rw [h2] at h
    have hlt := H.evictedLt h
    obtain ⟨e', he', _⟩ := hle.slots (List.getElem?_eq_getElem hlt)
    exact (List.getElem?_eq_some_iff.mp he').1
  born h := by
    obtain ⟨e, he, _, hb⟩ := h4 h
    rw [hb, h3]
    exact H.born he
  ready := h5
  detached h hev := by
    obtain ⟨e, he, hk, hb⟩ := h4 h
    rw [hk, hb, h1, h3]
    exact (H.detached he (h2 ▸ hev)).imp_right (Invalidated.of_le hle)
  separated hij hi hj hk hev := by
    obtain ⟨e, he, hke, hbe⟩ := h4 hi
    obtain ⟨e', he', hke', hbe'⟩ := h4 hj
    rw [hke, hke'] at hk
    rw [hke, hbe, hbe']
    exact (H.separated hij he he' hk (h2 ▸ hev)).of_le hle

theorem setState {slot : SlotId} {st : EntryState} (H : WF cfg s)
    (h : ∀ {e : EntrySlot F} {cached : TableId}, s.slots[slot]? = some e → st = .ready cached →
      ∃ t, s.tables[cached]? = some t ∧ StoredIn cfg e t) : WF cfg (s.setState slot st) := by
  refine H.of_heap setState_le rfl rfl rfl ?_ ?_
  · intro i e' hi
    obtain ⟨e, he, rfl⟩ := setState_slots.mp hi
    exact ⟨e, he, by split <;> exact ⟨rfl, rfl⟩⟩
  · intro i e' cached hi hs
    obtain ⟨e, he, rfl⟩ := setState_slots.mp hi
    split at hs
    · subst i
      obtain ⟨t, ht, hk, hb, hf⟩ := h he hs
      exact ⟨t, ht, by simpa using hk, by simpa using hb, hf⟩
    · rename_i hne
      simpa [hne] using H.ready he hs

theorem notifyWaiters {slot} (H : WF cfg s) : WF cfg (s.notifyWaiters slot) := by
  refine H.of_heap notifyWaiters_le rfl rfl rfl ?_ ?_
  · intro i e' hi
    obtain ⟨e, he, rfl⟩ := notifyWaiters_slots.mp hi
    exact ⟨e, he, by split <;> exact ⟨rfl, rfl⟩⟩
  · intro i e' cached hi hs
    obtain ⟨e, he, rfl⟩ := notifyWaiters_slots.mp hi
    have hs' : e.state = .ready cached := by split at hs <;> exact hs
    obtain ⟨t, ht, hk, hb, hf⟩ := H.ready he hs'
    exact ⟨t, ht, by split <;> exact hk, by split <;> exact hb, hf⟩

theorem newTable {t} (H : WF cfg s) : WF cfg (s.newTable t) := by
  refine H.of_heap newTable_le rfl rfl rfl (fun h => ⟨_, h, rfl, rfl⟩) ?_
  intro i e' cached hi hs
  obtain ⟨t', ht, hst⟩ := H.ready hi hs
  exact ⟨t', newTable_le.tables ht, hst⟩

theorem tick {clock} (H : WF cfg s) (h : s.clock ≤ clock) : WF cfg { s with clock } :=
  H.of_heap (tick_le h) rfl rfl rfl (fun h => ⟨_, h, rfl, rfl⟩) H.ready

/-- An operation that takes entries out of the map because of eviction. -/
theorem evict {entries : HashMap (TableCacheKey F) SlotId} {evicted : List SlotId} (H : WF cfg s)
    (h1 : ∀ {key slot}, entries.lookup key = some slot →
      s.entries.lookup key = some slot ∧ slot ∉ evicted)
    (h2 : ∀ {slot}, slot ∈ evicted → slot ∈ s.evicted ∨ ∃ key, s.entries.lookup key = some slot)
    (h3 : ∀ {slot}, slot ∈ s.evicted → slot ∈ evicted)
    (h4 : ∀ {key slot}, s.entries.lookup key = some slot → slot ∉ evicted →
      entries.lookup key = some slot) : WF cfg { s with entries, evicted } where
  entry h := by
    obtain ⟨h, hev⟩ := h1 h
    obtain ⟨e, he, hk, _, hi⟩ := H.entry h
    exact ⟨e, he, hk, hev, hi⟩
  evictedLt h := by
    rcases h2 h with h | ⟨key, h⟩
    · exact H.evictedLt h
    · obtain ⟨e, he, _⟩ := H.entry h
      exact (List.getElem?_eq_some_iff.mp he).1
  born := H.born
  ready := H.ready
  detached h hev :=
    (H.detached h fun h => hev (h3 h)).imp_left fun h => h4 h hev
  separated hij hi hj hk hev := H.separated hij hi hj hk fun h => hev (h3 h)

theorem pruneExpiredEntries {now} (H : WF cfg s) : WF cfg (s.pruneExpiredEntries now) := by
  refine H.evict ?_ ?_ ?_ ?_
  · intro key slot h
    have h' := lookup_pruneExpiredEntries.mp h
    refine ⟨h'.1, fun hev => ?_⟩
    rcases mem_evicted_pruneExpiredEntries.mp hev with hev | ⟨hp, _⟩
    · obtain ⟨_, _, _, hev', _⟩ := H.entry h'.1
      exact hev' hev
    · simp [h'.2] at hp
  · intro slot h
    exact (mem_evicted_pruneExpiredEntries.mp h).imp_right And.right
  · exact fun h => mem_evicted_pruneExpiredEntries.mpr (.inl h)
  · intro key slot h hev
    refine lookup_pruneExpiredEntries.mpr ⟨h, Bool.eq_false_iff.mpr fun hp => hev ?_⟩
    exact mem_evicted_pruneExpiredEntries.mpr (.inr ⟨hp, key, h⟩)

theorem removeSlot {key slot} (H : WF cfg s) : WF cfg (s.removeSlot key slot) := by
  rcases removeSlot_cases s key slot with ⟨hl, h⟩ | ⟨_, h⟩ <;> rw [h]
  · refine H.evict ?_ ?_ ?_ ?_
    · intro key' slot' h
      obtain ⟨hne, h⟩ := HashMap.lookup_erase_eq_some.mp h
      refine ⟨h, fun hev => ?_⟩
      obtain ⟨e, he, hk, hev', _⟩ := H.entry h
      rcases List.mem_append.mp hev with hev | hev
      · exact hev' hev
      · cases List.mem_singleton.mp hev
        obtain ⟨e', he', hk', _⟩ := H.entry hl
        rw [he] at he'
        cases he'
        exact hne (hk.symm.trans hk')
    · intro slot' h
      refine (List.mem_append.mp h).imp_right fun h => ?_
      cases List.mem_singleton.mp h
      exact ⟨key, hl⟩
    · exact fun h => List.mem_append_left _ h
    · intro key' slot' h' hev
      refine HashMap.lookup_erase_eq_some.mpr ⟨?_, h'⟩
      rintro rfl
      rw [hl] at h'
      cases h'
      exact hev (List.mem_append_right _ (List.mem_singleton_self _))
  · exact H

theorem newSlot {key} (H : WF cfg s) (hnone : s.entries.lookup key = none) :
    WF cfg (s.newSlot key) where
  entry h := by
    rcases lookup_newSlot.mp h with ⟨rfl, rfl⟩ | ⟨_, h⟩
    · refine ⟨_, newSlot_slots.mpr (.inr ⟨rfl, rfl⟩), rfl, fun hev => ?_, fun hi => ?_⟩
      · exact absurd (H.evictedLt hev) (Nat.lt_irrefl _)
      · exact absurd hi.lt (Nat.lt_irrefl _)
    · obtain ⟨e, he, hk, hev, hi⟩ := H.entry h
      exact ⟨e, newSlot_slots.mpr (.inl he), hk, hev, hi⟩
  evictedLt h := by
    simp only [CacheState.newSlot, List.length_append, List.length_singleton]
    exact Nat.lt_succ_of_lt (H.evictedLt h)
  born h := by
    rcases newSlot_slots.mp h with h | ⟨_, rfl⟩
    · exact H.born h
    · exact Nat.le_refl _
  ready h hs := by
    rcases newSlot_slots.mp h with h | ⟨_, rfl⟩
    · exact H.ready h hs
    · cases hs
  detached {i e} h hev := by
    rcases newSlot_slots.mp h with h | ⟨rfl, rfl⟩
    · refine (H.detached h hev).imp_left fun hl => lookup_newSlot.mpr (.inr ⟨?_, hl⟩)
      intro hk
      rw [hk, hnone] at hl
      cases hl
    · exact .inl (lookup_newSlot.mpr (.inl ⟨rfl, rfl⟩))
  separated {i j e e'} hij hi hj hk hev := by
    rcases newSlot_slots.mp hj with hj | ⟨rfl, rfl⟩
    · rcases newSlot_slots.mp hi with hi | ⟨rfl, _⟩
      · exact H.separated hij hi hj hk hev
      · exact absurd (List.getElem?_eq_some_iff.mp hj).1 (Nat.lt_asymm hij)
    · rcases newSlot_slots.mp hi with hi | ⟨rfl, _⟩
      · refine (H.detached hi hev).elim (fun hl => ?_) id
        rw [hk, hnone] at hl
        cases hl
      · exact absurd hij (Nat.lt_irrefl _)

theorem slotForKey {key now r} (H : WF cfg s) (h : s.slotForKey cfg key now = (s', r)) :
    WF cfg s' := by
  rcases slotForKey_cases h with ⟨_, _, _, rfl⟩ | ⟨hn, _, rfl⟩ | ⟨_, rfl⟩
  · exact H.pruneExpiredEntries
  · exact H.pruneExpiredEntries.newSlot hn
  · exact H.pruneExpiredEntries

/-- The history grows by an event that invalidates at most the tables that leave the map. -/
theorem happen (entries : HashMap (TableCacheKey F) SlotId) {event : CacheEvent} (H : WF cfg s)
    (h : ∀ {key slot}, entries.lookup key = some slot ↔
      s.entries.lookup key = some slot ∧ ¬event.Invalidates key.fullName) :
    WF cfg { s with entries, history := s.history ++ [event] } where
  entry hl := by
    obtain ⟨hl, hne⟩ := h.mp hl
    obtain ⟨e, he, hk, hev, hi⟩ := H.entry hl
    refine ⟨e, he, hk, hev, fun hi' => ?_⟩
    simp only [Invalidated, List.length_append, List.length_singleton] at hi'
    rcases HappenedIn.concat_iff.mp hi' with hi' | ⟨_, hi'⟩
    · exact hi hi'
    · exact hne hi'
  evictedLt := H.evictedLt
  born h := by
    have := H.born h
    simp only [List.length_append, List.length_singleton]
    omega
  ready := H.ready
  detached {i e} hi hev := by
    simp only [Invalidated, List.length_append, List.length_singleton]
    rw [HappenedIn.concat_iff]
    rcases H.detached hi hev with hl | hi'
    · by_cases hinv : event.Invalidates e.key.fullName
      · exact .inr (.inr ⟨H.born hi, hinv⟩)
      · exact .inl (h.mpr ⟨hl, hinv⟩)
    · exact .inr (.inl hi')
  separated {i j e e'} hij hi hj hk hev := by
    have hle : s ≤ { s with entries, history := s.history ++ [event] } :=
      le_of_eq_heap rfl rfl (List.prefix_append _ _) (Nat.le_refl _)
    exact (H.separated hij hi hj hk hev).of_le hle

theorem invalidateTable {name} (H : WF cfg s) : WF cfg (s.invalidateTable name) :=
  H.happen _ (lookup_invalidateTable.trans (by simp [CacheEvent.Invalidates]))

theorem commit {writer} (H : WF cfg s) :
    WF cfg { s with history := s.history ++ [.committed writer] } :=
  H.happen s.entries (by simp [CacheEvent.Invalidates])

end WF

/-! ## A call -/

/-- The slot a call was given was made for its key and was in the map when it was given. -/
structure GrantWF (cfg : CacheConfig F) (s : CacheState F τ) (call : Call) (grant : Grant) :
    Prop where
  slot : ∃ e : EntrySlot F, s.slots[grant.slot]? = some e ∧ e.key = cfg.cacheKey call ∧
    e.born ≤ grant.given ∧ ¬s.Invalidated call.fullName e.born grant.given
  started : call.started ≤ grant.given
  given : grant.given ≤ s.history.length

/-- The table that the call's own load brought. -/
structure OwnWF (cfg : CacheConfig F) (s : CacheState F τ) (call : Call) (grant : Option Grant)
    (cached : TableId) (t : Loaded τ) : Prop where
  table : s.tables[cached]? = some t
  loader : t.call = call
  started : call.started ≤ t.loadStarted
  finished : ∀ {g}, grant = some g → g.given ≤ t.loadStarted ∧
    t = cfg.finishedTable call t.opened t.loadStarted t.completedAt

structure CallWF (cfg : CacheConfig F) (s : CacheState F τ) (call : Call) (pc : ReadPc ε) :
    Prop where
  started : call.started ≤ s.history.length
  grant : ∀ {g}, pc.grant? = some g → GrantWF cfg s call g
  since : ∀ {n}, pc.since? = some n →
    call.started ≤ n ∧ ∀ {g}, pc.grant? = some g → g.given ≤ n
  own : ∀ {cached}, pc.own? = some cached → ∃ t, OwnWF cfg s call pc.grant? cached t
  hit : ∀ {cached g examinedAt}, pc = .returned (.ok cached) (.hit g examinedAt) →
    ∃ (e : EntrySlot F) (t : Loaded τ), s.slots[g.slot]? = some e ∧
      s.tables[cached]? = some t ∧ StoredIn cfg e t ∧ examinedAt < t.expiresAt
  lookup : ∀ {now}, pc = .lookup now → now ≤ s.clock

omit [DecidableEq F] in
theorem GrantWF.mono {call grant} (hle : s ≤ s') (H : GrantWF cfg s call grant) :
    GrantWF cfg s' call grant := by
  obtain ⟨e, he, hk, hb, hi⟩ := H.slot
  obtain ⟨e', he', hk', hb', _⟩ := hle.slots he
  refine ⟨⟨e', he', hk'.trans hk, hb' ▸ hb, ?_⟩, H.started,
    Nat.le_trans H.given (history_length_le hle)⟩
  rw [hb', invalidated_iff_of_le hle H.given]
  exact hi

omit [DecidableEq F] in
theorem OwnWF.mono {call grant cached t} (hle : s ≤ s') (H : OwnWF cfg s call grant cached t) :
    OwnWF cfg s' call grant cached t :=
  ⟨hle.tables H.table, H.loader, H.started, H.finished⟩

omit [DecidableEq F] in
/-- What a call knows survives the sections of the other threads. -/
theorem CallWF.mono {call} {pc : ReadPc ε} (hle : s ≤ s') (H : CallWF cfg s call pc) :
    CallWF cfg s' call pc where
  started := Nat.le_trans H.started (history_length_le hle)
  grant h := (H.grant h).mono hle
  since := H.since
  own h := let ⟨t, ht⟩ := H.own h; ⟨t, ht.mono hle⟩
  hit h := by
    obtain ⟨e, t, he, ht, ⟨hk, hb, hf⟩, hlt⟩ := H.hit h
    obtain ⟨e', he', hk', hb', _⟩ := hle.slots he
    exact ⟨e', t, he', hle.tables ht, ⟨hk.trans hk'.symm, hb' ▸ hb, hf⟩, hlt⟩
  lookup h := Nat.le_trans (H.lookup h) hle.clock

omit [DecidableEq F] in
theorem isExpired_eq_false {cached : TableId} {now : Instant}
    (h : s.isExpired cached now = false) : ∃ t, s.tables[cached]? = some t ∧ now < t.expiresAt := by
  unfold isExpired at h
  split at h
  · exact ⟨_, ‹_›, by simpa [CachedTable.isExpired] using h⟩
  · cases h

/-- A lookup gives a slot of its key that is in the map. -/
theorem GrantWF.of_slotForKey {call slot now} (G : WF cfg s) (hs : call.started ≤ s.history.length)
    (h : s.slotForKey cfg (cfg.cacheKey call) now = (s', some slot)) :
    GrantWF cfg s' call ⟨slot, s'.history.length⟩ := by
  have G' : WF cfg s' := G.slotForKey h
  obtain ⟨e, he, hk, _, hi⟩ := G'.entry (lookup_of_slotForKey h)
  exact ⟨⟨e, he, hk, G'.born he, hi⟩, slotForKey_history h ▸ hs, Nat.le_refl _⟩

theorem CallWF.step {call} {pc pc' : ReadPc ε} (G : WF cfg s) (H : CallWF cfg s call pc)
    (h : ReadStep cfg s call pc s' pc') : CallWF cfg s' call pc' := by
  have H' := H.mono h.le
  cases h with
  | enabled | wake =>
    exact ⟨H'.started, nofun, nofun, nofun, nofun, fun h => by cases h; exact Nat.le_refl _⟩
  | disabled =>
    exact ⟨H'.started, nofun, fun h => by cases h; exact ⟨H.started, nofun⟩, nofun, nofun, nofun⟩
  | found h =>
    exact ⟨H'.started, fun hg => by cases hg; exact .of_slotForKey G H.started h, nofun, nofun,
      nofun, nofun⟩
  | full =>
    exact ⟨H'.started, nofun, fun h => by cases h; exact ⟨H'.started, nofun⟩, nofun, nofun, nofun⟩
  | direct =>
    refine ⟨H'.started, nofun, nofun, fun h => ?_, nofun, nofun⟩
    cases h
    exact ⟨_, newTable_self, rfl, (H.since rfl).1, nofun⟩
  | directError | loadError => exact ⟨H'.started, H'.grant, nofun, nofun, nofun, nofun⟩
  | register | block => exact ⟨H'.started, H'.grant, nofun, nofun, nofun, nofun⟩
  | hit he hs hx =>
    refine ⟨H'.started, H'.grant, nofun, nofun, fun h => ?_, nofun⟩
    cases h
    obtain ⟨t, ht, hst⟩ := G.ready he hs
    obtain ⟨t', ht', hlt⟩ := isExpired_eq_false hx
    rw [ht] at ht'
    cases ht'
    exact ⟨_, t, he, ht, hst, hlt⟩
  | take =>
    refine ⟨H'.started, H'.grant, fun h => ?_, nofun, nofun, nofun⟩
    cases h
    exact ⟨H.started, fun hg => (H.grant hg).given⟩
  | loadExpired | loadFresh =>
    refine ⟨H'.started, H'.grant, nofun, fun h => ?_, nofun, nofun⟩
    cases h
    exact ⟨_, newTable_self, rfl, (H.since rfl).1, fun hg => ⟨(H.since rfl).2 hg, rfl⟩⟩
  | publish => exact ⟨H'.started, H'.grant, nofun, H'.own, nofun, nofun⟩
  | @clear _ result | @remove _ result =>
    cases result with
    | ok => exact ⟨H'.started, H'.grant, nofun, H'.own, nofun, nofun⟩
    | error => exact ⟨H'.started, H'.grant, nofun, nofun, nofun, nofun⟩
  | @notify grant result stored =>
    have hg {g} (h : (ReadPc.returned result (if stored then .stored grant else .discarded grant)).grant? =
        some g) : (ReadPc.notifying grant result stored).grant? = some g := by
      cases stored <;> exact h
    refine ⟨H'.started, fun h => H'.grant (hg h), nofun, fun {cached} h => ?_, fun h => ?_, nofun⟩
    · cases result with
      | ok id =>
        have ho : (ReadPc.notifying (ε := ε) grant (.ok id) stored).own? = some cached := by
          cases stored <;> exact h
        obtain ⟨t, ht⟩ := H'.own ho
        exact ⟨t, ht.table, ht.loader, ht.started, fun h => ht.finished (hg h)⟩
      | error => cases stored <;> cases h
    · cases stored <;> cases h

theorem WF.step {call} {pc pc' : ReadPc ε} (G : WF cfg s) (H : CallWF cfg s call pc)
    (h : ReadStep cfg s call pc s' pc') : WF cfg s' := by
  cases h with
  | enabled | disabled | directError | register | hit | block | wake | loadError => exact G
  | found h | full h => exact G.slotForKey h
  | direct | loadExpired | loadFresh => exact G.newTable
  | take | clear => exact G.setState nofun
  | publish =>
    refine G.setState fun he hs => ?_
    cases hs
    obtain ⟨t, ht⟩ := H.own rfl
    obtain ⟨e, he', hk, hb, _⟩ := (H.grant rfl).slot
    rw [he] at he'
    cases he'
    obtain ⟨hgiven, hf⟩ := ht.finished rfl
    exact ⟨t, ht.table, ht.loader ▸ hk.symm, Nat.le_trans hb hgiven, ht.loader.symm ▸ hf⟩
  | remove => exact G.removeSlot
  | notify => exact G.notifyWaiters

end CacheState

/-! ## Every run -/

section
variable {F τ ε : Type} [DecidableEq F] {cfg : CacheConfig F} {clock : Instant}
  {ok : Conf (CacheState F τ) (CacheThread ε) →
    Action CacheRequest (CacheInput τ ε) CacheEnv → Prop}
  {c : Conf (CacheState F τ) (CacheThread ε)}

open CacheState

/-- The invariant of a thread of the cache. -/
def CacheThread.WF (cfg : CacheConfig F) (s : CacheState F τ) : CacheThread ε → Prop
  | .read call pc => CallWF cfg s call pc
  | .write _ _ => True

omit [DecidableEq F] in
theorem CacheThread.WF.mono {s s' : CacheState F τ} (hle : s ≤ s') {k : CacheThread ε}
    (H : k.WF cfg s) : k.WF cfg s' := by
  cases k with
  | read => exact CallWF.mono hle H
  | write => trivial

/-- Everything a section of a thread of the cache can do. -/
theorem cacheExec_cases {s s' : CacheState F τ} {i k k' input}
    (h : (cacheProgram (ε := ε) cfg).exec s i k input = some (s', k')) :
    (∃ call pc pc', k = .read call pc ∧ k' = .read call pc' ∧ ReadStep cfg s call pc s' pc') ∨
    (∃ name, k = .write name .writing ∧ k' = .write name .committed ∧
      s' = { s with history := s.history ++ [.committed i] }) ∨
    (∃ name pc, k = .write name pc ∧ k' = .write name (.finished (s.history.length + 1)) ∧
      s' = s.invalidateTable name) := by
  cases k with
  | read call pc =>
    obtain ⟨⟨s, pc'⟩, hs, hk⟩ := Option.map_eq_some_iff.mp h
    cases hk
    exact .inl ⟨call, pc, pc', rfl, rfl, readStep_of_getOrLoad hs⟩
  | write name pc =>
    obtain ⟨⟨s, pc'⟩, hs, hk⟩ := Option.map_eq_some_iff.mp h
    cases hk
    unfold executeCtas at hs
    split at hs <;> cases hs
    · exact .inr <| .inl ⟨name, rfl, rfl, rfl⟩
    · exact .inr <| .inr ⟨name, _, rfl, rfl, rfl⟩
    · exact .inr <| .inr ⟨name, _, rfl, rfl, rfl⟩

/-- Everything a drop of a thread of the cache can do. -/
theorem cacheDrop_cases {s s' : CacheState F τ} {k k'}
    (h : (cacheProgram (ε := ε) cfg).drop s k = some (s', k')) :
    (∃ call pc, pc.Droppable ∧ k = .read call pc ∧ k' = .read call .dropped ∧ s' = s) ∨
    (∃ name pc, k = .write name pc ∧ k' = .write name (.finished (s.history.length + 1)) ∧
      s' = s.invalidateTable name) := by
  simp only [cacheProgram] at h
  split at h <;> cases h <;> simp [ReadPc.Droppable]

theorem cacheEnv_cases {s s' : CacheState F τ} {event}
    (h : (cacheProgram (ε := ε) cfg).env s event = some s') :
    (∃ clock, s.clock ≤ clock ∧ s' = { s with clock }) ∨ ∃ name, s' = s.invalidateTable name := by
  cases event with
  | tick elapsed =>
    obtain ⟨clock, hc, rfl⟩ := Option.map_eq_some_iff.mp h
    refine .inl ⟨clock, ?_, rfl⟩
    unfold Instant.checkedAdd at hc
    split at hc <;> cases hc
    exact Nat.le_add_right _ _
  | invalidate name => cases h; exact .inr ⟨name, rfl⟩

theorem cacheOutline : (cacheProgram cfg).Outline ok (WF cfg : CacheState F τ → Prop)
    (fun s _ (k : CacheThread ε) => k.WF cfg s) where
  start {c i request k} _ _ h := by
    cases request <;> cases h
    · exact ⟨Nat.le_refl _, nofun, nofun, nofun, nofun, nofun⟩
    · trivial
  exec _ hG _ hL h := by
    rcases cacheExec_cases h with ⟨call, pc, pc', rfl, rfl, hs⟩ | ⟨name, rfl, rfl, rfl⟩ |
      ⟨name, pc, rfl, rfl, rfl⟩
    · exact ⟨hG.step hL hs, CallWF.step hG hL hs, fun _ _ _ hm => hm.mono hs.le⟩
    · exact ⟨hG.commit, trivial, fun _ _ _ hm => hm.mono commit_le⟩
    · exact ⟨hG.invalidateTable, trivial, fun _ _ _ hm => hm.mono invalidateTable_le⟩
  drop _ hG _ hL h := by
    rcases cacheDrop_cases h with ⟨call, pc, _, rfl, rfl, rfl⟩ | ⟨name, pc, rfl, rfl, rfl⟩
    · exact ⟨hG, ⟨CallWF.started hL, nofun, nofun, nofun, nofun, nofun⟩, fun _ _ _ hm => hm⟩
    · exact ⟨hG.invalidateTable, trivial, fun _ _ _ hm => hm.mono invalidateTable_le⟩
  env _ hG h := by
    rcases cacheEnv_cases h with ⟨clock, hc, rfl⟩ | ⟨name, rfl⟩
    · exact ⟨hG.tick hc, fun _ _ hm => hm.mono (tick_le hc)⟩
    · exact ⟨hG.invalidateTable, fun _ _ hm => hm.mono invalidateTable_le⟩

/-- The invariant of the cache holds along every run. -/
theorem cacheInvariant (h : (cacheMachine cfg clock).ReachableBy ok c) :
    WF cfg c.shared ∧ ∀ i k, c.threads i = some k → k.WF cfg c.shared :=
  cacheOutline.invariant WF.new h

end
end HarborSql
