import HarborSql.Verify.TableCache.Owner

/-! Single flight. A slot is in the map before its caller locks it, and every lookup prunes the
slots that are empty or expired, so a caller can come to load a slot that is no longer in the
map. Apart from that, and from a failed load removing a slot that another caller has taken
since, the calls of one key load one after the other and find what was loaded. -/

namespace HarborSql

/-- The slot in which the call left its table, and the table. -/
def ReadPc.stored? {ε : Type} : ReadPc ε → Option (Grant × TableId)
  | .notifying grant (.ok cached) true | .returned (.ok cached) (.stored grant) =>
    some (grant, cached)
  | _ => none

theorem ReadPc.own?_of_stored? {ε : Type} {pc : ReadPc ε} {g cached}
    (h : pc.stored? = some (g, cached)) : pc.own? = some cached := by
  unfold stored? at h
  split at h <;> cases h <;> rfl

theorem ReadPc.grant?_of_stored? {ε : Type} {pc : ReadPc ε} {g cached}
    (h : pc.stored? = some (g, cached)) : pc.grant? = some g := by
  unfold stored? at h
  split at h <;> cases h <;> rfl

section
variable {F τ ε : Type} [DecidableEq F] {cfg : CacheConfig F} {clock : Instant}
  {c c' : Conf (CacheState F τ) (CacheThread ε)}

open CacheState

/-- No caller takes a slot that pruning or `remove_slot` took out of the map, and `remove_slot`
only takes out what pruning would. -/
structure OnlyPrunes (cfg : CacheConfig F) (c : Conf (CacheState F τ) (CacheThread ε))
    (a : Action CacheRequest (CacheInput τ ε) CacheEnv) : Prop where
  take : ∀ {i : ThreadId} {input : CacheInput τ ε} {call : Call} {grant : Grant} {notified : Nat}
    {e : EntrySlot F}, a = .exec i input →
    c.threads i = some (.read call (.examine grant notified)) →
    c.shared.slots[grant.slot]? = some e → c.shared.Takeable e → grant.slot ∉ c.shared.evicted
  remove : ∀ {i : ThreadId} {input : CacheInput τ ε} {call : Call} {grant : Grant}
    {result : Except ε TableId}, a = .exec i input →
    c.threads i = some (.read call (.removing grant result)) →
    c.shared.entries.lookup (cfg.cacheKey call) = some grant.slot →
    c.shared.prunable c.shared.clock grant.slot

/-- Two calls of one key that load in their slots at one time are one call, unless the table was
invalidated between their lookups, and a table that was stored is found by a lookup until it
expires, unless it was invalidated since the storing call's lookup. -/
structure SingleFlight (cfg : CacheConfig F) (c : Conf (CacheState F τ) (CacheThread ε)) :
    Prop where
  single : ∀ {i j : ThreadId} {call call' : Call} {pc pc' : ReadPc ε} {g g' : Grant},
    c.threads i = some (.read call pc) → c.threads j = some (.read call' pc') →
    pc.grant? = some g → pc'.grant? = some g' → pc.Owns g.slot → pc'.Owns g'.slot →
    cfg.cacheKey call = cfg.cacheKey call' →
    ¬c.shared.Invalidated call.fullName g.given g'.given →
    ¬c.shared.Invalidated call.fullName g'.given g.given → i = j
  found : ∀ {i : ThreadId} {call : Call} {pc : ReadPc ε} {g : Grant} {cached : TableId}
    {t : Loaded τ} {now : Instant}, c.threads i = some (.read call pc) →
    pc.stored? = some (g, cached) → c.shared.tables[cached]? = some t →
    c.shared.clock < t.expiresAt → now < t.expiresAt →
    ¬c.shared.Invalidated call.fullName g.given c.shared.history.length →
    ∃ (s : CacheState F τ) (e : EntrySlot F),
      c.shared.slotForKey cfg (cfg.cacheKey call) now = (s, some g.slot) ∧
      s.slots[g.slot]? = some e ∧ e.state = .ready cached

/-- The slot of a load in progress is not evicted, nor is that of a stored table before the
table expires. -/
structure FlightWF (c : Conf (CacheState F τ) (CacheThread ε)) : Prop where
  owner : ∀ {i : ThreadId} {call : Call} {pc : ReadPc ε} {slot : SlotId},
    c.threads i = some (.read call pc) → pc.Owns slot → slot ∉ c.shared.evicted
  stored : ∀ {i : ThreadId} {call : Call} {pc : ReadPc ε} {g : Grant} {cached : TableId}
    {t : Loaded τ}, c.threads i = some (.read call pc) → pc.stored? = some (g, cached) →
    c.shared.tables[cached]? = some t → c.shared.clock < t.expiresAt →
    g.slot ∉ c.shared.evicted ∧
    ∃ e : EntrySlot F, c.shared.slots[g.slot]? = some e ∧ e.state = .ready cached

section ReadStep
variable {s s' : CacheState F τ} {call : Call} {pc pc' : ReadPc ε} {slot : SlotId}
  {e e' : EntrySlot F}

omit [DecidableEq F] in
theorem isExpired_mono {cached : TableId} {now now' : Instant} (hn : now ≤ now')
    (h : s.isExpired cached now) : s.isExpired cached now' := by
  unfold isExpired at *
  split at h
  · simp_all [CachedTable.isExpired]; exact Nat.le_trans h hn
  · rfl

omit [DecidableEq F] in
theorem prunable_mono {now now' : Instant} (hn : now ≤ now') (h : s.prunable now slot) :
    s.prunable now' slot := by
  unfold prunable at *
  split at h
  · split at h
    · rfl
    · exact isExpired_mono hn h
    · cases h
  · cases h

omit [DecidableEq F] in
theorem not_prunable_of_loading {now : Instant} (he : s.slots[slot]? = some e)
    (hst : e.state = .loading) : ¬s.prunable now slot := by
  simp [prunable, he, hst]

omit [DecidableEq F] in
theorem not_prunable_of_ready {cached : TableId} {t : Loaded τ} {now : Instant}
    (he : s.slots[slot]? = some e) (hst : e.state = .ready cached)
    (ht : s.tables[cached]? = some t) (hn : now < t.expiresAt) : ¬s.prunable now slot := by
  simpa [prunable, isExpired, CachedTable.isExpired, he, hst, ht] using hn

omit [DecidableEq F] in
theorem prunable_of_takeable (he : s.slots[slot]? = some e) (ht : s.Takeable e) :
    s.prunable s.clock slot := by
  rcases ht with hst | ⟨cached, hst, hx⟩ <;> simp [prunable, he, hst]
  exact hx

/-- A section evicts what is empty or expired, except for `remove_slot`. -/
theorem ReadStep.evicted (H : CallWF cfg s call pc) (h : ReadStep cfg s call pc s' pc')
    (he : slot ∈ s'.evicted) : slot ∈ s.evicted ∨ s.prunable s.clock slot ∨
      ∃ grant result, pc = .removing grant result ∧ slot = grant.slot ∧
        s.entries.lookup (cfg.cacheKey call) = some slot := by
  have pruned {now r} (hn : now ≤ s.clock)
      (h : s.slotForKey cfg (cfg.cacheKey call) now = (s', r)) :
      slot ∈ s.evicted ∨ s.prunable s.clock slot := by
    have he : slot ∈ (s.pruneExpiredEntries now).evicted := by
      rcases slotForKey_cases h with ⟨_, _, _, rfl⟩ | ⟨_, _, rfl⟩ | ⟨_, rfl⟩ <;> exact he
    exact (mem_evicted_pruneExpiredEntries.mp he).imp_right fun h => prunable_mono hn h.1
  cases h with
  | found h | full h => exact (pruned (H.lookup rfl) h).imp_right .inl
  | @remove grant result =>
    rcases removeSlot_cases s (cfg.cacheKey call) _ with ⟨hl, h⟩ | ⟨_, h⟩ <;>
      rw [h] at he
    · refine (List.mem_append.mp he).imp_right fun he => .inr ⟨grant, result, rfl, ?_⟩
      cases List.mem_singleton.mp he
      exact ⟨rfl, hl⟩
    · exact .inl he
  | _ => exact .inl he

/-- A call comes to have stored a table in its slot by publishing it. -/
theorem ReadStep.stored {g cached} (h : ReadStep cfg s call pc s' pc')
    (hs : pc'.stored? = some (g, cached)) : pc.stored? = some (g, cached) ∨
      (pc = .publishing g cached ∧ s' = s.setState g.slot (.ready cached)) := by
  cases h with
  | publish => cases hs; exact .inr ⟨rfl, rfl⟩
  | @remove _ result => cases result <;> cases hs
  | @notify _ result stored => cases result <;> cases stored <;> exact .inl hs
  | _ => cases hs

end ReadStep

namespace FlightWF

theorem new : FlightWF (cacheMachine (ε := ε) (τ := τ) cfg clock).init := by
  constructor <;> intros <;> contradiction

theorem quiet (H : FlightWF c) (h : Quiet c c') : FlightWF c' where
  owner hi ho := by
    rcases h.reads hi with hi | rfl
    · exact h.evicted ▸ H.owner hi ho
    · exact ho.elim
  stored hi hs ht hlt := by
    rcases h.reads hi with hi | rfl
    · rw [h.evicted, h.slots]
      exact H.stored hi hs (h.tables ▸ ht) (Nat.lt_of_le_of_lt h.le.clock hlt)
    · cases hs

omit [DecidableEq F] in
theorem drop {i call} (H : FlightWF c) : FlightWF (c.set c.shared i (.read call .dropped)) where
  owner hj ho := by
    rcases Conf.set_threads_eq_some.mp hj with ⟨_, ⟨⟩⟩ | ⟨_, hj⟩
    · exact ho.elim
    · exact H.owner hj ho
  stored hj hs := by
    rcases Conf.set_threads_eq_some.mp hj with ⟨_, ⟨⟩⟩ | ⟨_, hj⟩
    · cases hs
    · exact H.stored hj hs

theorem exec {i call} {pc pc' : ReadPc ε} {s}
    (HC : ∀ i k, c.threads i = some k → k.WF cfg c.shared) (HO : OwnersWF c) (H : FlightWF c)
    (hi : c.threads i = some (.read call pc)) (h : ReadStep cfg c.shared call pc s pc')
    (htake : ∀ {grant notified e}, pc = .examine grant notified →
      c.shared.slots[grant.slot]? = some e → c.shared.Takeable e → grant.slot ∉ c.shared.evicted)
    (hremove : ∀ {grant result}, pc = .removing grant result →
      c.shared.entries.lookup (cfg.cacheKey call) = some grant.slot →
      c.shared.prunable c.shared.clock grant.slot) :
    FlightWF (c.set s i (.read call pc')) := by
  have evicted {slot} (hev : slot ∉ c.shared.evicted)
      (hp : ¬c.shared.prunable c.shared.clock slot) : slot ∉ s.evicted := by
    intro he
    rcases h.evicted (HC i _ hi) he with he | he | ⟨grant, result, rfl, rfl, hl⟩
    · exact hev he
    · exact hp he
    · exact hp (hremove rfl hl)
  -- a table that was stored before the section stays in its slot
  have stored {j call₁ pc₁ g cached t} (hj : c.threads j = some (.read call₁ pc₁))
      (hs : pc₁.stored? = some (g, cached)) (ht : s.tables[cached]? = some t)
      (hlt : s.clock < t.expiresAt) :
      g.slot ∉ s.evicted ∧ ∃ e : EntrySlot F, s.slots[g.slot]? = some e ∧ e.state = .ready cached := by
    obtain ⟨t', ht'⟩ := CallWF.own (HC j _ hj) (ReadPc.own?_of_stored? hs)
    have heq := h.le.tables ht'.table
    rw [ht] at heq; cases heq
    have hlt : c.shared.clock < t.expiresAt := Nat.lt_of_le_of_lt h.le.clock hlt
    obtain ⟨hev, e, he, hst⟩ := H.stored hj hs ht'.table hlt
    have hp := not_prunable_of_ready he hst ht'.table hlt
    obtain ⟨e', he', _⟩ := h.le.slots he
    refine ⟨evicted hev hp, e', he', ?_⟩
    rcases h.state_cases he' with ⟨hn, _⟩ | ⟨e₁, he₁, hcases⟩
    · rw [he] at hn; cases hn
    · rw [he] at he₁; cases he₁
      rcases hcases with ⟨hst', _⟩ | ⟨ht, _⟩ | ⟨_, ho, _⟩
      · exact hst'.trans hst
      · exact absurd (prunable_of_takeable he ht) hp
      · obtain ⟨e₂, he₂, hl⟩ := HO.loading hi ho
        rw [he] at he₂; cases he₂
        rw [hst] at hl; cases hl
  constructor
  · intro j call' pc'' slot hj ho
    rcases Conf.set_threads_eq_some.mp hj with ⟨_, ⟨⟩⟩ | ⟨_, hj⟩
    · cases h with
      | take he ht => cases ho; exact htake rfl he ht
      | loadError | loadExpired | loadFresh => exact H.owner hi ho
      | _ => exact ho.elim
    · obtain ⟨e, he, hst⟩ := HO.loading hj ho
      exact evicted (H.owner hj ho) (not_prunable_of_loading he hst)
  · intro j call' pc'' g cached t hj hs ht hlt
    rcases Conf.set_threads_eq_some.mp hj with ⟨_, ⟨⟩⟩ | ⟨_, hj⟩
    · rcases h.stored hs with hs | ⟨rfl, rfl⟩
      · exact stored hi hs ht hlt
      · obtain ⟨e, he, _⟩ := HO.loading hi (show ReadPc.Owns g.slot _ from rfl)
        exact ⟨H.owner hi rfl, _, setState_slots.mpr ⟨e, he, rfl⟩, by simp⟩
    · exact stored hj hs ht hlt

end FlightWF

theorem flightWF (h : (cacheMachine cfg clock).ReachableBy (OnlyPrunes cfg) c) : FlightWF c := by
  refine h.invariant_of (J := fun c => OwnersWF c ∧ ∀ i k, c.threads i = some k → k.WF cfg c.shared)
    (fun _ h => ⟨ownersWF h, (cacheInvariant h).2⟩) FlightWF.new fun c a c' ⟨HO, HC⟩ _ H hok hs => ?_
  rcases cacheStep_cases hs with ⟨i, input, call, pc, s, pc', rfl, hi, hr, rfl⟩ |
    ⟨i, call, pc, rfl, hi, _, rfl⟩ | hq
  · exact H.exec HC HO hi hr (fun hpc => hok.take rfl (hpc ▸ hi)) fun hpc => hok.remove rfl (hpc ▸ hi)
  · exact H.drop
  · exact H.quiet hq

/-- A slot that was not evicted separates its key from the later slots by an invalidation. -/
theorem invalidated_of_slots_ne {call call' : Call} {g g' : Grant} (G : WF cfg c.shared)
    (hg : GrantWF cfg c.shared call g) (hg' : GrantWF cfg c.shared call' g')
    (hk : cfg.cacheKey call = cfg.cacheKey call') (hlt : g.slot < g'.slot)
    (hev : g.slot ∉ c.shared.evicted) :
    c.shared.Invalidated call.fullName g.given g'.given := by
  obtain ⟨e, he, hke, _, hn⟩ := hg.slot
  obtain ⟨e', he', hke', hb', _⟩ := hg'.slot
  have hname : e.key.fullName = call.fullName := by rw [hke]; rfl
  have h := G.separated hlt he he' (by rw [hke, hke', hk]) hev
  rw [hname] at h
  rcases HappenedIn.split h g.given with h | h
  · exact absurd h hn
  · exact h.mono (Nat.le_refl _) hb'

theorem singleFlight (h : (cacheMachine cfg clock).ReachableBy (OnlyPrunes cfg) c) :
    SingleFlight cfg c := by
  obtain ⟨G, HC⟩ := cacheInvariant h
  have H := flightWF h
  constructor
  · intro i j call call' pc pc' g g' hi hj hg hg' ho ho' hk hn hn'
    have hname : call.fullName = call'.fullName := congrArg TableCacheKey.fullName hk
    have wi := CallWF.grant (HC i _ hi) hg
    have wj := CallWF.grant (HC j _ hj) hg'
    rcases Nat.lt_trichotomy g.slot g'.slot with hlt | heq | hlt
    · exact absurd (invalidated_of_slots_ne G wi wj hk hlt (H.owner hi ho)) hn
    · exact (ownersWF h).unique hi hj ho (heq ▸ ho')
    · exact absurd (hname ▸ invalidated_of_slots_ne G wj wi hk.symm hlt (H.owner hj ho')) hn'
  · intro i call pc g cached t now hi hs ht hlt hnow hn
    obtain ⟨hev, e, he, hst⟩ := H.stored hi hs ht hlt
    obtain ⟨e', he', hk, _, hi'⟩ := (CallWF.grant (HC i _ hi) (ReadPc.grant?_of_stored? hs)).slot
    rw [he] at he'; cases he'
    have hl : c.shared.entries.lookup (cfg.cacheKey call) = some g.slot := by
      rcases G.detached he hev with hl | hinv
      · exact hk ▸ hl
      · have hname : e.key.fullName = call.fullName := by rw [hk]; rfl
        rw [hname] at hinv
        rcases HappenedIn.split hinv g.given with hinv | hinv
        · exact absurd hinv hi'
        · exact absurd hinv hn
    have hp : (c.shared.pruneExpiredEntries now).entries.lookup (cfg.cacheKey call) = some g.slot :=
      lookup_pruneExpiredEntries.mpr
        ⟨hl, Bool.eq_false_iff.mpr (not_prunable_of_ready he hst ht hnow)⟩
    exact ⟨c.shared.pruneExpiredEntries now, e, by simp [slotForKey, hp], he, hst⟩

theorem OnlyPrunes.start {i request} : OnlyPrunes cfg c (.start i request) :=
  ⟨nofun, nofun⟩

theorem OnlyPrunes.exec {i k input} (hi : c.threads i = some k) (hev : c.shared.evicted = [])
    (hk : ∀ {call grant result}, k ≠ .read call (.removing grant result)) :
    OnlyPrunes cfg c (.exec i input) where
  take _ _ _ _ := by simp [hev]
  remove ha hj := by
    cases ha
    rw [hi] at hj; cases hj
    exact absurd rfl hk

end

/-- A call loads a table and stores it. -/
theorem singleFlight_stored : ∃ c : Conf (CacheState String Unit) (CacheThread Unit),
    (∃ call g, c.threads 0 = some (.read call (.returned (.ok 0) (.stored g)))) ∧
    SingleFlight testConfig c := by
  have h : (cacheMachine (τ := Unit) (ε := Unit) testConfig 0).ReachableBy
    (OnlyPrunes testConfig) (cacheMachine testConfig 0).init := .refl
  have h := h.step (a := .start 0 testRequest) .start rfl
  have h := h.step (a := .exec 0 .run) (.exec rfl rfl (by rintro _ _ _ ⟨⟩)) rfl
  have h := h.step (a := .exec 0 .run) (.exec rfl rfl (by rintro _ _ _ ⟨⟩)) rfl
  have h := h.step (a := .exec 0 .run) (.exec rfl rfl (by rintro _ _ _ ⟨⟩)) rfl
  have h := h.step (a := .exec 0 .run) (.exec rfl rfl (by rintro _ _ _ ⟨⟩)) rfl
  have h := h.step (a := .exec 0 (.loaded (.ok ⟨(), 3600000, 0, 0⟩))) (.exec rfl rfl (by rintro _ _ _ ⟨⟩)) rfl
  have h := h.step (a := .exec 0 .run) (.exec rfl rfl (by rintro _ _ _ ⟨⟩)) rfl
  have h := h.step (a := .exec 0 .run) (.exec rfl rfl (by rintro _ _ _ ⟨⟩)) rfl
  exact ⟨_, ⟨_, _, rfl⟩, singleFlight h⟩

/-- The second lookup prunes the slot of the first caller, which has not locked it yet. -/
theorem exists_not_singleFlight : ∃ c : Conf (CacheState String Unit) (CacheThread Unit),
    (cacheMachine testConfig 0).Reachable c ∧ ¬SingleFlight testConfig c := by
  have h := Machine.reachable_run (cacheMachine (τ := Unit) (ε := Unit) testConfig 0)
    [.start 0 testRequest, .start 1 testRequest, .exec 0 .run, .exec 0 .run, .exec 1 .run,
      .exec 1 .run, .exec 0 .run, .exec 0 .run, .exec 1 .run, .exec 1 .run] rfl
  refine ⟨_, h, fun H => ?_⟩
  exact absurd (H.single (i := 0) (j := 1) rfl rfl rfl rfl rfl rfl rfl
    (fun hi => absurd hi.lt (Nat.not_lt_zero _)) (fun hi => absurd hi.lt (Nat.not_lt_zero _))) nofun

end HarborSql
