import HarborSql.Verify.TableCache.Invariant

/-! Who loads a slot: the call that set a slot to `Loading` owns it until it leaves that state,
and no two calls own one slot (`OwnersWF`). What a section does to the states, the owners and
the waiters of slots is said once, by `ReadStep.state_cases`, `ReadStep.serves` and
`ReadStep.awaits`. -/

namespace HarborSql

namespace ReadPc

variable {ε : Type}

/-- The call set the slot to `Loading`, and has not stored its result there yet. -/
def Owns (slot : SlotId) : ReadPc ε → Prop
  | .loading grant _ | .publishing grant _ | .clearing grant _ => grant.slot = slot
  | _ => False

/-- The call owns the slot, or has yet to wake the waiters of the load it ran there. -/
def Serves (slot : SlotId) : ReadPc ε → Prop
  | .loading grant _ | .publishing grant _ | .clearing grant _ | .removing grant _
  | .notifying grant _ _ => grant.slot = slot
  | _ => False

/-- The call waits, or is about to wait, for a `notify_waiters` of the slot after the first
`notify`. -/
def Awaits (slot : SlotId) (notify : Nat) : ReadPc ε → Prop
  | .registering grant => grant.slot = slot
  | .examine grant notified | .waiting grant notified => grant.slot = slot ∧ notified = notify
  | _ => False

/-- The slot of the call's `Notified`, and the count that it remembers. -/
def notified? : ReadPc ε → Option (SlotId × Nat)
  | .examine grant notified | .waiting grant notified => some (grant.slot, notified)
  | _ => none

theorem Owns.serves {slot} : {pc : ReadPc ε} → pc.Owns slot → pc.Serves slot
  | .loading .., h | .publishing .., h | .clearing .., h => h

/-- A `Notified` that the later of two counts would leave waiting was left waiting by the
earlier. -/
theorem Awaits.of_le {slot n n'} {pc : ReadPc ε}
    (hm : ∀ {m}, pc.notified? = some (slot, m) → m ≤ n) (hn : n ≤ n') (h : pc.Awaits slot n') :
    pc.Awaits slot n := by
  cases pc with
  | registering => exact h
  | examine | waiting =>
    obtain ⟨rfl, rfl⟩ := h
    exact ⟨rfl, Nat.le_antisymm (hm rfl) hn⟩
  | _ => exact h.elim

end ReadPc

section
variable {F τ ε : Type} [DecidableEq F] {cfg : CacheConfig F}

open CacheState

section ReadStep
variable {s s' : CacheState F τ} {call : Call} {pc pc' : ReadPc ε} {slot : SlotId}
  {e e' : EntrySlot F}

/-- A lookup changes no slot, and a slot that it makes is empty. -/
theorem CacheState.slotForKey_slots {key now r} (h : s.slotForKey cfg key now = (s', r))
    (he' : s'.slots[slot]? = some e') :
    s.slots[slot]? = some e' ∨ (s.slots[slot]? = none ∧ e'.state = .empty) := by
  rcases slotForKey_cases h with ⟨_, _, _, rfl⟩ | ⟨_, _, rfl⟩ | ⟨_, rfl⟩
  · exact .inl he'
  · rcases newSlot_slots.mp he' with he' | ⟨rfl, rfl⟩
    · exact .inl he'
    · exact .inr ⟨List.getElem?_eq_none (Nat.le_refl _), rfl⟩
  · exact .inl he'

/-- What a section does to the state of a slot: nothing, and then it keeps its owner, or its
caller takes it, or its owner gives it up. -/
theorem ReadStep.state_cases (h : ReadStep cfg s call pc s' pc')
    (he' : s'.slots[slot]? = some e') :
    (s.slots[slot]? = none ∧ e'.state = .empty) ∨
    ∃ e, s.slots[slot]? = some e ∧
      ((e'.state = e.state ∧ (pc'.Owns slot ↔ pc.Owns slot)) ∨
        (s.Takeable e ∧ e'.state = .loading ∧ pc'.Owns slot) ∨
        (e'.state ≠ .loading ∧ pc.Owns slot ∧ ¬pc'.Owns slot)) := by
  cases h with
  | enabled | disabled | directError | register | hit | block | wake | direct | loadError
  | loadExpired | loadFresh => exact .inr ⟨e', he', .inl ⟨rfl, .rfl⟩⟩
  | found h | full h =>
    rcases slotForKey_slots h he' with he | hn
    · exact .inr ⟨e', he, .inl ⟨rfl, .rfl⟩⟩
    · exact .inl hn
  | remove =>
    rw [removeSlot_slots] at he'
    exact .inr ⟨e', he', .inl ⟨rfl, .rfl⟩⟩
  | @take grant _ e₀ he₀ ht =>
    obtain ⟨e, he, rfl⟩ := setState_slots.mp he'
    refine .inr ⟨e, he, ?_⟩
    by_cases hslot : slot = grant.slot
    · subst hslot
      rw [he₀] at he
      cases he
      exact .inr (.inl ⟨ht, by simp, rfl⟩)
    · exact .inl ⟨by simp [hslot], fun h => absurd h.symm hslot, nofun⟩
  | @publish grant | @clear grant =>
    obtain ⟨e, he, rfl⟩ := setState_slots.mp he'
    refine .inr ⟨e, he, ?_⟩
    by_cases hslot : slot = grant.slot
    · exact .inr (.inr ⟨by simp [hslot], hslot.symm, nofun⟩)
    · exact .inl ⟨by simp [hslot], nofun, fun h => absurd h.symm hslot⟩
  | notify =>
    obtain ⟨e, he, rfl⟩ := notifyWaiters_slots.mp he'
    exact .inr ⟨e, he, .inl ⟨by split <;> rfl, .rfl⟩⟩

/-- A call that owns a slot after its section owned it before, or found it not loading. -/
theorem ReadStep.owns (h : ReadStep cfg s call pc s' pc') (ho : pc'.Owns slot) :
    pc.Owns slot ∨ ∃ e : EntrySlot F, s.slots[slot]? = some e ∧ e.state ≠ .loading := by
  cases h with
  | take he ht =>
    cases ho
    exact .inr ⟨_, he, ht.ne_loading⟩
  | loadError | loadExpired | loadFresh => exact .inl ho
  | _ => exact ho.elim

/-- A call serves a slot until it wakes the slot's waiters. -/
theorem ReadStep.serves (h : ReadStep cfg s call pc s' pc') (hs : pc.Serves slot)
    (he : s.slots[slot]? = some e) : pc'.Serves slot ∨
      s'.slots[slot]? = some { e with notify := e.notify + 1 } := by
  cases h with
  | loadError | loadExpired | loadFresh | publish | clear | remove => exact .inl hs
  | @notify grant =>
    have hs : slot = grant.slot := hs.symm
    exact .inr (notifyWaiters_slots.mpr ⟨e, he, by simp [hs]⟩)
  | _ => exact hs.elim

/-- A call only comes to wait for a slot by a lookup that finds it in the map. -/
theorem ReadStep.awaits {n} (h : ReadStep cfg s call pc s' pc') (ha : pc'.Awaits slot n) :
    pc.Awaits slot n ∨ s'.entries.lookup (cfg.cacheKey call) = some slot := by
  cases h with
  | found h =>
    cases ha
    exact .inr (lookup_of_slotForKey h)
  | register => exact .inl ha.1
  | block => exact .inl ha
  | _ => exact ha.elim

/-- A section puts no old slot into the map. -/
theorem ReadStep.lookup {key} (h : ReadStep cfg s call pc s' pc') (he : s.slots[slot]? = some e)
    (hl : s'.entries.lookup key = some slot) : s.entries.lookup key = some slot := by
  cases h with
  | found h | full h =>
    rcases slotForKey_cases h with ⟨_, _, _, rfl⟩ | ⟨_, _, rfl⟩ | ⟨_, rfl⟩
    · exact (lookup_pruneExpiredEntries.mp hl).1
    · rcases lookup_newSlot.mp hl with ⟨_, rfl⟩ | ⟨_, hl⟩
      · exact absurd (List.getElem?_eq_some_iff.mp he).1 (Nat.lt_irrefl _)
      · exact (lookup_pruneExpiredEntries.mp hl).1
    · exact (lookup_pruneExpiredEntries.mp hl).1
  | remove =>
    rcases removeSlot_cases s (cfg.cacheKey call) _ with ⟨_, h⟩ | ⟨_, h⟩ <;> rw [h] at hl
    · exact (HashMap.lookup_erase_eq_some.mp hl).2
    · exact hl
  | _ => exact hl

theorem ReadStep.notified {n} (h : ReadStep cfg s call pc s' pc')
    (hn : pc'.notified? = some (slot, n)) :
    pc.notified? = some (slot, n) ∨ ∃ e, s.slots[slot]? = some e ∧ n = e.notify := by
  cases h with
  | register he => cases hn; exact .inr ⟨_, he, rfl⟩
  | block => exact .inl hn
  | _ => cases hn

end ReadStep

/-! ## Every step -/

variable {c c' : Conf (CacheState F τ) (CacheThread ε)}
  {a : Action CacheRequest (CacheInput τ ε) CacheEnv}

/-- A step that is neither a section nor a drop of a call: it starts a thread, runs or drops a
writer, invalidates a table or lets time pass. -/
structure Quiet (c c' : Conf (CacheState F τ) (CacheThread ε)) : Prop where
  le : c.shared ≤ c'.shared
  slots : c'.shared.slots = c.shared.slots
  tables : c'.shared.tables = c.shared.tables
  evicted : c'.shared.evicted = c.shared.evicted
  lookup : ∀ {key : TableCacheKey F} {slot : SlotId},
    c'.shared.entries.lookup key = some slot → c.shared.entries.lookup key = some slot
  keeps : ∀ {i call pc}, c.threads i = some (.read call pc) → c'.threads i = some (.read call pc)
  reads : ∀ {i call pc}, c'.threads i = some (.read call pc) →
    c.threads i = some (.read call pc) ∨ pc = .enter

theorem Quiet.set {s : CacheState F τ} {i} {k : CacheThread ε}
    (hi : ∀ {call pc}, c.threads i ≠ some (.read call pc))
    (hk : ∀ {call pc}, k = .read call pc → pc = .enter) (hle : c.shared ≤ s)
    (h1 : s.slots = c.shared.slots) (h2 : s.tables = c.shared.tables)
    (h3 : s.evicted = c.shared.evicted)
    (h4 : ∀ {key : TableCacheKey F} {slot : SlotId},
      s.entries.lookup key = some slot → c.shared.entries.lookup key = some slot) :
    Quiet c (c.set s i k) where
  le := hle
  slots := h1
  tables := h2
  evicted := h3
  lookup := h4
  keeps {j _ _} h := Conf.set_threads_eq_some.mpr (.inr ⟨fun hj => hi (hj ▸ h), h⟩)
  reads h := by
    rcases Conf.set_threads_eq_some.mp h with ⟨rfl, rfl⟩ | ⟨_, h⟩
    · exact .inr (hk rfl)
    · exact .inl h

/-- Everything a step of the cache can do. -/
theorem cacheStep_cases (h : (cacheProgram cfg).step c a = some c') :
    (∃ i input call pc s pc', a = .exec i input ∧ c.threads i = some (.read call pc) ∧
      ReadStep cfg c.shared call pc s pc' ∧ c' = c.set s i (.read call pc')) ∨
    (∃ i call pc, a = .drop i ∧ c.threads i = some (.read call pc) ∧ pc.Droppable ∧
      c' = c.set c.shared i (.read call .dropped)) ∨
    Quiet c c' := by
  have lookup {name key slot} :
      (c.shared.invalidateTable name).entries.lookup key = some slot →
        c.shared.entries.lookup key = some slot := fun h => (lookup_invalidateTable.mp h).1
  rcases Program.step_cases h with ⟨i, request, k, rfl, hi, hk, rfl⟩ |
    ⟨i, input, k, s, l, rfl, hi, hk, rfl⟩ | ⟨i, k, s, l, rfl, hi, hk, rfl⟩ | ⟨event, s, rfl, he, rfl⟩
  · refine .inr (.inr (.set (by simp [hi]) ?_ le_rfl rfl rfl rfl id))
    rintro call pc rfl
    cases request <;> cases hk
    rfl
  · rcases cacheExec_cases hk with ⟨call, pc, pc', rfl, rfl, hs⟩ | ⟨name, rfl, rfl, rfl⟩ |
      ⟨name, pc, rfl, rfl, rfl⟩
    · exact .inl ⟨i, input, call, pc, s, pc', rfl, hi, hs, rfl⟩
    · exact .inr (.inr (.set (by simp [hi]) nofun commit_le rfl rfl rfl id))
    · exact .inr (.inr (.set (by simp [hi]) nofun invalidateTable_le rfl rfl rfl lookup))
  · rcases cacheDrop_cases hk with ⟨call, pc, hd, rfl, rfl, rfl⟩ | ⟨name, pc, rfl, rfl, rfl⟩
    · exact .inr (.inl ⟨i, call, pc, rfl, hi, hd, rfl⟩)
    · exact .inr (.inr (.set (by simp [hi]) nofun invalidateTable_le rfl rfl rfl lookup))
  · rcases cacheEnv_cases he with ⟨clock, hc, rfl⟩ | ⟨name, rfl⟩
    · exact .inr (.inr ⟨tick_le hc, rfl, rfl, rfl, id, id, .inl⟩)
    · exact .inr (.inr ⟨invalidateTable_le, rfl, rfl, rfl, lookup, id, .inl⟩)

/-! ## The invariant -/

/-- The owner of a slot left it in state `Loading`, no other call owns it, and no `Notified`
remembers more wake-ups of its slot than there were. -/
structure OwnersWF (c : Conf (CacheState F τ) (CacheThread ε)) : Prop where
  loading : ∀ {i : ThreadId} {call : Call} {pc : ReadPc ε} {slot : SlotId},
    c.threads i = some (.read call pc) → pc.Owns slot →
    ∃ e : EntrySlot F, c.shared.slots[slot]? = some e ∧ e.state = .loading
  unique : ∀ {i j : ThreadId} {call call' : Call} {pc pc' : ReadPc ε} {slot : SlotId},
    c.threads i = some (.read call pc) → c.threads j = some (.read call' pc') →
    pc.Owns slot → pc'.Owns slot → i = j
  notified : ∀ {i : ThreadId} {call : Call} {pc : ReadPc ε} {slot : SlotId} {n : Nat},
    c.threads i = some (.read call pc) → pc.notified? = some (slot, n) →
    ∃ e : EntrySlot F, c.shared.slots[slot]? = some e ∧ n ≤ e.notify

namespace OwnersWF

theorem new {clock : Instant} :
    OwnersWF (cacheMachine (ε := ε) (τ := τ) cfg clock).init := by
  constructor <;> intros <;> contradiction

omit [DecidableEq F] in
theorem notified_of_le {s s' : CacheState F τ} {slot : SlotId} {n : Nat} (hle : s ≤ s')
    (h : ∃ e : EntrySlot F, s.slots[slot]? = some e ∧ n ≤ e.notify) :
    ∃ e : EntrySlot F, s'.slots[slot]? = some e ∧ n ≤ e.notify := by
  obtain ⟨e, he, hn⟩ := h
  obtain ⟨e', he', _, _, hn'⟩ := hle.slots he
  exact ⟨e', he', Nat.le_trans hn hn'⟩

theorem quiet (H : OwnersWF c) (h : Quiet c c') : OwnersWF c' where
  loading hi ho := by
    rcases h.reads hi with hi | rfl
    · exact h.slots ▸ H.loading hi ho
    · exact ho.elim
  unique hi hj ho ho' := by
    rcases h.reads hi with hi | rfl
    · rcases h.reads hj with hj | rfl
      · exact H.unique hi hj ho ho'
      · exact ho'.elim
    · exact ho.elim
  notified hi hn := by
    rcases h.reads hi with hi | rfl
    · exact h.slots ▸ H.notified hi hn
    · cases hn

omit [DecidableEq F] in
theorem drop {i call} (H : OwnersWF c) : OwnersWF (c.set c.shared i (.read call .dropped)) where
  loading hj ho := by
    rcases Conf.set_threads_eq_some.mp hj with ⟨_, ⟨⟩⟩ | ⟨_, hj⟩
    · exact ho.elim
    · exact H.loading hj ho
  unique hj hk ho ho' := by
    rcases Conf.set_threads_eq_some.mp hj with ⟨_, ⟨⟩⟩ | ⟨_, hj⟩
    · exact ho.elim
    · rcases Conf.set_threads_eq_some.mp hk with ⟨_, ⟨⟩⟩ | ⟨_, hk⟩
      · exact ho'.elim
      · exact H.unique hj hk ho ho'
  notified hj hn := by
    rcases Conf.set_threads_eq_some.mp hj with ⟨_, ⟨⟩⟩ | ⟨_, hj⟩
    · cases hn
    · exact H.notified hj hn

theorem exec {i call} {pc pc' : ReadPc ε} {s} (H : OwnersWF c)
    (hi : c.threads i = some (.read call pc)) (h : ReadStep cfg c.shared call pc s pc') :
    OwnersWF (c.set s i (.read call pc')) where
  loading {j call' pc'' slot} hj ho := by
    have ⟨e, he⟩ : ∃ e, c.shared.slots[slot]? = some e := by
      rcases Conf.set_threads_eq_some.mp hj with ⟨rfl, ⟨⟩⟩ | ⟨_, hj⟩
      · rcases h.owns ho with ho | ⟨e, he, _⟩
        · exact (H.loading hi ho).imp fun _ => And.left
        · exact ⟨e, he⟩
      · exact (H.loading hj ho).imp fun _ => And.left
    obtain ⟨e', he', _⟩ := h.le.slots he
    refine ⟨e', he', ?_⟩
    rcases h.state_cases he' with ⟨hn, _⟩ | ⟨e₁, he₁, ⟨hst, hiff⟩ | ⟨_, hst, _⟩ | ⟨_, hown, hrel⟩⟩
    · rw [he] at hn; cases hn
    · rw [hst]
      have ⟨e₂, he₂, hl⟩ : ∃ e : EntrySlot F, c.shared.slots[slot]? = some e ∧ e.state = .loading := by
        rcases Conf.set_threads_eq_some.mp hj with ⟨rfl, ⟨⟩⟩ | ⟨_, hj⟩
        · exact H.loading hi (hiff.mp ho)
        · exact H.loading hj ho
      rw [he₁] at he₂; cases he₂
      exact hl
    · exact hst
    · rcases Conf.set_threads_eq_some.mp hj with ⟨rfl, ⟨⟩⟩ | ⟨hne, hj⟩
      · exact absurd ho hrel
      · exact absurd (H.unique hj hi ho hown) hne
  unique {j k _ _ pc₁ pc₂ slot} hj hk ho ho' := by
    -- a call that takes the slot finds it not loading, so that no other call owns it
    have mine {l call' pc₃} (hl : c.threads l = some (.read call' pc₃)) (h₃ : pc₃.Owns slot)
        (h' : pc'.Owns slot) : i = l := by
      rcases h.owns h' with hown | ⟨e, he, hst⟩
      · exact H.unique hi hl hown h₃
      · obtain ⟨e', he', hst'⟩ := H.loading hl h₃
        rw [he] at he'; cases he'
        exact absurd hst' hst
    rcases Conf.set_threads_eq_some.mp hj with ⟨hji, ⟨⟩⟩ | ⟨_, hj⟩ <;>
      rcases Conf.set_threads_eq_some.mp hk with ⟨hki, ⟨⟩⟩ | ⟨_, hk⟩
    · exact hji.trans hki.symm
    · exact hji.trans (mine hk ho' ho)
    · exact (hki.trans (mine hj ho ho')).symm
    · exact H.unique hj hk ho ho'
  notified hj hn := by
    rcases Conf.set_threads_eq_some.mp hj with ⟨rfl, ⟨⟩⟩ | ⟨_, hj⟩
    · rcases h.notified hn with hn | ⟨e, he, rfl⟩
      · exact notified_of_le h.le (H.notified hi hn)
      · exact notified_of_le h.le ⟨e, he, Nat.le_refl _⟩
    · exact notified_of_le h.le (H.notified hj hn)

omit [DecidableEq F] in
theorem awaits_of_le {i call} {pc : ReadPc ε} {slot : SlotId} {e : EntrySlot F} {n : Nat}
    (H : OwnersWF c) (hi : c.threads i = some (.read call pc))
    (he : c.shared.slots[slot]? = some e) (hn : e.notify ≤ n) (h : pc.Awaits slot n) :
    pc.Awaits slot e.notify := by
  refine h.of_le (fun hm => ?_) hn
  obtain ⟨e', he', hle⟩ := H.notified hi hm
  rw [he] at he'; cases he'
  exact hle

end OwnersWF

theorem ownersWF {clock ok} (h : (cacheMachine cfg clock).ReachableBy ok c) : OwnersWF c := by
  refine h.invariant OwnersWF.new fun c a c' H _ hs => ?_
  rcases cacheStep_cases hs with ⟨i, input, call, pc, s, pc', rfl, hi, hr, rfl⟩ |
    ⟨i, call, pc, rfl, hi, _, rfl⟩ | hq
  · exact H.exec hi hr
  · exact H.drop
  · exact H.quiet hq

end
end HarborSql
