import HarborSql.Verify.TableCache.Owner

/-! Loads that nobody runs. A future that is dropped at `load().await` leaves its slot in state
`Loading` for good; as long as that happens only to slots that nobody can come to wait for,
every slot in the map that is `Loading` has its owner, and every waiter has someone to wake it. -/

namespace HarborSql

section
variable {F τ ε : Type} [DecidableEq F] {cfg : CacheConfig F} {clock : Instant}
  {c c' : Conf (CacheState F τ) (CacheThread ε)}

/-- A lookup can give the slot, or a call that has it already would wait if the slot stayed
`Loading`. -/
def Wanted (c : Conf (CacheState F τ) (CacheThread ε)) (slot : SlotId) : Prop :=
  (∃ key, c.shared.entries.lookup key = some slot) ∨
  ∃ (i : ThreadId) (call : Call) (pc : ReadPc ε) (e : EntrySlot F),
    c.threads i = some (.read call pc) ∧ c.shared.slots[slot]? = some e ∧ pc.Awaits slot e.notify

/-- No future is dropped during a load that someone can come to wait for. -/
def NoWantedLoadDropped (c : Conf (CacheState F τ) (CacheThread ε))
    (a : Action CacheRequest (CacheInput τ ε) CacheEnv) : Prop :=
  ∀ {i call grant since}, a = .drop i → c.threads i = some (.read call (.loading grant since)) →
    ¬Wanted c grant.slot

/-- Every slot in the map that is `Loading` belongs to one live call, which is running its load,
and every call that still waits for a slot has a live call to wake it. -/
structure LoadsRun (c : Conf (CacheState F τ) (CacheThread ε)) : Prop where
  loading : ∀ {key : TableCacheKey F} {slot : SlotId} {e : EntrySlot F},
    c.shared.entries.lookup key = some slot → c.shared.slots[slot]? = some e →
    e.state = .loading →
    ∃ i call pc, c.threads i = some (.read call pc) ∧ pc.Owns slot ∧
      ∀ {j call' pc'}, c.threads j = some (.read call' pc') → pc'.Owns slot → j = i
  waiting : ∀ {i : ThreadId} {call : Call} {grant : Grant} {notified : Nat} {e : EntrySlot F},
    c.threads i = some (.read call (.waiting grant notified)) →
    c.shared.slots[grant.slot]? = some e → e.notify = notified →
    ∃ j call' pc', c.threads j = some (.read call' pc') ∧ pc'.Serves grant.slot

/-- The inductive strengthening of `LoadsRun`. -/
structure WantedWF (c : Conf (CacheState F τ) (CacheThread ε)) : Prop where
  owned : ∀ {slot : SlotId} {e : EntrySlot F}, c.shared.slots[slot]? = some e →
    e.state = .loading → Wanted c slot →
    ∃ i call pc, c.threads i = some (.read call pc) ∧ pc.Owns slot
  served : ∀ {i : ThreadId} {call : Call} {grant : Grant} {e : EntrySlot F},
    c.threads i = some (.read call (.waiting grant e.notify)) →
    c.shared.slots[grant.slot]? = some e →
    ∃ j call' pc', c.threads j = some (.read call' pc') ∧ pc'.Serves grant.slot

/-- A slot that was there before a section is wanted after it only if it was wanted before. -/
theorem Wanted.of_step {i call} {pc pc' : ReadPc ε} {s slot e} (H : OwnersWF c)
    (hi : c.threads i = some (.read call pc)) (h : ReadStep cfg c.shared call pc s pc')
    (he : c.shared.slots[slot]? = some e) (hw : Wanted (c.set s i (.read call pc')) slot) :
    Wanted c slot := by
  rcases hw with ⟨key, hl⟩ | ⟨j, call', pc'', e₁, hj, he₁, ha⟩
  · exact .inl ⟨key, h.lookup he hl⟩
  · obtain ⟨e₂, he₂, _, _, hle⟩ := h.le.slots he
    rw [show s.slots[slot]? = some e₁ from he₁] at he₂; cases he₂
    rcases Conf.set_threads_eq_some.mp hj with ⟨rfl, ⟨⟩⟩ | ⟨_, hj⟩
    · rcases h.awaits ha with ha | hl
      · exact .inr ⟨j, call, pc, e, hi, he, H.awaits_of_le hi he hle ha⟩
      · exact .inl ⟨_, h.lookup he hl⟩
    · exact .inr ⟨j, call', pc'', e, hj, he, H.awaits_of_le hj he hle ha⟩

namespace WantedWF

theorem new : WantedWF (cacheMachine (ε := ε) (τ := τ) cfg clock).init := by
  constructor <;> intros <;> contradiction

theorem quiet (H : WantedWF c) (h : Quiet c c') : WantedWF c' where
  owned {slot e} he hst hw := by
    rw [h.slots] at he
    have hw : Wanted c slot := by
      rcases hw with ⟨key, hl⟩ | ⟨i, call, pc, e', hi, he', ha⟩
      · exact .inl ⟨key, h.lookup hl⟩
      · rcases h.reads hi with hi | rfl
        · exact .inr ⟨i, call, pc, e', hi, h.slots ▸ he', ha⟩
        · exact ha.elim
    obtain ⟨i, call, pc, hi, ho⟩ := H.owned he hst hw
    exact ⟨i, call, pc, h.keeps hi, ho⟩
  served hi he := by
    rw [h.slots] at he
    rcases h.reads hi with hi | hpc
    · obtain ⟨j, call, pc, hj, hs⟩ := H.served hi he
      exact ⟨j, call, pc, h.keeps hj, hs⟩
    · cases hpc

/-- A dropped call served a slot only if it was dropped during its load, and then nobody can
come to wait for the slot. -/
theorem drop {i call} {pc : ReadPc ε} (H : WantedWF c) (hi : c.threads i = some (.read call pc))
    (hd : pc.Droppable) (hok : ∀ {grant since}, pc = .loading grant since → ¬Wanted c grant.slot) :
    WantedWF (c.set c.shared i (.read call .dropped)) := by
  have others {slot} (hw : Wanted c slot) {j call' pc'} (hj : c.threads j = some (.read call' pc'))
      (hs : pc'.Serves slot) : j ≠ i := by
    rintro rfl
    rw [hi] at hj; cases hj
    cases pc with
    | loading => cases hs; exact hok rfl hw
    | enter | bypass | waiting => exact hs
    | _ => exact hd
  have wanted {slot} (hw : Wanted (c.set c.shared i (.read call .dropped)) slot) : Wanted c slot := by
    refine hw.imp id fun ⟨j, call', pc', e, hj, he, ha⟩ => ?_
    rcases Conf.set_threads_eq_some.mp hj with ⟨_, ⟨⟩⟩ | ⟨_, hj⟩
    · exact ha.elim
    · exact ⟨j, call', pc', e, hj, he, ha⟩
  constructor
  · intro slot e he hst hw
    obtain ⟨j, call', pc', hj, ho⟩ := H.owned he hst (wanted hw)
    exact ⟨j, call', pc', Conf.set_threads_eq_some.mpr (.inr ⟨others (wanted hw) hj ho.serves, hj⟩), ho⟩
  · intro j call' grant e hj he
    rcases Conf.set_threads_eq_some.mp hj with ⟨_, ⟨⟩⟩ | ⟨_, hj⟩
    obtain ⟨k, call'', pc', hk, hs⟩ := H.served hj he
    have hw : Wanted c grant.slot := .inr ⟨j, call', _, e, hj, he, rfl, rfl⟩
    exact ⟨k, call'', pc', Conf.set_threads_eq_some.mpr (.inr ⟨others hw hk hs, hk⟩), hs⟩

theorem exec {i call} {pc pc' : ReadPc ε} {s} (HO : OwnersWF c) (H : WantedWF c)
    (hi : c.threads i = some (.read call pc)) (h : ReadStep cfg c.shared call pc s pc') :
    WantedWF (c.set s i (.read call pc')) := by
  have self : (c.set s i (.read call pc')).threads i = some (.read call pc') := by simp
  have owned {slot : SlotId} {e : EntrySlot F} (he : s.slots[slot]? = some e)
      (hst : e.state = .loading) (hw : Wanted (c.set s i (.read call pc')) slot) :
      ∃ j call₁ pc₁, (c.set s i (.read call pc')).threads j = some (.read call₁ pc₁) ∧
        pc₁.Owns slot := by
    rcases h.state_cases he with ⟨_, hst'⟩ | ⟨e₁, he₁, ⟨hst', hiff⟩ | ⟨_, _, ho⟩ | ⟨hst', _⟩⟩
    · rw [hst] at hst'; cases hst'
    · obtain ⟨j, call₁, pc₁, hj, ho⟩ := H.owned he₁ (hst' ▸ hst) (hw.of_step HO hi h he₁)
      by_cases hji : j = i
      · subst hji
        rw [hi] at hj; cases hj
        exact ⟨j, call, pc', self, hiff.mpr ho⟩
      · exact ⟨j, call₁, pc₁, Conf.set_threads_eq_some.mpr (.inr ⟨hji, hj⟩), ho⟩
    · exact ⟨i, call, pc', self, ho⟩
    · exact absurd hst hst'
  refine ⟨owned, ?_⟩
  intro j call' grant e hj he
  rcases Conf.set_threads_eq_some.mp hj with ⟨rfl, hk⟩ | ⟨hji, hj'⟩
  · obtain ⟨rfl, rfl⟩ := CacheThread.read.inj hk
    cases h with
    | block he₁ hst =>
      rw [show c.shared.slots[grant.slot]? = some e from he] at he₁; cases he₁
      obtain ⟨k, call₁, pc₁, hk, ho⟩ := owned he hst (.inr ⟨j, call, _, e, self, he, rfl, rfl⟩)
      exact ⟨k, call₁, pc₁, hk, ho.serves⟩
  · obtain ⟨e₁, he₁, hle⟩ := HO.notified hj' rfl
    obtain ⟨e₂, he₂, _, _, hle'⟩ := h.le.slots he₁
    rw [show s.slots[grant.slot]? = some e from he] at he₂; cases he₂
    have heq : e₁.notify = e.notify := Nat.le_antisymm hle' hle
    obtain ⟨k, call₁, pc₁, hk, hs⟩ := H.served (heq ▸ hj') he₁
    by_cases hki : k = i
    · subst hki
      rw [hi] at hk; cases hk
      rcases h.serves hs he₁ with hs | hn
      · exact ⟨k, call, pc', self, hs⟩
      · -- the call woke the waiters, so the count has changed
        rw [show s.slots[grant.slot]? = some e from he] at hn; cases hn
        exact absurd heq (Nat.ne_of_lt (Nat.lt_succ_self _))
    · exact ⟨k, call₁, pc₁, Conf.set_threads_eq_some.mpr (.inr ⟨hki, hk⟩), hs⟩

end WantedWF

theorem wantedWF (h : (cacheMachine cfg clock).ReachableBy NoWantedLoadDropped c) :
    WantedWF c := by
  refine h.invariant_of (fun _ => ownersWF) WantedWF.new fun c a c' HO _ H hok hs => ?_
  rcases cacheStep_cases hs with ⟨i, input, call, pc, s, pc', rfl, hi, hr, rfl⟩ |
    ⟨i, call, pc, rfl, hi, hd, rfl⟩ | hq
  · exact H.exec HO hi hr
  · exact H.drop hi hd fun hpc => hok rfl (hpc ▸ hi)
  · exact H.quiet hq

/-- As long as no wanted load is dropped, every load in the map is running, and every waiter
has someone to wake it. -/
theorem loadsRun (h : (cacheMachine cfg clock).ReachableBy NoWantedLoadDropped c) : LoadsRun c where
  loading hl he hst := by
    obtain ⟨i, call, pc, hi, ho⟩ := (wantedWF h).owned he hst (.inl ⟨_, hl⟩)
    exact ⟨i, call, pc, hi, ho, fun hj ho' => (ownersWF h).unique hj hi ho' ho⟩
  waiting hi he hn := by
    subst hn
    exact (wantedWF h).served hi he

/-- A load of a slot in the map breaks the property when it is dropped. -/
theorem LoadsRun.not_of_drop {i call grant since} (key : TableCacheKey F)
    (h : (cacheMachine cfg clock).Reachable c)
    (hi : c.threads i = some (.read call (.loading grant since)))
    (hl : c.shared.entries.lookup key = some grant.slot) :
    ¬LoadsRun (c.set c.shared i (.read call .dropped)) := by
  intro H
  obtain ⟨e, he, hst⟩ := (ownersWF h).loading hi (show ReadPc.Owns grant.slot _ from rfl)
  obtain ⟨j, call', pc', hj, ho, _⟩ := H.loading hl he hst
  rcases Conf.set_threads_eq_some.mp hj with ⟨_, ⟨⟩⟩ | ⟨hne, hj⟩
  · exact ho
  · exact hne ((ownersWF h).unique hj hi ho rfl)

end

/-- One call loads a table, and another one waits for it. -/
theorem loadsRun_two_calls : ∃ c : Conf (CacheState String Unit) (CacheThread Unit),
    (∃ call grant since, c.threads 0 = some (.read call (.loading grant since))) ∧
    (∃ call grant notified, c.threads 1 = some (.read call (.waiting grant notified))) ∧
    LoadsRun c := by
  have h : (cacheMachine (τ := Unit) (ε := Unit) testConfig 0).ReachableBy NoWantedLoadDropped _ :=
    Machine.reachesBy_run [.start 0 testRequest, .start 1 testRequest, .exec 0 .run, .exec 0 .run,
      .exec 0 .run, .exec 0 .run, .exec 1 .run, .exec 1 .run, .exec 1 .run, .exec 1 .run]
      (by simp [NoWantedLoadDropped]) rfl
  exact ⟨_, ⟨_, _, _, rfl⟩, ⟨_, _, _, rfl⟩, loadsRun h⟩

/-- A call whose query is cancelled at `load().await`. -/
theorem exists_not_loadsRun : ∃ c : Conf (CacheState String Unit) (CacheThread Unit),
    (cacheMachine testConfig 0).Reachable c ∧ ¬LoadsRun c := by
  have h := Machine.reachable_run (cacheMachine (τ := Unit) (ε := Unit) testConfig 0)
    [.start 0 testRequest, .exec 0 .run, .exec 0 .run, .exec 0 .run, .exec 0 .run] rfl
  exact ⟨_, .step (a := .drop 0) h trivial rfl, LoadsRun.not_of_drop testKey h rfl rfl⟩

end HarborSql
