import HarborSql.Verify.TableCache.Owner

/-! No stale snapshots. What a call returns was loaded after every invalidation of its table
that came before the call, and hence after the commit of every `execute_ctas` of its table that
had finished by then. -/

namespace HarborSql

section
variable {F τ ε : Type}

open CacheState

/-! ## Writers -/

/-- The guard of a finished writer invalidated the table after the last commit of the writer. -/
def WriteWF (s : CacheState F τ) (w : ThreadId) : CacheThread ε → Prop
  | .write name (.finished ended) => ∃ k, ended = k + 1 ∧
    s.history[k]? = some (.invalidated name) ∧
      ∀ {m : Nat}, s.history[m]? = some (.committed w) → m < k
  | _ => True

/-- An event that is not a commit of the writer. -/
theorem WriteWF.happen {s s' : CacheState F τ} {w : ThreadId} {k : CacheThread ε}
    {event : CacheEvent} (hh : s'.history = s.history ++ [event]) (he : event ≠ .committed w)
    (H : WriteWF s w k) : WriteWF s' w k := by
  unfold WriteWF at *
  split at H
  · obtain ⟨k, rfl, hk, hm⟩ := H
    refine ⟨k, rfl, hh ▸ List.getElem?_concat_eq_some.mpr (.inl hk), fun h => ?_⟩
    rcases List.getElem?_concat_eq_some.mp (hh ▸ h) with h | ⟨_, h⟩
    · exact hm h
    · exact absurd h he
  · trivial

/-- The guard's invalidation comes after everything before it. -/
theorem WriteWF.finished {s : CacheState F τ} {w : ThreadId} {name : String} :
    WriteWF (ε := ε) (s.invalidateTable name) w
      (.write name (.finished (s.history.length + 1))) := by
  refine ⟨_, rfl, by simp [CacheState.invalidateTable], fun {m} h => ?_⟩
  rcases List.getElem?_concat_eq_some.mp h with h | ⟨_, ⟨⟩⟩
  exact (List.getElem?_eq_some_iff.mp h).1

theorem WriteWF.of_history {s s' : CacheState F τ} {w : ThreadId} {k : CacheThread ε}
    (hh : s'.history = s.history) (H : WriteWF s w k) : WriteWF s' w k := by
  unfold WriteWF at *
  rwa [hh]

variable [DecidableEq F] {cfg : CacheConfig F}

theorem ReadStep.history {s s' : CacheState F τ} {call : Call} {pc pc' : ReadPc ε}
    (h : ReadStep cfg s call pc s' pc') : s'.history = s.history := by
  cases h with
  | found h | full h => exact slotForKey_history h
  | remove =>
    rcases removeSlot_cases s (cfg.cacheKey call) _ with ⟨_, h⟩ | ⟨_, h⟩ <;> rw [h]
  | _ => rfl

theorem writeOutline {ok} : (cacheProgram cfg).Outline ok (fun _ : CacheState F τ => True)
    (WriteWF (ε := ε)) where
  start {c i request k} _ _ h := by cases request <;> cases h <;> trivial
  exec _ _ _ _ h := by
    rcases cacheExec_cases h with ⟨call, pc, pc', rfl, rfl, hs⟩ | ⟨name, rfl, rfl, rfl⟩ |
      ⟨name, pc, rfl, rfl, rfl⟩
    · exact ⟨trivial, trivial, fun _ _ _ hm => hm.of_history hs.history⟩
    · exact ⟨trivial, trivial, fun _ _ hne hm => hm.happen rfl fun h => hne (by cases h; rfl)⟩
    · exact ⟨trivial, .finished, fun _ _ _ hm => hm.happen rfl nofun⟩
  drop _ _ _ _ h := by
    rcases cacheDrop_cases h with ⟨call, pc, _, rfl, rfl, rfl⟩ | ⟨name, pc, rfl, rfl, rfl⟩
    · exact ⟨trivial, trivial, fun _ _ _ hm => hm⟩
    · exact ⟨trivial, .finished, fun _ _ _ hm => hm.happen rfl nofun⟩
  env _ _ h := by
    rcases cacheEnv_cases h with ⟨clock, hc, rfl⟩ | ⟨name, rfl⟩
    · exact ⟨trivial, fun _ _ hm => hm.of_history rfl⟩
    · exact ⟨trivial, fun _ _ hm => hm.happen rfl nofun⟩

/-! ## Freshness -/

/-- What a call returns was loaded after the invalidations of its table before the call, and
after the commits of the writers of its table that finished before the call; invalidating a
table leaves the entries of the others. -/
structure Fresh (c : Conf (CacheState F τ) (CacheThread ε)) : Prop where
  invalidated : ∀ {i : ThreadId} {call : Call} {cached : TableId} {served : Served}
    {t : Loaded τ} {k : Nat} {name : String},
    c.threads i = some (.read call (.returned (.ok cached) served)) →
    c.shared.tables[cached]? = some t → c.shared.history[k]? = some (.invalidated name) →
    eqIgnoreAsciiCase call.fullName name → k < call.started → k < t.loadStarted
  written : ∀ {i w : ThreadId} {call : Call} {cached : TableId} {served : Served}
    {t : Loaded τ} {m ended : Nat} {name : String},
    c.threads i = some (.read call (.returned (.ok cached) served)) →
    c.shared.tables[cached]? = some t → c.threads w = some (.write name (.finished ended)) →
    c.shared.history[m]? = some (.committed w) → eqIgnoreAsciiCase call.fullName name →
    ended ≤ call.started → m < t.loadStarted
  others : ∀ {key : TableCacheKey F} {name : String},
    eqIgnoreAsciiCase key.fullName name = false →
    (c.shared.invalidateTable name).entries.lookup key = c.shared.entries.lookup key

omit [DecidableEq F] in
/-- A returned table was loaded after the invalidations before the call. -/
theorem CallWF.lt_loadStarted {s : CacheState F τ} {call : Call} {cached : TableId}
    {served : Served} {t : Loaded τ} {k : Nat} {name : String}
    (H : CallWF cfg s call (.returned (ε := ε) (.ok cached) served))
    (ht : s.tables[cached]? = some t) (hk : s.history[k]? = some (.invalidated name))
    (hn : eqIgnoreAsciiCase call.fullName name) (hlt : k < call.started) : k < t.loadStarted := by
  cases served with
  | direct | stored | discarded =>
    obtain ⟨t', ht'⟩ := H.own rfl
    have heq := ht'.table
    rw [ht] at heq; cases heq
    exact Nat.lt_of_lt_of_le hlt ht'.started
  | hit grant examinedAt =>
    obtain ⟨e, t', he, ht', ⟨_, hborn, _⟩, _⟩ := H.hit rfl
    rw [ht] at ht'; cases ht'
    have hg := H.grant (g := grant) rfl
    obtain ⟨e', he', _, _, hn'⟩ := hg.slot
    rw [he] at he'; cases he'
    -- else the invalidation separates the slot's making from the grant
    refine Nat.lt_of_not_le fun hle => hn' ?_
    exact ⟨k, _, Nat.le_trans hborn hle, Nat.lt_of_lt_of_le hlt hg.started, hk, hn⟩

theorem fresh {clock : Instant} {c : Conf (CacheState F τ) (CacheThread ε)}
    (h : (cacheMachine cfg clock).Reachable c) : Fresh c := by
  have HC := (cacheInvariant h).2
  have invalidated {i call cached served t k name}
      (hi : c.threads i = some (.read call (.returned (.ok cached) served)))
      (ht : c.shared.tables[cached]? = some t)
      (hk : c.shared.history[k]? = some (.invalidated name))
      (hn : eqIgnoreAsciiCase call.fullName name) (hlt : k < call.started) : k < t.loadStarted :=
    CallWF.lt_loadStarted (HC i _ hi) ht hk hn hlt
  refine ⟨invalidated, ?_, ?_⟩
  · intro i w call cached served t m ended name hi ht hw hm hn hle
    obtain ⟨k, rfl, hk, hlt⟩ := (writeOutline.invariant trivial h).2 w _ hw
    exact Nat.lt_trans (hlt hm) (invalidated hi ht hk hn hle)
  · intro key name hn
    refine Option.ext fun slot => ?_
    simp only [lookup_invalidateTable, hn, and_true]

end

/-- A load that began before a write ends after it, and then the table is read again. -/
theorem fresh_after_write : ∃ c : Conf (CacheState String Unit) (CacheThread Unit),
    (∃ call, c.threads 0 = some (.read call (.returned (.ok 0) (.stored ⟨0, 0⟩)))) ∧
    (∃ name, c.threads 1 = some (.write name (.finished 2))) ∧
    (∃ call, c.threads 2 = some (.read call (.returned (.ok 1) (.stored ⟨1, 2⟩)))) ∧ Fresh c := by
  have h := Machine.reachable_run (cacheMachine (τ := Unit) (ε := Unit) testConfig 0)
    [.start 0 testRequest, .start 1 (.executeCtas "Workspace.Default.HITS"),
      .exec 0 .run, .exec 0 .run, .exec 0 .run, .exec 0 .run,
      .exec 0 (.loaded (.ok ⟨(), 3600000, 0, 0⟩)), .exec 1 .commit, .exec 1 .run, .exec 0 .run,
      .exec 0 .run, .start 2 testRequest, .exec 2 .run, .exec 2 .run, .exec 2 .run, .exec 2 .run,
      .exec 2 (.loaded (.ok ⟨(), 3600000, 0, 0⟩)), .exec 2 .run, .exec 2 .run] rfl
  exact ⟨_, ⟨_, rfl⟩, ⟨_, rfl⟩, ⟨_, rfl⟩, fresh h⟩

end HarborSql
