import Mathlib.Data.Set.Function
import HarborSql.Verify.TableCache.Owner

/-! Cache hits. What a call returns without loading it was loaded by a call for the same
principal, table and region, and was not expired when its slot was examined. -/

namespace HarborSql

/-! ## Expiry -/

/-- `now + duration`, or `now` if the platform has no such instant. -/
theorem checkedDeadline_le (now : Instant) (duration : Duration) :
    checkedDeadline now duration ≤ now + duration := by
  unfold checkedDeadline Instant.checkedAdd
  split
  · exact Nat.le_refl _
  · exact Nat.le_add_right _ _

/-- `UNIX_EPOCH + Duration::from_millis(..)` does not overflow. -/
theorem credentialExpiry_le_last (expirationTimeMs : Int64) :
    ((Duration.fromMillis expirationTimeMs.toInt.toNat : Nat) : SystemTime) ≤ SystemTime.last := by
  have h := Int64.toInt_lt expirationTimeMs
  simp only [Duration.fromMillis, SystemTime.last, SystemTime]
  omega

/-- The mapped expiry is no later than the credentials' expiry less the skew, counted on the
monotonic clock from where the two clocks were read, and never earlier than that instant. -/
theorem expiresAtFromUnityExpirationMsAt_le {expirationTimeMs : Int64} {safetySkew : Duration}
    {nowSystem : SystemTime} {nowInstant : Instant} :
    (expiresAtFromUnityExpirationMsAt expirationTimeMs safetySkew nowSystem nowInstant : Int) ≤
      nowInstant + max 0 (expirationTimeMs.toInt * 1000000 - nowSystem - safetySkew) := by
  unfold expiresAtFromUnityExpirationMsAt
  split
  · omega
  · rename_i h
    have hle := checkedDeadline_le nowInstant
      (SystemTime.durationSince (Duration.fromMillis expirationTimeMs.toInt.toNat : Nat)
        nowSystem - safetySkew)
    simp only [SystemTime.durationSince, Duration.fromMillis, Instant, Duration, SystemTime] at *
    omega

section
variable {F τ ε : Type} [DecidableEq F] {cfg : CacheConfig F} {clock : Instant}
  {c c' : Conf (CacheState F τ) (CacheThread ε)}

open CacheState

/-! ## Tokens -/

/-- Every table on the heap was loaded by a call of the run. -/
def LoadersStarted (c : Conf (CacheState F τ) (CacheThread ε)) : Prop :=
  ∀ {cached : TableId} {t : Loaded τ}, c.shared.tables[cached]? = some t →
    ∃ i pc, c.threads i = some (.read t.call pc)

/-- A section makes at most one table, and its own call loads that. -/
theorem ReadStep.tables {s s' : CacheState F τ} {call : Call} {pc pc' : ReadPc ε}
    {cached : TableId} {t : Loaded τ} (h : ReadStep cfg s call pc s' pc') (ht : s'.tables[cached]? = some t) :
    s.tables[cached]? = some t ∨ t.call = call := by
  have new {t' : Loaded τ} (ht : (s.newTable t').tables[cached]? = some t) (h : t'.call = call) :
      s.tables[cached]? = some t ∨ t.call = call := by
    rcases List.getElem?_concat_eq_some.mp ht with ht | ⟨_, rfl⟩
    · exact .inl ht
    · exact .inr h
  cases h with
  | direct | loadExpired | loadFresh => exact new ht rfl
  | found h | full h =>
    rcases slotForKey_cases h with ⟨_, _, _, rfl⟩ | ⟨_, _, rfl⟩ | ⟨_, rfl⟩ <;> exact .inl ht
  | remove =>
    rcases removeSlot_cases s (cfg.cacheKey call) _ with ⟨_, h⟩ | ⟨_, h⟩ <;>
      rw [h] at ht <;> exact .inl ht
  | _ => exact .inl ht

omit [DecidableEq F] in
/-- A call never gives up its thread. -/
theorem reads_set {i j call call'} {pc pc' : ReadPc ε} {s : CacheState F τ}
    (hi : c.threads i = some (.read call pc)) (hj : ∃ pc, c.threads j = some (.read call' pc)) :
    ∃ pc, (c.set s i (.read call pc')).threads j = some (.read call' pc) := by
  obtain ⟨pc'', hj⟩ := hj
  by_cases h : j = i
  · subst h
    rw [hi] at hj; cases hj
    exact ⟨pc', by simp⟩
  · exact ⟨pc'', Conf.set_threads_eq_some.mpr (.inr ⟨h, hj⟩)⟩

theorem loadersStarted {ok} (h : (cacheMachine cfg clock).ReachableBy ok c) : LoadersStarted c := by
  refine h.invariant (I := LoadersStarted) nofun fun c a c' H _ hs => ?_
  intro cached t ht
  rcases cacheStep_cases hs with ⟨i, input, call, pc, s, pc', rfl, hi, hr, rfl⟩ |
    ⟨i, call, pc, rfl, hi, _, rfl⟩ | hq
  · rcases hr.tables ht with ht | rfl
    · obtain ⟨j, hj⟩ := H ht
      exact ⟨j, reads_set hi hj⟩
    · exact ⟨i, reads_set hi ⟨pc, hi⟩⟩
  · obtain ⟨j, hj⟩ := H ht
    exact ⟨j, reads_set hi hj⟩
  · obtain ⟨i, pc, hi⟩ := H (hq.tables ▸ ht)
    exact ⟨i, pc, hq.keeps hi⟩

/-- The bearer tokens of the calls of the run. -/
def bearerTokens (c : Conf (CacheState F τ) (CacheThread ε)) : Set String :=
  { token | ∃ i call pc, c.threads i = some (.read call pc) ∧ call.bearerToken = token }

/-! ## Hits -/

/-- The table was loaded for the principal, table and region of the call, and was not expired at
`examinedAt`. -/
structure SafeHit (cfg : CacheConfig F) (call : Call) (t : Loaded τ) (examinedAt : Instant) :
    Prop where
  bearerToken : t.call.bearerToken = call.bearerToken
  fullName : t.call.fullName = call.fullName
  awsRegion : t.call.awsRegion = call.awsRegion
  ttl : examinedAt < t.completedAt + cfg.ttl
  credentials : examinedAt < expiresAtFromUnityExpirationMsAt t.opened.expirationTimeMs
    cfg.credentialExpirySkew t.opened.nowSystem t.opened.nowInstant
  remaining : (examinedAt : Int) < t.opened.nowInstant + max 0
    (t.opened.expirationTimeMs.toInt * 1000000 - t.opened.nowSystem - cfg.credentialExpirySkew)

/-- What a call returns was loaded by itself, unless it is a hit, and hits are safe. -/
theorem safeHit (h : (cacheMachine cfg clock).Reachable c)
    (hinj : Set.InjOn cfg.principalFingerprint (bearerTokens c)) {i call cached served}
    (hi : c.threads i = some (.read call (.returned (.ok cached) served))) :
    ∃ t, c.shared.tables[cached]? = some t ∧
      ((∀ grant examinedAt, served ≠ .hit grant examinedAt) → t.call = call) ∧
      ∀ {grant examinedAt}, served = .hit grant examinedAt → SafeHit cfg call t examinedAt := by
  have H := (cacheInvariant h).2 i _ hi
  cases served with
  | direct | stored | discarded =>
    obtain ⟨t, ht⟩ := CallWF.own H rfl
    exact ⟨t, ht.table, fun _ => ht.loader, nofun⟩
  | hit grant examinedAt =>
    obtain ⟨e, t, he, ht, ⟨hk, _, hf⟩, hlt⟩ := CallWF.hit H rfl
    obtain ⟨e', he', hk', _⟩ := (CallWF.grant H rfl).slot
    rw [he] at he'; cases he'
    refine ⟨t, ht, fun h => absurd rfl (h _ _), fun h => ?_⟩
    cases h
    obtain ⟨hfp, hname, hregion⟩ := TableCacheKey.mk.inj (hk.trans hk')
    obtain ⟨j, pc, hj⟩ := loadersStarted h ht
    -- the expiry of a stored table is the smaller of the two deadlines
    have hexp : t.expiresAt = min _ _ := congrArg (·.expiresAt) hf
    obtain ⟨hcred, httl⟩ := Nat.lt_min.mp (hexp ▸ hlt)
    exact ⟨hinj ⟨j, _, pc, hj, rfl⟩ ⟨i, call, _, hi, rfl⟩ hfp, hname, hregion,
      Nat.lt_of_lt_of_le httl (checkedDeadline_le _ _), hcred,
      Int.lt_of_lt_of_le (Int.ofNat_lt.mpr hcred) expiresAtFromUnityExpirationMsAt_le⟩

end

/-- A call loads a table, and a second one of the same principal finds it. -/
theorem safeHit_second_call : ∃ (c : Conf (CacheState String Unit) (CacheThread Unit)) (call : Call)
    (t : Loaded Unit), c.threads 1 = some (.read call (.returned (.ok 0) (.hit ⟨0, 0⟩ 0))) ∧
    c.shared.tables[0]? = some t ∧ SafeHit testConfig call t 0 := by
  have h := Machine.reachable_run (cacheMachine (τ := Unit) (ε := Unit) testConfig 0)
    [.start 0 testRequest, .start 1 testRequest, .exec 0 .run, .exec 0 .run, .exec 0 .run,
      .exec 0 .run, .exec 0 (.loaded (.ok ⟨(), 3600000, 0, 0⟩)), .exec 0 .run, .exec 0 .run,
      .exec 1 .run, .exec 1 .run, .exec 1 .run, .exec 1 .run] rfl
  obtain ⟨t, ht, _, hsafe⟩ := safeHit h Function.injective_id.injOn (i := 1) rfl
  exact ⟨_, _, t, rfl, ht, hsafe rfl⟩

end HarborSql
