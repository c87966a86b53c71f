import HarborSql.Engine.Write
import HarborSql.Verify.TableCache.Basic

/-! The effects of `execute_ctas`, however its calls come out and wherever it is dropped: it writes
at most once, only to a target that it has checked, registers a new table after the write, and
leaves no entry of the target in the cache once the write has started. -/

namespace HarborSql

open Async (Event Runs Exits)
open AsyncM

variable {P : Type}

abbrev CtasEvent (P : Type) := Event (CtasCall P) CtasCall.Answer InvalidateOnDrop

/-- A call that changes neither the storage nor Unity. -/
def CtasCall.isQuiet : CtasCall P → Bool
  | write .. | createExternalTable .. => false
  | _ => true

/-- What happened is such a call. -/
def Harmless (e : CtasEvent P) : Prop := ∃ call, e.call? = some call ∧ call.isQuiet

/-! ## Up to the write -/

/-- A name that Unity lists is the name of the target. -/
def Ctas.Listed (ctas : Ctas) (tables : List TableInfo) : Prop :=
  ∃ t ∈ tables, ∃ name, t.name = some name ∧ eqIgnoreAsciiCase name ctas.table

theorem Ctas.listed_iff {ctas : Ctas} {tables : List TableInfo} :
    (tables.any fun t => t.name.any (eqIgnoreAsciiCase · ctas.table)) = true ↔
      ctas.Listed tables := by
  simp [Listed, List.any_eq_true, Option.any_eq_true]

section
variable (crates : WriteCrates) (awsRegion token : String) (ctas : Ctas) (columns : List Json)

/-- What has happened when the write starts, by whether it replaces a table. -/
inductive CtasPrepared : Bool → DeltaTable → List (CtasEvent P) → Prop
  | replaces {tables details id credentials url} : ctas.Listed tables →
    validateExisting crates details ctas.location columns = .ok () →
    (details.index "table_id").asStr = some id →
    trimEndSlashes credentials.url = trimEndSlashes ctas.location →
    CtasPrepared true ⟨url, storageOptions credentials awsRegion⟩
      [.answered (.tables token ctas.catalog ctas.schema) (.ok tables),
        .answered (.tableDetails token ctas.fullName) (.ok details),
        .answered (.writeCredentials token id) (.ok credentials),
        .answered (.load ⟨url, storageOptions credentials awsRegion⟩) (.ok ())]
  | creates {tables credentials url e} : ¬ ctas.Listed tables →
    trimEndSlashes credentials.url = trimEndSlashes ctas.location → e.notATable = true →
    CtasPrepared false ⟨url, storageOptions credentials awsRegion⟩
      [.answered (.tables token ctas.catalog ctas.schema) (.ok tables),
        .answered (.createPathCredentials token ctas.location) (.ok credentials),
        .answered (.load ⟨url, storageOptions credentials awsRegion⟩) (.error e)]

end

section
variable {crates : WriteCrates} {awsRegion token : String} {ctas : Ctas} {columns : List Json}
  {α : Type} {events : List (CtasEvent P)} {result : Option (Except HarborError α)}

theorem harmless_nil : ∀ e ∈ ([] : List (CtasEvent P)), Harmless e := List.forall_mem_nil _

/-- Such a call ends the function, or answers it. -/
theorem harmless_or_answered (call : CtasCall P) (hcall : call.isQuiet) {β : Type}
    {g : call.Answer → Except HarborError β} {f : β → CtasM P α}
    (h : Runs ((awaitCall call >>= fun answer => liftResult (g answer)) >>= f).run events result) :
    (∀ e ∈ events, Harmless e) ∨ ∃ answer x rest, events = .answered call answer :: rest ∧
      g answer = .ok x ∧ Runs (f x).run rest result := by
  rcases runs_call_bind.mp h with
    ⟨rfl, -⟩ | ⟨answer, rest, rfl, ⟨_, -, rfl, -⟩ | ⟨x, hx, hrest⟩⟩
  · exact .inl (List.forall_mem_singleton.mpr ⟨call, rfl, hcall⟩)
  · exact .inl (List.forall_mem_singleton.mpr ⟨call, rfl, hcall⟩)
  · exact .inr ⟨answer, x, rest, rfl, hx, hrest⟩

theorem harmless_or_ok {β : Type} {x : Except HarborError β} {f : β → CtasM P α}
    (h : Runs (liftResult x >>= f).run events result) :
    (∀ e ∈ events, Harmless e) ∨ ∃ a, x = .ok a ∧ Runs (f a).run events result := by
  rcases runs_liftResult_bind.mp h with ⟨_, -, rfl, -⟩ | hrest
  · exact .inl harmless_nil
  · exact .inr hrest

theorem harmless_cons {call : CtasCall P} {answer : call.Answer} (hcall : call.isQuiet)
    (h : ∀ e ∈ events, Harmless e) : ∀ e ∈ .answered call answer :: events, Harmless e :=
  List.forall_mem_cons.mpr ⟨⟨call, rfl, hcall⟩, h⟩

theorem checkCredentialUrl_eq_ok {credentials : TemporaryTableCredentials} :
    checkCredentialUrl ctas credentials = .ok () ↔
      trimEndSlashes credentials.url = trimEndSlashes ctas.location := by
  unfold checkCredentialUrl
  by_cases h : trimEndSlashes credentials.url = trimEndSlashes ctas.location
  · rw [if_neg (not_not.mpr h)]
    exact iff_of_true rfl h
  · rw [if_pos h]
    exact iff_of_false nofun h

theorem checkLoaded_eq_ok {existing : Bool} {loaded : Except DeltaTableError Unit} :
    checkLoaded existing loaded = .ok () ↔
      (existing = true ∧ loaded = .ok ()) ∨
        existing = false ∧ ∃ e, loaded = .error e ∧ e.notATable = true := by
  cases loaded with
  | ok u => cases existing <;> simp [checkLoaded, pure, Except.pure, throw, throwThe, MonadExceptOf.throw]
  | error e =>
    cases existing <;> cases hnot : e.notATable <;>
      simp [checkLoaded, hnot, pure, Except.pure, throw, throwThe, MonadExceptOf.throw]

/-- The credentials are those of a table that may be replaced, or those of a new path. -/
theorem runs_ctasCredentials {existing : Bool} {f : TemporaryTableCredentials → CtasM P α}
    (h : Runs (ctasCredentials crates token ctas columns existing >>= f).run events result) :
    (∀ e ∈ events, Harmless e) ∨ ∃ credentials rest,
      Runs (f credentials).run rest result ∧
      ((existing = true ∧ ∃ details id, validateExisting crates details ctas.location columns = .ok () ∧
          (details.index "table_id").asStr = some id ∧
          events = .answered (.tableDetails token ctas.fullName) (.ok details) ::
            .answered (.writeCredentials token id) (.ok credentials) :: rest) ∨
        existing = false ∧
          events = .answered (.createPathCredentials token ctas.location) (.ok credentials) ::
            rest) := by
  cases existing with
  | true =>
    simp only [ctasCredentials, if_true, bind_assoc] at h
    rcases harmless_or_answered (.tableDetails token ctas.fullName) rfl h with
      hquiet | ⟨_, details, rest, rfl, rfl, h₁⟩
    · exact .inl hquiet
    rcases harmless_or_ok h₁ with hquiet | ⟨_, hvalid, h₂⟩
    · exact .inl (harmless_cons rfl hquiet)
    cases hid : (details.index "table_id").asStr with
    | none =>
      rw [hid] at h₂
      obtain ⟨rfl, -⟩ := runs_throw_bind.mp h₂
      exact .inl (harmless_cons rfl harmless_nil)
    | some id =>
      rw [hid] at h₂
      rcases harmless_or_answered (.writeCredentials token id) rfl h₂ with
        hquiet | ⟨_, credentials, rest, rfl, rfl, h₃⟩
      · exact .inl (harmless_cons rfl hquiet)
      · exact .inr ⟨credentials, rest, h₃, .inl ⟨rfl, details, id, hvalid, hid, rfl⟩⟩
  | false =>
    rcases harmless_or_answered (.createPathCredentials token ctas.location) rfl h with
      hquiet | ⟨_, credentials, rest, rfl, rfl, h₁⟩
    · exact .inl hquiet
    · exact .inr ⟨credentials, rest, h₁, .inr ⟨rfl, rfl⟩⟩

end

/-! ## From the write on -/

section
variable {crates : WriteCrates} {awsRegion token : String} {ctas : Ctas}

/-- What happens once the write starts, up to the drop of the guard. -/
inductive CtasWritten (token : String) (ctas : Ctas) (columns : List Json) (inputPlan : P)
    (table : DeltaTable) : Bool → List (CtasEvent P) → Prop
  | abandoned {existing} : CtasWritten token ctas columns inputPlan table existing
      [.abandoned (.write table inputPlan (if existing then .overwrite else .errorIfExists))]
  | failed {existing e} : CtasWritten token ctas columns inputPlan table existing
      [.answered (.write table inputPlan (if existing then .overwrite else .errorIfExists))
        (.error e)]
  | replaced : CtasWritten token ctas columns inputPlan table true
      [.answered (.write table inputPlan .overwrite) (.ok ())]
  | unregistered : CtasWritten token ctas columns inputPlan table false
      [.answered (.write table inputPlan .errorIfExists) (.ok ()),
        .abandoned (.createExternalTable token (externalTable ctas columns))]
  | created {registered} : CtasWritten token ctas columns inputPlan table false
      [.answered (.write table inputPlan .errorIfExists) (.ok ()),
        .answered (.createExternalTable token (externalTable ctas columns)) registered]

theorem runs_written {dataframe : DataFrame P} {columns : List Json} {table : DeltaTable}
    {existing : Bool} {events : List (CtasEvent P)} {result : Option (Except HarborError Unit)}
    (h : Runs (do
      let written ← CtasM.write table dataframe.logicalPlan
        (if existing then .overwrite else .errorIfExists)
      liftResult (written.mapError fun e => .delta e.source)
      if !existing then do
        let registered ← CtasM.createExternalTable token (externalTable ctas columns)
        let _ ← liftResult (registered.mapError fun e => .query ("Delta data committed but Unity " ++
          "registration failed; do not delete the data; recover registration before retrying: " ++
          crates.redactSensitive e.toString))
        return
      else return : CtasM P Unit).run events result) :
    CtasWritten token ctas columns dataframe.logicalPlan table existing events := by
  rcases runs_awaitCall_bind.mp h with ⟨rfl, -⟩ | ⟨written, rest, rfl, h₁⟩
  · exact .abandoned
  rcases runs_liftResult_bind.mp h₁ with ⟨_, hwritten, rfl, -⟩ | ⟨_, hwritten, h₂⟩
  · cases written with
    | error e => exact .failed
    | ok u => cases hwritten
  · cases written with
    | error e => cases hwritten
    | ok u =>
      cases existing with
      | true =>
        obtain ⟨rfl, -⟩ := runs_pure.mp h₂
        exact .replaced
      | false =>
        rcases runs_awaitCall_bind.mp h₂ with ⟨rfl, -⟩ | ⟨registered, rest, rfl, h₃⟩
        · exact .unregistered
        · rcases runs_liftResult_bind.mp h₃ with ⟨_, -, rfl, -⟩ | ⟨_, -, h₄⟩
          · exact .created
          · obtain ⟨rfl, -⟩ := runs_pure.mp h₄
            exact .created

/-- A run ends without an effect, or prepares the write, starts it, and ends with the drop of the
guard. -/
theorem runs_executeCtas {dataframe : DataFrame P} {events : List (CtasEvent P)}
    {result : Option (Except HarborError Unit)}
    (h : Runs (QueryEngine.executeCtas crates awsRegion token ctas dataframe).run events result) :
    (∀ e ∈ events, Harmless e) ∨ ∃ columns existing table front rest,
      unityColumns crates.formatting dataframe.schema = .ok columns ∧
      CtasPrepared crates awsRegion token ctas columns existing table front ∧
      CtasWritten token ctas columns dataframe.logicalPlan table existing rest ∧
      events = front ++ rest ++ [.dropped ⟨ctas.fullName⟩] := by
  unfold QueryEngine.executeCtas at h
  rcases harmless_or_answered (.tables token ctas.catalog ctas.schema) rfl h with
    hquiet | ⟨_, tables, rest, rfl, rfl, h₁⟩
  · exact .inl hquiet
  dsimp only at h₁
  rcases harmless_or_ok h₁ with hquiet | ⟨columns, hcolumns, h₂⟩
  · exact .inl (harmless_cons rfl hquiet)
  rcases runs_ctasCredentials h₂ with hquiet | ⟨credentials, rest₃, h₃, hcredentials⟩
  · exact .inl (harmless_cons rfl hquiet)
  have hbefore (hquiet : ∀ e ∈ rest₃, Harmless e) : ∀ e ∈ rest, Harmless e := by
    rcases hcredentials with ⟨-, details, id, -, -, rfl⟩ | ⟨-, rfl⟩
    · exact harmless_cons rfl (harmless_cons rfl hquiet)
    · exact harmless_cons rfl hquiet
  rcases harmless_or_ok h₃ with hquiet | ⟨_, hurl, h₄⟩
  · exact .inl (harmless_cons rfl (hbefore hquiet))
  rcases harmless_or_ok h₄ with hquiet | ⟨url, -, h₅⟩
  · exact .inl (harmless_cons rfl (hbefore hquiet))
  rcases harmless_or_ok h₅ with hquiet | ⟨_, -, h₆⟩
  · exact .inl (harmless_cons rfl (hbefore hquiet))
  rcases runs_awaitCall_bind.mp h₆ with ⟨rfl, -⟩ | ⟨loaded, rest₇, rfl, h₇⟩
  · exact .inl (harmless_cons rfl (hbefore (List.forall_mem_singleton.mpr ⟨_, rfl, rfl⟩)))
  rcases harmless_or_ok h₇ with hquiet | ⟨_, hloaded, h₈⟩
  · exact .inl (harmless_cons rfl (hbefore (harmless_cons rfl hquiet)))
  rcases harmless_or_ok h₈ with hquiet | ⟨route, -, h₉⟩
  · exact .inl (harmless_cons rfl (hbefore (harmless_cons rfl hquiet)))
  rcases harmless_or_ok h₉ with hquiet | ⟨_, -, h₁₀⟩
  · exact .inl (harmless_cons rfl (hbefore (harmless_cons rfl hquiet)))
  obtain ⟨written, rfl, h₁₁⟩ := runs_withGuard.mp h₁₀
  have hwritten := runs_written h₁₁
  have hurl := checkCredentialUrl_eq_ok.mp hurl
  rcases hcredentials with ⟨hexisting, details, id, hvalid, hid, rfl⟩ | ⟨hexisting, rfl⟩
  · rw [hexisting] at hwritten hloaded
    obtain ⟨-, rfl⟩ | ⟨hfalse, -⟩ := checkLoaded_eq_ok.mp hloaded
    · exact .inr ⟨columns, true, _, _, written, hcolumns,
        .replaces (Ctas.listed_iff.mp hexisting) hvalid hid hurl, hwritten, rfl⟩
    · cases hfalse
  · rw [hexisting] at hwritten hloaded
    obtain ⟨htrue, -⟩ | ⟨-, e, rfl, hnot⟩ := checkLoaded_eq_ok.mp hloaded
    · cases htrue
    · refine .inr ⟨columns, false, _, _, written, hcolumns, .creates ?_ hurl hnot, hwritten, rfl⟩
      rw [← Ctas.listed_iff, hexisting]
      exact Bool.false_ne_true

end

/-! ## The protocol -/

/-- A write was issued when `front` had happened. -/
def WritesAfter (events front : List (CtasEvent P)) : Prop :=
  ∃ table plan mode, Event.CallsAfter events front (.write table plan mode)

/-- What may be seen of a run of `execute_ctas`. -/
structure CtasProtocol (crates : WriteCrates) (awsRegion token : String) (ctas : Ctas)
    (schema : List (String × DataType)) (events : List (CtasEvent P)) : Prop where
  one_write : ∀ front, WritesAfter events front → ∀ front', WritesAfter events front' →
    front = front'
  overwrites : ∀ front table plan, Event.CallsAfter events front (.write table plan .overwrite) →
    ∃ columns tables details id credentials,
      unityColumns crates.formatting schema = .ok columns ∧
      .answered (.tables token ctas.catalog ctas.schema) (.ok tables) ∈ front ∧
      ctas.Listed tables ∧
      .answered (.tableDetails token ctas.fullName) (.ok details) ∈ front ∧
      validateExisting crates details ctas.location columns = .ok () ∧
      (details.index "table_id").asStr = some id ∧
      .answered (.writeCredentials token id) (.ok credentials) ∈ front ∧
      trimEndSlashes credentials.url = trimEndSlashes ctas.location ∧
      table.storageOptions = storageOptions credentials awsRegion ∧
      .answered (.load table) (.ok ()) ∈ front
  creates : ∀ front table plan, Event.CallsAfter events front (.write table plan .errorIfExists) →
    ∃ tables credentials e,
      .answered (.tables token ctas.catalog ctas.schema) (.ok tables) ∈ front ∧
      ¬ ctas.Listed tables ∧
      .answered (.createPathCredentials token ctas.location) (.ok credentials) ∈ front ∧
      trimEndSlashes credentials.url = trimEndSlashes ctas.location ∧
      table.storageOptions = storageOptions credentials awsRegion ∧
      .answered (.load table) (.error e) ∈ front ∧ e.notATable = true
  registers : (∃ front token request,
      Event.CallsAfter events front (.createExternalTable token request)) ↔
    (∃ tables, .answered (.tables token ctas.catalog ctas.schema) (.ok tables) ∈ events ∧
      ¬ ctas.Listed tables) ∧
    ∃ table plan mode, .answered (.write table plan mode) (.ok ()) ∈ events
  /-- The guard is dropped at the end of a run that writes. -/
  invalidates : ∀ front, WritesAfter events front →
    events.getLast? = some (.dropped ⟨ctas.fullName⟩)
  registers_after : ∀ front token request,
    Event.CallsAfter events front (.createExternalTable token request) →
    ∃ e ∈ front, ∃ table plan mode, e.call? = some (.write table plan mode)

section
variable {crates : WriteCrates} {awsRegion token : String} {ctas : Ctas}
  {schema : List (String × DataType)} {events : List (CtasEvent P)}

theorem CtasProtocol.of_harmless (h : ∀ e ∈ events, Harmless e) :
    CtasProtocol crates awsRegion token ctas schema events := by
  have hnone {front : List (CtasEvent P)} {call : CtasCall P} (hcall : call.isQuiet = false) :
      ¬ Event.CallsAfter events front call := by
    intro hafter
    obtain ⟨e, he, hsome⟩ := hafter.mem
    obtain ⟨call', hcall', hquiet⟩ := h e he
    obtain rfl := Option.some.inj (hcall'.symm.trans hsome)
    exact Bool.false_ne_true (hcall.symm.trans hquiet)
  have hwrites (front : List (CtasEvent P)) : ¬ WritesAfter events front :=
    fun ⟨_, _, _, hw⟩ => hnone rfl hw
  refine ⟨fun front hw => absurd hw (hwrites front), fun _ _ _ hw => absurd hw (hnone rfl),
    fun _ _ _ hw => absurd hw (hnone rfl), iff_of_false ?_ ?_,
    fun front hw => absurd hw (hwrites front), fun _ _ _ hw => absurd hw (hnone rfl)⟩
  · rintro ⟨front, _, request, hw⟩
    exact hnone rfl hw
  · rintro ⟨-, table, plan, mode, hmem⟩
    obtain ⟨call, hcall, hquiet⟩ := h _ hmem
    cases hcall
    cases hquiet

theorem CtasProtocol.of_written {columns : List Json} {existing : Bool} {table : DeltaTable}
    {front rest : List (CtasEvent P)} {plan : P}
    (hcolumns : unityColumns crates.formatting schema = .ok columns)
    (hfront : CtasPrepared crates awsRegion token ctas columns existing table front)
    (hrest : CtasWritten token ctas columns plan table existing rest) :
    CtasProtocol crates awsRegion token ctas schema
      (front ++ rest ++ [.dropped ⟨ctas.fullName⟩]) := by
  cases hfront with
  | replaces hlisted hvalid hid hurl =>
    cases hrest <;> constructor <;>
      simp [WritesAfter, hcolumns, hlisted, hvalid, hid, hurl]
  | creates hlisted hurl hnot =>
    cases hrest <;> constructor <;> simp [WritesAfter, hlisted, hurl, hnot]

theorem CtasProtocol.of_runs {dataframe : DataFrame P} {result : Option (Except HarborError Unit)}
    (h : Runs (QueryEngine.executeCtas crates awsRegion token ctas dataframe).run events result) :
    CtasProtocol crates awsRegion token ctas dataframe.schema events := by
  rcases runs_executeCtas h with
    hquiet | ⟨columns, existing, table, front, rest, hcolumns, hfront, hrest, rfl⟩
  · exact .of_harmless hquiet
  · exact .of_written hcolumns hfront hrest

/-- The entries of the target leave the cache with the guard. -/
theorem InvalidateOnDrop.lookup_drop {F τ : Type} [DecidableEq F] (guard : InvalidateOnDrop)
    (cache : CacheState F τ) {key : TableCacheKey F} (h : eqIgnoreAsciiCase key.fullName guard.name) :
    (guard.drop cache).entries.lookup key = none := by
  refine Option.eq_none_iff_forall_ne_some.mpr fun slot hslot => ?_
  obtain ⟨-, hne⟩ := CacheState.lookup_invalidateTable.mp hslot
  exact Bool.false_ne_true (hne.symm.trans h)

end

/-- Every run of `execute_ctas` keeps to the protocol, and the guard that it drops takes every
entry of the target out of the cache. -/
theorem ctasProtocol (crates : WriteCrates) (awsRegion token : String) (ctas : Ctas)
    (dataframe : DataFrame P) (events : List (CtasEvent P))
    (result : Option (Except HarborError Unit))
    (h : Exits (QueryEngine.executeCtas crates awsRegion token ctas dataframe).run events result) :
    CtasProtocol crates awsRegion token ctas dataframe.schema events ∧
    ∀ (F τ : Type) [DecidableEq F] (cache : CacheState F τ) (key : TableCacheKey F),
      eqIgnoreAsciiCase key.fullName ctas.fullName →
      (InvalidateOnDrop.drop ⟨ctas.fullName⟩ cache).entries.lookup key = none := by
  refine ⟨?_, fun F τ _ cache key hkey => InvalidateOnDrop.lookup_drop _ cache hkey⟩
  rcases h with ⟨rfl, -⟩ | hrun
  · exact .of_harmless harmless_nil
  · exact .of_runs hrun

def testCrates : WriteCrates where
  formatting := ⟨fun _ => "", fun _ _ => .ok "", fun _ => true, fun _ => "", fun _ => "", fun _ => ""⟩
  toLowercase := id
  parseUrl _ := .ok ⟨"s3", "", none, some "bucket", "/t", none, none⟩
  buildTable _ := .ok ()
  objectPath := .ok
  recordStore _ _ _ := .ok ()
  redactSensitive := id

def testCtas : Ctas := ⟨"c", "s", "t", "s3://bucket/t"⟩

def testCredentials : TemporaryTableCredentials := ⟨⟨"id", "key", "token"⟩, 0, "s3://bucket/t/"⟩

def testTable : DeltaTable :=
  ⟨⟨"s3", "", none, some "bucket", "/t", none, none⟩, storageOptions testCredentials "us-west-2"⟩

/-- A new table, dropped while it is registered. -/
def testEvents : List (CtasEvent Unit) :=
  [.answered (.tables "token" "c" "s") (.ok []),
    .answered (.createPathCredentials "token" "s3://bucket/t") (.ok testCredentials),
    .answered (.load testTable) (.error ⟨true, "no files in log segment"⟩),
    .answered (.write testTable () .errorIfExists) (.ok ()),
    .abandoned (.createExternalTable "token" (externalTable testCtas [])), .dropped ⟨"c.s.t"⟩]

theorem ctasProtocol_test :
    CtasProtocol testCrates "us-west-2" "token" testCtas [] testEvents ∧
    ∀ (F τ : Type) [DecidableEq F] (cache : CacheState F τ) (key : TableCacheKey F),
      eqIgnoreAsciiCase key.fullName testCtas.fullName →
      (InvalidateOnDrop.drop ⟨testCtas.fullName⟩ cache).entries.lookup key = none := by
  refine ctasProtocol testCrates "us-west-2" "token" testCtas ⟨[], ()⟩ testEvents none (.inr ?_)
  refine .answered (.answered (.answered ?_))
  exact Async.runs_guarded.mpr ⟨[_, _], rfl, .answered .abandoned⟩

end HarborSql
