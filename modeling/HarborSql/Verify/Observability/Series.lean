import HarborSql.Server
import HarborSql.Verify.Observability.Prometheus
import Mathlib.Data.Finset.Prod

/-! How many series the requests of the clients make: the HTTP map has one for each method, route
and status, the Thrift map one for each name in a message and outcome. -/

namespace HarborSql

/-! ## Events as calls of the registry -/

/-- The calls of the registry that an event makes. -/
def ServerEvent.observations : ServerEvent → List Observation
  | .http method path status elapsed => [.http method (routeLabel path) status elapsed]
  | .thrift body result elapsed =>
    match (decodeMessage.run (.new body)).1 with
    | .error _ => [.thrift "decode" "error" elapsed]
    | .ok message =>
      .thrift message.name (if result.isSome then "ok" else "error") elapsed ::
        (result.map fun response =>
          .add ⟨"harborsql_thrift_response_bytes_total", responseBytesTotal_mem⟩
            (.ofNat response.length)).toList
  | .add name value => [.add name value]
  | .setGauge name value => [.setGauge name value]
  | .duration stage elapsed => [.duration stage elapsed]

theorem Metrics.record_eq (F : Millis) (metrics : Metrics) (event : ServerEvent) :
    metrics.record F event = metrics.observeAll F event.observations := by
  cases event with
  | thrift body result elapsed =>
    rw [record, handle, ServerEvent.observations]
    cases (decodeMessage.run (.new body)).1 with
    | error _ => rfl
    | ok message => cases result <;> rfl
  | _ => rfl

theorem Metrics.recordAll_eq (F : Millis) (metrics : Metrics) (events : List ServerEvent) :
    metrics.recordAll F events =
      metrics.observeAll F (events.flatMap ServerEvent.observations) := by
  induction events generalizing metrics with
  | nil => rfl
  | cons event events ih =>
    have hstep : metrics.recordAll F (event :: events) =
      (metrics.record F event).recordAll F events := rfl
    rw [hstep, ih, record_eq, List.flatMap_cons, observeAll, observeAll, observeAll,
      List.foldl_append]

/-! ## What the clients choose -/

/-- The HTTP method of a request. -/
def ServerEvent.httpMethod : ServerEvent → Option String
  | .http method .. => some method
  | _ => none

/-- The name of the method in a Thrift message that decodes. -/
def ServerEvent.thriftMethod : ServerEvent → Option String
  | .thrift body .. => (decodeMessage.run (.new body)).1.toOption.map (·.name)
  | _ => none

def httpMethods (events : List ServerEvent) : Finset String :=
  (events.filterMap ServerEvent.httpMethod).toFinset

def thriftMethods (events : List ServerEvent) : Finset String :=
  (events.filterMap ServerEvent.thriftMethod).toFinset

/-! ## Keys -/

/-- The key of the HTTP map that an event observes. -/
def ServerEvent.httpKey : ServerEvent → Option HttpKey
  | .http method path status _ => some ⟨method, routeLabel path, status⟩
  | _ => none

def ServerEvent.thriftKey : ServerEvent → Option ThriftKey
  | .thrift body result _ =>
    match (decodeMessage.run (.new body)).1 with
    | .error _ => some ⟨"decode", "error"⟩
    | .ok message => some ⟨message.name, if result.isSome then "ok" else "error"⟩
  | _ => none

theorem ServerEvent.filterMap_httpKey (event : ServerEvent) :
    event.observations.filterMap Observation.httpKey = event.httpKey.toList := by
  cases event with
  | thrift body result elapsed =>
    rw [observations]
    cases (decodeMessage.run (.new body)).1 with
    | error _ => rfl
    | ok message => cases result <;> rfl
  | _ => rfl

theorem ServerEvent.filterMap_thriftKey (event : ServerEvent) :
    event.observations.filterMap Observation.thriftKey = event.thriftKey.toList := by
  cases event with
  | thrift body result elapsed =>
    rw [observations, thriftKey]
    cases (decodeMessage.run (.new body)).1 with
    | error _ => rfl
    | ok message => cases result <;> rfl
  | _ => rfl

variable (F : Millis) {events : List ServerEvent}

theorem mem_http {key : HttpKey} : key ∈ (Metrics.new.recordAll F events).http ↔
    ∃ event ∈ events, event.httpKey = some key := by
  rw [Metrics.recordAll_eq, (tallies_http F _).mem, List.filterMap_flatMap]
  simp only [ServerEvent.filterMap_httpKey, List.mem_flatMap, Option.mem_toList]

theorem mem_thrift {key : ThriftKey} : key ∈ (Metrics.new.recordAll F events).thrift ↔
    ∃ event ∈ events, event.thriftKey = some key := by
  rw [Metrics.recordAll_eq, (tallies_thrift F _).mem, List.filterMap_flatMap]
  simp only [ServerEvent.filterMap_thriftKey, List.mem_flatMap, Option.mem_toList]

theorem mem_httpMethods {method : String} : method ∈ httpMethods events ↔
    ∃ event ∈ events, event.httpMethod = some method := by
  rw [httpMethods, List.mem_toFinset, List.mem_filterMap]

theorem mem_thriftMethods {method : String} : method ∈ thriftMethods events ↔
    ∃ event ∈ events, event.thriftMethod = some method := by
  rw [thriftMethods, List.mem_toFinset, List.mem_filterMap]

/-! ## Sizes -/

def routeLabels : List String :=
  ["/healthz", "/metrics", "/api/v1/query",
    "/api/2.0/connector-service/feature-flags/PYTHON/\x7bversion\x7d",
    "/api/2.0/sql/history/queries/\x7bquery_id\x7d", "/\x7b*path\x7d"]

theorem routeLabel_mem (path : String) : routeLabel path ∈ routeLabels := by
  unfold routeLabel routeLabels
  repeat' split
  all_goals simp

/-- The keys that the routes and the statuses allow for some methods. -/
def httpKeysOf (methods : Finset String) : Finset HttpKey :=
  (methods ×ˢ routeLabels.toFinset ×ˢ Finset.range (2 ^ 16)).image fun (method, route, status) =>
    ⟨method, route, .ofNat status⟩

theorem card_httpKeysOf_le (methods : Finset String) :
    (httpKeysOf methods).card ≤ methods.card * (6 * 2 ^ 16) := by
  refine Finset.card_image_le.trans ?_
  rw [Finset.card_product, Finset.card_product, Finset.card_range]
  exact Nat.mul_le_mul_left _ (Nat.mul_le_mul_right _ (List.toFinset_card_le routeLabels))

theorem len_http_le :
    (Metrics.new.recordAll F events).http.len ≤ (httpMethods events).card * (6 * 2 ^ 16) := by
  refine (BTreeMap.len_le_card fun key hkey => ?_).trans (card_httpKeysOf_le (httpMethods events))
  obtain ⟨event, hevent, hkey⟩ := (mem_http F).mp hkey
  cases event <;> cases hkey
  rename_i method path status elapsed
  refine Finset.mem_image.mpr ⟨(method, routeLabel path, status.toNat), ?_, by simp⟩
  simp only [Finset.mem_product, List.mem_toFinset, Finset.mem_range]
  exact ⟨mem_httpMethods.mpr ⟨_, hevent, rfl⟩, routeLabel_mem path, status.toNat_lt⟩

theorem card_httpMethods_le :
    (httpMethods events).card ≤ (Metrics.new.recordAll F events).http.len := by
  apply BTreeMap.card_le_len HttpKey.method
  intro method hmethod
  obtain ⟨event, hevent, hmethod⟩ := mem_httpMethods.mp hmethod
  cases event <;> cases hmethod
  exact ⟨_, (mem_http F).mpr ⟨_, hevent, rfl⟩, rfl⟩

/-- The keys that the outcomes allow for some names, and the key of what does not decode. -/
def thriftKeysOf (methods : Finset String) : Finset ThriftKey :=
  (insert "decode" methods ×ˢ {"ok", "error"}).image fun (method, status) => ⟨method, status⟩

theorem card_thriftKeysOf_le (methods : Finset String) :
    (thriftKeysOf methods).card ≤ (methods.card + 1) * 2 := by
  refine Finset.card_image_le.trans ?_
  rw [Finset.card_product]
  exact Nat.mul_le_mul (Finset.card_insert_le ..) Finset.card_le_two

theorem len_thrift_le :
    (Metrics.new.recordAll F events).thrift.len ≤ ((thriftMethods events).card + 1) * 2 := by
  refine (BTreeMap.len_le_card fun key hkey => ?_).trans
    (card_thriftKeysOf_le (thriftMethods events))
  obtain ⟨event, hevent, hkey⟩ := (mem_thrift F).mp hkey
  have hmem : key.method ∈ insert "decode" (thriftMethods events) ∧
      (key.status = "ok" ∨ key.status = "error") := by
    cases event with
    | thrift body result elapsed =>
      cases hdecode : (decodeMessage.run (.new body)).1 with
      | error _ =>
        simp only [ServerEvent.thriftKey, hdecode, Option.some.injEq] at hkey
        subst hkey
        exact ⟨Finset.mem_insert_self .., .inr rfl⟩
      | ok message =>
        simp only [ServerEvent.thriftKey, hdecode, Option.some.injEq] at hkey
        subst hkey
        refine ⟨Finset.mem_insert_of_mem (mem_thriftMethods.mpr ⟨_, hevent, ?_⟩), ?_⟩
        · simp [ServerEvent.thriftMethod, hdecode, Except.toOption]
        · cases result
          · exact .inr rfl
          · exact .inl rfl
    | _ => cases hkey
  refine Finset.mem_image.mpr ⟨(key.method, key.status), ?_, rfl⟩
  simpa using hmem

theorem card_thriftMethods_le :
    (thriftMethods events).card ≤ (Metrics.new.recordAll F events).thrift.len := by
  apply BTreeMap.card_le_len ThriftKey.method
  intro method hmethod
  obtain ⟨event, hevent, hmethod⟩ := mem_thriftMethods.mp hmethod
  cases event with
  | thrift body result elapsed =>
    cases hdecode : (decodeMessage.run (.new body)).1 with
    | error _ => simp [ServerEvent.thriftMethod, hdecode, Except.toOption] at hmethod
    | ok message =>
      simp [ServerEvent.thriftMethod, hdecode, Except.toOption] at hmethod
      exact ⟨⟨message.name, if result.isSome then "ok" else "error"⟩,
        (mem_thrift F).mpr ⟨_, hevent, by simp [ServerEvent.thriftKey, hdecode]⟩, hmethod⟩
  | _ => cases hmethod

/-! ## Lines -/

theorem len_staticName_le {names : List String} {ν : Type} (m : BTreeMap (StaticName names) ν) :
    m.len ≤ names.length := by
  have hcard : names.attach.toFinset.card ≤ names.length := by
    simpa using List.toFinset_card_le names.attach
  exact (BTreeMap.len_le_card fun name _ => List.mem_toFinset.mpr (List.mem_attach ..)).trans hcard

/-- The lines of `render_prometheus`, with the empty one behind the last line end. -/
def Metrics.lines (F : Millis) (metrics : Metrics) : List (List Char) :=
  (metrics.renderPrometheus F).toList.splitOn '\n'

theorem Metrics.length_lines_le (metrics : Metrics) :
    (metrics.lines F).length ≤ 99 + 3 * metrics.http.len + 3 * metrics.thrift.len := by
  obtain ⟨n, hn, hrenders⟩ := metrics.renders_prometheus F
  have hcounters : metrics.counters.len ≤ 19 := len_staticName_le _
  have hgauges : metrics.gauges.len ≤ 3 := len_staticName_le _
  have htimings : metrics.timings.len ≤ 11 := len_staticName_le _
  rw [lines, hrenders.length_splitOn]
  omega

/-! ## Bounds -/

/-- The two maps of requests and the lines of the Prometheus text have at most `bound` entries. -/
structure SeriesWithin (bound : Nat) (metrics : Metrics) : Prop where
  http : metrics.http.len ≤ bound
  thrift : metrics.thrift.len ≤ bound
  lines : (metrics.lines F).length ≤ bound

/-- The series of some runs are bounded if and only if the HTTP methods and the names in Thrift
messages that the clients choose in one run are: there is no other bound on either. -/
theorem seriesBounded_iff (runs : Set (List ServerEvent)) :
    (∃ bound, ∀ events ∈ runs, SeriesWithin F bound (Metrics.new.recordAll F events)) ↔
      ∃ bound, ∀ events ∈ runs,
        (httpMethods events).card ≤ bound ∧ (thriftMethods events).card ≤ bound := by
  constructor
  · rintro ⟨bound, h⟩
    refine ⟨bound, fun events hrun => ?_⟩
    have hwithin := h events hrun
    exact ⟨(card_httpMethods_le F).trans hwithin.http,
      (card_thriftMethods_le F).trans hwithin.thrift⟩
  · rintro ⟨bound, h⟩
    refine ⟨99 + 3 * (bound * (6 * 2 ^ 16)) + 3 * ((bound + 1) * 2), fun events hrun => ?_⟩
    obtain ⟨hhttp, hthrift⟩ := h events hrun
    have hlen : (Metrics.new.recordAll F events).http.len ≤ bound * (6 * 2 ^ 16) :=
      (len_http_le F).trans (Nat.mul_le_mul_right _ hhttp)
    have hlen' : (Metrics.new.recordAll F events).thrift.len ≤ (bound + 1) * 2 :=
      (len_thrift_le F).trans (Nat.mul_le_mul_right _ (Nat.succ_le_succ hthrift))
    have hlines := (Metrics.new.recordAll F events).length_lines_le F
    exact ⟨by omega, by omega, by omega⟩

/-- A client that sends a new method each time: `A`, `AA`, `AAA` and so on. -/
def newMethods (n : Nat) : List ServerEvent :=
  (List.range n).map fun i => .http (.ofList (List.replicate (i + 1) 'A')) "/sql" 405 0

/-- Some arithmetic on doubles. -/
def someMillis : Millis := ⟨fun a _ => a, fun _ => 0, fun _ => "0.000", fun _ => by decide⟩

theorem not_seriesBounded : ¬ ∃ bound, ∀ events : List ServerEvent,
    SeriesWithin someMillis bound (Metrics.new.recordAll someMillis events) := by
  rintro ⟨bound, h⟩
  have hcard : (httpMethods (newMethods (bound + 1))).card = bound + 1 := by
    have hmethods : (newMethods (bound + 1)).filterMap ServerEvent.httpMethod =
        (List.range (bound + 1)).map fun i => String.ofList (List.replicate (i + 1) 'A') := by
      rw [newMethods, List.filterMap_map, ← List.filterMap_eq_map]
      rfl
    have hinj : Function.Injective fun i => String.ofList (List.replicate (i + 1) 'A') := by
      intro i j hij
      have := congrArg List.length (String.ofList_inj.mp hij)
      simpa using this
    rw [httpMethods, hmethods, List.toFinset_card_of_nodup (List.nodup_range.map hinj)]
    simp
  have := (card_httpMethods_le someMillis).trans (h (newMethods (bound + 1))).http
  omega

end HarborSql
