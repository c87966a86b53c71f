import HarborSql.Theory.BTreeMap
import HarborSql.Text
import HarborSql.Time

/-! The metrics registry (`observability.rs`). -/

namespace HarborSql

/-- `f64` arithmetic on bits: addition, the milliseconds of a duration, and `{:.3}`, which writes
digits with a sign and a point, or `NaN` or `inf`. -/
structure Millis where
  add : UInt64 → UInt64 → UInt64
  ofDuration : Duration → UInt64
  fixed3 : UInt64 → String
  fixed3_line : ∀ bits, '\n' ∉ (fixed3 bits).toList

/-! ## Names -/

/-- The counters that the program increments. -/
def counterNames : List String :=
  ["harborsql_delta_open_failed_total", "harborsql_delta_open_succeeded_total",
    "harborsql_queries_failed_total", "harborsql_queries_started_total",
    "harborsql_queries_succeeded_total", "harborsql_result_arrow_bytes_total",
    "harborsql_result_limit_errors_total", "harborsql_result_rows_total",
    "harborsql_thrift_fetch_response_bytes_total", "harborsql_thrift_fetch_rows_total",
    "harborsql_thrift_fetches_total", "harborsql_thrift_operations_canceled_total",
    "harborsql_thrift_operations_closed_total", "harborsql_thrift_operations_failed_total",
    "harborsql_thrift_operations_started_total", "harborsql_thrift_operations_succeeded_total",
    "harborsql_thrift_response_bytes_total", "harborsql_unity_requests_failed_total",
    "harborsql_unity_requests_succeeded_total"]

def gaugeNames : List String :=
  ["harborsql_thrift_active_operations", "harborsql_thrift_operations", "harborsql_thrift_sessions"]

/-- The stages whose durations the program observes. -/
def stageNames : List String :=
  ["datafusion_execute_stream", "datafusion_planning", "delta_open", "query_total",
    "result_materialization", "thrift_operation_execution", "unity_catalogs", "unity_credentials",
    "unity_schemas", "unity_table", "unity_tables"]

/-- One of the `&'static str` names of a list. -/
abbrev StaticName (names : List String) := {name : String // name ∈ names}

/-! ## The registry -/

structure HttpKey where
  method : String
  route : String
  status : UInt16
  deriving DecidableEq, Repr

structure ThriftKey where
  method : String
  status : String
  deriving DecidableEq, Repr

structure RequestStats where
  count : UInt64
  sumMs : UInt64
  deriving DecidableEq, Repr

/-- `TimingStats` has the fields of `RequestStats`, and the same `observe`. -/
abbrev TimingStats := RequestStats

namespace RequestStats

/-- `RequestStats::default`. -/
def new : RequestStats := ⟨0, 0⟩

def observe (F : Millis) (durationMs : UInt64) (stats : RequestStats) : RequestStats :=
  { count := stats.count + 1, sumMs := F.add stats.sumMs durationMs }

end RequestStats

structure Metrics where
  counters : BTreeMap (StaticName counterNames) UInt64
  gauges : BTreeMap (StaticName gaugeNames) Int64
  timings : BTreeMap (StaticName stageNames) TimingStats
  http : BTreeMap HttpKey RequestStats
  thrift : BTreeMap ThriftKey RequestStats

namespace Metrics

/-- `Metrics::default`. -/
def new : Metrics := ⟨∅, ∅, ∅, ∅, ∅⟩

variable (F : Millis) (metrics : Metrics)

def add (name : StaticName counterNames) (value : UInt64) : Metrics :=
  { metrics with counters := metrics.counters.update name 0 (· + value) }

def increment (name : StaticName counterNames) : Metrics := metrics.add name 1

def setGauge (name : StaticName gaugeNames) (value : Int64) : Metrics :=
  { metrics with gauges := metrics.gauges.insert name value }

def observeDuration (stage : StaticName stageNames) (duration : Duration) : Metrics :=
  { metrics with
    timings := metrics.timings.update stage .new (.observe F (F.ofDuration duration)) }

def observeHttp (method route : String) (status : UInt16) (duration : Duration) : Metrics :=
  { metrics with
    http := metrics.http.update ⟨method, route, status⟩ .new (.observe F (F.ofDuration duration)) }

def observeThrift (method status : String) (duration : Duration) : Metrics :=
  { metrics with
    thrift := metrics.thrift.update ⟨method, status⟩ .new (.observe F (F.ofDuration duration)) }

end Metrics

/-- The calls of the registry. -/
inductive Observation where
  | add (name : StaticName counterNames) (value : UInt64)
  | setGauge (name : StaticName gaugeNames) (value : Int64)
  | duration (stage : StaticName stageNames) (duration : Duration)
  | http (method route : String) (status : UInt16) (duration : Duration)
  | thrift (method status : String) (duration : Duration)

def Metrics.observe (F : Millis) (metrics : Metrics) : Observation → Metrics
  | .add name value => metrics.add name value
  | .setGauge name value => metrics.setGauge name value
  | .duration stage duration => metrics.observeDuration F stage duration
  | .http method route status duration => metrics.observeHttp F method route status duration
  | .thrift method status duration => metrics.observeThrift F method status duration

def Metrics.observeAll (F : Millis) (metrics : Metrics) (observations : List Observation) :
    Metrics :=
  observations.foldl (observe F) metrics

/-! ## The Prometheus text -/

/-- `str::replace` of one character. -/
def replaceChar (c : Char) (text value : String) : String :=
  .ofList (value.toList.flatMap fun d => if d = c then text.toList else [d])

def escapeLabel (value : String) : String :=
  replaceChar '\n' "\\n" (replaceChar '"' "\\\x22" (replaceChar '\\' "\\\\" value))

def writeHelpType (name metricType : String) : String :=
  "# HELP " ++ name ++ " HarborSQL metric " ++ name ++ "\n" ++
  "# TYPE " ++ name ++ " " ++ metricType ++ "\n"

/-- The order of `&str`. -/
def strLe (a b : String) : Bool := ¬ b < a

namespace HttpKey

/-- The derived order: by method, then by route, then by status. -/
def le (a b : HttpKey) : Bool :=
  if a.method ≠ b.method then strLe a.method b.method
  else if a.route ≠ b.route then strLe a.route b.route
  else a.status ≤ b.status

/-- The text of the labels. -/
def labelsText (key : HttpKey) : String :=
  "\x7bmethod=\x22" ++ escapeLabel key.method ++ "\x22,route=\x22" ++ escapeLabel key.route ++
    "\x22,status=\x22" ++ toString key.status ++ "\x22\x7d"

end HttpKey

namespace ThriftKey

def le (a b : ThriftKey) : Bool :=
  if a.method ≠ b.method then strLe a.method b.method else strLe a.status b.status

def labelsText (key : ThriftKey) : String :=
  "\x7bmethod=\x22" ++ escapeLabel key.method ++ "\x22,status=\x22" ++ escapeLabel key.status ++
    "\x22\x7d"

end ThriftKey

namespace Metrics

variable (F : Millis) (metrics : Metrics)

def renderCounters : String :=
  .join ((metrics.counters.iter fun a b => strLe a.1 b.1).map fun (name, value) =>
    writeHelpType name.1 "counter" ++ (name.1 ++ " " ++ toString value ++ "\n"))

def renderGauges : String :=
  .join ((metrics.gauges.iter fun a b => strLe a.1 b.1).map fun (name, value) =>
    writeHelpType name.1 "gauge" ++ (name.1 ++ " " ++ toString value ++ "\n"))

def renderTimings : String :=
  (if metrics.timings.entries.isEmpty then "" else
    "# HELP harborsql_stage_duration_ms Query-stage duration in milliseconds\n" ++
    "# TYPE harborsql_stage_duration_ms summary\n") ++
  .join ((metrics.timings.iter fun a b => strLe a.1 b.1).map fun (stage, stats) =>
    let labels := "\x7bstage=\x22" ++ escapeLabel stage.1 ++ "\x22\x7d "
    "harborsql_stage_duration_ms_count" ++ labels ++ toString stats.count ++ "\n" ++
    "harborsql_stage_duration_ms_sum" ++ labels ++ F.fixed3 stats.sumMs ++ "\n")

/-- The three lines of one key of the HTTP or of the Thrift map. -/
def renderStats (total count sum labels : String) (stats : RequestStats) : String :=
  total ++ labels ++ " " ++ toString stats.count ++ "\n" ++
  count ++ labels ++ " " ++ toString stats.count ++ "\n" ++
  sum ++ labels ++ " " ++ F.fixed3 stats.sumMs ++ "\n"

def renderHttp : String :=
  (if metrics.http.entries.isEmpty then "" else
    "# HELP harborsql_http_requests_total HTTP requests by method, route, and status\n" ++
    "# TYPE harborsql_http_requests_total counter\n" ++
    "# HELP harborsql_http_request_duration_ms HTTP request duration in milliseconds\n" ++
    "# TYPE harborsql_http_request_duration_ms summary\n") ++
  .join ((metrics.http.iter HttpKey.le).map fun (key, stats) =>
    renderStats F "harborsql_http_requests_total" "harborsql_http_request_duration_ms_count"
      "harborsql_http_request_duration_ms_sum" key.labelsText stats)

def renderThrift : String :=
  (if metrics.thrift.entries.isEmpty then "" else
    "# HELP harborsql_thrift_rpcs_total Thrift RPCs by method and status\n" ++
    "# TYPE harborsql_thrift_rpcs_total counter\n" ++
    "# HELP harborsql_thrift_rpc_duration_ms Thrift RPC duration in milliseconds\n" ++
    "# TYPE harborsql_thrift_rpc_duration_ms summary\n") ++
  .join ((metrics.thrift.iter ThriftKey.le).map fun (key, stats) =>
    renderStats F "harborsql_thrift_rpcs_total" "harborsql_thrift_rpc_duration_ms_count"
      "harborsql_thrift_rpc_duration_ms_sum" key.labelsText stats)

def renderPrometheus : String :=
  metrics.renderCounters ++ metrics.renderGauges ++ metrics.renderTimings F ++
    metrics.renderHttp F ++ metrics.renderThrift F

end Metrics

end HarborSql
