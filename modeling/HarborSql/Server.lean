import HarborSql.Observability
import HarborSql.Thrift.Requests

/-! What the server tells the metrics registry about the requests of its clients: the middleware
of `server.rs`, and `handle` of the Thrift service (`thrift.rs`). -/

namespace HarborSql

/-- The label of a path: the route that serves it. -/
def routeLabel (path : String) : String :=
  if path = "/healthz" then "/healthz"
  else if path = "/metrics" then "/metrics"
  else if path = "/api/v1/query" then "/api/v1/query"
  else if "/api/2.0/connector-service/feature-flags/PYTHON/".toList.isPrefixOf path.toList then
    "/api/2.0/connector-service/feature-flags/PYTHON/\x7bversion\x7d"
  else if "/api/2.0/sql/history/queries/".toList.isPrefixOf path.toList then
    "/api/2.0/sql/history/queries/\x7bquery_id\x7d"
  else "/\x7b*path\x7d"

/-- `record_http_metrics`, once the response of the request is there. -/
def recordHttpMetrics (F : Millis) (method path : String) (status : UInt16) (elapsed : Duration)
    (metrics : Metrics) : Metrics :=
  metrics.observeHttp F method (routeLabel path) status elapsed

theorem responseBytesTotal_mem : "harborsql_thrift_response_bytes_total" ∈ counterNames := by
  decide

/-- `ThriftService::handle`, once `handle_decoded` has returned a response or, with `none`, an
error. -/
def handle (F : Millis) (body : Bytes) (result : Option Bytes) (elapsed : Duration)
    (metrics : Metrics) : Metrics :=
  match (decodeMessage.run (.new body)).1 with
  | .error _ => metrics.observeThrift F "decode" "error" elapsed
  | .ok message =>
    let metrics := metrics.observeThrift F message.name (if result.isSome then "ok" else "error")
      elapsed
    match result with
    | some response =>
      metrics.add ⟨"harborsql_thrift_response_bytes_total", responseBytesTotal_mem⟩
        (.ofNat response.length)
    | none => metrics

/-- What happens to the registry while the server runs: a request of a client, with the answer it
got, or one of the other calls, whose names are all static. -/
inductive ServerEvent where
  | http (method path : String) (status : UInt16) (elapsed : Duration)
  | thrift (body : Bytes) (result : Option Bytes) (elapsed : Duration)
  | add (name : StaticName counterNames) (value : UInt64)
  | setGauge (name : StaticName gaugeNames) (value : Int64)
  | duration (stage : StaticName stageNames) (elapsed : Duration)

def Metrics.record (F : Millis) (metrics : Metrics) : ServerEvent → Metrics
  | .http method path status elapsed => recordHttpMetrics F method path status elapsed metrics
  | .thrift body result elapsed => handle F body result elapsed metrics
  | .add name value => metrics.add name value
  | .setGauge name value => metrics.setGauge name value
  | .duration stage elapsed => metrics.observeDuration F stage elapsed

def Metrics.recordAll (F : Millis) (metrics : Metrics) (events : List ServerEvent) : Metrics :=
  events.foldl (record F) metrics

end HarborSql
