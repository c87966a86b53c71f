/-! The errors of the service, and what a client is told of them (`error.rs`). -/

namespace HarborSql

/-- `HarborError`. The errors of other crates are kept as their text. -/
inductive HarborError where
  | config (message : String)
  | missingBearerToken
  | unsupportedSql (message : String)
  | unity (message : String)
  | query (message : String)
  | unsupportedResultType (message : String)
  | thrift (message : String)
  | http (source : String)
  | url (source : String)
  | delta (source : String)
  | dataFusion (source : String)
  | arrowJson (source : String)
  | json (source : String)
  | logger (source : String)
  | io (source : String)
  deriving DecidableEq, Repr

/-- `Display`. -/
def HarborError.toString : HarborError → String
  | config message => s!"configuration error: {message}"
  | missingBearerToken => "authorization header is missing or is not a bearer token"
  | unsupportedSql message => s!"unsupported SQL for MVP: {message}"
  | unity message => s!"Unity Catalog error: {message}"
  | query message => s!"query execution error: {message}"
  | unsupportedResultType message => s!"unsupported result type: {message}"
  | thrift message => s!"Databricks Thrift protocol error: {message}"
  | http source => s!"HTTP client error: {source}"
  | url source => s!"URL error: {source}"
  | delta source => s!"Delta error: {source}"
  | dataFusion source => s!"DataFusion error: {source}"
  | arrowJson source => s!"Arrow JSON error: {source}"
  | json source => s!"JSON error: {source}"
  | logger source => s!"logger setup error: {source}"
  | io source => s!"I/O error: {source}"

/-- The HTTP status. -/
def HarborError.statusCode : HarborError → Nat
  | missingBearerToken => 401
  | config _ | unsupportedSql _ | thrift _ => 400
  | unity _ => 502
  | query _ | unsupportedResultType _ | delta _ | dataFusion _ | arrowJson _ => 422
  | http _ | url _ | json _ | logger _ | io _ => 500

structure ClientError where
  code : String
  message : String
  deriving DecidableEq, Repr

namespace ClientError

def internal : ClientError := ⟨"INTERNAL_ERROR", "internal server error"⟩

def statusMessage (e : ClientError) : String := e.code ++ ": " ++ e.message

end ClientError

/-- The part of an error that a client may see. -/
def HarborError.clientError : HarborError → ClientError
  | config _ => ⟨"CONFIG_INVALID", "invalid configuration"⟩
  | missingBearerToken => ⟨"UNAUTHORIZED", "missing bearer token"⟩
  | unsupportedSql _ => ⟨"UNSUPPORTED_SQL", "unsupported SQL"⟩
  | unity _ => ⟨"UNITY_CATALOG_ERROR", "Unity Catalog request failed"⟩
  | query _ => ⟨"QUERY_FAILED", "query execution failed"⟩
  | unsupportedResultType _ => ⟨"UNSUPPORTED_RESULT_TYPE", "unsupported result column type"⟩
  | thrift _ => ⟨"THRIFT_PROTOCOL_ERROR", "invalid Thrift request"⟩
  | http _ => ⟨"UPSTREAM_HTTP_ERROR", "upstream HTTP request failed"⟩
  | url _ => ⟨"INVALID_URL", "invalid URL"⟩
  | delta _ => ⟨"DELTA_TABLE_ERROR", "Delta table operation failed"⟩
  | dataFusion _ => ⟨"DATAFUSION_ERROR", "query planning or execution failed"⟩
  | arrowJson _ => ⟨"RESULT_ENCODING_ERROR", "result encoding failed"⟩
  | json _ => ⟨"JSON_ERROR", "JSON processing failed"⟩
  | logger _ | io _ => .internal

end HarborSql
