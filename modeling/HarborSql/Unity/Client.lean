import Mathlib.Algebra.Group.Int.Defs
import Mathlib.Algebra.Group.Nat.Defs
import HarborSql.Error
import HarborSql.Theory.BTreeMap
import HarborSql.Theory.UrlQuery
import HarborSql.Unity

/-! The Unity Catalog client (`unity.rs`), against any network that answers its requests. -/

namespace HarborSql

/-! ## Messages -/

inductive HttpMethod where
  | get
  | post
  deriving DecidableEq

/-- A request with its bearer token and its JSON body. -/
structure HttpRequest where
  method : HttpMethod
  url : String
  bearer : String
  body : Option Json

/-- A response with the bytes of its body, which may fail to arrive. -/
structure HttpResponse where
  status : UInt16
  body : Except String (List UInt8)

/-- What answers a request, given those that were sent before. A request that cannot be built or
sent is answered with an error. -/
abbrev Network := List HttpRequest → HttpRequest → Except String HttpResponse

/-- The functions of other crates that the client relies on. -/
structure UnityCrates where
  /-- `urlencoding::encode`. -/
  encode : String → String
  encode_eq : ∀ s, (encode s).toList = UrlText.encodeComponent s.toList
  /-- `serde_json::from_slice`, before the values are read. An object has the members of the
  text, in its order and with its repetitions. -/
  parse : List UInt8 → Option Json
  /-- The error of a response that is not the JSON text of what is read. -/
  decodeError : String
  /-- The text of a body. -/
  lossy : List UInt8 → String
  /-- `Display` of a status. -/
  statusText : UInt16 → String
  /-- The regular expressions of `redact_sensitive`. -/
  redactSensitive : String → String

/-! ## Errors (`error.rs`) -/

/-- The longest prefix of whole characters within a number of bytes. -/
def fitBytes : Nat → List Char → List Char
  | _, [] => []
  | n, c :: cs => if c.utf8Size ≤ n then c :: fitBytes (n - c.utf8Size) cs else []

def truncate (value : String) (maxLen : Nat) : String :=
  if value.utf8ByteSize ≤ maxLen then value
  else String.ofList (fitBytes maxLen value.toList) ++ "..."

def redactAndTruncate (crates : UnityCrates) (value : String) (maxLen : Nat) : String :=
  truncate (crates.redactSensitive value) maxLen

/-! ## Reading of JSON -/

namespace Json

def asI64 : Json → Option Int64
  | number (.posInt n) => if n.toNat < 2 ^ 63 then some (Int64.ofNat n.toNat) else none
  | number (.negInt n) => some n
  | _ => none

def asI32 (value : Json) : Option Int32 := do
  let n ← value.asI64
  if -2 ^ 31 ≤ n.toInt ∧ n.toInt < 2 ^ 31 then some (Int32.ofInt n.toInt) else none

def asBool : Json → Option Bool
  | bool b => some b
  | _ => none

def asList {α : Type} (read : Json → Option α) (value : Json) : Option (List α) := do
  (← value.asArray).mapM read

mutual

/-- `Value`: the last one of the members with a key stays. -/
def value : Json → Json
  | array items => array (valueItems items)
  | object fields => object (BTreeMap.iter (fun a b => a ≤ b) (valueFields fields ∅))
  | other => other

def valueItems : List Json → List Json
  | [] => []
  | item :: items => item.value :: valueItems items

def valueFields : List (String × Json) → BTreeMap String Json → BTreeMap String Json
  | [], m => m
  | (key, field) :: fields, m => valueFields fields (m.insert key field.value)

end

/-- What a record is read from: the members of an object, or the items of an array. -/
inductive Record where
  | members (members : List (String × Json))
  | items (items : List Json)

/-- The record of the fields of these names. None of them is repeated. -/
def record (names : List String) : Json → Option Record
  | object members =>
    if ((members.map Prod.fst).filter (· ∈ names)).Nodup then some (.members members) else none
  | array items => if items.length ≤ names.length then some (.items items) else none
  | _ => none

namespace Record

variable {α : Type}

def required (name : String) (index : Nat) (read : Json → Option α) : Record → Option α
  | members fields => (fields.lookup name).bind read
  | items values => values[index]?.bind read

/-- A field of type `Option`, which is `None` if an object is without it. -/
def optional (name : String) (index : Nat) (read : Json → Option α) : Record → Option (Option α)
  | members fields => (fields.lookup name).elim (some none) nullable
  | items values => values[index]?.bind nullable
where
  nullable (value : Json) : Option (Option α) :=
    if value.isNull then some none else (read value).map some

/-- A field with `#[serde(default)]`. -/
def defaulted (name : String) (index : Nat) (default : α) (read : Json → Option α) :
    Record → Option α
  | members fields => (fields.lookup name).elim (some default) read
  | items values => values[index]?.elim (some default) read

end Record
end Json

/-! ## Records -/

open Json (asStr asI32 asI64 asBool asList)

structure DatabricksError where
  errorCode : Option String
  message : String

def DatabricksError.read (value : Json) : Option DatabricksError := do
  let r ← value.record ["error_code", "message"]
  return { errorCode := ← r.optional "error_code" 0 asStr
           message := ← r.required "message" 1 asStr }

def ColumnInfo.read (value : Json) : Option ColumnInfo := do
  let r ← value.record ["name", "position", "type_name", "type_text", "type_precision",
    "type_scale", "nullable", "comment"]
  return { name := ← r.required "name" 0 asStr
           position := ← r.optional "position" 1 asI32
           typeName := ← r.optional "type_name" 2 asStr
           typeText := ← r.optional "type_text" 3 asStr
           typePrecision := ← r.optional "type_precision" 4 asI32
           typeScale := ← r.optional "type_scale" 5 asI32
           nullable := ← r.optional "nullable" 6 asBool
           comment := ← r.optional "comment" 7 asStr }

def TableInfo.read (value : Json) : Option TableInfo := do
  let r ← value.record ["table_id", "full_name", "name", "catalog_name", "schema_name",
    "table_type", "data_source_format", "storage_location", "comment", "owner", "created_at",
    "created_by", "updated_at", "updated_by", "columns"]
  return { tableId := ← r.optional "table_id" 0 asStr
           fullName := ← r.required "full_name" 1 asStr
           name := ← r.optional "name" 2 asStr
           catalogName := ← r.optional "catalog_name" 3 asStr
           schemaName := ← r.optional "schema_name" 4 asStr
           tableType := ← r.optional "table_type" 5 asStr
           dataSourceFormat := ← r.optional "data_source_format" 6 asStr
           storageLocation := ← r.optional "storage_location" 7 asStr
           comment := ← r.optional "comment" 8 asStr
           owner := ← r.optional "owner" 9 asStr
           createdAt := ← r.optional "created_at" 10 asI64
           createdBy := ← r.optional "created_by" 11 asStr
           updatedAt := ← r.optional "updated_at" 12 asI64
           updatedBy := ← r.optional "updated_by" 13 asStr
           columns := ← r.defaulted "columns" 14 [] (asList ColumnInfo.read) }

def CatalogInfo.read (value : Json) : Option CatalogInfo := do
  let r ← value.record ["name", "catalog_type"]
  return { name := ← r.required "name" 0 asStr
           catalogType := ← r.optional "catalog_type" 1 asStr }

def SchemaInfo.read (value : Json) : Option SchemaInfo := do
  let r ← value.record ["name", "full_name"]
  return { name := ← r.required "name" 0 asStr
           fullName := ← r.optional "full_name" 1 asStr }

/-- A page of a listing. -/
structure Page (α : Type) where
  items : List α
  nextPageToken : Option String

/-- `ListCatalogsResponse` and the like. -/
def Page.read {α : Type} (name : String) (read : Json → Option α) (value : Json) :
    Option (Page α) := do
  let r ← value.record [name, "next_page_token"]
  return { items := ← r.defaulted name 0 [] (asList read)
           nextPageToken := ← r.optional "next_page_token" 1 asStr }

def listCatalogsResponse : Json → Option (Page CatalogInfo) := Page.read "catalogs" CatalogInfo.read

def listSchemasResponse : Json → Option (Page SchemaInfo) := Page.read "schemas" SchemaInfo.read

def listTablesResponse : Json → Option (Page TableInfo) := Page.read "tables" TableInfo.read

def AwsTempCredentials.read (value : Json) : Option AwsTempCredentials := do
  let r ← value.record ["access_key_id", "secret_access_key", "session_token"]
  return { accessKeyId := ← r.required "access_key_id" 0 asStr
           secretAccessKey := ← r.required "secret_access_key" 1 asStr
           sessionToken := ← r.required "session_token" 2 asStr }

def TemporaryTableCredentials.read (value : Json) : Option TemporaryTableCredentials := do
  let r ← value.record ["aws_temp_credentials", "expiration_time", "url"]
  return { awsTempCredentials := ← r.required "aws_temp_credentials" 0 AwsTempCredentials.read
           expirationTime := ← r.required "expiration_time" 1 asI64
           url := ← r.required "url" 2 asStr }

/-! ## Calls -/

section

variable (crates : UnityCrates) {α : Type}

def appendPageToken (url : String) : Option String → String
  | none => url
  | some pageToken => url ++ "&page_token=" ++ crates.encode pageToken

/-- The error that a response without success reports. -/
def responseError (status : UInt16) (body : String) : HarborError :=
  match (crates.parse body.toUTF8.data.toList).bind DatabricksError.read with
  | some err =>
    let code := err.errorCode.getD (crates.statusText status)
    .unity (redactAndTruncate crates s!"{code}: {err.message}" 600)
  | none =>
    let detail := s!"HTTP {crates.statusText status} from Unity Catalog: {body}"
    .unity (redactAndTruncate crates detail 600)

def decodeResponse (read : Json → Option α) (response : HttpResponse) : Except HarborError α :=
  if 200 ≤ response.status ∧ response.status < 300 then
    match response.body with
    | .error err => .error (.http err)
    | .ok bytes =>
      match (crates.parse bytes).bind read with
      | some value => .ok value
      | none => .error (.http crates.decodeError)
  else
    let body : String := match response.body with
      | .error _ => ""
      | .ok bytes => crates.lossy bytes
    .error (responseError crates response.status body)

end

/-- The client with what it calls. -/
structure UnityCatalogClient where
  crates : UnityCrates
  host : String

/-- The result of a call, and the requests that are sent when it ends. -/
abbrev Sent (α : Type) := Except HarborError α × List HttpRequest

namespace UnityCatalogClient

variable (client : UnityCatalogClient) (network : Network) {α : Type}

def send (request : HttpRequest) (read : Json → Option α) (sent : List HttpRequest) : Sent α :=
  (((network sent request).mapError .http).bind (decodeResponse client.crates read),
    sent ++ [request])

def get (read : Json → Option α) (bearerToken url : String) : List HttpRequest → Sent α :=
  client.send network { method := .get, url, bearer := bearerToken, body := none } read

def post (read : Json → Option α) (bearerToken url : String) (body : Json) :
    List HttpRequest → Sent α :=
  client.send network { method := .post, url, bearer := bearerToken, body := some body } read

/-- The loop of a listing, for a number of requests. It is not over if there is no result. -/
def list (read : Json → Option (Page α)) (bearerToken url : String) :
    Nat → List α → Option String → List HttpRequest → Sent (Option (List α))
  | 0, _, _, sent => (.ok none, sent)
  | n + 1, collected, pageToken, sent =>
    match client.get network read bearerToken (appendPageToken client.crates url pageToken) sent with
    | (.error err, sent) => (.error err, sent)
    | (.ok response, sent) =>
      let collected := collected ++ response.items
      match response.nextPageToken.filter (· ≠ "") with
      | none => (.ok (some collected), sent)
      | some nextPageToken => list read bearerToken url n collected (some nextPageToken) sent

def catalogs (bearerToken : String) (n : Nat) :
    List HttpRequest → Sent (Option (List CatalogInfo)) :=
  client.list network listCatalogsResponse bearerToken
    s!"{client.host}/api/2.1/unity-catalog/catalogs?max_results=0" n [] none

def schemas (bearerToken catalogName : String) (n : Nat) :
    List HttpRequest → Sent (Option (List SchemaInfo)) :=
  let encodedCatalog := client.crates.encode catalogName
  client.list network listSchemasResponse bearerToken
    s!"{client.host}/api/2.1/unity-catalog/schemas?catalog_name={encodedCatalog}&max_results=0" n [] none

def tables (bearerToken catalogName schemaName : String) (n : Nat) :
    List HttpRequest → Sent (Option (List TableInfo)) :=
  let encodedCatalog := client.crates.encode catalogName
  let encodedSchema := client.crates.encode schemaName
  client.list network listTablesResponse bearerToken
    (s!"{client.host}/api/2.1/unity-catalog/tables?catalog_name={encodedCatalog}" ++
      s!"&schema_name={encodedSchema}&max_results=0" ++
      "&omit_columns=true&omit_properties=true&omit_username=false") n [] none

/-- The URL of a table. -/
def tableUrl (fullName : String) : String :=
  s!"{client.host}/api/2.1/unity-catalog/tables/{client.crates.encode fullName}" ++
    "?include_delta_metadata=true&include_manifest_capabilities=true"

def table (bearerToken fullName : String) : List HttpRequest → Sent TableInfo :=
  client.get network TableInfo.read bearerToken (client.tableUrl fullName)

def tableDetails (bearerToken fullName : String) : List HttpRequest → Sent Json :=
  client.get network (fun value => some value.value) bearerToken (client.tableUrl fullName)

def tableCredentials (bearerToken tableId operation : String) :
    List HttpRequest → Sent TemporaryTableCredentials :=
  client.post network TemporaryTableCredentials.read bearerToken
    s!"{client.host}/api/2.1/unity-catalog/temporary-table-credentials"
    (.object [("table_id", .string tableId), ("operation", .string operation)])

def temporaryTableCredentials (bearerToken tableId : String) :
    List HttpRequest → Sent TemporaryTableCredentials :=
  client.tableCredentials network bearerToken tableId "READ"

def createPathCredentials (bearerToken location : String) :
    List HttpRequest → Sent TemporaryTableCredentials :=
  client.post network TemporaryTableCredentials.read bearerToken
    s!"{client.host}/api/2.1/unity-catalog/temporary-path-credentials"
    (.object [("operation", .string "PATH_CREATE_TABLE"), ("url", .string location)])

def createExternalTable (bearerToken : String) (request : Json) :
    List HttpRequest → Sent TableInfo :=
  client.post network TableInfo.read bearerToken
    s!"{client.host}/api/2.1/unity-catalog/tables" request

end UnityCatalogClient
end HarborSql
