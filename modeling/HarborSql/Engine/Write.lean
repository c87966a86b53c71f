import Mathlib.Data.List.Infix
import HarborSql.Theory.Async
import HarborSql.Arrow
import HarborSql.Error
import HarborSql.Formatting
import HarborSql.TableCache
import HarborSql.Text
import HarborSql.Unity

/-! `CREATE OR REPLACE TABLE .. USING DELTA LOCATION .. AS ..` (`engine/write.rs`). -/

namespace HarborSql

/-- The target. The query is planned before. -/
structure Ctas where
  catalog : String
  schema : String
  table : String
  location : String

/-- `ctas.name.join(".")`. -/
def Ctas.fullName (ctas : Ctas) : String := s!"{ctas.catalog}.{ctas.schema}.{ctas.table}"

def unsupported (message : String) : HarborError := .unsupportedSql message

/-! ## Other crates -/

/-- A `url::Url`. -/
structure Url where
  scheme : String
  username : String
  password : Option String
  hostStr : Option String
  path : String
  query : Option String
  fragment : Option String

/-- A `DeltaTable` as its builder makes it: where it is, and the options of its storage. -/
structure DeltaTable where
  url : Url
  storageOptions : List (String × String)

/-- A `DeltaTableError`: its text, and whether it is a `NotATable`. -/
structure DeltaTableError where
  notATable : Bool
  source : String

inductive SaveMode where
  | overwrite | errorIfExists
  deriving DecidableEq

structure DataFrame (P : Type) where
  /-- The names and the types of the columns. -/
  schema : List (String × DataType)
  logicalPlan : P

/-- The functions of other crates that a write relies on, and the registry of the routes. -/
structure WriteCrates where
  formatting : Formatting
  /-- `str::to_lowercase`. -/
  toLowercase : String → String
  parseUrl : String → Except String Url
  /-- Whether the builder accepts the location of a table. -/
  buildTable : DeltaTable → Except String Unit
  /-- `ObjectPath::from_url_path`. -/
  objectPath : String → Except String String
  /-- The store of a table is recorded among the routes of the query, which are registered with
  its context. -/
  recordStore : Url → String → DeltaTable → Except HarborError Unit
  /-- The regular expressions of `redact_sensitive`. -/
  redactSensitive : String → String

/-! ## Locations -/

def trimEndSlashes (s : String) : List Char := trimEndMatches (· = '/') s.toList

def validateLocation (crates : WriteCrates) (location : String) : Except HarborError Url := do
  let url ← (crates.parseUrl location).mapError .url
  if url.scheme ≠ "s3" ∨ url.hostStr.isNone ∨ trimMatches (· = '/') url.path.toList = [] ∨
      url.query.isSome ∨ url.fragment.isSome ∨ url.username ≠ "" ∨ url.password.isSome ∨ '%' ∈ url.path.toList ∨
      ['/', '/'] <:+: url.path.toList ∨
      (location.toList.splitOn '/').any (fun part => part = ['.'] ∨ part = ['.', '.']) then
    throw (unsupported "external CTAS requires an unambiguous s3://bucket/table-prefix LOCATION")
  return url

/-- `table_object_store_route` (`engine/catalog.rs`). -/
def tableObjectStoreRoute (crates : WriteCrates) (tableUrl : String) :
    Except HarborError (Url × String) := do
  let parsed ← (crates.parseUrl tableUrl).mapError .url
  if parsed.hostStr.isNone then
    throw (.query s!"table storage URL has no host: {tableUrl}")
  let objectPrefix ← (crates.objectPath parsed.path).mapError fun err =>
    .query s!"invalid table storage path: {err}"
  return ({ parsed with path := "", query := none, fragment := none }, objectPrefix)

/-- `storage_options` (`engine/catalog.rs`). -/
def storageOptions (credentials : TemporaryTableCredentials) (awsRegion : String) :
    List (String × String) :=
  [("AWS_ACCESS_KEY_ID", credentials.awsTempCredentials.accessKeyId),
    ("AWS_SECRET_ACCESS_KEY", credentials.awsTempCredentials.secretAccessKey),
    ("AWS_SESSION_TOKEN", credentials.awsTempCredentials.sessionToken),
    ("AWS_REGION", awsRegion)]

/-! ## Columns -/

/-- The Unity name of the type of a column, and its text. -/
def unityType (F : Formatting) : DataType → Except HarborError (String × String)
  | .int8 => return ("BYTE", "tinyint")
  | .int16 => return ("SHORT", "smallint")
  | .int32 => return ("INT", "int")
  | .int64 => return ("LONG", "bigint")
  | .float32 => return ("FLOAT", "float")
  | .float64 => return ("DOUBLE", "double")
  | .boolean => return ("BOOLEAN", "boolean")
  | .utf8 | .largeUtf8 | .utf8View => return ("STRING", "string")
  | .date32 => return ("DATE", "date")
  | .timestamp _ none => return ("TIMESTAMP_NTZ", "timestamp_ntz")
  | .timestamp _ (some _) => return ("TIMESTAMP", "timestamp")
  | .decimal128 p s => return ("DECIMAL", s!"decimal({p.toNat},{s.toInt})")
  | other => throw (unsupported s!"CTAS Unity column type not supported: {F.dataTypeToString other}")

/-- The type of a column as it is written in its `type_json`. -/
def jsonType (name text : String) : String :=
  match name with
  | "BYTE" => "byte"
  | "SHORT" => "short"
  | "INT" => "integer"
  | "LONG" => "long"
  | _ => text

/-- The fields are in the order of their keys. -/
def unityColumn (F : Formatting) (position : Nat) (name : String) (dataType : DataType) :
    Except HarborError Json := do
  let (typeName, text) ← unityType F dataType
  let typeJson := "\x7b\"metadata\":\x7b\x7d,\"name\":" ++ jsonString name ++
    ",\"nullable\":true,\"type\":" ++ jsonString (jsonType typeName text) ++ "\x7d"
  return .object [("name", .string name), ("nullable", .bool true),
    ("position", .number (.posInt (.ofNat position))), ("type_json", .string typeJson),
    ("type_name", .string typeName), ("type_text", .string text)]

def unityColumns (F : Formatting) (schema : List (String × DataType)) :
    Except HarborError (List Json) :=
  schema.zipIdx.mapM fun ((name, dataType), position) => unityColumn F position name dataType

def validateExisting (crates : WriteCrates) (details : Json) (location : String)
    (columns : List Json) : Except HarborError Unit := do
  if details.index "table_type" != .string "EXTERNAL" ∨
      details.index "data_source_format" != .string "DELTA" ∨
      (details.index "storage_location").asStr.map trimEndSlashes ≠ some (trimEndSlashes location) then
    throw (unsupported ("replacement requires an existing EXTERNAL DELTA table at exactly the " ++
      "requested LOCATION"))
  if !(details.index "row_filter").isNull ∨
      (details.index "columns").asArray.any (fun cols => cols.any fun c => !(c.index "mask").isNull)
      then
    throw (unsupported "replacing tables with row filters or column masks is not supported")
  let some old := (details.index "columns").asArray |
    throw (unsupported "Unity target is missing columns")
  if old.length ≠ columns.length ∨ (old.zip columns).any (fun (a, b) =>
      a.index "name" != b.index "name" ||
        (a.index "type_text").asStr.map crates.toLowercase !=
          (b.index "type_text").asStr.map crates.toLowercase) then
    throw (unsupported "CTAS replacement currently requires unchanged column names and types")

/-! ## The write -/

/-- The calls that `execute_ctas` awaits. -/
inductive CtasCall (P : Type) where
  | tables (token catalog schema : String)
  | tableDetails (token fullName : String)
  | writeCredentials (token tableId : String)
  | createPathCredentials (token location : String)
  | load (table : DeltaTable)
  | write (table : DeltaTable) (inputPlan : P) (mode : SaveMode)
  | createExternalTable (token : String) (request : Json)

abbrev CtasCall.Answer {P : Type} : CtasCall P → Type
  | tables .. => Except HarborError (List TableInfo)
  | tableDetails .. => Except HarborError Json
  | writeCredentials .. | createPathCredentials .. => Except HarborError TemporaryTableCredentials
  | load _ | write .. => Except DeltaTableError Unit
  | createExternalTable .. => Except HarborError TableInfo

structure InvalidateOnDrop where
  name : String

/-- The lock of the cache is never poisoned. -/
def InvalidateOnDrop.drop {F τ : Type} (guard : InvalidateOnDrop) (cache : CacheState F τ) :
    CacheState F τ := cache.invalidateTable guard.name

open AsyncM (awaitCall withGuard liftResult)

abbrev CtasM (P : Type) := AsyncM (CtasCall P) CtasCall.Answer InvalidateOnDrop HarborError

section
variable {P : Type}

namespace CtasM

def tables (token catalog schema : String) : CtasM P (List TableInfo) := do
  liftResult (← awaitCall (.tables token catalog schema))

def tableDetails (token fullName : String) : CtasM P Json := do
  liftResult (← awaitCall (.tableDetails token fullName))

def writeCredentials (token tableId : String) : CtasM P TemporaryTableCredentials := do
  liftResult (← awaitCall (.writeCredentials token tableId))

def createPathCredentials (token location : String) : CtasM P TemporaryTableCredentials := do
  liftResult (← awaitCall (.createPathCredentials token location))

def load (table : DeltaTable) : CtasM P (Except DeltaTableError Unit) :=
  awaitCall (E := CtasCall P) (.load table)

def write (table : DeltaTable) (inputPlan : P) (mode : SaveMode) :
    CtasM P (Except DeltaTableError Unit) :=
  awaitCall (E := CtasCall P) (.write table inputPlan mode)

def createExternalTable (token : String) (request : Json) :
    CtasM P (Except HarborError TableInfo) :=
  awaitCall (E := CtasCall P) (.createExternalTable token request)

end CtasM

variable (crates : WriteCrates) (awsRegion token : String) (ctas : Ctas)

/-- What is asked of Unity to register the table. -/
def externalTable (columns : List Json) : Json :=
  .object [("catalog_name", .string ctas.catalog), ("columns", .array columns),
    ("data_source_format", .string "DELTA"), ("name", .string ctas.table),
    ("schema_name", .string ctas.schema), ("storage_location", .string ctas.location),
    ("table_type", .string "EXTERNAL")]

open CtasM

/-- The credentials for the target: those of the table that is replaced, or those of a new path. -/
def ctasCredentials (columns : List Json) (existing : Bool) : CtasM P TemporaryTableCredentials :=
  if existing then do
    let details ← tableDetails token ctas.fullName
    liftResult (validateExisting crates details ctas.location columns)
    match (details.index "table_id").asStr with
    | some id => writeCredentials token id
    | none => throw (unsupported "Unity target is missing table_id")
  else createPathCredentials token ctas.location

def checkCredentialUrl (credentials : TemporaryTableCredentials) : Except HarborError Unit :=
  if trimEndSlashes credentials.url ≠ trimEndSlashes ctas.location then
    throw (unsupported "Unity write credential URL does not match CTAS LOCATION")
  else return

/-- What the storage has to say of the target. -/
def checkLoaded (existing : Bool) : Except DeltaTableError Unit → Except HarborError Unit
  | .ok () =>
    if existing then return
    else throw (unsupported ("CTAS location already contains an unregistered Delta table; recover " ++
      "registration explicitly before retrying"))
  | .error e => if e.notATable && !existing then return else throw (.delta e.source)

def QueryEngine.executeCtas (dataframe : DataFrame P) : CtasM P Unit := do
  let listed ← tables token ctas.catalog ctas.schema
  let existing := listed.any fun t => t.name.any (eqIgnoreAsciiCase · ctas.table)
  let columns ← liftResult (unityColumns crates.formatting dataframe.schema)
  let credentials ← ctasCredentials crates token ctas columns existing
  liftResult (checkCredentialUrl ctas credentials)
  let url ← liftResult (validateLocation crates ctas.location)
  let table : DeltaTable := ⟨url, storageOptions credentials awsRegion⟩
  liftResult ((crates.buildTable table).mapError .delta)
  let loaded ← load table
  liftResult (checkLoaded existing loaded)
  let mode := if existing then .overwrite else .errorIfExists
  let (storeUrl, objectPrefix) ← liftResult (tableObjectStoreRoute crates ctas.location)
  liftResult (crates.recordStore storeUrl objectPrefix table)
  withGuard ⟨ctas.fullName⟩ do
    let written ← write table dataframe.logicalPlan mode
    liftResult (written.mapError fun e => .delta e.source)
    if !existing then do
      let registered ← createExternalTable token (externalTable ctas columns)
      let _ ← liftResult (registered.mapError fun e => .query ("Delta data committed but Unity " ++
        "registration failed; do not delete the data; recover registration before retrying: " ++
        crates.redactSensitive e.toString))
      return
    else return

end
end HarborSql
