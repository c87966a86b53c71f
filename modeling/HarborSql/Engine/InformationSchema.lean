import HarborSql.Engine.Metadata

/-! The relations of `information_schema` (`engine/information_schema.rs`). -/

namespace HarborSql.InformationSchema

/-- The values of the cells. A floating-point number is given by its bits. -/
inductive Scalar where
  | utf8 (value : Option String)
  | boolean (value : Option Bool)
  | int8 (value : Option Int8)
  | int16 (value : Option Int16)
  | int32 (value : Option Int32)
  | int64 (value : Option Int64)
  | float32 (bits : Option UInt32)
  | float64 (bits : Option UInt64)
  | date32 (value : Option Int32)
  | timestampMillisecond (value : Option Int64)
  deriving DecidableEq

/-- A row by the names of its columns, which are distinct. -/
abbrev SystemRow := List (String × Scalar)

def SystemRow.get (row : SystemRow) (column : String) : Option Scalar :=
  (row.find? fun cell => cell.1 = column).map (·.2)

def string (value : String) : Scalar := .utf8 (some value)

def nullableString (value : Option String) : Scalar := .utf8 value

def nullString : Scalar := .utf8 none

def timestampMillis (value : Option Int64) : Scalar := .timestampMillisecond value

/-! ## Filters -/

/-- A literal, with the types of text told apart. -/
inductive Literal where
  | utf8 (value : Option String)
  | utf8View (value : Option String)
  | largeUtf8 (value : Option String)
  | other (text : String)

inductive Operator where
  | and
  | eq
  | other (text : String)

/-- `logical_expr::Expr`. The name of a column is without the relation that qualifies it. -/
inductive Expr where
  | column (name : String)
  | literal (value : Literal)
  | binary (left : Expr) (op : Operator) (right : Expr)
  | other (text : String)

def stringLiteral : Expr → Option String
  | .literal (.utf8 value) | .literal (.utf8View value) | .literal (.largeUtf8 value) => value
  | _ => none

def equalityFilter (left right : Expr) : Option (String × String) :=
  match left with
  | .column column => (stringLiteral right).map fun value => (column, value)
  | _ => none

/-- The values that the filters of a scan admit, in lower case. -/
structure MetadataFilters where
  catalogs : Option (List String)
  schemas : Option (List String)
  tables : Option (List String)
  columns : Option (List String)

namespace MetadataFilters

def admits (values : Option (List String)) (value : String) : Bool :=
  values.all fun values => toAsciiLowercase value ∈ values

def empty : MetadataFilters := ⟨none, none, none, none⟩

def insertFilterValue (filters : Option (List String)) (value : String) : Option (List String) :=
  some (toAsciiLowercase value :: filters.getD [])

variable (filters : MetadataFilters)

def add (column value : String) : MetadataFilters :=
  match toAsciiLowercase column with
  | "catalog_name" | "table_catalog" =>
    { filters with catalogs := insertFilterValue filters.catalogs value }
  | "schema_name" | "table_schema" =>
    { filters with schemas := insertFilterValue filters.schemas value }
  | "table_name" => { filters with tables := insertFilterValue filters.tables value }
  | "column_name" => { filters with columns := insertFilterValue filters.columns value }
  | _ => filters

def collect (filters : MetadataFilters) : Expr → MetadataFilters
  | .binary left .and right => (filters.collect left).collect right
  | .binary left .eq right =>
    match equalityFilter left right, equalityFilter right left with
    | some (column, value), _ => filters.add column value
    | none, some (column, value) => filters.add column value
    | none, none => filters
  | _ => filters

def fromExprs (filters : List Expr) : MetadataFilters := filters.foldl collect empty

def matchesCatalog (catalog : String) : Bool := admits filters.catalogs catalog

def matchesSchema (schema : String) : Bool := admits filters.schemas schema

def matchesTable (table : String) : Bool := admits filters.tables table

def matchesColumn (column : String) : Bool := admits filters.columns column

end MetadataFilters

/-! ## Order -/

/-- `format!("{value:0width}")` of an integer. -/
def zeroPadded (width : Nat) (value : Int) : List Char :=
  let digits := Nat.toDigits 10 value.natAbs
  if value < 0 then '-' :: (List.replicate (width - 1 - digits.length) '0' ++ digits)
  else List.replicate (width - digits.length) '0' ++ digits

def sortKey : Option Scalar → String
  | some (.utf8 (some value)) => toAsciiLowercase value
  | some (.int32 (some value)) => .ofList (zeroPadded 10 value.toInt)
  | some (.int64 (some value)) => .ofList (zeroPadded 20 value.toInt)
  | _ => ""

def sortKeys (columns : List String) (row : SystemRow) : List String :=
  columns.map fun column => sortKey (row.get column)

def sortRows (rows : List SystemRow) (columns : List String) : List SystemRow :=
  rows.mergeSort fun left right => ¬ sortKeys columns right < sortKeys columns left

/-! ## Rows -/

def tableFullName (table : TableInfo) (catalogName schemaName tableName : String) : String :=
  if table.fullName ≠ "" then table.fullName else s!"{catalogName}.{schemaName}.{tableName}"

/-- The row of one column. -/
def columnRow (table : TableInfo) (catalogName schemaName tableName : String)
    (column : ColumnInfo) (index : Nat) : SystemRow :=
  let typeName := columnTypeName column
  [("table_catalog", string (table.catalogName.getD catalogName)),
    ("table_schema", string (table.schemaName.getD schemaName)),
    ("table_name", string (table.name.getD tableName)),
    ("column_name", string column.name),
    ("ordinal_position", .int32 (some (column.position.getD (Int32.ofNat index) + 1))),
    ("column_default", nullString),
    ("is_nullable", string (if column.nullable.getD true then "YES" else "NO")),
    ("full_data_type", string typeName),
    ("data_type", string (toAsciiUppercase (baseTypeName typeName))),
    ("character_maximum_length", .int64 none),
    ("character_octet_length", .int64 none),
    ("numeric_precision", .int32 none),
    ("numeric_precision_radix", .int32 none),
    ("numeric_scale", .int32 none),
    ("datetime_precision", .int32 none),
    ("interval_type", nullString),
    ("interval_precision", .int32 none),
    ("maximum_cardinality", .int64 none),
    ("is_identity", string "NO"),
    ("identity_generation", nullString),
    ("identity_start", nullString),
    ("identity_increment", nullString),
    ("identity_maximum", nullString),
    ("identity_minimum", nullString),
    ("identity_cycle", nullString),
    ("is_generated", string "NEVER"),
    ("generation_expression", nullString),
    ("is_system_time_period_start", string "NO"),
    ("is_system_time_period_end", string "NO"),
    ("system_time_period_timestamp_generation", nullString),
    ("is_updatable", string "YES"),
    ("partition_index", .int32 none),
    ("comment", nullableString column.comment)]

/-- The function `column_rows`. -/
def tableColumnRows (table : TableInfo) (catalogName schemaName tableName : String)
    (filters : MetadataFilters) : List SystemRow :=
  let columns := table.columns.zipIdx.mergeSort fun x y =>
    x.1.position.getD Int32.maxValue ≤ y.1.position.getD Int32.maxValue
  (columns.filter fun (column, _) => filters.matchesColumn column.name).map fun (column, index) =>
    columnRow table catalogName schemaName tableName column index

section

variable (source : MetadataSource) (catalogScope : Option String) (filters : MetadataFilters)

def catalogs : Except HarborError (List CatalogInfo) :=
  match catalogScope with
  | some catalog =>
    .ok (if filters.matchesCatalog catalog then [{ name := catalog, catalogType := none }] else [])
  | none => do
    let catalogs ← source.listCatalogs
    return catalogs.filter fun catalog => filters.matchesCatalog catalog.name

def schemas (catalog : String) : Except HarborError (List SchemaInfo) := do
  let schemas ← source.listSchemas catalog
  return schemas.filter fun schema => filters.matchesSchema (schemaName schema)

/-- The body of the loop of the method `column_rows` over the tables. -/
def listedColumnRows (catalogName schemaName : String) (table : TableInfo) :
    Except HarborError (List SystemRow) :=
  if filters.matchesTable (tableName table) then do
    let fullName := tableFullName table catalogName schemaName (tableName table)
    let detailed ← source.table fullName
    return tableColumnRows detailed catalogName schemaName (tableName table) filters
  else .ok []

/-- The body of the loop over the schemas. -/
def schemaRows (catalogName schemaName : String) : Except HarborError (List SystemRow) := do
  let tables ← source.listTables catalogName schemaName
  let rows ← tables.mapM (listedColumnRows source filters catalogName schemaName)
  return rows.flatten

/-- The body of the loop over the catalogs. -/
def catalogRows (catalogName : String) : Except HarborError (List SystemRow) := do
  let schemas ← schemas source filters catalogName
  let rows ← schemas.mapM fun schema =>
    schemaRows source filters catalogName (schemaName schema)
  return rows.flatten

/-- The method `column_rows`. -/
def columnRows : Except HarborError (List SystemRow) := do
  let catalogs ← catalogs source catalogScope filters
  let rows ← catalogs.mapM fun catalog => catalogRows source filters catalog.name
  return sortRows rows.flatten ["table_catalog", "table_schema", "table_name", "ordinal_position"]

end

/-! ## The schema of a relation -/

structure Field where
  name : String
  dataType : DataType
  nullable : Bool

def arrowType (column : ColumnInfo) : DataType :=
  let typeName := (column.typeText <|> column.typeName).getD "string"
  match toAsciiUppercase (baseTypeName typeName) with
  | "BOOLEAN" | "BOOL" => .boolean
  | "BYTE" | "TINYINT" => .int8
  | "SHORT" | "SMALLINT" => .int16
  | "INT" | "INTEGER" => .int32
  | "LONG" | "BIGINT" => .int64
  | "FLOAT" => .float32
  | "DOUBLE" => .float64
  | "DATE" => .date32
  | "TIMESTAMP" | "TIMESTAMP_NTZ" => .timestamp .millisecond none
  | _ => .utf8

def schemaFromColumns (columns : List ColumnInfo) : List Field :=
  let columns := columns.zipIdx.mergeSort fun x y =>
    x.1.position.getD Int32.maxValue ≤ y.1.position.getD Int32.maxValue
  columns.map fun (column, _) => ⟨column.name, arrowType column, column.nullable.getD true⟩

def nullScalar : DataType → Scalar
  | .boolean => .boolean none
  | .int8 => .int8 none
  | .int16 => .int16 none
  | .int32 => .int32 none
  | .int64 => .int64 none
  | .float32 => .float32 none
  | .float64 => .float64 none
  | .date32 => .date32 none
  | .timestamp .millisecond none => timestampMillis none
  | _ => nullString

def defaultScalar (field : Field) : Scalar :=
  if field.nullable then nullScalar field.dataType
  else
    match field.dataType with
    | .boolean => .boolean (some false)
    | .int8 => .int8 (some 0)
    | .int16 => .int16 (some 0)
    | .int32 => .int32 (some 0)
    | .int64 => .int64 (some 0)
    | .float32 => .float32 (some 0)
    | .float64 => .float64 (some 0)
    | .date32 => .date32 (some 0)
    | .timestamp .millisecond none => timestampMillis (some 0)
    | _ => string ""

/-- What `record_batch_from_rows` puts into a column for a row. -/
def cell (field : Field) (row : SystemRow) : Scalar :=
  (row.get field.name).getD (defaultScalar field)

/-! ## The relations -/

inductive Relation where
  | catalogs
  | schemata
  | tables
  | columns
  | views
  | rowFilters
  | empty
  deriving DecidableEq

def informationSchemaRelation (name : String) : Relation :=
  match toAsciiLowercase name with
  | "catalogs" => .catalogs
  | "schemata" => .schemata
  | "tables" => .tables
  | "columns" => .columns
  | "views" => .views
  | "row_filters" => .rowFilters
  | _ => .empty

def isViewLike (table : TableInfo) : Bool := table.tableType.any (eqIgnoreAsciiCase · "VIEW")

def isSystemCatalog (catalog : CatalogInfo) : Bool :=
  catalog.catalogType.any (eqIgnoreAsciiCase · "SYSTEM_CATALOG") ||
    eqIgnoreAsciiCase catalog.name "system"

def catalogRow (catalog : CatalogInfo) : SystemRow :=
  [("catalog_name", string catalog.name),
    ("catalog_owner", string (if isSystemCatalog catalog then "System user" else "")),
    ("comment", nullString),
    ("created", timestampMillis (some 0)),
    ("created_by", string ""),
    ("last_altered", timestampMillis (some 0)),
    ("last_altered_by", string "")]

def schemataRow (catalogName schemaName : String) : SystemRow :=
  [("catalog_name", string catalogName),
    ("schema_name", string schemaName),
    ("schema_owner", string ""),
    ("comment", nullString),
    ("created", timestampMillis (some 0)),
    ("created_by", string ""),
    ("last_altered", timestampMillis (some 0)),
    ("last_altered_by", string "")]

def tableRow (catalogName schemaName tableName : String) (table : TableInfo) : SystemRow :=
  let createdBy := table.createdBy.getD ""
  [("table_catalog", string (table.catalogName.getD catalogName)),
    ("table_schema", string (table.schemaName.getD schemaName)),
    ("table_name", string (table.name.getD tableName)),
    ("table_type", string (table.tableType.getD "MANAGED")),
    ("is_insertable_into", string (if isViewLike table then "NO" else "YES")),
    ("commit_action", string "PRESERVE"),
    ("table_owner", string ((table.owner <|> table.createdBy).getD "")),
    ("comment", nullableString table.comment),
    ("created", timestampMillis (table.createdAt <|> some 0)),
    ("created_by", string createdBy),
    ("last_altered", timestampMillis (table.updatedAt <|> table.createdAt <|> some 0)),
    ("last_altered_by", string ((table.updatedBy <|> some createdBy).getD "")),
    ("data_source_format", string (table.dataSourceFormat.getD "")),
    ("storage_sub_directory", nullString),
    ("storage_path", nullableString table.storageLocation)]

def viewRow (catalogName schemaName tableName : String) : SystemRow :=
  [("table_catalog", string catalogName),
    ("table_schema", string schemaName),
    ("table_name", string tableName),
    ("view_definition", nullString),
    ("check_option", string "NONE"),
    ("is_updatable", string "NO"),
    ("is_insertable_into", string "NO"),
    ("sql_path", nullString),
    ("is_materialized", nullString)]

/-- The row of a table whose details have a row filter. -/
def rowFilterRow (catalogName schemaName tableName : String) (filter : Json) :
    Except HarborError SystemRow := do
  let function ← match (filter.index "function_name").asStr with
    | some function => .ok function
    | none => .error (.unity "row filter missing function_name")
  let inputs ← match (filter.index "input_column_names").asArray with
    | some inputs => .ok inputs
    | none => .error (.unsupportedSql "row filter argument format not supported")
  return [("table_catalog", string catalogName),
    ("table_schema", string schemaName),
    ("table_name", string tableName),
    ("filter_name", string function),
    ("target_columns", string (",".intercalate (inputs.map fun v => v.asStr.getD "")))]

structure SystemTableProvider where
  source : MetadataSource
  tableDetails : String → Except HarborError Json
  catalogScope : Option String
  schema : List Field

namespace SystemTableProvider

def new (source : MetadataSource) (tableDetails : String → Except HarborError Json)
    (table : TableInfo) (catalogScope : Option String) : SystemTableProvider where
  source
  tableDetails
  catalogScope
  schema := schemaFromColumns table.columns

variable (provider : SystemTableProvider) (filters : MetadataFilters)

def catalogsForCatalogRows : Except HarborError (List CatalogInfo) := do
  let catalogs ← provider.source.listCatalogs
  match provider.catalogScope with
  | some catalogScope =>
    return (catalogs.filter fun catalog => eqIgnoreAsciiCase catalog.name catalogScope).filter
      fun catalog => filters.matchesCatalog catalog.name
  | none => return catalogs.filter fun catalog => filters.matchesCatalog catalog.name

def catalogRows : Except HarborError (List SystemRow) := do
  let catalogs ← catalogsForCatalogRows provider filters
  return catalogs.map catalogRow

/-- The loop over the schemas of a catalog, with `body` inside. -/
def eachSchemaOf (body : String → Except HarborError (List SystemRow)) (catalogName : String) :
    Except HarborError (List SystemRow) := do
  let schemas ← schemas provider.source filters catalogName
  let rows ← schemas.mapM fun schema => body (schemaName schema)
  return rows.flatten

/-- The loop over the catalogs. -/
def eachSchema (body : String → String → Except HarborError (List SystemRow)) :
    Except HarborError (List SystemRow) := do
  let catalogs ← catalogs provider.source provider.catalogScope filters
  let rows ← catalogs.mapM fun catalog =>
    provider.eachSchemaOf filters (body catalog.name) catalog.name
  return rows.flatten

def schemataRows : Except HarborError (List SystemRow) :=
  provider.eachSchema filters fun catalogName schemaName =>
    .ok [schemataRow catalogName schemaName]

/-- The loop over the tables of a schema: those that are `listed` and that the filters admit. -/
def eachTableOf (listed : TableInfo → Bool)
    (body : TableInfo → Except HarborError (List SystemRow)) (catalogName schemaName : String) :
    Except HarborError (List SystemRow) := do
  let tables ← provider.source.listTables catalogName schemaName
  let rows ← (tables.filter listed).mapM fun table =>
    if filters.matchesTable (tableName table) then body table else .ok []
  return rows.flatten

def eachTable (listed : TableInfo → Bool)
    (body : String → String → TableInfo → Except HarborError (List SystemRow)) :
    Except HarborError (List SystemRow) :=
  provider.eachSchema filters fun catalogName schemaName =>
    provider.eachTableOf filters listed (body catalogName schemaName) catalogName schemaName

def tableRows : Except HarborError (List SystemRow) := do
  let rows ← provider.eachTable filters (fun _ => true) fun catalogName schemaName table =>
    .ok [tableRow catalogName schemaName (tableName table) table]
  return sortRows rows ["table_catalog", "table_schema", "table_name"]

def columnRows : Except HarborError (List SystemRow) :=
  InformationSchema.columnRows provider.source provider.catalogScope filters

def viewRows : Except HarborError (List SystemRow) := do
  let rows ← provider.eachTable filters isViewLike fun catalogName schemaName table =>
    .ok [viewRow catalogName schemaName (tableName table)]
  return sortRows rows ["table_catalog", "table_schema", "table_name"]

def rowFilterRows : Except HarborError (List SystemRow) :=
  provider.eachTable filters (fun _ => true) fun catalogName schemaName table => do
    let name := tableName table
    let details ← provider.tableDetails (tableFullName table catalogName schemaName name)
    match (details.get? "row_filter").filter fun v => !v.isNull with
    | some filter =>
      let row ← rowFilterRow catalogName schemaName name filter
      return [row]
    | none => return []

def loadInformationSchemaRows (relation : Relation) : Except HarborError (List SystemRow) :=
  match relation with
  | .catalogs => provider.catalogRows filters
  | .schemata => provider.schemataRows filters
  | .tables => provider.tableRows filters
  | .columns => provider.columnRows filters
  | .views => provider.viewRows filters
  | .rowFilters => provider.rowFilterRows filters
  | .empty => .ok []

end SystemTableProvider

end HarborSql.InformationSchema
