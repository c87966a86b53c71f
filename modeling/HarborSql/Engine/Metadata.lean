import Mathlib.Data.List.Sort
import HarborSql.Engine.Results
import HarborSql.Error
import HarborSql.Text
import HarborSql.Unity

/-! `GetColumns` (`engine/metadata`). -/

namespace HarborSql

structure GetColumnsRequest where
  catalog : Option String
  schema : Option String
  table : Option String
  column : Option String
  deriving DecidableEq

structure TableRow where
  schema : String
  name : String

structure ColumnMetadataRow where
  catalog : String
  schema : String
  table : String
  column : String
  dataType : Int32
  typeName : String
  columnSize : Option Int32
  decimalDigits : Option Int32
  numPrecRadix : Option Int32
  nullable : Int32
  remarks : Option String
  sqlDataType : Int32
  sqlDatetimeSub : Option Int32
  charOctetLength : Option Int32
  ordinalPosition : Int32
  isNullable : String
  deriving DecidableEq

/-- The calls of Unity, for one bearer token. -/
structure MetadataSource where
  listCatalogs : Except HarborError (List CatalogInfo)
  listSchemas : String → Except HarborError (List SchemaInfo)
  listTables : String → String → Except HarborError (List TableInfo)
  table : String → Except HarborError TableInfo

/-- `RegexBuilder::new(_).case_insensitive(true).build()` and `is_match`. -/
abbrev RegexBuild := String → Except String (String → Bool)

def toAsciiLowercase (s : String) : String := s.map Char.toLower

def toAsciiUppercase (s : String) : String := s.map Char.toUpper

/-! ## Patterns -/

def containsNamespace (value : String) : Bool := '.' ∈ value.toList

/-- The loop of `contains_metadata_wildcard`. -/
def containsWildcard : List Char → Bool
  | [] => false
  | '\\' :: [] => false
  | '\\' :: _ :: text => containsWildcard text
  | c :: text => c = '%' || c = '_' || c = '*' || containsWildcard text

def containsMetadataWildcard (value : String) : Bool := containsWildcard value.toList

/-- The loop of `strip_metadata_escapes`. -/
def stripEscapes : List Char → List Char
  | [] => []
  | '\\' :: [] => ['\\']
  | '\\' :: next :: text => next :: stripEscapes text
  | c :: text => c :: stripEscapes text

def stripMetadataEscapes (value : String) : String := .ofList (stripEscapes value.toList)

/-- `regex::escape`, of one character. -/
def regexEscape (c : Char) : List Char :=
  if c ∈ "\\.+*?()|[]\x7b\x7d^$#&-~".toList then ['\\', c] else [c]

/-- The loop of `metadata_pattern_regex`. -/
def patternRegex : List Char → List Char
  | [] => []
  | '\\' :: [] => regexEscape '\\'
  | '\\' :: c :: text => regexEscape c ++ patternRegex text
  | c :: text =>
    if c = '%' ∨ c = '*' then ".*".toList ++ patternRegex text
    else if c = '_' then '.' :: patternRegex text
    else regexEscape c ++ patternRegex text

def metadataPatternRegex (pattern : String) : String :=
  .ofList ('^' :: patternRegex pattern.toList ++ ['$'])

/-- A `MetadataPattern`: what its expression matches. -/
structure MetadataPattern where
  regex : Option (String → Bool)

def MetadataPattern.new (build : RegexBuild) (pattern : Option String) :
    Except HarborError MetadataPattern :=
  match pattern.filter (· ≠ "") with
  | none => .ok ⟨none⟩
  | some pattern =>
    match build (metadataPatternRegex pattern) with
    | .ok regex => .ok ⟨some regex⟩
    | .error err => .error (.unsupportedSql s!"invalid metadata pattern `{pattern}`: {err}")

def MetadataPattern.isMatch (pattern : MetadataPattern) (value : String) : Bool :=
  pattern.regex.all fun regex => regex value

/-! ## Rows of a table -/

def rsplitDot (fullName : String) : String := .ofList ((fullName.toList.splitOn '.').getLastD [])

def schemaName (schema : SchemaInfo) : String :=
  if schema.name ≠ "" then schema.name else (schema.fullName.map rsplitDot).getD ""

def tableName (table : TableInfo) : String := table.name.getD (rsplitDot table.fullName)

def tableFullIdentifier (catalog schema table : String) : String := s!"{catalog}.{schema}.{table}"

def columnTypeName (column : ColumnInfo) : String :=
  match (column.typeText <|> column.typeName).filter (· ≠ "") with
  | some value => toAsciiUppercase value
  | none => "STRING"

def baseTypeName (typeName : String) : String :=
  .ofList (trim (typeName.toList.takeWhile fun c => c ≠ '(' ∧ c ≠ '<'))

def jdbcDataType (typeName : String) : Int32 :=
  match baseTypeName typeName with
  | "BOOLEAN" | "BOOL" => 16
  | "BYTE" | "TINYINT" => -6
  | "SHORT" | "SMALLINT" => 5
  | "INT" | "INTEGER" => 4
  | "LONG" | "BIGINT" => -5
  | "FLOAT" => 6
  | "DOUBLE" => 8
  | "DATE" => 91
  | "TIMESTAMP" | "TIMESTAMP_NTZ" => 93
  | "BINARY" => -2
  | "DECIMAL" | "NUMERIC" => 3
  | "ARRAY" => 2003
  | "STRUCT" => 2002
  | "MAP" => 2000
  | _ => 12

/-- `parse::<i32>`. -/
def parseI32 (text : List Char) : Option Int32 :=
  let (negative, digits) := match text with
    | '-' :: digits => (true, digits)
    | '+' :: digits => (false, digits)
    | _ => (false, text)
  if digits = [] ∨ ¬digits.all Char.isDigit then none
  else
    let n : Int := digits.foldl (fun n c => 10 * n + (c.toNat - '0'.toNat : Nat)) 0
    let n := if negative then -n else n
    if -2 ^ 31 ≤ n ∧ n < 2 ^ 31 then some (Int32.ofInt n) else none

def parseDecimalParts (typeName : String) : Option (List Int32) :=
  match typeName.toList.dropWhile (· ≠ '(') with
  | [] => none
  | _ :: inner =>
    if ')' ∈ inner then
      ((inner.takeWhile (· ≠ ')')).splitOn ',').mapM fun part => parseI32 (trim part)
    else none

def parsePrecision (typeName : String) : Option Int32 :=
  (parseDecimalParts typeName).bind fun parts => parts[0]?

def parseScale (typeName : String) : Option Int32 :=
  (parseDecimalParts typeName).bind fun parts => parts[1]?

def columnSize (typeName : String) (column : ColumnInfo) : Option Int32 :=
  match baseTypeName typeName with
  | "DECIMAL" | "NUMERIC" => column.typePrecision <|> parsePrecision typeName
  | "BYTE" | "TINYINT" => some 3
  | "SHORT" | "SMALLINT" => some 5
  | "INT" | "INTEGER" | "DATE" => some 10
  | "LONG" | "BIGINT" => some 19
  | "FLOAT" => some 7
  | "DOUBLE" => some 15
  | "TIMESTAMP" | "TIMESTAMP_NTZ" => some 29
  | "BOOLEAN" | "BOOL" | "BINARY" => some 1
  | "STRING" | "VARCHAR" | "CHAR" => some 255
  | "ARRAY" | "MAP" | "STRUCT" => some 255
  | _ => none

def decimalDigits (typeName : String) (column : ColumnInfo) : Option Int32 :=
  match baseTypeName typeName with
  | "DECIMAL" | "NUMERIC" => column.typeScale <|> parseScale typeName <|> some 0
  | "TIMESTAMP" | "TIMESTAMP_NTZ" => some 9
  | _ => some 0

def numPrecRadix (typeName : String) : Option Int32 :=
  match baseTypeName typeName with
  | "BYTE" | "TINYINT" | "SHORT" | "SMALLINT" | "INT" | "INTEGER" | "LONG" | "BIGINT" | "FLOAT"
  | "DOUBLE" | "DECIMAL" | "NUMERIC" => some 10
  | _ => some 0

def sqlDatetimeSub (typeName : String) : Option Int32 :=
  match baseTypeName typeName with
  | "DATE" => some 91
  | "TIMESTAMP" | "TIMESTAMP_NTZ" => some 93
  | _ => none

def charOctetLength (typeName : String) : Option Int32 :=
  match baseTypeName typeName with
  | "STRING" | "VARCHAR" | "CHAR" => some 255
  | "BINARY" => some 32767
  | _ => none

/-- The row of one column. The position of a column is that in the record of its table where it has
none of its own. -/
def columnMetadataRow (table : TableInfo) (catalog schema tableName : String)
    (column : ColumnInfo) (index : Nat) : ColumnMetadataRow :=
  let typeName := columnTypeName column
  let (nullable, isNullable) : Int32 × String := match column.nullable with
    | some false => (0, "NO")
    | some true => (1, "YES")
    | none => (2, "")
  { catalog := table.catalogName.getD catalog
    schema := table.schemaName.getD schema
    table := table.name.getD tableName
    column := column.name
    dataType := jdbcDataType typeName
    typeName
    columnSize := columnSize typeName column
    decimalDigits := decimalDigits typeName column
    numPrecRadix := numPrecRadix typeName
    nullable
    remarks := column.comment.filter (· ≠ "")
    sqlDataType := jdbcDataType typeName
    sqlDatetimeSub := sqlDatetimeSub typeName
    charOctetLength := charOctetLength typeName
    ordinalPosition := column.position.getD (Int32.ofNat index) + 1
    isNullable }

def columnMetadataRows (table : TableInfo) (catalog schema tableName : String)
    (pattern : MetadataPattern) : List ColumnMetadataRow :=
  let columns := table.columns.zipIdx.mergeSort fun x y =>
    x.1.position.getD Int32.maxValue ≤ y.1.position.getD Int32.maxValue
  (columns.filter fun (column, _) => pattern.isMatch column.name).map fun (column, index) =>
    columnMetadataRow table catalog schema tableName column index

/-! ## Requests -/

def normalizeSchema (request : GetColumnsRequest) : GetColumnsRequest :=
  match request.catalog, request.schema with
  | none, some schema =>
    if containsNamespace schema then
      match schema.toList.splitOn '.' with
      | [catalog, schema] =>
        { request with catalog := some (.ofList catalog), schema := some (.ofList schema) }
      | _ => request
    else request
  | _, _ => request

def normalizeTable (request : GetColumnsRequest) : GetColumnsRequest :=
  match request.table with
  | some table =>
    if containsNamespace table then
      match table.toList.splitOn '.', request.catalog, request.schema with
      | [catalog, schema, table], none, none =>
        { request with
          catalog := some (.ofList catalog), schema := some (.ofList schema),
          table := some (.ofList table) }
      | [schema, table], _, none =>
        { request with schema := some (.ofList schema), table := some (.ofList table) }
      | _, _, _ => request
    else request
  | none => request

def normalizeGetColumnsRequest (request : GetColumnsRequest) : GetColumnsRequest :=
  normalizeTable (normalizeSchema request)

section

variable (build : RegexBuild) (source : MetadataSource)

/-- `sort_by_key(|name| name.to_ascii_lowercase())`. -/
def sortByLowercase (names : List String) : List String :=
  names.mergeSort fun x y => toAsciiLowercase x ≤ toAsciiLowercase y

def resolveCatalogCandidates (catalog : Option String) (defaultCatalog : String) :
    Except HarborError (List String) :=
  match catalog.filter (· ≠ "") with
  | none => .ok [defaultCatalog]
  | some catalog =>
    if !containsMetadataWildcard catalog then .ok [stripMetadataEscapes catalog]
    else do
      let pattern ← MetadataPattern.new build (some catalog)
      let catalogs ← source.listCatalogs
      return sortByLowercase ((catalogs.map (·.name)).filter pattern.isMatch)

def listSchemaCandidates (catalog : String) (pattern : Option String) :
    Except HarborError (List String) := do
  let pattern ← MetadataPattern.new build pattern
  let schemas ← source.listSchemas catalog
  return sortByLowercase ((schemas.map schemaName).filter pattern.isMatch)

def resolveSchemaCandidates (catalog : String) (schema : Option String) :
    Except HarborError (List String) :=
  match schema with
  | none => listSchemaCandidates build source catalog none
  | some schema =>
    if schema = "" then .ok []
    else if !containsMetadataWildcard schema then .ok [stripMetadataEscapes schema]
    else listSchemaCandidates build source catalog (some schema)

def sortTableRows (rows : List TableRow) : List TableRow :=
  rows.mergeSort fun x y => toAsciiLowercase x.name ≤ toAsciiLowercase y.name

def listMatchingTables (catalog schema : String) (pattern : Option String) :
    Except HarborError (List TableRow) := do
  let pattern ← MetadataPattern.new build pattern
  let tables ← source.listTables catalog schema
  return sortTableRows (((tables.map tableName).filter pattern.isMatch).map fun name =>
    { schema, name })

def resolveTableCandidates (catalog schema : String) (table : Option String) :
    Except HarborError (List TableRow) :=
  match table.filter (· ≠ "") with
  | none => listMatchingTables build source catalog schema none
  | some table =>
    if containsMetadataWildcard table then
      listMatchingTables build source catalog schema (some table)
    else .ok [{ schema, name := stripMetadataEscapes table }]

/-- The order of the rows of a result. -/
def columnMetadataRowLe (left right : ColumnMetadataRow) : Bool :=
  let names := fun row : ColumnMetadataRow =>
    [toAsciiLowercase row.catalog, toAsciiLowercase row.schema, toAsciiLowercase row.table]
  decide (names left < names right) ||
    (names left = names right && decide (left.ordinalPosition ≤ right.ordinalPosition))

/-- The body of the loop of `execute_get_columns` over the tables. -/
def tableColumnRows (columnPattern : MetadataPattern) (catalog schema : String)
    (table : TableRow) : Except HarborError (List ColumnMetadataRow) := do
  let detailed ← source.table (tableFullIdentifier catalog schema table.name)
  return columnMetadataRows detailed catalog schema table.name columnPattern

/-- The body of the loop over the schemas. -/
def schemaColumnRows (request : GetColumnsRequest) (columnPattern : MetadataPattern)
    (catalog schema : String) : Except HarborError (List ColumnMetadataRow) := do
  let tables ← resolveTableCandidates build source catalog schema request.table
  let rows ← tables.mapM (tableColumnRows source columnPattern catalog schema)
  return rows.flatten

/-- The body of the loop over the catalogs. -/
def catalogColumnRows (request : GetColumnsRequest) (columnPattern : MetadataPattern)
    (catalog : String) : Except HarborError (List ColumnMetadataRow) := do
  let schemas ← resolveSchemaCandidates build source catalog request.schema
  let rows ← schemas.mapM (schemaColumnRows build source request columnPattern catalog)
  return rows.flatten

/-- `execute_get_columns`, up to the rows of its result. -/
def getColumnsRows (request : GetColumnsRequest) (defaultCatalog : String) :
    Except HarborError (List ColumnMetadataRow) := do
  let request := normalizeGetColumnsRequest request
  let catalogs ← resolveCatalogCandidates build source request.catalog defaultCatalog
  let columnPattern ← MetadataPattern.new build request.column
  let rows ← catalogs.mapM (catalogColumnRows build source request columnPattern)
  return rows.flatten.mergeSort columnMetadataRowLe

/-! ## Results -/

/-- The columns of a result with their cells. -/
def columnMetadata (rows : List ColumnMetadataRow) : List (Column × List Value) :=
  let string := fun v : String => Value.string v
  let int := fun v : Int32 => Value.int32 v
  let option := fun {α : Type} (value : α → Value) (v : Option α) => (v.map value).getD .null
  [(⟨"TABLE_CAT", "Utf8", false⟩, rows.map (string ·.catalog)),
    (⟨"TABLE_SCHEM", "Utf8", false⟩, rows.map (string ·.schema)),
    (⟨"TABLE_NAME", "Utf8", false⟩, rows.map (string ·.table)),
    (⟨"COLUMN_NAME", "Utf8", false⟩, rows.map (string ·.column)),
    (⟨"DATA_TYPE", "Int32", false⟩, rows.map (int ·.dataType)),
    (⟨"TYPE_NAME", "Utf8", false⟩, rows.map (string ·.typeName)),
    (⟨"COLUMN_SIZE", "Int32", true⟩, rows.map (option int ·.columnSize)),
    (⟨"BUFFER_LENGTH", "Int8", true⟩, rows.map fun _ => .null),
    (⟨"DECIMAL_DIGITS", "Int32", true⟩, rows.map (option int ·.decimalDigits)),
    (⟨"NUM_PREC_RADIX", "Int32", true⟩, rows.map (option int ·.numPrecRadix)),
    (⟨"NULLABLE", "Int32", false⟩, rows.map (int ·.nullable)),
    (⟨"REMARKS", "Utf8", true⟩, rows.map (option string ·.remarks)),
    (⟨"COLUMN_DEF", "Utf8", true⟩, rows.map fun _ => .null),
    (⟨"SQL_DATA_TYPE", "Int32", false⟩, rows.map (int ·.sqlDataType)),
    (⟨"SQL_DATETIME_SUB", "Int32", true⟩, rows.map (option int ·.sqlDatetimeSub)),
    (⟨"CHAR_OCTET_LENGTH", "Int32", true⟩, rows.map (option int ·.charOctetLength)),
    (⟨"ORDINAL_POSITION", "Int32", false⟩, rows.map (int ·.ordinalPosition)),
    (⟨"IS_NULLABLE", "Utf8", false⟩, rows.map (string ·.isNullable)),
    (⟨"SCOPE_CATALOG", "Utf8", true⟩, rows.map fun _ => .null),
    (⟨"SCOPE_SCHEMA", "Utf8", true⟩, rows.map fun _ => .null),
    (⟨"SCOPE_TABLE", "Utf8", true⟩, rows.map fun _ => .null),
    (⟨"SOURCE_DATA_TYPE", "Int16", true⟩, rows.map fun _ => .null),
    (⟨"IS_AUTO_INCREMENT", "Utf8", false⟩, rows.map fun _ => string "NO")]

/-- `get_columns_metadata`. -/
def getColumnsMetadata (request : GetColumnsRequest) (defaultCatalog : String) :
    Except HarborError (List (Column × List Value)) :=
  columnMetadata <$> getColumnsRows build source request defaultCatalog

end

end HarborSql
