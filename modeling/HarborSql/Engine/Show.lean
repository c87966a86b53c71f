import HarborSql.Engine.Metadata

/-! The `SHOW` statements (`engine/metadata`). -/

namespace HarborSql

structure ObjectName where
  parts : List String
  deriving DecidableEq, Repr

structure ResolvedTable where
  catalog : String
  schema : String
  table : String
  deriving DecidableEq, Repr

/-! ## `SHOW COLUMNS` -/

/-- Whether two names that are given are different. -/
def differ (left right : Option String) : Bool :=
  match left, right with
  | some left, some right => left ≠ right
  | _, _ => false

def resolveTable (tableName : ObjectName) (schemaName : Option ObjectName)
    (defaultCatalog defaultSchema : String) : Except HarborError ResolvedTable := do
  let (tableCatalog, tableSchema, table) ← match tableName.parts with
    | [table] => .ok (none, none, table)
    | [schema, table] => .ok (none, some schema, table)
    | [catalog, schema, table] => .ok (some catalog, some schema, table)
    | _ => .error (.unsupportedSql
      "SHOW COLUMNS expects a table, schema.table, or catalog.schema.table name")
  let (schemaCatalog, schema) ← match schemaName.map (·.parts) with
    | none => .ok (none, none)
    | some [schema] => .ok (none, some schema)
    | some [catalog, schema] => .ok (some catalog, some schema)
    | some _ => .error (.unsupportedSql
      "SHOW COLUMNS expects an optional schema or catalog.schema name")
  if differ tableSchema schema then
    .error (.unsupportedSql
      "SHOW COLUMNS table name and schema name must not refer to different schemas")
  else if differ tableCatalog schemaCatalog then
    .error (.unsupportedSql
      "SHOW COLUMNS table name and schema name must not refer to different catalogs")
  else
    return {
      catalog := (tableCatalog <|> schemaCatalog).getD defaultCatalog
      schema := (tableSchema <|> schema).getD defaultSchema
      table }

def tableColumnNames (table : TableInfo) : List String :=
  let columns := table.columns.zipIdx.mergeSort fun x y =>
    x.1.position.getD Int32.maxValue ≤ y.1.position.getD Int32.maxValue
  columns.map fun (column, _) => column.name

/-- The branch of `execute_metadata_statement` for `SHOW COLUMNS`, up to the names of its result. -/
def showColumns (source : MetadataSource) (tableName : ObjectName) (schemaName : Option ObjectName)
    (defaultCatalog defaultSchema : String) : Except HarborError (List String) := do
  let table ← resolveTable tableName schemaName defaultCatalog defaultSchema
  let detailed ← source.table (tableFullIdentifier table.catalog table.schema table.table)
  return tableColumnNames detailed

/-! ## `ShowPattern` -/

structure ShowPattern where
  regex : Option (String → Bool)

def databricksShowRegex (pattern : String) : String :=
  let regex := pattern.toList.foldl
    (fun regex ch => if ch = '*' then regex ++ ".*" else regex.push ch) "^(?:"
  regex ++ ")$"

def ShowPattern.new (build : RegexBuild) : Option String → Except HarborError ShowPattern
  | none => .ok ⟨none⟩
  | some pattern =>
    let pattern := String.ofList (trim pattern.toList)
    if pattern = "" then .error (.unsupportedSql "SHOW pattern cannot be empty")
    else
      match build (databricksShowRegex pattern) with
      | .ok regex => .ok ⟨some regex⟩
      | .error err => .error (.unsupportedSql s!"invalid SHOW pattern `{pattern}`: {err}")

def ShowPattern.isMatch (pattern : ShowPattern) (value : String) : Bool :=
  pattern.regex.all fun regex => regex value

end HarborSql
