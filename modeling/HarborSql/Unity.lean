import HarborSql.Json

/-! The records of the Unity Catalog client (`unity.rs`). -/

namespace HarborSql

structure ColumnInfo where
  name : String
  position : Option Int32
  typeName : Option String
  typeText : Option String
  typePrecision : Option Int32
  typeScale : Option Int32
  nullable : Option Bool
  comment : Option String

structure TableInfo where
  tableId : Option String
  fullName : String
  name : Option String
  catalogName : Option String
  schemaName : Option String
  tableType : Option String
  dataSourceFormat : Option String
  storageLocation : Option String
  comment : Option String
  owner : Option String
  createdAt : Option Int64
  createdBy : Option String
  updatedAt : Option Int64
  updatedBy : Option String
  columns : List ColumnInfo

structure CatalogInfo where
  name : String
  catalogType : Option String

structure SchemaInfo where
  name : String
  fullName : Option String

structure AwsTempCredentials where
  accessKeyId : String
  secretAccessKey : String
  sessionToken : String

structure TemporaryTableCredentials where
  awsTempCredentials : AwsTempCredentials
  expirationTime : Int64
  url : String

end HarborSql
